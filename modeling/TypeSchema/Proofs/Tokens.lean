import Mathlib.Data.List.TakeWhile
import TypeSchema.Json.Document

/-!
What the scans of numerals and strings take from a text. They take some characters and leave the
rest, and say the same of every text that begins with those characters; only a numeral has to end
with them.
-/
namespace TypeSchema.Document

/-- The text does not begin with such a character. -/
def Stops (p : Char → Bool) (text : List Char) : Prop := ∀ c ∈ text.head?, p c = false

/-- The text begins with such a character. -/
def Begins (p : Char → Bool) (text : List Char) : Prop := ∃ c rest, text = c :: rest ∧ p c = true

theorem Begins.append {p : Char → Bool} {used : List Char} (h : Begins p used)
    (more : List Char) : Begins p (used ++ more) := by
  obtain ⟨c, rest, rfl, hc⟩ := h
  exact ⟨c, rest ++ more, rfl, hc⟩

theorem Stops.append {p : Char → Bool} {used more : List Char} (hused : Stops p used)
    (hmore : Stops p more) : Stops p (used ++ more) := by
  cases used with
  | nil => exact hmore
  | cons c used => exact hused

theorem Stops.imp {p q : Char → Bool} {text : List Char} (h : Stops p text)
    (himp : ∀ c, q c = true → p c = true) : Stops q text := by
  intro c hc
  have hp := h c hc
  cases hq : q c with
  | false => rfl
  | true => simp [himp c hq] at hp

theorem Begins.stops {p q : Char → Bool} {text : List Char} (h : Begins p text)
    (hpq : ∀ c, p c = true → q c = false) : Stops q text := by
  obtain ⟨c, rest, rfl, hc⟩ := h
  simpa [Stops] using hpq c hc

theorem not_stops_iff {p : Char → Bool} {text : List Char} : ¬ Stops p text ↔ Begins p text := by
  cases text <;> simp [Begins, Stops]

theorem exists_eq_cons_of_not_stops {c : Char} {text : List Char} (h : ¬ Stops (· == c) text) :
    ∃ rest, text = c :: rest := by
  obtain ⟨d, rest, rfl, hd⟩ := not_stops_iff.mp h
  exact ⟨rest, by rw [eq_of_beq hd]⟩

/-- Only the first of some characters matters, whatever comes after them. -/
theorem Stops.of_append {p : Char → Bool} {used rest : List Char} (h : Stops p (used ++ rest))
    (hne : used ≠ []) (more : List Char) : Stops p (used ++ more) := by
  obtain ⟨c, used, rfl⟩ := List.exists_cons_of_ne_nil hne
  exact h

/-- The scan takes exactly these characters from every text in which none such comes after them. -/
def Takes {α : Type} (scan : List Char → Option (α × List Char)) (p : Char → Bool)
    (used : List Char) (a : α) : Prop :=
  ∀ more, Stops p more → scan (used ++ more) = some (a, more)

/-! ### Numerals -/

theorem digits_append (text : List Char) {more : List Char} (h : Stops Char.isDigit more) :
    digitValues (text.takeWhile Char.isDigit ++ more) = digitValues text ∧
      (text.takeWhile Char.isDigit ++ more).dropWhile Char.isDigit = more := by
  have hdigits : ∀ c ∈ text.takeWhile Char.isDigit, c.isDigit = true :=
    fun c hc => List.mem_takeWhile_imp hc
  have hmore : more.takeWhile Char.isDigit = [] ∧ more.dropWhile Char.isDigit = more := by
    cases more with
    | nil => exact ⟨rfl, rfl⟩
    | cons c more => simp [h c rfl]
  refine ⟨?_, ?_⟩
  · rw [digitValues, List.takeWhile_append_of_pos hdigits, hmore.1, List.append_nil, digitValues]
  · rw [List.dropWhile_append_of_pos hdigits, hmore.2]

theorem exists_of_digits {α : Type} {scan : List Char → Option (α × List Char)}
    {read : List Nat → Option α} (hread : read [] = none)
    (hscan : ∀ text, scan text = (read (digitValues text)).map (·, text.dropWhile Char.isDigit))
    {text rest : List Char} {a : α} (h : scan text = some (a, rest)) :
    ∃ used, text = used ++ rest ∧ Begins Char.isDigit used ∧
      Takes scan Char.isDigit used a := by
  rw [hscan, Option.map_eq_some_iff] at h
  obtain ⟨_, ha, h⟩ := h
  obtain ⟨rfl, hrest⟩ := Prod.mk.inj h
  refine ⟨text.takeWhile Char.isDigit, ?_, ?_, fun more hmore => ?_⟩
  · rw [← hrest, List.takeWhile_append_dropWhile]
  · have hne : text.takeWhile Char.isDigit ≠ [] := by
      intro hnil
      rw [digitValues, hnil, List.map_nil, hread] at ha
      cases ha
    obtain ⟨c, used, hused⟩ := List.exists_cons_of_ne_nil hne
    have hc : c ∈ text.takeWhile Char.isDigit := hused ▸ List.mem_cons_self
    exact ⟨c, used, hused, List.mem_takeWhile_imp hc⟩
  · obtain ⟨hvalues, hdrop⟩ := digits_append text hmore
    rw [hscan, hvalues, hdrop, ha]
    rfl

theorem exists_of_scanWhole {text rest : List Char} {digits : List Nat}
    (h : scanWhole text = some (digits, rest)) :
    ∃ used, text = used ++ rest ∧ Begins Char.isDigit used ∧
      Takes scanWhole Char.isDigit used digits := by
  refine @exists_of_digits _ _
    (fun ds => if ds = [] ∨ ds.head? = some 0 ∧ 1 < ds.length then none else some ds)
    rfl (fun text => ?_) _ _ _ h
  unfold scanWhole
  rcases digitValues text with _ | ⟨_ | d, _ | ⟨e, ds⟩⟩ <;> simp

theorem exists_of_scanExponentDigits {negative : Bool} {text rest : List Char} {e : Option Int}
    (h : scanExponentDigits negative text = some (e, rest)) :
    ∃ used, text = used ++ rest ∧ Begins Char.isDigit used ∧
      Takes (scanExponentDigits negative) Char.isDigit used e := by
  refine @exists_of_digits _ _ (fun digits =>
    let n : Int := (digits.foldl (fun n d => 10 * n + d) 0 : Nat)
    if digits = [] then none else some (some (if negative then -n else n)))
    rfl (fun text => ?_) _ _ _ h
  unfold scanExponentDigits
  split <;> simp_all

theorem exists_of_scanFraction {text rest : List Char} {digits : List Nat}
    (h : scanFraction text = some (digits, rest)) :
    ∃ used, text = used ++ rest ∧ Stops Char.isDigit used ∧
      Takes scanFraction (fun c => c.isDigit || c == '.') used digits := by
  by_cases hpoint : ∃ after, text = '.' :: after
  · obtain ⟨after, rfl⟩ := hpoint
    obtain ⟨used, rfl, -, htakes⟩ := @exists_of_digits _ (fun after => scanFraction ('.' :: after))
      (fun digits => if digits = [] then none else some digits) rfl (fun after => by
        simp only [scanFraction]
        split <;> simp_all) _ _ _ h
    refine ⟨'.' :: used, rfl, by simp [Stops], fun more hmore => ?_⟩
    exact htakes more (hmore.imp fun c hc => by simp [hc])
  · have hnone (more : List Char) (hmore : ∀ after, more ≠ '.' :: after) :
        scanFraction more = some ([], more) := by
      unfold scanFraction
      split
      next after => exact absurd rfl (hmore after)
      next => rfl
    rw [hnone text (by simpa using hpoint)] at h
    obtain ⟨rfl, rfl⟩ := Prod.mk.inj (Option.some.inj h)
    refine ⟨[], rfl, nofun, fun more hmore => hnone more fun after hafter => ?_⟩
    simpa using hmore '.' (by simp [hafter])

def marksExponent (c : Char) : Bool := c == 'e' || c == 'E'

theorem exists_of_marksExponent {c : Char} (hc : marksExponent c = true) (after : List Char) :
    ∃ sign negative digits, after = sign ++ digits ∧
      scanExponent (c :: after) = scanExponentDigits negative digits ∧
      ∀ text, Begins Char.isDigit text →
        scanExponent (c :: (sign ++ text)) = scanExponentDigits negative text := by
  have hunsigned (text : List Char) (hminus : ∀ rest, text ≠ '-' :: rest)
      (hplus : ∀ rest, text ≠ '+' :: rest) :
      scanExponent (c :: text) = scanExponentDigits false text := by
    refine (if_pos hc).trans ?_
    split
    next rest => exact absurd rfl (hminus rest)
    next rest => exact absurd rfl (hplus rest)
    next => rfl
  by_cases hminus : ∃ digits, after = '-' :: digits
  · obtain ⟨digits, rfl⟩ := hminus
    exact ⟨['-'], true, digits, rfl, if_pos hc, fun _ _ => if_pos hc⟩
  by_cases hplus : ∃ digits, after = '+' :: digits
  · obtain ⟨digits, rfl⟩ := hplus
    exact ⟨['+'], false, digits, rfl, if_pos hc, fun _ _ => if_pos hc⟩
  refine ⟨[], false, after, rfl, ?_, ?_⟩
  · exact hunsigned after (by simpa using hminus) (by simpa using hplus)
  · rintro _ ⟨d, text, rfl, hd⟩
    apply hunsigned <;> rintro rest ⟨⟩ <;> cases hd

theorem exists_of_scanExponent {text rest : List Char} {e : Option Int}
    (h : scanExponent text = some (e, rest)) :
    ∃ used, text = used ++ rest ∧ (used = [] ∨ Begins marksExponent used) ∧
      Takes scanExponent (fun c => c.isDigit || marksExponent c) used e := by
  by_cases hmark : Stops marksExponent text
  · have hnone (more : List Char) (hmore : Stops marksExponent more) :
        scanExponent more = some (none, more) := by
      unfold scanExponent
      split
      next c after => exact if_neg (by simpa [marksExponent] using hmore c rfl)
      next => rfl
    rw [hnone text hmark] at h
    obtain ⟨rfl, rfl⟩ := Prod.mk.inj (Option.some.inj h)
    exact ⟨[], rfl, .inl rfl, fun more hmore => hnone more (hmore.imp fun c hc => by simp [hc])⟩
  · obtain ⟨c, after, rfl, hc⟩ := not_stops_iff.mp hmark
    obtain ⟨sign, negative, digits, rfl, hafter, hscan⟩ := exists_of_marksExponent hc after
    rw [hafter] at h
    obtain ⟨used, rfl, hused, htakes⟩ := exists_of_scanExponentDigits h
    refine ⟨c :: (sign ++ used), by simp, .inr ⟨c, _, rfl, hc⟩, fun more hmore => ?_⟩
    rw [List.cons_append, List.append_assoc, hscan _ (hused.append more)]
    exact htakes more (hmore.imp fun c hc => by simp [hc])

def continuesNumeral (c : Char) : Bool := c.isDigit || c == '.' || marksExponent c

def scanUnsigned (negative : Bool) (text : List Char) : Option (Numeral × List Char) := do
  let (whole, text) ← scanWhole text
  let (fraction, text) ← scanFraction text
  let (exponent, text) ← scanExponent text
  return (⟨negative, whole, fraction, exponent⟩, text)

theorem exists_of_scanUnsigned {negative : Bool} {text rest : List Char} {numeral : Numeral}
    (h : scanUnsigned negative text = some (numeral, rest)) :
    ∃ used, text = used ++ rest ∧ Begins Char.isDigit used ∧
      Takes (scanUnsigned negative) continuesNumeral used numeral := by
  simp only [scanUnsigned, Option.bind_eq_bind, Option.bind_eq_some_iff, Option.pure_def,
    Option.some.injEq, Prod.mk.injEq] at h
  obtain ⟨⟨whole, after⟩, hwhole', ⟨fraction, after'⟩, hfraction', ⟨exponent, _⟩, hexponent', rfl,
    rfl⟩ := h
  obtain ⟨u, rfl, hu, hwhole⟩ := exists_of_scanWhole hwhole'
  obtain ⟨v, rfl, hv, hfraction⟩ := exists_of_scanFraction hfraction'
  obtain ⟨w, rfl, hw, hexponent⟩ := exists_of_scanExponent hexponent'
  refine ⟨u ++ (v ++ w), by simp, hu.append _, fun more hmore => ?_⟩
  have hwmore : Stops (fun c => c.isDigit || c == '.') (w ++ more) := by
    rcases hw with rfl | hw
    · exact hmore.imp fun c hc => by grind [continuesNumeral]
    · refine (hw.append more).stops fun c hc => ?_
      rcases Bool.or_eq_true_iff.mp hc with hc | hc <;> cases eq_of_beq hc <;> rfl
  have hvmore : Stops Char.isDigit (v ++ (w ++ more)) :=
    hv.append (hwmore.imp fun c hc => by simp [hc])
  have hmore : Stops (fun c => c.isDigit || marksExponent c) more :=
    hmore.imp fun c hc => by grind [continuesNumeral]
  rw [List.append_assoc, List.append_assoc, scanUnsigned, hwhole _ hvmore]
  simp only [Option.bind_eq_bind, Option.bind_some, Option.pure_def, hfraction _ hwmore,
    hexponent _ hmore]

theorem exists_of_scanNumeral {text rest : List Char} {numeral : Numeral}
    (h : scanNumeral text = some (numeral, rest)) :
    ∃ used, text = used ++ rest ∧ Begins (fun c => c == '-' || c.isDigit) used ∧
      Takes scanNumeral continuesNumeral used numeral := by
  have hsigned (more : List Char) : scanNumeral ('-' :: more) = scanUnsigned true more := rfl
  have hunsigned (more : List Char) (hmore : ∀ after, more ≠ '-' :: after) :
      scanNumeral more = scanUnsigned false more := by
    rw [scanNumeral]
    · rfl
    · exact hmore
  by_cases hminus : ∃ after, text = '-' :: after
  · obtain ⟨after, rfl⟩ := hminus
    obtain ⟨used, rfl, hused, htakes⟩ := exists_of_scanUnsigned h
    exact ⟨'-' :: used, rfl, ⟨'-', used, rfl, rfl⟩, htakes⟩
  · rw [hunsigned text (by simpa using hminus)] at h
    obtain ⟨used, rfl, ⟨c, digits, rfl, hc⟩, htakes⟩ := exists_of_scanUnsigned h
    refine ⟨c :: digits, rfl, ⟨c, digits, rfl, by simp [hc]⟩, fun more hmore => ?_⟩
    rw [hunsigned _ (by rintro rest ⟨⟩; cases hc)]
    exact htakes more hmore

/-! ### Strings -/

/-- The scan takes exactly these characters from every text. -/
def TakesString (used : List Char) (codes : List Nat) : Prop :=
  ∀ more, scanString (used ++ more) = some (codes, more)

/-- A code point is taken, and then what is taken after it. -/
theorem exists_takesString_of_code {first after rest : List Char} {codes : List Nat}
    {code? : Option Nat}
    (hfirst : ∀ code, code? = some code → ∀ more,
      scanString (first ++ more) = (scanString more).map fun r => (code :: r.1, r.2))
    (ih : ∀ {rest codes}, scanString after = some (codes, rest) →
      ∃ used, after = used ++ rest ∧ TakesString used codes)
    (h : (code?.bind fun code => (scanString after).bind fun r => some (code :: r.1, r.2)) =
      some (codes, rest)) :
    ∃ used, first ++ after = used ++ rest ∧ TakesString used codes := by
  obtain ⟨code, hcode, h⟩ := Option.bind_eq_some_iff.mp h
  obtain ⟨⟨codes', _⟩, hafter, h⟩ := Option.bind_eq_some_iff.mp h
  obtain ⟨rfl, rfl⟩ := Prod.mk.inj (Option.some.inj h)
  obtain ⟨used, rfl, hused⟩ := ih hafter
  refine ⟨first ++ used, by simp, fun more => ?_⟩
  rw [List.append_assoc, hfirst code hcode, hused]
  rfl

theorem exists_of_scanString {text rest : List Char} {codes : List Nat}
    (h : scanString text = some (codes, rest)) :
    ∃ used, text = used ++ rest ∧ TakesString used codes := by
  fun_induction scanString text generalizing codes rest with
  | case1 => cases h
  | case2 after =>
    obtain ⟨rfl, rfl⟩ := Prod.mk.inj (Option.some.inj h)
    exact ⟨['"'], rfl, fun more => rfl⟩
  | case3 a b c d after ih =>
    refine @exists_takesString_of_code ['\\', 'u', a, b, c, d] _ _ _ _
      (fun code hcode more => ?_) ih h
    simp only [List.cons_append, List.nil_append, scanString, hcode]
    cases scanString more <;> rfl
  | case4 e after hu ih =>
    refine @exists_takesString_of_code ['\\', e] _ _ _ _ (fun code hcode more => ?_) ih h
    have hne : e ≠ 'u' := by
      rintro rfl
      cases hcode
    simp only [List.cons_append, List.nil_append]
    rw [scanString, hcode]
    · cases scanString more <;> rfl
    · exact fun _ _ _ _ _ he => absurd he hne
  | case5 => cases h
  | case6 c after hquote hunicode hescape hplain ih =>
    refine @exists_takesString_of_code [c] _ _ _ (some c.toNat) (fun code hcode more => ?_) ih h
    obtain rfl := Option.some.inj hcode
    have hc : c ≠ '\\' := by
      rintro rfl
      exact hplain (by simp)
    simp only [List.cons_append, List.nil_append]
    rw [scanString, if_neg hplain]
    · cases scanString more <;> rfl
    · exact hquote
    · simp [hc]
    · simp [hc]

end TypeSchema.Document
