import TypeSchema.Files.Path

/-!
Replacing every occurrence of a text. A text without an occurrence stays as it is, and one with an
occurrence is changed where the replacement is shorter. Two texts are replaced one by one unless an
occurrence lies across both.
-/
namespace TypeSchema.Path

variable {old new : List Char} (hold : old ≠ [])

theorem replaceChars_nil (old new : List Char) (skip : Nat) :
    replaceChars old new skip [] = [] := by
  cases skip <;> rfl

theorem replaceChars_zero_cons (old new : List Char) (c : Char) (rest : List Char) :
    replaceChars old new 0 (c :: rest) =
      if old.isPrefixOf (c :: rest) then new ++ replaceChars old new (old.length - 1) rest
      else c :: replaceChars old new 0 rest :=
  rfl

theorem replaceChars_skip (old new : List Char) (skip : Nat) (text : List Char) :
    replaceChars old new skip text = replaceChars old new 0 (text.drop skip) := by
  induction skip generalizing text with
  | zero => rfl
  | succ skip ih =>
    cases text with
    | nil => rw [List.drop_nil, replaceChars_nil, replaceChars_nil]
    | cons c rest => exact ih rest

include hold in
theorem replaceChars_occurrence (new text : List Char) :
    replaceChars old new 0 (old ++ text) = new ++ replaceChars old new 0 text := by
  obtain ⟨c, rest, rfl⟩ := List.exists_cons_of_ne_nil hold
  have hprefix : (c :: rest).isPrefixOf (c :: (rest ++ text)) = true :=
    List.isPrefixOf_iff_prefix.mpr (List.prefix_append (c :: rest) text)
  rw [List.cons_append, replaceChars_zero_cons, if_pos hprefix, replaceChars_skip]
  simp

include hold in
theorem replaceChars_self (new : List Char) : replaceChars old new 0 old = new := by
  simpa [replaceChars_nil] using replaceChars_occurrence hold new []

theorem replaceChars_cons {c : Char} {text : List Char} (h : ¬ old <+: c :: text) :
    replaceChars old new 0 (c :: text) = c :: replaceChars old new 0 text := by
  rw [replaceChars_zero_cons, if_neg (mt List.isPrefixOf_iff_prefix.mp h)]

include hold in
/-- A text is empty, begins with an occurrence, or begins with a character at which there is
none. -/
theorem induction_on_occurrences {motive : List Char → Prop} (text : List Char) (nil : motive [])
    (occurrence : ∀ rest, motive rest → motive (old ++ rest))
    (cons : ∀ c rest, ¬ old <+: c :: rest → motive rest → motive (c :: rest)) : motive text := by
  have hpos := List.length_pos_iff.mpr hold
  induction hn : text.length using Nat.strongRecOn generalizing text with
  | ind n ih =>
    cases text with
    | nil => exact nil
    | cons c rest =>
      by_cases h : old <+: c :: rest
      · obtain ⟨after, hafter⟩ := h
        rw [← hafter, List.length_append] at hn
        rw [← hafter]
        exact occurrence after (ih after.length (by omega) after rfl)
      · rw [List.length_cons] at hn
        exact cons c rest h (ih rest.length (by omega) rest rfl)

section
include hold

/-! ### Texts with and without an occurrence -/

theorem replaceChars_eq_self {text : List Char} (h : ¬ old <:+: text) :
    replaceChars old new 0 text = text := by
  induction text using induction_on_occurrences hold with
  | nil => rfl
  | occurrence rest ih => exact absurd (List.prefix_append old rest).isInfix h
  | cons c rest hc ih => rw [replaceChars_cons hc, ih (mt List.infix_cons h)]

theorem length_replaceChars_le (hlength : new.length < old.length) (text : List Char) :
    (replaceChars old new 0 text).length ≤ text.length := by
  induction text using induction_on_occurrences hold with
  | nil => exact Nat.le_refl _
  | occurrence rest ih =>
    rw [replaceChars_occurrence hold, List.length_append, List.length_append]
    omega
  | cons c rest hc ih =>
    rw [replaceChars_cons hc]
    exact Nat.succ_le_succ ih

theorem length_replaceChars_lt (hlength : new.length < old.length) {text : List Char}
    (h : old <:+: text) : (replaceChars old new 0 text).length < text.length := by
  induction text using induction_on_occurrences hold with
  | nil => exact absurd (List.infix_nil.mp h) hold
  | occurrence rest ih =>
    have hrest := length_replaceChars_le hold hlength rest
    rw [replaceChars_occurrence hold, List.length_append, List.length_append]
    omega
  | cons c rest hc ih =>
    rw [replaceChars_cons hc]
    exact Nat.succ_lt_succ (ih ((List.infix_cons_iff.mp h).resolve_left hc))

theorem replaceChars_eq_self_iff (hlength : new.length < old.length) {text : List Char} :
    replaceChars old new 0 text = text ↔ ¬ old <:+: text := by
  refine ⟨fun heq h => ?_, replaceChars_eq_self hold⟩
  have hlt := length_replaceChars_lt hold hlength h
  rw [heq] at hlt
  exact Nat.lt_irrefl _ hlt

end

/-! ### Texts one after the other -/

/-- No occurrence that begins before a text reaches into it. -/
def StaysOut (old text : List Char) : Prop := ∀ k < old.length, 0 < k → ¬ old.drop k <+: text

instance (old text : List Char) : Decidable (StaysOut old text) :=
  inferInstanceAs (Decidable (∀ k < old.length, 0 < k → ¬ old.drop k <+: text))

theorem StaysOut.not_prefix {text u v : List Char} (h : StaysOut (u ++ v) text) (hu : u ≠ [])
    (hv : v ≠ []) : ¬ v <+: text := by
  have hu := List.length_pos_iff.mpr hu
  have hv := List.length_pos_iff.mpr hv
  simpa using h u.length (by rw [List.length_append]; omega) hu

/-- An occurrence does not reach across a character that it lacks. -/
theorem staysOut_cons {c : Char} (hc : c ∉ old) (text : List Char) : StaysOut old (c :: text) := by
  rintro k hk - h
  have hne : old.drop k ≠ [] := mt List.drop_eq_nil_iff.mp (Nat.not_le.mpr hk)
  obtain ⟨d, rest, hd⟩ := List.exists_cons_of_ne_nil hne
  rw [hd, List.cons_prefix_cons] at h
  have hmem : c ∈ old.drop k := by rw [hd, h.1]; exact List.mem_cons_self
  exact hc (List.drop_subset k old hmem)

namespace StaysOut

variable {text : List Char} (h : StaysOut old text)
include h

theorem infix_append_iff (before : List Char) :
    old <:+: before ++ text ↔ old <:+: before ∨ old <:+: text := by
  rw [List.infix_append_iff]
  refine ⟨?_, Or.imp_right .inl⟩
  rintro (hbefore | htext | ⟨u, v, rfl, hu, hv⟩)
  · exact .inl hbefore
  · exact .inr htext
  · by_cases hu' : u = []
    · exact .inr (by simpa [hu'] using hv.isInfix)
    · by_cases hv' : v = []
      · exact .inl (by simpa [hv'] using hu.isInfix)
      · exact absurd hv (h.not_prefix hu' hv')

include hold in
theorem replaceChars_append (before : List Char) :
    replaceChars old new 0 (before ++ text) =
      replaceChars old new 0 before ++ replaceChars old new 0 text := by
  induction before using induction_on_occurrences hold with
  | nil => rfl
  | occurrence rest ih =>
    rw [List.append_assoc, replaceChars_occurrence hold, replaceChars_occurrence hold, ih,
      List.append_assoc]
  | cons c rest hc ih =>
    have hc' : ¬ old <+: c :: (rest ++ text) := by
      intro hprefix
      rcases List.prefix_or_prefix_of_prefix hprefix (List.prefix_append (c :: rest) text) with
        hold' | ⟨v, rfl⟩
      · exact hc hold'
      · have hv : v <+: text := (List.prefix_append_right_inj (c :: rest)).mp hprefix
        refine h.not_prefix (List.cons_ne_nil c rest) (fun hv' => hc ?_) hv
        simp [hv']
    rw [List.cons_append, replaceChars_cons hc', replaceChars_cons hc, ih, List.cons_append]

end StaysOut

include hold in
theorem infix_append_cons_iff {c : Char} (hc : c ∉ old) (before after : List Char) :
    old <:+: before ++ c :: after ↔ old <:+: before ∨ old <:+: after := by
  have hprefix : ¬ old <+: c :: after := by
    obtain ⟨d, rest, rfl⟩ := List.exists_cons_of_ne_nil hold
    rw [List.cons_prefix_cons]
    rintro ⟨rfl, -⟩
    exact hc List.mem_cons_self
  rw [(staysOut_cons hc after).infix_append_iff, List.infix_cons_iff, or_iff_right hprefix]

end TypeSchema.Path
