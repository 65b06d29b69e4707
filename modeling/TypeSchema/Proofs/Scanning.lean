import TypeSchema.Proofs.Tokens

/-!
What a scan takes from a text. A scan that meets no fault takes the characters of one value and
leaves the rest. It says the same of every text that begins with those characters, whatever the rest
is, unless the value is a numeral that would go on.
-/
namespace TypeSchema.Document

/-! ### Blanks -/

theorem exists_blanks (text : List Char) :
    ∃ blanks, (∀ c ∈ blanks, isBlank c = true) ∧ text = blanks ++ skipBlanks text :=
  ⟨text.takeWhile isBlank, fun _ hc => List.mem_takeWhile_imp hc,
    List.takeWhile_append_dropWhile.symm⟩

theorem skipBlanks_append {blanks : List Char} (h : ∀ c ∈ blanks, isBlank c = true)
    (text : List Char) : skipBlanks (blanks ++ text) = skipBlanks text :=
  List.dropWhile_append_of_pos h

theorem skipBlanks_of_stops {text : List Char} (h : Stops isBlank text) :
    skipBlanks text = text := by
  cases text with
  | nil => rfl
  | cons c text => simp [skipBlanks, h c rfl]

theorem stops_skipBlanks (text : List Char) : Stops isBlank (skipBlanks text) := by
  intro c hc
  have hhead := List.head?_dropWhile_not isBlank text
  rw [← skipBlanks, hc] at hhead
  exact hhead

/-- No numeral goes on with a blank, nor then with what comes after the blanks. -/
theorem stops_of_skipBlanks {text rest : List Char} {c : Char} (h : skipBlanks text = c :: rest)
    (hc : continuesNumeral c = false) : Stops continuesNumeral text := by
  obtain ⟨blanks, hblanks, htext⟩ := exists_blanks text
  rw [htext, h]
  cases blanks with
  | nil => simpa [Stops] using hc
  | cons b blanks =>
    have hb := hblanks b List.mem_cons_self
    simp only [isBlank, Bool.or_eq_true, beq_iff_eq] at hb
    rcases hb with ((rfl | rfl) | rfl) | rfl <;> simp [Stops] <;> decide

/-! ### What may follow -/

/-- May the document have this text after it, without taking it for a part of itself? -/
def MayPrecede : Document → List Char → Prop
  | .number _, more => Stops continuesNumeral more
  | _, _ => True

theorem mayPrecede_of_stops (doc : Document) {more : List Char}
    (h : Stops continuesNumeral more) : doc.MayPrecede more := by
  cases doc with
  | number n => exact h
  | _ => trivial

/-- The scan takes exactly these characters from every text in which something of the kind comes
after them, and no more steps are needed than there are characters. -/
structure Reads {α : Type} (scan : Nat → List Char → α) (follows : List Char → Prop)
    (used : List Char) (result : List Char → α) : Prop where
  ne_nil : used ≠ []
  eq : ∀ n more, used.length ≤ n → follows more → scan n (used ++ more) = result more

section
variable {α : Type} {scan : Nat → List Char → α} {follows : List Char → Prop}
  {used : List Char} {result : List Char → α}

theorem Reads.of_succ (hne : used ≠ [])
    (h : ∀ n more, used.length ≤ n + 1 → follows more → scan (n + 1) (used ++ more) = result more) :
    Reads scan follows used result := by
  refine ⟨hne, fun n more hn hmore => ?_⟩
  cases n with
  | zero => exact absurd (List.length_eq_zero_iff.mp (Nat.le_zero.mp hn)) hne
  | succ n => exact h n more hn hmore

theorem Reads.blanks (h : Reads scan follows used result)
    (hscan : ∀ n text, scan (n + 1) text = scan (n + 1) (skipBlanks text)) {blanks : List Char}
    (hblanks : ∀ c ∈ blanks, isBlank c = true) : Reads scan follows (blanks ++ used) result := by
  refine .of_succ (by simp [h.ne_nil]) fun n more hn hmore => ?_
  rw [List.length_append] at hn
  rw [List.append_assoc, hscan, skipBlanks_append hblanks, ← hscan]
  exact h.eq _ _ (by omega) hmore

/-- A scan that skips blanks is settled by what it does after them. -/
theorem exists_reads_of_stops (hscan : ∀ n text, scan (n + 1) text = scan (n + 1) (skipBlanks text))
    {n : Nat} {text rest : List Char} {a : α} (h : scan (n + 1) text = a)
    (hstops : ∀ {text}, Stops isBlank text → scan (n + 1) text = a →
      ∃ used, text = used ++ rest ∧ Reads scan follows used result) :
    ∃ used, text = used ++ rest ∧ Reads scan follows used result := by
  obtain ⟨blanks, hblanks, htext⟩ := exists_blanks text
  obtain ⟨used, hused, hreads⟩ := hstops (stops_skipBlanks text) (hscan n text ▸ h)
  exact ⟨blanks ++ used, by rw [List.append_assoc, ← hused, ← htext], hreads.blanks hscan hblanks⟩

end

/-! ### Lists in brackets -/

section
variable {α : Type}

/-- A first item, and the items after it. -/
def scanThen (one : List Char → α × List Char) (more : List Char → List α × Bool × List Char)
    (text : List Char) : List α × Bool × List Char :=
  let (item, rest) := one text
  let (items, closed, rest) := more rest
  (item :: items, closed, rest)

theorem exists_of_scanThen {one : List Char → α × List Char}
    {more : List Char → List α × Bool × List Char} {text rest : List Char} {items : List α}
    (h : scanThen one more text = (items, true, rest)) :
    ∃ item items' after, items = item :: items' ∧ one text = (item, after) ∧
      more after = (items', true, rest) := by
  obtain ⟨rfl, hrest⟩ := Prod.mk.inj h
  exact ⟨_, _, _, rfl, rfl, Prod.ext rfl hrest⟩

theorem Reads.cons {one : Nat → List Char → α × List Char}
    {more : Nat → List Char → List α × Bool × List Char} {follows : List Char → Prop}
    {used used' : List Char} {item : α} {items : List α} (h : Reads one follows used (item, ·))
    (h' : Reads more (fun _ => True) used' (items, true, ·))
    (hfollows : ∀ text, follows (used' ++ text)) {n : Nat} (hn : (used ++ used').length ≤ n + 1)
    (text : List Char) :
    scanThen (one n) (more n) (used ++ used' ++ text) = (item :: items, true, text) := by
  have hpos := List.length_pos_iff.mpr h.ne_nil
  have hpos' := List.length_pos_iff.mpr h'.ne_nil
  rw [List.length_append] at hn
  rw [scanThen, List.append_assoc, h.eq n _ (by omega) (hfollows text)]
  simp only [h'.eq n text (by omega) trivial]

/-- `list` scans items with commas between them up to a bracket, and `more` what is left of them
after one of them. -/
structure Bracketed (close : Char) (one : Nat → List Char → α × List Char)
    (more list : Nat → List Char → List α × Bool × List Char) : Prop where
  close_ends : continuesNumeral close = false
  list_skipBlanks : ∀ n text, list (n + 1) text = list (n + 1) (skipBlanks text)
  list_close : ∀ n rest, list (n + 1) (close :: rest) = ([], true, rest)
  list_then : ∀ n text, Stops isBlank text → Stops (· == close) text →
    list (n + 1) text = scanThen (one n) (more n) text
  more_zero : ∀ text, more 0 text = ([], false, [])
  more_skipBlanks : ∀ n text, more (n + 1) text = more (n + 1) (skipBlanks text)
  more_close : ∀ n rest, more (n + 1) (close :: rest) = ([], true, rest)
  more_comma : ∀ n rest, more (n + 1) (',' :: rest) = scanThen (one n) (more n) rest
  more_other : ∀ n text, Stops isBlank text → Stops (· == close) text → Stops (· == ',') text →
    more (n + 1) text = ([], false, [])

namespace Bracketed

variable {close : Char} {one : Nat → List Char → α × List Char}
  {more list : Nat → List Char → List α × Bool × List Char} (h : Bracketed close one more list)

include h

/-- Items go on with a comma or are closed, and no numeral would go on so. -/
theorem stops_of_more {n : Nat} {text rest : List Char} {items : List α}
    (hmore : more n text = (items, true, rest)) : Stops continuesNumeral text := by
  cases n with
  | zero => simp [h.more_zero] at hmore
  | succ n =>
    rw [h.more_skipBlanks] at hmore
    by_cases hclose : Stops (· == close) (skipBlanks text)
    · by_cases hcomma : Stops (· == ',') (skipBlanks text)
      · simp [h.more_other n _ (stops_skipBlanks text) hclose hcomma] at hmore
      · obtain ⟨after, hafter⟩ := exists_eq_cons_of_not_stops hcomma
        exact stops_of_skipBlanks hafter rfl
    · obtain ⟨after, hafter⟩ := exists_eq_cons_of_not_stops hclose
      exact stops_of_skipBlanks hafter h.close_ends

variable {follows : α → List Char → Prop} {Complete : α → Prop}
  (hfollows : ∀ item text, Stops continuesNumeral text → follows item text) {n : Nat}
  (hone : ∀ {text rest item}, one n text = (item, rest) → Complete item →
    ∃ used, text = used ++ rest ∧ Reads one (follows item) used (item, ·))
  (hmore : ∀ {text rest items}, more n text = (items, true, rest) →
    (∀ item ∈ items, Complete item) →
    ∃ used, text = used ++ rest ∧ Reads more (fun _ => True) used (items, true, ·))

include hfollows hone hmore

theorem exists_of_scanThen {text rest : List Char} {items : List α}
    (hscan : scanThen (one n) (more n) text = (items, true, rest))
    (hitems : ∀ item ∈ items, Complete item) :
    ∃ used, text = used ++ rest ∧ used ≠ [] ∧ ∀ m text, used.length ≤ m + 1 →
      scanThen (one m) (more m) (used ++ text) = (items, true, text) := by
  obtain ⟨item, items, after, rfl, hitem, hafter⟩ := Document.exists_of_scanThen hscan
  rw [List.forall_mem_cons] at hitems
  have hstops := h.stops_of_more hafter
  obtain ⟨used, rfl, hused⟩ := hone hitem hitems.1
  obtain ⟨used', rfl, hused'⟩ := hmore hafter hitems.2
  have hends (text : List Char) : follows item (used' ++ text) :=
    hfollows item _ (hstops.of_append hused'.ne_nil text)
  exact ⟨used ++ used', by simp, by simp [hused.ne_nil],
    fun m text hm => hused.cons hused' hends hm text⟩

theorem exists_of_list {text rest : List Char} {items : List α}
    (hlist : list (n + 1) text = (items, true, rest)) (hitems : ∀ item ∈ items, Complete item) :
    ∃ used, text = used ++ rest ∧ Reads list (fun _ => True) used (items, true, ·) := by
  refine exists_reads_of_stops h.list_skipBlanks hlist fun {text} hblank hlist => ?_
  by_cases hclose : Stops (· == close) text
  · rw [h.list_then n text hblank hclose] at hlist
    obtain ⟨used, rfl, hne, hused⟩ := h.exists_of_scanThen hfollows hone hmore hlist hitems
    refine ⟨used, rfl, .of_succ hne fun m more hm _ => ?_⟩
    rw [h.list_then m _ (hblank.of_append hne more) (hclose.of_append hne more), hused m more hm]
  · obtain ⟨after, rfl⟩ := exists_eq_cons_of_not_stops hclose
    rw [h.list_close] at hlist
    cases hlist
    exact ⟨[close], rfl, .of_succ (by simp) fun m more _ _ => h.list_close m more⟩

theorem exists_of_more {text rest : List Char} {items : List α}
    (hmore' : more (n + 1) text = (items, true, rest)) (hitems : ∀ item ∈ items, Complete item) :
    ∃ used, text = used ++ rest ∧ Reads more (fun _ => True) used (items, true, ·) := by
  refine exists_reads_of_stops h.more_skipBlanks hmore' fun {text} hblank hmore' => ?_
  by_cases hclose : Stops (· == close) text
  · by_cases hcomma : Stops (· == ',') text
    · simp [h.more_other n text hblank hclose hcomma] at hmore'
    · obtain ⟨after, rfl⟩ := exists_eq_cons_of_not_stops hcomma
      rw [h.more_comma] at hmore'
      obtain ⟨used, rfl, hne, hused⟩ := h.exists_of_scanThen hfollows hone hmore hmore' hitems
      refine ⟨',' :: used, rfl, .of_succ (by simp) fun m more hm _ => ?_⟩
      rw [List.length_cons] at hm
      exact (h.more_comma m _).trans (hused m more (by omega))
  · obtain ⟨after, rfl⟩ := exists_eq_cons_of_not_stops hclose
    rw [h.more_close] at hmore'
    cases hmore'
    exact ⟨[close], rfl, .of_succ (by simp) fun m more _ _ => h.more_close m more⟩

end Bracketed

end

theorem bracketed_items : Bracketed ']' scanValue scanMoreItems scanItems where
  close_ends := rfl
  list_skipBlanks n text := by
    rw [scanItems, scanItems, skipBlanks_of_stops (stops_skipBlanks text)]
  list_close _ _ := rfl
  list_then n text hblank hclose := by
    rw [scanItems, skipBlanks_of_stops hblank]
    split
    next => cases hclose ']' rfl
    next => rfl
  more_zero _ := rfl
  more_skipBlanks n text := by
    rw [scanMoreItems, scanMoreItems, skipBlanks_of_stops (stops_skipBlanks text)]
  more_close _ _ := rfl
  more_comma _ _ := rfl
  more_other n text hblank hclose hcomma := by
    rw [scanMoreItems, skipBlanks_of_stops hblank]
    split
    next => cases hclose ']' rfl
    next => cases hcomma ',' rfl
    next => rfl

theorem bracketed_entries : Bracketed '}' scanEntry scanMoreEntries scanEntries where
  close_ends := rfl
  list_skipBlanks n text := by
    rw [scanEntries, scanEntries, skipBlanks_of_stops (stops_skipBlanks text)]
  list_close _ _ := rfl
  list_then n text hblank hclose := by
    rw [scanEntries, skipBlanks_of_stops hblank]
    split
    next => cases hclose '}' rfl
    next => rfl
  more_zero _ := rfl
  more_skipBlanks n text := by
    rw [scanMoreEntries, scanMoreEntries, skipBlanks_of_stops (stops_skipBlanks text)]
  more_close _ _ := rfl
  more_comma _ _ := rfl
  more_other n text hblank hclose hcomma := by
    rw [scanMoreEntries, skipBlanks_of_stops hblank]
    split
    next => cases hclose '}' rfl
    next => cases hcomma ',' rfl
    next => rfl

/-! ### Values -/

theorem isCompleteItems_iff {items : List Document} :
    isCompleteItems items = true ↔ ∀ item ∈ items, item.isComplete = true := by
  induction items with
  | nil => simp [isCompleteItems]
  | cons item items ih => simp [isCompleteItems, ih]

theorem isCompleteEntries_iff {entries : List (Document × Document)} :
    isCompleteEntries entries = true ↔
      ∀ e ∈ entries, e.1.isComplete = true ∧ e.2.isComplete = true := by
  induction entries with
  | nil => simp [isCompleteEntries]
  | cons e entries ih => simp [isCompleteEntries, ih]

theorem scanValue_skipBlanks (n : Nat) (text : List Char) :
    scanValue (n + 1) text = scanValue (n + 1) (skipBlanks text) := by
  rw [scanValue, scanValue, skipBlanks_of_stops (stops_skipBlanks text)]

theorem scanValue_numeral (n : Nat) {text rest : List Char} {numeral : Numeral}
    (hbegins : Begins (fun c => c == '-' || c.isDigit) text)
    (h : scanNumeral text = some (numeral, rest)) :
    scanValue (n + 1) text = (.number numeral.number?, rest) := by
  have hblank : skipBlanks text = text := by
    refine skipBlanks_of_stops (hbegins.stops fun c hc => ?_)
    simp only [isBlank]
    by_contra hb
    simp only [Bool.not_eq_false, Bool.or_eq_true, beq_iff_eq] at hb
    rcases hb with ((rfl | rfl) | rfl) | rfl <;> cases hc
  obtain ⟨c, after, rfl, hc⟩ := hbegins
  rw [scanValue, hblank]
  split
  case h_7 => simp only [h]
  -- no other value begins like a numeral
  all_goals
    rename_i heq
    obtain ⟨rfl, -⟩ := List.cons.inj heq
    cases hc

theorem scanValue_string (n : Nat) {text rest : List Char} {codes : List Nat}
    (h : scanString text = some (codes, rest)) :
    scanValue (n + 1) ('"' :: text) =
      (.string ((joinSurrogates codes).map String.ofList), rest) := by
  have hblank : skipBlanks ('"' :: text) = '"' :: text := rfl
  rw [scanValue, hblank]
  simp only [h]

theorem scanValue_array (n : Nat) {text rest : List Char} {items : List Document} {closed : Bool}
    (h : scanItems n text = (items, closed, rest)) :
    scanValue (n + 1) ('[' :: text) = (.array items closed, rest) := by
  have hblank : skipBlanks ('[' :: text) = '[' :: text := rfl
  rw [scanValue, hblank]
  simp only [h]

theorem scanValue_object (n : Nat) {text rest : List Char} {entries : List (Document × Document)}
    {closed : Bool} (h : scanEntries n text = (entries, closed, rest)) :
    scanValue (n + 1) ('{' :: text) = (.object entries closed, rest) := by
  have hblank : skipBlanks ('{' :: text) = '{' :: text := rfl
  rw [scanValue, hblank]
  simp only [h]

theorem scanEntry_eq {n : Nat} {text after after' rest : List Char} {key : Option String}
    {value : Document} (hkey : scanValue n text = (.string key, after))
    (hcolon : skipBlanks after = ':' :: after') (hvalue : scanValue n after' = (value, rest)) :
    scanEntry (n + 1) text = ((.string key, value), rest) := by
  rw [scanEntry, hkey]
  simp only [hcolon, hvalue]

-- The induction is on the bound of the recursion. Of the bound itself nothing is kept: what is read
-- is read under every bound that is at least the number of characters taken.
mutual

/-- A value that is read from a text is read from the characters it takes, whatever comes after
them, unless a numeral would go on. -/
theorem exists_of_scanValue (n : Nat) {text rest : List Char} {doc : Document}
    (h : scanValue n text = (doc, rest)) (hdoc : doc.isComplete = true) :
    ∃ used, text = used ++ rest ∧ Reads scanValue doc.MayPrecede used (doc, ·) := by
  match n with
  | 0 =>
    cases h
    cases hdoc
  | n + 1 =>
    refine exists_reads_of_stops scanValue_skipBlanks h fun {text} hblank h => ?_
    rw [scanValue, skipBlanks_of_stops hblank] at h
    split at h
    next after =>
      cases h
      exact ⟨['n', 'u', 'l', 'l'], rfl, .of_succ (by simp) fun _ _ _ _ => rfl⟩
    next after =>
      cases h
      exact ⟨['t', 'r', 'u', 'e'], rfl, .of_succ (by simp) fun _ _ _ _ => rfl⟩
    next after =>
      cases h
      exact ⟨['f', 'a', 'l', 's', 'e'], rfl, .of_succ (by simp) fun _ _ _ _ => rfl⟩
    next after =>
      split at h
      next codes after' hcodes =>
        cases h
        obtain ⟨used, rfl, hused⟩ := exists_of_scanString hcodes
        refine ⟨'"' :: used, rfl, .of_succ (by simp) fun m more _ _ => ?_⟩
        exact scanValue_string m (hused more)
      next =>
        cases h
        cases hdoc
    next after =>
      obtain ⟨items, closed, after', hitems⟩ : ∃ items closed after',
          scanItems n after = (items, closed, after') := ⟨_, _, _, rfl⟩
      rw [hitems] at h
      cases h
      obtain ⟨rfl, hcomplete⟩ := Bool.and_eq_true_iff.mp hdoc
      obtain ⟨used, rfl, hused⟩ := exists_of_scanItems n hitems (isCompleteItems_iff.mp hcomplete)
      refine ⟨'[' :: used, rfl, .of_succ (by simp) fun m more hm _ => ?_⟩
      exact scanValue_array m (hused.eq m more (by simpa using hm) trivial)
    next after =>
      obtain ⟨entries, closed, after', hentries⟩ : ∃ entries closed after',
          scanEntries n after = (entries, closed, after') := ⟨_, _, _, rfl⟩
      rw [hentries] at h
      cases h
      obtain ⟨rfl, hcomplete⟩ := Bool.and_eq_true_iff.mp hdoc
      obtain ⟨used, rfl, hused⟩ :=
        exists_of_scanEntries n hentries (isCompleteEntries_iff.mp hcomplete)
      refine ⟨'{' :: used, rfl, .of_succ (by simp) fun m more hm _ => ?_⟩
      exact scanValue_object m (hused.eq m more (by simpa using hm) trivial)
    next =>
      split at h
      next numeral after hnumeral =>
        cases h
        obtain ⟨used, rfl, hbegins, hused⟩ := exists_of_scanNumeral hnumeral
        refine ⟨used, rfl, .of_succ ?_ fun m more _ hmore => ?_⟩
        · obtain ⟨c, used, rfl, -⟩ := hbegins
          simp
        · exact scanValue_numeral m (hbegins.append more) (hused more hmore)
      next =>
        cases h
        cases hdoc

theorem exists_of_scanItems (n : Nat) {text rest : List Char} {items : List Document}
    (h : scanItems n text = (items, true, rest)) (hitems : ∀ item ∈ items, item.isComplete = true) :
    ∃ used, text = used ++ rest ∧ Reads scanItems (fun _ => True) used (items, true, ·) := by
  match n with
  | 0 => cases h
  | n + 1 =>
    exact bracketed_items.exists_of_list (fun doc _ => mayPrecede_of_stops doc)
      (exists_of_scanValue n) (exists_of_scanMoreItems n) h hitems

theorem exists_of_scanMoreItems (n : Nat) {text rest : List Char} {items : List Document}
    (h : scanMoreItems n text = (items, true, rest))
    (hitems : ∀ item ∈ items, item.isComplete = true) :
    ∃ used, text = used ++ rest ∧ Reads scanMoreItems (fun _ => True) used (items, true, ·) := by
  match n with
  | 0 => cases h
  | n + 1 =>
    exact bracketed_items.exists_of_more (fun doc _ => mayPrecede_of_stops doc)
      (exists_of_scanValue n) (exists_of_scanMoreItems n) h hitems

theorem exists_of_scanEntry (n : Nat) {text rest : List Char} {e : Document × Document}
    (h : scanEntry n text = (e, rest)) (he : e.1.isComplete = true ∧ e.2.isComplete = true) :
    ∃ used, text = used ++ rest ∧ Reads scanEntry e.2.MayPrecede used (e, ·) := by
  match n with
  | 0 =>
    cases h
    cases he.1
  | n + 1 =>
    rw [scanEntry] at h
    split at h
    next key after hkey =>
      split at h
      next after' hcolon =>
        obtain ⟨value, after'', hvalue⟩ : ∃ value after'', scanValue n after' = (value, after'') :=
          ⟨_, _, rfl⟩
        rw [hvalue] at h
        cases h
        obtain ⟨used, rfl, hused⟩ := exists_of_scanValue n hkey rfl
        obtain ⟨used', rfl, hused'⟩ := exists_of_scanValue n hvalue he.2
        obtain ⟨blanks, hblanks, hafter⟩ := exists_blanks after
        rw [hcolon] at hafter
        refine ⟨used ++ (blanks ++ ':' :: used'), by simp [hafter],
          .of_succ (by simp) fun m more hm hmore => ?_⟩
        have hpos := List.length_pos_iff.mpr hused.ne_nil
        simp only [List.length_append, List.length_cons] at hm
        simp only [List.append_assoc, List.cons_append]
        exact scanEntry_eq (hused.eq m _ (by omega) trivial) (skipBlanks_append hblanks _)
          (hused'.eq m more (by omega) hmore)
      next =>
        cases h
        cases he.2
    next =>
      cases h
      cases he.2

theorem exists_of_scanEntries (n : Nat) {text rest : List Char}
    {entries : List (Document × Document)} (h : scanEntries n text = (entries, true, rest))
    (hentries : ∀ e ∈ entries, e.1.isComplete = true ∧ e.2.isComplete = true) :
    ∃ used, text = used ++ rest ∧ Reads scanEntries (fun _ => True) used (entries, true, ·) := by
  match n with
  | 0 => cases h
  | n + 1 =>
    exact bracketed_entries.exists_of_list (fun e _ => mayPrecede_of_stops e.2)
      (exists_of_scanEntry n) (exists_of_scanMoreEntries n) h hentries

theorem exists_of_scanMoreEntries (n : Nat) {text rest : List Char}
    {entries : List (Document × Document)} (h : scanMoreEntries n text = (entries, true, rest))
    (hentries : ∀ e ∈ entries, e.1.isComplete = true ∧ e.2.isComplete = true) :
    ∃ used, text = used ++ rest ∧
      Reads scanMoreEntries (fun _ => True) used (entries, true, ·) := by
  match n with
  | 0 => cases h
  | n + 1 =>
    exact bracketed_entries.exists_of_more (fun e _ => mayPrecede_of_stops e.2)
      (exists_of_scanEntry n) (exists_of_scanMoreEntries n) h hentries

end

/-- The first value of a text is the first value of every text that begins with its characters. -/
theorem exists_of_scan {text rest : List Char} {doc : Document} (h : scan text = (doc, rest))
    (hdoc : doc.isComplete = true) :
    ∃ used, text = used ++ rest ∧
      ∀ more, doc.MayPrecede more → scan (used ++ more) = (doc, more) := by
  obtain ⟨used, hused, hreads⟩ := exists_of_scanValue _ h hdoc
  refine ⟨used, hused, fun more hmore => hreads.eq _ more ?_ hmore⟩
  rw [List.length_append]
  omega

end TypeSchema.Document
