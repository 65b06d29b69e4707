import TypeSchema.Proofs.Readers

/-!
Parts of JSON values by their places, and readers that rest on a part. Such a reader reads a value
only with the part, and where something else stands in for the part it fails as that fails.
-/
namespace TypeSchema

open Reading

namespace Json

def child? : Json → Step → Option Json
  | .object entries, .key key => entries.lookup key
  | .array items, .index i => items[i]?
  | _, _ => none

def putChild : Json → Step → Json → Json
  | .object entries, .key key, v => .object (Keyed.insert key v entries)
  | .array items, .index i, v => .array (items.set i v)
  | w, _, _ => w

def get? : Json → Place → Option Json
  | w, [] => some w
  | w, step :: place => (w.child? step).bind (get? · place)

/-- The value with another one for the part at a place, if there is a part. -/
def put : Json → Place → Json → Json
  | _, [], v => v
  | w, step :: place, v =>
    match w.child? step with
    | some x => w.putChild step (put x place v)
    | none => w

theorem put_cons {w x : Json} {step : Step} (h : w.child? step = some x) (place : Place)
    (v : Json) : w.put (step :: place) v = w.putChild step (x.put place v) := by
  simp only [put, h]

theorem get?_append (w : Json) (p q : Place) :
    w.get? (p ++ q) = (w.get? p).bind (get? · q) := by
  induction p generalizing w with
  | nil => rfl
  | cons step p ih =>
    simp only [List.cons_append, get?]
    cases w.child? step with
    | none => rfl
    | some x => exact ih x

theorem put_append {w x : Json} {p : Place} (h : w.get? p = some x) (q : Place) (v : Json) :
    w.put (p ++ q) v = w.put p (x.put q v) := by
  induction p generalizing w with
  | nil =>
    obtain rfl : w = x := Option.some.inj h
    rfl
  | cons step p ih =>
    obtain ⟨y, hy, hx⟩ := Option.bind_eq_some_iff.mp h
    rw [List.cons_append, put_cons hy, put_cons hy, ih hx]

theorem putChild_ne_null {w : Json} (hw : w ≠ .null) (step : Step) (v : Json) :
    w.putChild step v ≠ .null := by
  unfold putChild
  split
  · simp
  · simp
  · exact hw

theorem put_ne_null {w v : Json} (hw : w ≠ .null) (hv : v ≠ .null) (p : Place) :
    w.put p v ≠ .null := by
  cases p with
  | nil => exact hv
  | cons step p =>
    rw [put]
    split
    · exact putChild_ne_null hw step _
    · exact hw

theorem ne_null_of_get?_cons {w x : Json} {step : Step} {p : Place}
    (h : w.get? (step :: p) = some x) : w ≠ .null := by
  rintro rfl
  simp [get?, child?] at h

end Json

namespace Reading

section
variable {α β γ : Type} {outer : Document → Read α} {middle : Document → Read β}
  {inner : Document → Read γ} {w y x : Json} {p q : Place} {place : Place}

/-- A reader of a value rests on a reader of a part: where it reads the value the part is read too,
and anything that stands in for the part, a null apart, makes it fail as the other reader does. -/
structure RestsOn (outer : Document → Read α) (inner : Document → Read β) (w : Json) (p : Place)
    (x : Json) : Prop where
  part : w.get? p = some x
  reads : ∀ a, outer w.toDocument = .ok a → ∃ b, inner x.toDocument = .ok b
  fails : ∀ a, outer w.toDocument = .ok a → ∀ v, v ≠ .null → ∀ e,
    inner v.toDocument = .error e → outer (w.put p v).toDocument = .error e

theorem RestsOn.trans (h : RestsOn outer middle w p y) (h' : RestsOn middle inner y q x) :
    RestsOn outer inner w (p ++ q) x where
  part := by rw [Json.get?_append, h.part, Option.bind_some, h'.part]
  reads a ha := by
    obtain ⟨b, hb⟩ := h.reads a ha
    exact h'.reads b hb
  fails a ha v hv e he := by
    obtain ⟨b, hb⟩ := h.reads a ha
    have hne : y.put q v ≠ .null := by
      cases q with
      | nil => exact hv
      | cons step q => exact Json.put_ne_null (Json.ne_null_of_get?_cons h'.part) hv _
    rw [Json.put_append h.part]
    exact h.fails a ha _ hne e (h'.fails b hb v hv e he)

theorem RestsOn.bind {δ : Type} (f : α → Read δ) (h : RestsOn outer inner w p x) :
    RestsOn (fun doc => outer doc >>= f) inner w p x where
  part := h.part
  reads c hc := by
    obtain ⟨a, ha, -⟩ := Except.bind_eq_ok_iff.mp hc
    exact h.reads a ha
  fails c hc v hv e he := by
    obtain ⟨a, ha, -⟩ := Except.bind_eq_ok_iff.mp hc
    exact Except.bind_eq_error_iff.mpr (.inl (h.fails a ha v hv e he))

theorem RestsOn.map {δ : Type} (f : α → δ) (h : RestsOn outer inner w p x) :
    RestsOn (fun doc => f <$> outer doc) inner w p x := by
  simpa only [bind_pure_comp] using h.bind fun a => pure (f a)

theorem readOption_of_ne_null {v : Json} (h : v ≠ .null) (read : Spot → Document → Read α)
    (spot : Spot) : readOption read spot v.toDocument = some <$> read spot v.toDocument := by
  cases v with
  | null => exact absurd rfl h
  | _ => rfl

theorem restsOn_readOption (read : Spot → Document → Read α) (spot : Spot) (h : w ≠ .null) :
    RestsOn (readOption read spot) (read spot) w [] w where
  part := rfl
  reads a ha := by
    rw [readOption_of_ne_null h, Except.map_eq_ok_iff] at ha
    obtain ⟨b, hb, -⟩ := ha
    exact ⟨b, hb⟩
  fails a ha v hv e he := by
    rw [Json.put, readOption_of_ne_null hv, he]
    rfl

/-- Items are read one by one up to the one that something else stands in for. -/
theorem readItems_set {read : Spot → Document → Read α} {items : List Json} {i : Nat}
    (hx : items[i]? = some x) {n : Nat} {as : List α}
    (h : readItems read ⟨.buffered, place⟩ n (Json.toDocuments items) = .ok as) :
    (∃ a, read ⟨.buffered, place⟩ x.toDocument = .ok a) ∧
      ∀ v e, read ⟨.buffered, place⟩ v.toDocument = .error e →
        readItems read ⟨.buffered, place⟩ n (Json.toDocuments (items.set i v)) = .error e := by
  induction items generalizing i n as with
  | nil => cases hx
  | cons w items ih =>
    obtain ⟨a, ha, hrest⟩ := Except.bind_eq_ok_iff.mp h
    cases i with
    | zero =>
      obtain rfl : w = x := Option.some.inj hx
      refine ⟨⟨a, ha⟩, fun v e he => ?_⟩
      exact Except.bind_eq_error_iff.mpr (.inl he)
    | succ i =>
      obtain ⟨bs, hbs, -⟩ := Except.bind_eq_ok_iff.mp hrest
      obtain ⟨hreads, hfails⟩ := ih hx hbs
      refine ⟨hreads, fun v e he => ?_⟩
      exact Except.bind_eq_error_iff.mpr
        (.inr ⟨a, ha, Except.bind_eq_error_iff.mpr (.inl (hfails v e he))⟩)

theorem restsOn_readList (read : Spot → Document → Read α) (place : Place) {items : List Json}
    {i : Nat} (h : items[i]? = some x) :
    RestsOn (readList read ⟨.buffered, place⟩) (read ⟨.buffered, place⟩) (.array items) [.index i]
      x where
  part := by simp [Json.get?, Json.child?, h]
  reads as has := by
    obtain ⟨bs, hbs, -⟩ := Except.bind_eq_ok_iff.mp has
    exact (readItems_set h hbs).1
  fails as has v hv e he := by
    obtain ⟨bs, hbs, -⟩ := Except.bind_eq_ok_iff.mp has
    have hchild : (Json.array items).child? (.index i) = some x := h
    rw [Json.put_cons hchild]
    exact Except.bind_eq_error_iff.mpr (.inl ((readItems_set h hbs).2 v e he))

end

namespace Layout

variable {σ β : Type} {layout : Layout} {place : Place}
  {step : String → Spot → Document → σ → Read σ} {inner : Document → Read β} {key : String}
  {x : Json}

theorem not_mem_of_readEntries (hknown : key ∈ layout.names) {spot : Spot} {doc : Document}
    {rest : List (Document × Document)} {seen : List String} {state : σ} {r : List String × σ}
    (h : layout.readEntries step spot ((.string (some key), doc) :: rest) seen state = .ok r) :
    key ∉ seen := by
  intro hseen
  simp [readEntries, hknown, hseen, Spot.fail] at h

/-- Entries are read one by one up to the one that something else stands in for. -/
theorem readEntries_insert {enter : σ → β → σ} (hknown : key ∈ layout.names)
    (htakes : Takes step ⟨.buffered, place⟩ key inner enter)
    {entries : List (String × Json)} (hx : entries.lookup key = some x) {seen : List String}
    {state : σ} {r : List String × σ}
    (h : layout.readEntries step ⟨.buffered, place⟩ (Json.toEntries entries) seen state = .ok r) :
    (∃ b, inner x.toDocument = .ok b) ∧ ∀ v e, inner v.toDocument = .error e →
      layout.readEntries step ⟨.buffered, place⟩ (Json.toEntries (Keyed.insert key v entries)) seen
        state = .error e := by
  have hstep (doc : Document) (state : σ) :
      step key (Spot.inside ⟨.buffered, place⟩ (.key key)) doc state = enter state <$> inner doc :=
    htakes doc state
  induction entries generalizing seen state with
  | nil => cases hx
  | cons f rest ih =>
    obtain ⟨name, w⟩ := f
    rw [Json.toEntries] at h
    by_cases hname : name = key
    · subst hname
      obtain rfl : w = x := by simpa using hx
      have hnew := not_mem_of_readEntries hknown h
      rw [readEntries_of_known hknown hnew, hstep, Except.bind_eq_ok_iff] at h
      obtain ⟨_, hw, -⟩ := h
      obtain ⟨b, hb, -⟩ := Except.map_eq_ok_iff.mp hw
      refine ⟨⟨b, hb⟩, fun v e he => ?_⟩
      rw [Keyed.insert, if_pos rfl, Json.toEntries, readEntries_of_known hknown hnew, hstep, he]
      rfl
    · have hrest : rest.lookup key = some x := by
        rwa [List.lookup_cons, beq_eq_false_iff_ne.mpr (Ne.symm hname)] at hx
      simp only [Keyed.insert, if_neg hname, Json.toEntries]
      by_cases hother : name ∈ layout.names
      · have hnew := not_mem_of_readEntries hother h
        rw [readEntries_of_known hother hnew, Except.bind_eq_ok_iff] at h
        obtain ⟨state', hw, h⟩ := h
        obtain ⟨hreads, hfails⟩ := ih hrest h
        refine ⟨hreads, fun v e he => ?_⟩
        rw [readEntries_of_known hother hnew, Except.bind_eq_error_iff]
        exact .inr ⟨state', hw, hfails v e he⟩
      · have hskip (others : List (Document × Document)) :=
          @readEntries_of_unknown _ step layout name hother ⟨.buffered, place⟩ (by simp)
            w.toDocument others seen state
        rw [hskip] at h
        simpa only [hskip] using ih hrest h

/-- A record that is written as an object rests on each known key. -/
theorem restsOn_read (enter : σ → β → σ) (hknown : key ∈ layout.names)
    (htakes : Takes step ⟨.buffered, place⟩ key inner enter)
    {entries : List (String × Json)} (hx : entries.lookup key = some x) {init : σ} :
    RestsOn (layout.read step init ⟨.buffered, place⟩) inner (.object entries) [.key key] x where
  part := by simp [Json.get?, Json.child?, hx]
  reads state hstate := by
    obtain ⟨_, hentries, -⟩ := Except.bind_eq_ok_iff.mp hstate
    exact (readEntries_insert hknown htakes hx hentries).1
  fails state hstate v _ e he := by
    obtain ⟨_, hentries, -⟩ := Except.bind_eq_ok_iff.mp hstate
    have hchild : (Json.object entries).child? (.key key) = some x := hx
    rw [Json.put_cons hchild]
    exact Except.bind_eq_error_iff.mpr
      (.inl ((readEntries_insert hknown htakes hx hentries).2 v e he))

end Layout

end Reading

end TypeSchema
