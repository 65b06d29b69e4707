import TypeSchema.Json.Document

/-!
Documents and the values that they write. A document has a value exactly if it is the document of
that value, and a value in which no object repeats a key is not changed by merging repeated keys.
-/
namespace TypeSchema

namespace Document

/-- The keys of entries, as far as they have values. -/
def keyNames (es : List (Document × Document)) : List String :=
  es.filterMap fun
    | (.string key, _) => key
    | _ => none

mutual

/-- No object in the document repeats a key, once escapes are resolved. -/
def hasDistinctKeys : Document → Bool
  | .array xs _ => haveDistinctKeys xs
  | .object es _ => decide (keyNames es).Nodup && haveDistinctKeysInside es
  | _ => true

def haveDistinctKeys : List Document → Bool
  | [] => true
  | x :: xs => hasDistinctKeys x && haveDistinctKeys xs

def haveDistinctKeysInside : List (Document × Document) → Bool
  | [] => true
  | (_, v) :: es => hasDistinctKeys v && haveDistinctKeysInside es

end

mutual

/-- A document that has a value is the one of that value. -/
theorem eq_toDocument {doc : Document} {v : Json} (h : doc.value? = some v) :
    doc = v.toDocument := by
  cases doc with
  | null => cases h; rfl
  | bool b => cases h; rfl
  | number n =>
    obtain ⟨n, rfl, rfl⟩ := Option.map_eq_some_iff.mp h
    rfl
  | string s =>
    obtain ⟨s, rfl, rfl⟩ := Option.map_eq_some_iff.mp h
    rfl
  | array xs closed =>
    cases closed with
    | false => simp [value?] at h
    | true =>
      obtain ⟨vs, hvs, rfl⟩ := Option.map_eq_some_iff.mp h
      rw [Json.toDocument, eq_toDocuments hvs]
  | object es closed =>
    cases closed with
    | false => simp [value?] at h
    | true =>
      obtain ⟨vs, hvs, rfl⟩ := Option.map_eq_some_iff.mp h
      rw [Json.toDocument, eq_toEntries hvs]
  | fault => cases h

theorem eq_toDocuments {xs : List Document} {vs : List Json} (h : values? xs = some vs) :
    xs = Json.toDocuments vs := by
  match xs with
  | [] =>
    cases h
    rfl
  | x :: xs =>
    obtain ⟨v, hv, rest, hrest, rfl⟩ : ∃ v, x.value? = some v ∧ ∃ rest, values? xs = some rest ∧
        v :: rest = vs := by simpa [values?, Option.bind_eq_some_iff] using h
    rw [Json.toDocuments, ← eq_toDocument hv, ← eq_toDocuments hrest]

theorem eq_toEntries {es : List (Document × Document)} {vs : List (String × Json)}
    (h : entries? es = some vs) : es = Json.toEntries vs := by
  match es with
  | [] =>
    cases h
    rfl
  | (.string (some k), x) :: es =>
    obtain ⟨v, hv, rest, hrest, rfl⟩ : ∃ v, x.value? = some v ∧ ∃ rest, entries? es = some rest ∧
        (k, v) :: rest = vs := by simpa [entries?, Option.bind_eq_some_iff] using h
    rw [Json.toEntries, ← eq_toDocument hv, ← eq_toEntries hrest]
  | (.string none, _) :: _ | (.null, _) :: _ | (.bool _, _) :: _ | (.number _, _) :: _
  | (.array _ _, _) :: _ | (.object _ _, _) :: _ | (.fault, _) :: _ => cases h

end

theorem maxNesting_pos : 0 < maxNesting := by decide

theorem json?_eq_some_iff {outer : Nat} {doc : Document} {v : Json} :
    doc.json? outer = some v ↔ doc = v.toDocument ∧ outer + v.nesting ≤ maxNesting := by
  rw [json?, Option.filter_eq_some_iff]
  constructor
  · rintro ⟨hv, hle⟩
    exact ⟨eq_toDocument hv, by simpa using hle⟩
  · rintro ⟨rfl, hle⟩
    exact ⟨v.value?_toDocument, by simpa using hle⟩

theorem keyNames_toEntries (es : List (String × Json)) :
    keyNames (Json.toEntries es) = Keyed.keys es := by
  induction es with
  | nil => rfl
  | cons e es ih => exact congrArg (e.1 :: ·) ih

end Document

namespace Json

theorem toDocuments_eq_map (xs : List Json) : toDocuments xs = xs.map toDocument := by
  induction xs with
  | nil => rfl
  | cons x xs ih => rw [toDocuments, ih, List.map_cons]

mutual

/-- Merging repeated keys leaves a value without them as it is. -/
theorem plain_of_hasDistinctKeys {v : Json} (h : v.toDocument.hasDistinctKeys = true) :
    v.plain = v := by
  cases v with
  | array xs => rw [plain, plainItems_of_haveDistinctKeys h]
  | object es =>
    simp only [toDocument, Document.hasDistinctKeys, Document.keyNames_toEntries,
      Bool.and_eq_true, decide_eq_true_eq] at h
    rw [plain, plainEntries_of_haveDistinctKeys h.2, Keyed.ofList_of_nodup h.1]
  | _ => rfl

theorem plainItems_of_haveDistinctKeys {xs : List Json}
    (h : Document.haveDistinctKeys (toDocuments xs) = true) : plainItems xs = xs := by
  match xs with
  | [] => rfl
  | x :: xs =>
    obtain ⟨hx, hxs⟩ := Bool.and_eq_true_iff.mp h
    rw [plainItems, plain_of_hasDistinctKeys hx, plainItems_of_haveDistinctKeys hxs]

theorem plainEntries_of_haveDistinctKeys {es : List (String × Json)}
    (h : Document.haveDistinctKeysInside (toEntries es) = true) : plainEntries es = es := by
  match es with
  | [] => rfl
  | (k, v) :: es =>
    obtain ⟨hv, hes⟩ := Bool.and_eq_true_iff.mp h
    rw [plainEntries, plain_of_hasDistinctKeys hv, plainEntries_of_haveDistinctKeys hes]

end

end Json

end TypeSchema
