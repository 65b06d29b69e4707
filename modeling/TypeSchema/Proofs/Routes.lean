import TypeSchema.Proofs.Documents
import TypeSchema.Proofs.Readers

/-!
The two ways from a text to a descriptor: straight from the text, whose content is set aside piece
by piece until the kind is known, and through the JSON value of the whole text. Where no object
repeats a key they give the same descriptors.
-/
namespace TypeSchema

namespace Json

theorem parse?_eq_some_iff {text : String} {w : Json} :
    parse? text = some w ↔ (Document.scan text.toList).2.all Document.isBlank = true ∧
      ∃ v : Json, (Document.scan text.toList).1 = v.toDocument ∧
        v.nesting ≤ Document.maxNesting ∧ v.plain = w := by
  unfold parse?
  obtain ⟨doc, rest⟩ := Document.scan text.toList
  by_cases hrest : rest.all Document.isBlank = true
  · simp [hrest, Document.json?_eq_some_iff, and_assoc]
  · simp [hrest]

end Json

open Reading

namespace Descriptor

theorem eq_string_of_readVariant {α : Type} {choices : List (String × α)} {place : Place}
    {doc : Document} {a : α} (h : readVariant choices ⟨.text, place⟩ doc = .ok a) :
    ∃ name : String, doc = (Json.string name).toDocument := by
  unfold readVariant at h
  split at h
  · exact ⟨_, rfl⟩
  · simp [Spot.wrongType_ne_ok] at h
  · exact absurd h (Spot.wrongType_ne_ok _ _ _ _)

theorem setAside_text_eq_ok_iff {doc : Document} {u : Unit} :
    Spot.setAside ⟨.text, []⟩ doc = .ok u ↔
      ∃ v : Json, doc = v.toDocument ∧ v.nesting < Document.maxNesting := by
  have hsome : (doc.json? 1).isSome = true ↔
      ∃ v : Json, doc = v.toDocument ∧ v.nesting < Document.maxNesting := by
    simp only [Option.isSome_iff_exists, Document.json?_eq_some_iff, Nat.add_comm 1,
      Nat.lt_iff_add_one_le]
  rw [← hsome]
  cases h : (doc.json? 1).isSome <;> simp [Spot.setAside, h, pure, Except.pure]

theorem readTag_text {es : List (String × Json)}
    (h : Json.nestingEntries es < Document.maxNesting) (form : Option Form) :
    readTag ⟨.text, []⟩ (Json.toEntries es) form =
      readTag ⟨.value, []⟩ (Json.toEntries es) form := by
  induction es generalizing form with
  | nil => rfl
  | cons e es ih =>
    obtain ⟨k, v⟩ := e
    rw [Json.nestingEntries, Nat.max_lt] at h
    have haside := setAside_text_eq_ok_iff (u := ()) |>.mpr ⟨v, rfl, h.1⟩
    simp only [Json.toEntries, readTag, haside, ih h.2]
    split
    · split
      · rfl
      · rfl
    · rfl

theorem exists_of_readTag_text {entries : List (Document × Document)} {form found : Option Form}
    (h : readTag ⟨.text, []⟩ entries form = .ok found) :
    ∃ es, entries = Json.toEntries es ∧ Json.nestingEntries es < Document.maxNesting := by
  induction entries generalizing form with
  | nil => exact ⟨[], rfl, Document.maxNesting_pos⟩
  | cons e rest ih =>
    obtain ⟨key, doc⟩ := e
    match key with
    | .string (some k) =>
      obtain ⟨v, rfl, hv, form', hrest⟩ : ∃ v : Json, doc = v.toDocument ∧
          v.nesting < Document.maxNesting ∧
          ∃ form', readTag ⟨.text, []⟩ rest form' = .ok found := by
        simp only [readTag] at h
        split at h
        · cases form with
          | some form => simp [Spot.fail] at h
          | none =>
            obtain ⟨form', hkind, hrest⟩ := Except.bind_eq_ok_iff.mp h
            obtain ⟨name, hname⟩ := eq_string_of_readVariant hkind
            exact ⟨_, hname, Document.maxNesting_pos, _, hrest⟩
        · obtain ⟨_, haside, hrest⟩ := Except.bind_eq_ok_iff.mp h
          obtain ⟨v, hv, hle⟩ := setAside_text_eq_ok_iff.mp haside
          exact ⟨v, hv, hle, _, hrest⟩
      obtain ⟨es, rfl, hes⟩ := ih hrest
      exact ⟨(k, v) :: es, rfl, Nat.max_lt.mpr ⟨hv, hes⟩⟩
    | .string none | .null | .bool _ | .number _ | .array _ _ | .object _ _ | .fault => cases h

theorem setAside_items_text_iff {docs : List Document} {u : Unit} :
    docs.forM (Spot.setAside ⟨.text, []⟩) = .ok u ↔
      ∃ vs, docs = Json.toDocuments vs ∧ Json.nestingItems vs < Document.maxNesting := by
  induction docs with
  | nil =>
    exact iff_of_true rfl ⟨[], rfl, Document.maxNesting_pos⟩
  | cons doc docs ih =>
    rw [List.forM, Except.bind_eq_ok_iff]
    constructor
    · rintro ⟨_, hdoc, hdocs⟩
      obtain ⟨v, rfl, hv⟩ := setAside_text_eq_ok_iff.mp hdoc
      obtain ⟨vs, rfl, hvs⟩ := ih.mp hdocs
      exact ⟨v :: vs, rfl, Nat.max_lt.mpr ⟨hv, hvs⟩⟩
    · rintro ⟨vs, hdocs, hvs⟩
      cases vs with
      | nil => cases hdocs
      | cons v vs =>
        obtain ⟨rfl, rfl⟩ := List.cons.inj hdocs
        obtain ⟨hv, hvs⟩ := Nat.max_lt.mp hvs
        exact ⟨(), setAside_text_eq_ok_iff.mpr ⟨v, rfl, hv⟩, ih.mpr ⟨vs, rfl, hvs⟩⟩

theorem readTagged_text {v : Json} (h : v.nesting ≤ Document.maxNesting) :
    readTagged ⟨.text, []⟩ v.toDocument = readTagged ⟨.value, []⟩ v.toDocument := by
  cases v with
  | object es =>
    simp only [Json.toDocument, readTagged, readTag_text h]
    rfl
  | array xs =>
    cases xs with
    | nil => rfl
    | cons x xs =>
      rw [Json.nesting, Json.nestingItems, Nat.succ_le_iff, Nat.max_lt] at h
      have haside := setAside_items_text_iff (u := ()) |>.mpr ⟨xs, rfl, h.2⟩
      have hvalue : (Json.toDocuments xs).forM (Spot.setAside ⟨.value, []⟩) = .ok () :=
        Spot.forM_setAside_of_ne_text (by simp) _
      simp only [Json.toDocument, Json.toDocuments, readTagged, haside, hvalue]
      rfl
  | _ => rfl

theorem exists_of_readTagged_text {doc content : Document} {form : Form}
    (h : readTagged ⟨.text, []⟩ doc = .ok (form, content)) :
    ∃ v : Json, doc = v.toDocument ∧ v.nesting ≤ Document.maxNesting := by
  rcases readTagged_eq_ok_iff.mp h with ⟨_, rfl, -, htag⟩ | ⟨kind, rest, rfl, -, hkind, hrest⟩
  · obtain ⟨es, rfl, hes⟩ := exists_of_readTag_text htag
    exact ⟨.object es, rfl, hes⟩
  · obtain ⟨name, rfl⟩ := eq_string_of_readVariant hkind
    obtain ⟨vs, rfl, hvs⟩ := setAside_items_text_iff.mp hrest
    exact ⟨.array (.string name :: vs), rfl, Nat.max_lt.mpr ⟨Document.maxNesting_pos, hvs⟩⟩

/-- A value that is not nested too much is read alike by both routes. -/
theorem read_text {v : Json} (h : v.nesting ≤ Document.maxNesting) :
    read ⟨.text, []⟩ v.toDocument = ofJson v := by
  rw [ofJson, fromJson, read_eq, read_eq, readTagged_text h]
  rfl

theorem ofText_eq_ok_iff {text : String} {d : Descriptor} :
    ofText text = .ok d ↔ ∃ v : Json, (Document.scan text.toList).1 = v.toDocument ∧
      v.nesting ≤ Document.maxNesting ∧ ofJson v = .ok d := by
  constructor
  · intro h
    have htagged := h
    rw [ofText, fromText, read_eq, Except.bind_eq_ok_iff] at htagged
    obtain ⟨_, htagged, -⟩ := htagged
    obtain ⟨v, hv, hle⟩ := exists_of_readTagged_text htagged
    refine ⟨v, hv, hle, ?_⟩
    rw [← read_text hle, ← hv]
    exact h
  · rintro ⟨v, hv, hle, h⟩
    rw [ofText, fromText, hv, read_text hle, h]

/-- Both ways from a text to a descriptor lead to the same descriptors. -/
theorem routes_agree (text : String)
    (h : (Document.scan text.toList).1.hasDistinctKeys = true) (d : Descriptor) :
    ((Document.scan text.toList).2.all Document.isBlank = true ∧ ofText text = .ok d) ↔
      ∃ v, Json.parse? text = some v ∧ ofJson v = .ok d := by
  simp only [ofText_eq_ok_iff, Json.parse?_eq_some_iff]
  constructor
  · rintro ⟨hblank, v, hv, hle, hd⟩
    exact ⟨v, ⟨hblank, v, hv, hle, Json.plain_of_hasDistinctKeys (hv ▸ h)⟩, hd⟩
  · rintro ⟨_, ⟨hblank, v, hv, hle, rfl⟩, hd⟩
    rw [Json.plain_of_hasDistinctKeys (hv ▸ h)] at hd
    exact ⟨hblank, v, hv, hle, hd⟩

/-- A descriptor as an array, with a key that is written with an escape and a line break at the
end. -/
theorem routes_agree_escapedKey :
    (Document.scan "[\"union\",[\x7b\"\\u006bind\":\"null\"\x7d]]\n".toList).1.hasDistinctKeys =
        true ∧
      ofText "[\"union\",[\x7b\"\\u006bind\":\"null\"\x7d]]\n" = .ok (.union [.null]) := by
  have hscan : Document.scan "[\"union\",[\x7b\"\\u006bind\":\"null\"\x7d]]\n".toList =
      ((Json.array [.string "union", .array [.object [("kind", .string "null")]]]).toDocument,
        ['\n']) := by
    simp only [String.reduceToList]
    rfl
  have hparse : Json.parse? "[\"union\",[\x7b\"\\u006bind\":\"null\"\x7d]]\n" =
      some (.array [.string "union", .array [.object [("kind", .string "null")]]]) := by
    rw [Json.parse?_eq_some_iff, hscan]
    exact ⟨rfl, _, rfl, by decide, rfl⟩
  have hdistinct := congrArg (·.1.hasDistinctKeys) hscan
  exact ⟨hdistinct, ((routes_agree _ hdistinct (.union [.null])).mpr ⟨_, hparse, rfl⟩).2⟩

end Descriptor

end TypeSchema
