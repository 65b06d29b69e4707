import TypeSchema.Schema.Basic

/-!
Schemas are read back from the JSON that is written for them, and from nothing else. The keys, and
the form of what stands under `type` and `items`, tell the kinds of schemas apart. The names of
properties stand one object further in and are never taken for keywords.
-/
namespace TypeSchema

/-- Where each item is read from exactly what is written for it, so is a list of items. -/
theorem mapM_eq_some_iff {α β : Type} {write : α → β} {read? : β → Option α}
    (h : ∀ x y, read? y = some x ↔ write x = y) {xs : List α} {ys : List β} :
    ys.mapM read? = some xs ↔ xs.map write = ys := by
  induction ys generalizing xs with
  | nil => cases xs <;> simp
  | cons y ys ih => cases xs <;> simp [List.mapM_cons, Option.bind_eq_some_iff, h, ih]

namespace Scalar

def ofJson? : Json → Option Scalar
  | .string s => some (.string s)
  | .number n => some (.number n)
  | .bool b => some (.bool b)
  | _ => none

theorem ofJson?_eq_some_iff (s : Scalar) (j : Json) : ofJson? j = some s ↔ s.toJson = j := by
  cases s <;> cases j <;> simp [ofJson?, toJson, eq_comm]

end Scalar

namespace Json

def string? : Json → Option String
  | .string s => some s
  | _ => none

theorem string?_eq_some_iff (s : String) (j : Json) : j.string? = some s ↔ .string s = j := by
  cases j <;> simp [string?, eq_comm]

end Json

namespace Schema

mutual

/-- The schema that a value is written for. -/
def ofJson? : Json → Option Schema
  | .object entries => ofEntries? entries
  | _ => none

/-- The schema that is written with these entries, in this order. -/
def ofEntries? : List (String × Json) → Option Schema
  | [] => some .any
  | [("anyOf", .array arms)] => (listOfJson? arms).map .anyOf
  | [("const", value)] => (Scalar.ofJson? value).map .const
  | [("type", .array names)] => (names.mapM Json.string?).map .types
  | [("type", .string "array"), ("items", .array items)] => (listOfJson? items).map .tuple
  | [("type", .string "array"), ("items", items)] => (ofJson? items).map .array
  | [("type", .string "object"), ("properties", .object properties), ("required", .array required),
      ("additionalProperties", .bool false)] =>
    (propertiesOfJson? properties).bind fun ps => (required.mapM Json.string?).map (.object ps)
  | _ => none

def listOfJson? : List Json → Option (List Schema)
  | [] => some []
  | j :: rest => (ofJson? j).bind fun s => (listOfJson? rest).map (s :: ·)

def propertiesOfJson? : List (String × Json) → Option (List (String × Schema))
  | [] => some []
  | (name, j) :: rest => (ofJson? j).bind fun s => (propertiesOfJson? rest).map ((name, s) :: ·)

end

/-! ### What is written is read -/

theorem exists_toJson_eq_object (s : Schema) : ∃ entries, s.toJson = .object entries := by
  cases s <;> exact ⟨_, rfl⟩

mutual

theorem ofJson?_toJson (s : Schema) : ofJson? s.toJson = some s := by
  cases s with
  | object properties required =>
    have hproperties := propertiesOfJson?_toJson properties
    have hrequired := (mapM_eq_some_iff Json.string?_eq_some_iff).mpr (rfl : required.map _ = _)
    simp [toJson, typeEntry, ofJson?, ofEntries?, hproperties, hrequired]
  | array items =>
    have hitems := ofJson?_toJson items
    obtain ⟨entries, hentries⟩ := exists_toJson_eq_object items
    -- one schema for all items is an object, where schemas for the positions are an array
    have hstep : ofJson? (.object [typeEntry "array", ("items", .object entries)]) =
        (ofJson? (.object entries)).map .array := rfl
    rw [toJson, hentries, hstep, ← hentries, hitems]
    rfl
  | tuple items =>
    have hitems := listOfJson?_toJson items
    simp [toJson, typeEntry, ofJson?, ofEntries?, hitems]
  | types names =>
    have hnames := (mapM_eq_some_iff Json.string?_eq_some_iff).mpr (rfl : names.map _ = _)
    simp [toJson, ofJson?, ofEntries?, hnames]
  | const value =>
    have hvalue := (Scalar.ofJson?_eq_some_iff value _).mpr rfl
    simp [toJson, ofJson?, ofEntries?, hvalue]
  | any => rfl
  | anyOf arms =>
    have harms := listOfJson?_toJson arms
    simp [toJson, ofJson?, ofEntries?, harms]

theorem listOfJson?_toJson (ss : List Schema) : listOfJson? (listToJson ss) = some ss := by
  match ss with
  | [] => rfl
  | s :: rest => simp [listToJson, listOfJson?, ofJson?_toJson s, listOfJson?_toJson rest]

theorem propertiesOfJson?_toJson (properties : List (String × Schema)) :
    propertiesOfJson? (propertiesToJson properties) = some properties := by
  match properties with
  | [] => rfl
  | (name, s) :: rest =>
    simp [propertiesToJson, propertiesOfJson?, ofJson?_toJson s, propertiesOfJson?_toJson rest]

end

/-! ### What is read was written -/

mutual

theorem toJson_of_ofJson? {j : Json} {s : Schema} (h : ofJson? j = some s) : s.toJson = j := by
  match j with
  | .object entries => exact toJson_of_ofEntries? h
  | .null | .bool _ | .number _ | .string _ | .array _ => cases h

theorem toJson_of_ofEntries? {entries : List (String × Json)} {s : Schema}
    (h : ofEntries? entries = some s) : s.toJson = .object entries := by
  unfold ofEntries? at h
  -- one case for each form of entries, in the order of the reader
  split at h
  case h_1 =>
    cases h
    rfl
  case h_2 arms =>
    obtain ⟨ss, hss, rfl⟩ := Option.map_eq_some_iff.mp h
    rw [toJson, listToJson_of_listOfJson? hss]
  case h_3 value =>
    obtain ⟨c, hc, rfl⟩ := Option.map_eq_some_iff.mp h
    rw [toJson, (Scalar.ofJson?_eq_some_iff c value).mp hc]
  case h_4 names =>
    obtain ⟨ns, hns, rfl⟩ := Option.map_eq_some_iff.mp h
    rw [toJson, (mapM_eq_some_iff Json.string?_eq_some_iff).mp hns]
  case h_5 items =>
    obtain ⟨ss, hss, rfl⟩ := Option.map_eq_some_iff.mp h
    rw [toJson, listToJson_of_listOfJson? hss, typeEntry]
  case h_6 items _ =>
    obtain ⟨s, hs, rfl⟩ := Option.map_eq_some_iff.mp h
    rw [toJson, toJson_of_ofJson? hs, typeEntry]
  case h_7 properties required =>
    obtain ⟨ps, hps, h⟩ := Option.bind_eq_some_iff.mp h
    obtain ⟨names, hnames, rfl⟩ := Option.map_eq_some_iff.mp h
    rw [toJson, propertiesToJson_of_propertiesOfJson? hps,
      (mapM_eq_some_iff Json.string?_eq_some_iff).mp hnames, typeEntry]
  case h_8 => cases h

theorem listToJson_of_listOfJson? {js : List Json} {ss : List Schema}
    (h : listOfJson? js = some ss) : listToJson ss = js := by
  match js with
  | [] =>
    cases h
    rfl
  | j :: rest =>
    obtain ⟨s, hs, h⟩ := Option.bind_eq_some_iff.mp h
    obtain ⟨ss, hss, rfl⟩ := Option.map_eq_some_iff.mp h
    rw [listToJson, toJson_of_ofJson? hs, listToJson_of_listOfJson? hss]

theorem propertiesToJson_of_propertiesOfJson? {entries : List (String × Json)}
    {properties : List (String × Schema)} (h : propertiesOfJson? entries = some properties) :
    propertiesToJson properties = entries := by
  match entries with
  | [] =>
    cases h
    rfl
  | (name, j) :: rest =>
    obtain ⟨s, hs, h⟩ := Option.bind_eq_some_iff.mp h
    obtain ⟨ss, hss, rfl⟩ := Option.map_eq_some_iff.mp h
    rw [propertiesToJson, toJson_of_ofJson? hs, propertiesToJson_of_propertiesOfJson? hss]

end

/-- A value is read as a schema exactly if it is what is written for the schema, with the keys in
their order. So no two schemas are written alike. -/
theorem json_uniquely_decodable :
    (∀ s j, ofJson? j = some s ↔ s.toJson = j) ∧ ∀ s t : Schema, s.toJson = t.toJson ↔ s = t := by
  refine ⟨fun s j => ⟨toJson_of_ofJson?, ?_⟩, fun s t => ⟨fun h => ?_, congrArg toJson⟩⟩
  · rintro rfl
    exact ofJson?_toJson s
  · exact Option.some.inj (by rw [← ofJson?_toJson s, h, ofJson?_toJson t])

/-- Keywords as the names of properties. -/
example :
    ofJson? (.object [("type", .string "object"),
        ("properties",
          .object [("type", .object []), ("items", .object [("const", .string "anyOf")])]),
        ("required", .array [.string "items"]), ("additionalProperties", .bool false)]) =
      some (.object [("type", .any), ("items", .const (.string "anyOf"))] ["items"]) :=
  rfl

end Schema

end TypeSchema
