import TypeSchema.Compile.Entity
import TypeSchema.Proofs.Decoding

/-!
Entities are read back from the JSON that is written for them, and from nothing else. An alternative
is told by the text under `type`, and only null and any have nothing under `value`; the names of
properties stand one object further in.
-/
namespace TypeSchema

namespace Primitive

def ofJson? : Json → Option Primitive
  | .string "number" => some .number
  | .string "string" => some .string
  | .string "boolean" => some .boolean
  | _ => none

theorem ofJson?_eq_some_iff (kind : Primitive) (j : Json) :
    ofJson? j = some kind ↔ Json.string kind.name = j := by
  constructor
  · intro h
    unfold ofJson? at h
    split at h <;> cases h <;> rfl
  · rintro rfl
    cases kind <;> rfl

end Primitive

namespace Alternative

mutual

/-- The alternative that a value is written for. -/
def ofJson? : Json → Option Alternative
  | .object entries => ofEntries? entries
  | _ => none

/-- The alternative that is written with these entries, in this order. -/
def ofEntries? : List (String × Json) → Option Alternative
  | [("type", .string "null")] => some .null
  | [("type", .string "any")] => some .any
  | [("type", .string "value"), ("value", kind)] => (Primitive.ofJson? kind).map .value
  | [("type", .string "literal"), ("value", s)] => (Scalar.ofJson? s).map .literal
  | [("type", .string "object"), ("value", .object properties)] =>
    (propertiesOfJson? properties).map .object
  | [("type", .string "array"), ("value", .array items)] => (listOfJson? items).map .array
  | [("type", .string "tuple"), ("value", .array positions)] =>
    (positionsOfJson? positions).map .tuple
  | _ => none

def listOfJson? : List Json → Option (List Alternative)
  | [] => some []
  | j :: rest => (ofJson? j).bind fun a => (listOfJson? rest).map (a :: ·)

def positionsOfJson? : List Json → Option (List (List Alternative))
  | [] => some []
  | .array items :: rest =>
    (listOfJson? items).bind fun as => (positionsOfJson? rest).map (as :: ·)
  | _ :: _ => none

def propertiesOfJson? : List (String × Json) → Option Properties
  | [] => some []
  | (name, .object [("is_optional", .bool optional), ("values", .array items)]) :: rest =>
    (listOfJson? items).bind fun as =>
      (propertiesOfJson? rest).map ((name, ⟨optional, as⟩) :: ·)
  | _ :: _ => none

end

/-! ### What is written is read -/

mutual

theorem ofJson?_toJson (a : Alternative) : ofJson? a.toJson = some a := by
  cases a with
  | value kind =>
    have hkind := (Primitive.ofJson?_eq_some_iff kind _).mpr rfl
    simp [toJson, tagged, ofJson?, ofEntries?, hkind]
  | literal s =>
    have hs := (Scalar.ofJson?_eq_some_iff s _).mpr rfl
    simp [toJson, tagged, ofJson?, ofEntries?, hs]
  | null => rfl
  | any => rfl
  | object properties =>
    have hproperties := propertiesOfJson?_toJson properties
    simp [toJson, tagged, ofJson?, ofEntries?, hproperties]
  | array items =>
    have hitems := listOfJson?_toJson items
    simp [toJson, tagged, ofJson?, ofEntries?, hitems]
  | tuple positions =>
    have hpositions := positionsOfJson?_toJson positions
    simp [toJson, tagged, ofJson?, ofEntries?, hpositions]

theorem listOfJson?_toJson (as : List Alternative) : listOfJson? (listToJson as) = some as := by
  match as with
  | [] => rfl
  | a :: rest => simp [listToJson, listOfJson?, ofJson?_toJson a, listOfJson?_toJson rest]

theorem positionsOfJson?_toJson (positions : List (List Alternative)) :
    positionsOfJson? (positionsToJson positions) = some positions := by
  match positions with
  | [] => rfl
  | as :: rest =>
    simp [positionsToJson, positionsOfJson?, listOfJson?_toJson as, positionsOfJson?_toJson rest]

theorem propertiesOfJson?_toJson (properties : Properties) :
    propertiesOfJson? (propertiesToJson properties) = some properties := by
  match properties with
  | [] => rfl
  | (name, ⟨optional, as⟩) :: rest =>
    simp [propertiesToJson, propertiesOfJson?, listOfJson?_toJson as,
      propertiesOfJson?_toJson rest]

end

/-! ### What is read was written -/

mutual

theorem toJson_of_ofJson? {j : Json} {a : Alternative} (h : ofJson? j = some a) :
    a.toJson = j := by
  match j with
  | .object entries => exact toJson_of_ofEntries? h
  | .null | .bool _ | .number _ | .string _ | .array _ => cases h

theorem toJson_of_ofEntries? {entries : List (String × Json)} {a : Alternative}
    (h : ofEntries? entries = some a) : a.toJson = .object entries := by
  unfold ofEntries? at h
  -- one case for each form of entries, in the order of the reader
  split at h
  case h_1 =>
    cases h
    rfl
  case h_2 =>
    cases h
    rfl
  case h_3 j =>
    obtain ⟨kind, hkind, rfl⟩ := Option.map_eq_some_iff.mp h
    rw [toJson, (Primitive.ofJson?_eq_some_iff kind j).mp hkind, tagged]
  case h_4 j =>
    obtain ⟨s, hs, rfl⟩ := Option.map_eq_some_iff.mp h
    rw [toJson, (Scalar.ofJson?_eq_some_iff s j).mp hs, tagged]
  case h_5 entries =>
    obtain ⟨properties, hproperties, rfl⟩ := Option.map_eq_some_iff.mp h
    rw [toJson, propertiesToJson_of_propertiesOfJson? hproperties, tagged]
  case h_6 js =>
    obtain ⟨items, hitems, rfl⟩ := Option.map_eq_some_iff.mp h
    rw [toJson, listToJson_of_listOfJson? hitems, tagged]
  case h_7 js =>
    obtain ⟨positions, hpositions, rfl⟩ := Option.map_eq_some_iff.mp h
    rw [toJson, positionsToJson_of_positionsOfJson? hpositions, tagged]
  case h_8 => cases h

theorem listToJson_of_listOfJson? {js : List Json} {as : List Alternative}
    (h : listOfJson? js = some as) : listToJson as = js := by
  match js with
  | [] =>
    cases h
    rfl
  | j :: rest =>
    obtain ⟨a, ha, h⟩ := Option.bind_eq_some_iff.mp h
    obtain ⟨as, has, rfl⟩ := Option.map_eq_some_iff.mp h
    rw [listToJson, toJson_of_ofJson? ha, listToJson_of_listOfJson? has]

theorem positionsToJson_of_positionsOfJson? {js : List Json}
    {positions : List (List Alternative)} (h : positionsOfJson? js = some positions) :
    positionsToJson positions = js := by
  unfold positionsOfJson? at h
  split at h
  case h_1 =>
    cases h
    rfl
  case h_2 items rest =>
    obtain ⟨as, has, h⟩ := Option.bind_eq_some_iff.mp h
    obtain ⟨positions, hpositions, rfl⟩ := Option.map_eq_some_iff.mp h
    rw [positionsToJson, listToJson_of_listOfJson? has,
      positionsToJson_of_positionsOfJson? hpositions]
  case h_3 => cases h

theorem propertiesToJson_of_propertiesOfJson? {entries : List (String × Json)}
    {properties : Properties} (h : propertiesOfJson? entries = some properties) :
    propertiesToJson properties = entries := by
  unfold propertiesOfJson? at h
  split at h
  case h_1 =>
    cases h
    rfl
  case h_2 name optional items rest =>
    obtain ⟨as, has, h⟩ := Option.bind_eq_some_iff.mp h
    obtain ⟨properties, hproperties, rfl⟩ := Option.map_eq_some_iff.mp h
    rw [propertiesToJson, listToJson_of_listOfJson? has,
      propertiesToJson_of_propertiesOfJson? hproperties]
  case h_3 => cases h

end

end Alternative

namespace Entity

/-- A name may be missing, and is then written as null. -/
def nameOfJson? : Json → Option (Option String)
  | .null => some none
  | .string s => some (some s)
  | _ => none

theorem nameOfJson?_eq_some_iff (name : Option String) (j : Json) :
    nameOfJson? j = some name ↔ nameToJson name = j := by
  cases name <;> cases j <;> simp [nameOfJson?, nameToJson, eq_comm]

def variantOfJson? : Json → Option Variant
  | .object [("name", name), ("properties", .object properties)] =>
    (nameOfJson? name).bind fun name =>
      (Alternative.propertiesOfJson? properties).map (Variant.mk name)
  | _ => none

theorem variantOfJson?_eq_some_iff (v : Variant) (j : Json) :
    variantOfJson? j = some v ↔ variantToJson v = j := by
  constructor
  · intro h
    unfold variantOfJson? at h
    split at h
    case h_1 name properties =>
      obtain ⟨name, hname, h⟩ := Option.bind_eq_some_iff.mp h
      obtain ⟨properties, hproperties, rfl⟩ := Option.map_eq_some_iff.mp h
      rw [variantToJson, (nameOfJson?_eq_some_iff name _).mp hname,
        Alternative.propertiesToJson_of_propertiesOfJson? hproperties]
    case h_2 => cases h
  · rintro rfl
    have hname := (nameOfJson?_eq_some_iff v.name _).mpr rfl
    have hproperties := Alternative.propertiesOfJson?_toJson v.properties
    simp [variantToJson, variantOfJson?, hname, hproperties]

/-- The entity that a value is written for. -/
def ofJson? : Json → Option Entity
  | .object [("name", name), ("is_array", .bool isArray), ("allowed_types", .array variants)] =>
    (nameOfJson? name).bind fun name => (variants.mapM variantOfJson?).map (Entity.mk name isArray)
  | _ => none

theorem ofJson?_eq_some_iff (e : Entity) (j : Json) : ofJson? j = some e ↔ e.toJson = j := by
  constructor
  · intro h
    unfold ofJson? at h
    split at h
    case h_1 name isArray variants =>
      obtain ⟨name, hname, h⟩ := Option.bind_eq_some_iff.mp h
      obtain ⟨variants, hvariants, rfl⟩ := Option.map_eq_some_iff.mp h
      rw [toJson, (nameOfJson?_eq_some_iff name _).mp hname,
        (mapM_eq_some_iff variantOfJson?_eq_some_iff).mp hvariants]
    case h_2 => cases h
  · rintro rfl
    have hname := (nameOfJson?_eq_some_iff e.name _).mpr rfl
    have hvariants := (mapM_eq_some_iff variantOfJson?_eq_some_iff).mpr
      (rfl : e.variants.map _ = _)
    simp [toJson, ofJson?, hname, hvariants]

/-- A value is read as an entity exactly if it is what is written for the entity: nothing of an
entity is lost, and no two entities are written alike. -/
theorem json_lossless :
    (∀ e j, ofJson? j = some e ↔ e.toJson = j) ∧ ∀ e f : Entity, e.toJson = f.toJson ↔ e = f := by
  refine ⟨ofJson?_eq_some_iff, fun e f => ⟨fun h => ?_, congrArg toJson⟩⟩
  have he := (ofJson?_eq_some_iff e _).mpr rfl
  have hf := (ofJson?_eq_some_iff f _).mpr rfl
  exact Option.some.inj (he.symm.trans (h ▸ hf))

/-- Properties under the two keys of an alternative: a primitive, and a literal of the same
name. -/
example :
    ofJson? (.object [("name", .null), ("is_array", .bool false), ("allowed_types", .array [.object
        [("name", .string "any"), ("properties", .object
          [("type", .object [("is_optional", .bool true), ("values", .array [.object
              [("type", .string "value"), ("value", .string "number")]])]),
            ("value", .object [("is_optional", .bool false), ("values", .array [.object
              [("type", .string "literal"), ("value", .string "number")]])])])]])]) =
      some ⟨none, false, [⟨some "any", [("type", ⟨true, [.value .number]⟩),
        ("value", ⟨false, [.literal (.string "number")]⟩)]⟩]⟩ :=
  rfl

end Entity

end TypeSchema
