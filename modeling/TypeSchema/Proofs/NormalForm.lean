import Mathlib.Data.List.Nodup
import TypeSchema.Proofs.WellFormed

/-!
What the schema of a list of alternatives keeps of the list. The normal form has each primitive
where it comes first, whether null is there, and the other alternatives in their order, with
everything inside them in normal form as well. With null written out a schema is made of the normal
form alone, and the normal form can be read back from it.
-/
namespace TypeSchema

mutual

/-- The part of a list of alternatives that its schema shows. -/
structure NormalForm where
  primitives : List Primitive
  nullable : Bool
  entries : List NormalForm.Entry
  deriving Repr

/-- An alternative that is neither a primitive nor null. -/
inductive NormalForm.Entry where
  | literal (value : Scalar)
  | any
  | object (properties : List (String × NormalForm.Slot))
  | array (items : NormalForm)
  | tuple (positions : List NormalForm)
  deriving Repr

/-- A property. Whether it is optional shows only in whether it must be there. -/
structure NormalForm.Slot where
  required : Bool
  form : NormalForm
  deriving Repr

end

def Primitive.named? : String → Option Primitive
  | "number" => some .number
  | "string" => some .string
  | "boolean" => some .boolean
  | _ => none

theorem Primitive.named?_name (kind : Primitive) : named? kind.name = some kind := by
  cases kind <;> rfl

theorem Primitive.named?_null : named? "null" = none := rfl

namespace Alternative

def primitive? : Alternative → Option Primitive
  | .value kind => some kind
  | _ => none

/-- The distinct primitives among alternatives, each where it comes first. -/
def kinds (as : List Alternative) : List Primitive := (as.filterMap primitive?).eraseDups

def isEntry : Alternative → Bool
  | .value _ => false
  | .null => false
  | _ => true

theorem freshPrimitives_eq (seen : List Primitive) (as : List Alternative) :
    freshPrimitives seen as =
      ((as.filterMap primitive?).filter fun kind => !seen.contains kind).eraseDups := by
  induction as generalizing seen with
  | nil => simp [freshPrimitives]
  | cons a as ih =>
    cases a with
    | value kind =>
      rw [freshPrimitives, List.filterMap_cons_some (f := primitive?) (b := kind) rfl]
      split
      next hseen => rw [ih, List.filter_cons_of_neg (by simpa using hseen)]
      next hseen =>
        rw [ih, List.filter_cons_of_pos (by simpa using hseen), List.eraseDups_cons,
          List.filter_filter]
        congr 3
        funext other
        cases other <;> cases kind <;> simp
    | _ => exact ih seen

theorem primitives_eq_kinds (as : List Alternative) : primitives as = kinds as := by
  simp [primitives, freshPrimitives_eq, kinds]

end Alternative

namespace NormalForm

open TypeSchema.Alternative (kinds isNull isEntry)

mutual

def entry : Alternative → List Entry
  | .value _ => []
  | .null => []
  | .literal s => [.literal s]
  | .any => [.any]
  | .object properties => [.object (slots properties)]
  | .array items => [.array ⟨kinds items, items.any isNull, entriesOf items⟩]
  | .tuple positions => [.tuple (forms positions)]

def entriesOf : List Alternative → List Entry
  | [] => []
  | a :: rest => entry a ++ entriesOf rest

def forms : List (List Alternative) → List NormalForm
  | [] => []
  | as :: rest => ⟨kinds as, as.any isNull, entriesOf as⟩ :: forms rest

def slots : List (String × Property) → List (String × Slot)
  | [] => []
  | (name, ⟨optional, as⟩) :: rest =>
    (name, ⟨(Property.mk optional as).isRequired, ⟨kinds as, as.any isNull, entriesOf as⟩⟩) ::
      slots rest

end

def of (as : List Alternative) : NormalForm := ⟨kinds as, as.any isNull, entriesOf as⟩

def slotOf (p : Property) : Slot := ⟨p.isRequired, of p.alternatives⟩

theorem entriesOf_eq_flatMap (as : List Alternative) : entriesOf as = as.flatMap entry := by
  induction as with
  | nil => rfl
  | cons a as ih => simp [entriesOf, ih]

theorem forms_eq_map (positions : List (List Alternative)) :
    forms positions = positions.map of := by
  induction positions with
  | nil => rfl
  | cons as rest ih => simp [forms, of, ih]

theorem slots_eq_map (properties : Properties) :
    slots properties = properties.map fun p => (p.1, slotOf p.2) := by
  induction properties with
  | nil => rfl
  | cons p rest ih =>
    obtain ⟨name, ⟨optional, as⟩⟩ := p
    rw [slots, ih, List.map_cons, slotOf, of]

/-! ### The schema of a normal form -/

def typeList : List Primitive → Bool → List Schema
  | [], false => []
  | kinds, nullable => [.types (kinds.map Primitive.name ++ if nullable then ["null"] else [])]

def requiredSlots (properties : List (String × Slot)) : List String :=
  (properties.filter (·.2.required)).map Prod.fst

mutual

def schema : NormalForm → Schema
  | ⟨kinds, nullable, es⟩ => .combine (typeList kinds nullable ++ entrySchemas es)

def entrySchema : Entry → Schema
  | .literal s => .const s
  | .any => .any
  | .object properties => .object (slotSchemas properties) (requiredSlots properties)
  | .array items => .array (schema items)
  | .tuple positions => .tuple (formSchemas positions)

def entrySchemas : List Entry → List Schema
  | [] => []
  | e :: rest => entrySchema e :: entrySchemas rest

def formSchemas : List NormalForm → List Schema
  | [] => []
  | f :: rest => schema f :: formSchemas rest

def slotSchemas : List (String × Slot) → List (String × Schema)
  | [] => []
  | (name, ⟨_, f⟩) :: rest => (name, schema f) :: slotSchemas rest

end

theorem entrySchemas_eq_map (es : List Entry) : entrySchemas es = es.map entrySchema := by
  induction es with
  | nil => rfl
  | cons e rest ih => simp [entrySchemas, ih]

theorem formSchemas_eq_map (fs : List NormalForm) : formSchemas fs = fs.map schema := by
  induction fs with
  | nil => rfl
  | cons f rest ih => simp [formSchemas, ih]

theorem slotSchemas_eq_map (properties : List (String × Slot)) :
    slotSchemas properties = properties.map fun p => (p.1, schema p.2.form) := by
  induction properties with
  | nil => rfl
  | cons p rest ih =>
    obtain ⟨name, ⟨required, f⟩⟩ := p
    rw [slotSchemas, ih, List.map_cons]

theorem typeList_of (as : List Alternative) :
    typeList (kinds as) (as.any isNull) = Schema.typeFragment .typeNull as := by
  unfold Schema.typeFragment
  rw [Alternative.primitives_eq_kinds]
  cases kinds as <;> cases as.any isNull <;> rfl

theorem requiredSlots_of (properties : Properties) :
    requiredSlots (slots properties) = Schema.requiredNames properties := by
  rw [requiredSlots, Schema.requiredNames, slots_eq_map, List.filter_map, List.map_map]
  rfl

theorem schema_of_fragments {as : List Alternative}
    (h : ∀ a ∈ as, (entry a).map entrySchema = Schema.fragment .typeNull a) :
    schema (of as) = Schema.ofAlternatives .typeNull as := by
  rw [of, schema, typeList_of, entrySchemas_eq_map, entriesOf_eq_flatMap, List.map_flatMap,
    List.flatMap_congr h, ← Schema.fragments_eq_flatMap, Schema.ofAlternatives]

theorem map_entrySchema (a : Alternative) :
    (entry a).map entrySchema = Schema.fragment .typeNull a := by
  induction a with
  | object properties ih =>
    have hslots : slotSchemas (slots properties) = Schema.propertySchemas .typeNull properties := by
      rw [slotSchemas_eq_map, slots_eq_map, List.map_map, Schema.propertySchemas_eq_map]
      exact List.map_congr_left fun p hp => congrArg (p.1, ·) (schema_of_fragments (ih p hp))
    rw [entry, List.map_singleton, entrySchema, hslots, requiredSlots_of]
    rfl
  | array items ih =>
    exact congrArg (fun s => [Schema.array s]) (schema_of_fragments ih)
  | tuple positions ih =>
    have hforms : formSchemas (forms positions) =
        positions.map (Schema.ofAlternatives .typeNull) := by
      rw [formSchemas_eq_map, forms_eq_map, List.map_map]
      exact List.map_congr_left fun as has => schema_of_fragments (ih as has)
    rw [entry, List.map_singleton, entrySchema, hforms, Schema.fragment_tuple]
  | _ => rfl

theorem entrySchema_object (properties : Properties) :
    entrySchema (.object (slots properties)) = Schema.ofProperties .typeNull properties :=
  List.singleton_inj.mp (map_entrySchema (.object properties))

/-- A schema is made of the normal form alone. -/
theorem schema_of (as : List Alternative) : schema (of as) = Schema.ofAlternatives .typeNull as :=
  schema_of_fragments fun a _ => map_entrySchema a

/-! ### The normal form of a schema -/

def append (f g : NormalForm) : NormalForm :=
  ⟨f.primitives ++ g.primitives, f.nullable || g.nullable, f.entries ++ g.entries⟩

def single (e : Entry) : NormalForm := ⟨[], false, [e]⟩

mutual

/-- The form that a schema was made of: what one arm shows after the other. -/
def read : Schema → NormalForm
  | .types names => ⟨names.filterMap Primitive.named?, names.contains "null", []⟩
  | .const s => single (.literal s)
  | .any => single .any
  | .object properties required => single (.object (readSlots required properties))
  | .array items => single (.array (read items))
  | .tuple items => single (.tuple (readForms items))
  | .anyOf arms => readArms arms

def readArms : List Schema → NormalForm
  | [] => ⟨[], false, []⟩
  | s :: rest => (read s).append (readArms rest)

def readForms : List Schema → List NormalForm
  | [] => []
  | s :: rest => read s :: readForms rest

def readSlots (required : List String) : List (String × Schema) → List (String × Slot)
  | [] => []
  | (name, s) :: rest => (name, ⟨required.contains name, read s⟩) :: readSlots required rest

end

theorem append_empty (f : NormalForm) : f.append ⟨[], false, []⟩ = f := by
  cases f
  simp [append]

theorem empty_append (f : NormalForm) : append ⟨[], false, []⟩ f = f := by
  cases f
  simp [append]

theorem append_assoc (f g h : NormalForm) : (f.append g).append h = f.append (g.append h) := by
  simp [append, Bool.or_assoc]

theorem readArms_append (ss ts : List Schema) :
    readArms (ss ++ ts) = (readArms ss).append (readArms ts) := by
  induction ss with
  | nil => rw [List.nil_append, readArms, empty_append]
  | cons s ss ih => simp [readArms, ih, append_assoc]

theorem readForms_eq_map (ss : List Schema) : readForms ss = ss.map read := by
  induction ss with
  | nil => rfl
  | cons s rest ih => simp [readForms, ih]

theorem readSlots_eq_map (required : List String) (properties : List (String × Schema)) :
    readSlots required properties =
      properties.map fun p => (p.1, ⟨required.contains p.1, read p.2⟩) := by
  induction properties with
  | nil => rfl
  | cons p rest ih => simp [readSlots, ih]

/-- A lone fragment and an arm among several are read alike. -/
theorem read_combine {fragments : List Schema} (hne : fragments ≠ []) :
    read (.combine fragments) = readArms fragments := by
  match fragments with
  | [] => exact absurd rfl hne
  | [s] => simp [Schema.combine, readArms, append_empty]
  | s :: t :: rest => rfl

theorem readArms_typeList (kinds : List Primitive) (nullable : Bool) :
    readArms (typeList kinds nullable) = ⟨kinds, nullable, []⟩ := by
  have hkinds : (kinds.map Primitive.name).filterMap Primitive.named? = kinds := by
    simp [List.filterMap_map, Primitive.named?_name]
  have hnull := Schema.null_notMem_names kinds
  have hread (nullable : Bool) :
      readArms [.types (kinds.map Primitive.name ++ if nullable then ["null"] else [])] =
        ⟨kinds, nullable, []⟩ := by
    cases nullable <;> simp [readArms, read, append_empty, hkinds, hnull, Primitive.named?_null]
  match kinds, nullable with
  | [], false => rfl
  | [], true => exact hread true
  | _ :: _, nullable => exact hread nullable

/-- In properties with distinct names, a name is required if its property is. -/
theorem contains_requiredNames {properties : Properties} (hnodup : (Keyed.keys properties).Nodup)
    {p : String × Property} (hp : p ∈ properties) :
    (Schema.requiredNames properties).contains p.1 = p.2.isRequired := by
  rw [Bool.eq_iff_iff, List.contains_iff_mem, Schema.mem_requiredNames_iff]
  refine ⟨fun ⟨q, hq, hrequired, hname⟩ => ?_, fun h => ⟨p, hp, h, rfl⟩⟩
  rwa [← List.inj_on_of_nodup_map hnodup hq hp hname]

theorem readArms_fragments {as : List Alternative}
    (h : ∀ a ∈ as, readArms (Schema.fragment .typeNull a) = ⟨[], false, entry a⟩) :
    readArms (Schema.fragments .typeNull as) = ⟨[], false, entriesOf as⟩ := by
  induction as with
  | nil => rfl
  | cons a as ih =>
    have hrest := ih fun b hb => h b (by simp [hb])
    rw [Schema.fragments, readArms_append, h a (by simp), hrest]
    rfl

/-- A list is read back in normal form, if its fragments are. -/
theorem read_of_fragments {as : List Alternative} (hne : as ≠ [])
    (h : ∀ a ∈ as, readArms (Schema.fragment .typeNull a) = ⟨[], false, entry a⟩) :
    read (Schema.ofAlternatives .typeNull as) = of as := by
  rw [Schema.ofAlternatives, read_combine (Schema.fragments_ne_nil hne), readArms_append,
    readArms_fragments h, ← typeList_of, readArms_typeList]
  simp [append, of]

theorem readArms_fragment {a : Alternative} (h : a.WellFormed) :
    readArms (Schema.fragment .typeNull a) = ⟨[], false, entry a⟩ := by
  induction h with
  | @object properties hnodup hne _ ih =>
    have hslots : readSlots (Schema.requiredNames properties)
        (Schema.propertySchemas .typeNull properties) = slots properties := by
      rw [readSlots_eq_map, Schema.propertySchemas_eq_map, List.map_map, slots_eq_map]
      refine List.map_congr_left fun p hp => ?_
      -- by distinct names, the list of required names tells the properties apart
      rw [slotOf, ← contains_requiredNames hnodup hp, ← read_of_fragments (hne p hp) (ih p hp)]
      rfl
    rw [Schema.fragment_object, Schema.ofProperties, readArms, read, hslots]
    rfl
  | @array items hne _ ih =>
    rw [Schema.fragment_array, readArms, read, read_of_fragments hne ih]
    rfl
  | @tuple positions hne _ ih =>
    have hforms :
        readForms (positions.map (Schema.ofAlternatives .typeNull)) = forms positions := by
      rw [readForms_eq_map, List.map_map, forms_eq_map]
      exact List.map_congr_left fun as has => read_of_fragments (hne as has) (ih as has)
    rw [Schema.fragment_tuple, readArms, read, hforms]
    rfl
  | _ => rfl

/-- The normal form is read back from the schema. -/
theorem read_ofAlternatives {as : List Alternative} (hne : as ≠ [])
    (hwell : ∀ a ∈ as, a.WellFormed) : read (Schema.ofAlternatives .typeNull as) = of as :=
  read_of_fragments hne fun a ha => readArms_fragment (hwell a ha)

theorem entriesOf_filter (as : List Alternative) :
    entriesOf (as.filter isEntry) = entriesOf as := by
  induction as with
  | nil => rfl
  | cons a as ih =>
    cases hentry : isEntry a with
    | true => rw [List.filter_cons_of_pos hentry, entriesOf, entriesOf, ih]
    | false =>
      have hnone : entry a = [] := by cases a <;> first | rfl | cases hentry
      rw [List.filter_cons_of_neg (by simp [hentry]), entriesOf, hnone, ih, List.nil_append]

/-- Where null and the primitives stand among the others, and how often they do, is not kept. -/
theorem of_eq_of_filter {vs ws : List Alternative} (hkinds : kinds vs = kinds ws)
    (hnull : vs.any isNull = ws.any isNull) (hentries : vs.filter isEntry = ws.filter isEntry) :
    of vs = of ws := by
  rw [of, of, hkinds, hnull, ← entriesOf_filter vs, hentries, entriesOf_filter]

/-- Whether a property that may be null is optional is not kept. -/
theorem slotOf_eq_of_nullable {as : List Alternative} (hnull : as.any isNull = true)
    (optional optional' : Bool) : slotOf ⟨optional, as⟩ = slotOf ⟨optional', as⟩ := by
  simp [slotOf, Property.isRequired, Property.acceptsNull, hnull]

end NormalForm

namespace Schema

open TypeSchema.Alternative (kinds isNull isEntry)
open NormalForm (entrySchema_object of_eq_of_filter read_ofAlternatives schema_of
  slotOf_eq_of_nullable)

/-- With null written out, two lists have one schema exactly when they have one normal form. So null
may move or be repeated, primitives may be repeated and move among the others, and a property that
may be null may be optional or not. -/
theorem ofAlternatives_eq_iff_normalForm {vs ws : List Alternative} (hvs : vs ≠ []) (hws : ws ≠ [])
    (hvswell : ∀ a ∈ vs, a.WellFormed) (hwswell : ∀ a ∈ ws, a.WellFormed) :
    (ofAlternatives .typeNull vs = ofAlternatives .typeNull ws ↔
      NormalForm.of vs = NormalForm.of ws) ∧
    (kinds vs = kinds ws → vs.any isNull = ws.any isNull → vs.filter isEntry = ws.filter isEntry →
      ofAlternatives .typeNull vs = ofAlternatives .typeNull ws) ∧
    ∀ (before after : Properties) name as optional optional', as.any isNull = true →
      ofProperties .typeNull (before ++ (name, ⟨optional, as⟩) :: after) =
        ofProperties .typeNull (before ++ (name, ⟨optional', as⟩) :: after) := by
  refine ⟨⟨fun h => ?_, fun h => ?_⟩, fun hkinds hnull hentries => ?_,
    fun before after name as optional optional' hnull => ?_⟩
  · rw [← read_ofAlternatives hvs hvswell, h, read_ofAlternatives hws hwswell]
  · rw [← schema_of, h, schema_of]
  · rw [← schema_of, of_eq_of_filter hkinds hnull hentries, schema_of]
  · have hslots : NormalForm.slots (before ++ (name, ⟨optional, as⟩) :: after) =
        NormalForm.slots (before ++ (name, ⟨optional', as⟩) :: after) := by
      simp only [NormalForm.slots_eq_map, List.map_append, List.map_cons]
      rw [slotOf_eq_of_nullable hnull]
    rw [← entrySchema_object, hslots, entrySchema_object]

/-- Null moved and written twice, a primitive once instead of twice and before a literal, and a
property that may be null no longer optional. -/
theorem ofAlternatives_eq_iff_normalForm_label :
    (ofAlternatives .typeNull [.null, .value .string, .literal (.string "auto"),
        .object [("x", ⟨true, [.value .number, .null]⟩)], .value .number, .value .string] =
      .anyOf [.types ["string", "number", "null"], .const (.string "auto"),
        .object [("x", .types ["number", "null"])] []]) ∧
    (ofAlternatives .typeNull [.null, .value .string, .literal (.string "auto"),
        .object [("x", ⟨true, [.value .number, .null]⟩)], .value .number, .value .string] =
      ofAlternatives .typeNull [.value .string, .value .number, .literal (.string "auto"), .null,
        .object [("x", ⟨false, [.null, .value .number]⟩)], .null] ↔
    NormalForm.of [.null, .value .string, .literal (.string "auto"),
        .object [("x", ⟨true, [.value .number, .null]⟩)], .value .number, .value .string] =
      NormalForm.of [.value .string, .value .number, .literal (.string "auto"), .null,
        .object [("x", ⟨false, [.null, .value .number]⟩)], .null]) := by
  refine ⟨rfl, (ofAlternatives_eq_iff_normalForm (by simp) (by simp) ?_ ?_).1⟩
  · simp only [List.forall_mem_cons]
    exact ⟨.null, .value _, .literal _,
      .object (by decide) (by simp) (by simp [Alternative.WellFormed.value,
        Alternative.WellFormed.null]), .value _, .value _, by simp⟩
  · simp only [List.forall_mem_cons]
    exact ⟨.value _, .value _, .literal _, .null,
      .object (by decide) (by simp) (by simp [Alternative.WellFormed.value,
        Alternative.WellFormed.null]), .null, by simp⟩

end Schema

end TypeSchema
