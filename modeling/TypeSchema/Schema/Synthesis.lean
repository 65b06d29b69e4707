import TypeSchema.Compile.Entity
import TypeSchema.Schema.Basic
import TypeSchema.Settings

/-!
The schema of a list of alternatives. All primitives among them form one list of types, which null
joins; every other alternative is a fragment of its own. Without a primitive, null is a fragment or
nothing, by policy.
-/
namespace TypeSchema

namespace Alternative

/-- The primitives among alternatives that are not among those `seen`, each once. -/
def freshPrimitives : List Primitive → List Alternative → List Primitive
  | _, [] => []
  | seen, .value kind :: rest =>
    if seen.contains kind then freshPrimitives seen rest
    else kind :: freshPrimitives (kind :: seen) rest
  | seen, _ :: rest => freshPrimitives seen rest

def primitives (as : List Alternative) : List Primitive := freshPrimitives [] as

end Alternative

namespace Schema

/-- The list of types of alternatives, if they call for one. -/
def typeFragment (policy : NullPolicy) (as : List Alternative) : List Schema :=
  let nullable := as.any Alternative.isNull
  match Alternative.primitives as, policy with
  | [], .typeNull => if nullable then [.types ["null"]] else []
  | [], .omit => []
  | kinds, _ => [.types (kinds.map Primitive.name ++ if nullable then ["null"] else [])]

theorem null_notMem_names (kinds : List Primitive) : "null" ∉ kinds.map Primitive.name := by
  simp only [List.mem_map, not_exists, not_and]
  rintro kind -
  cases kind <;> decide

def requiredNames (properties : Properties) : List String :=
  (properties.filter (·.2.isRequired)).map Prod.fst

mutual

/-- The fragment of an alternative; primitives and null have none of their own. -/
def fragment (policy : NullPolicy) : Alternative → List Schema
  | .value _ => []
  | .null => []
  | .object properties =>
    [.object (propertySchemas policy properties) (requiredNames properties)]
  | .literal s => [.const s]
  | .any => [.any]
  | .array items => [.array (combine (typeFragment policy items ++ fragments policy items))]
  | .tuple positions => [.tuple (positionSchemas policy positions)]

def fragments (policy : NullPolicy) : List Alternative → List Schema
  | [] => []
  | a :: rest => fragment policy a ++ fragments policy rest

def positionSchemas (policy : NullPolicy) : List (List Alternative) → List Schema
  | [] => []
  | as :: rest =>
    combine (typeFragment policy as ++ fragments policy as) :: positionSchemas policy rest

def propertySchemas (policy : NullPolicy) : List (String × Property) → List (String × Schema)
  | [] => []
  | (name, ⟨_, as⟩) :: rest =>
    (name, combine (typeFragment policy as ++ fragments policy as)) ::
      propertySchemas policy rest

end

def ofAlternatives (policy : NullPolicy) (as : List Alternative) : Schema :=
  combine (typeFragment policy as ++ fragments policy as)

def ofProperties (policy : NullPolicy) (properties : Properties) : Schema :=
  .object (propertySchemas policy properties) (requiredNames properties)

def ofEntity (policy : NullPolicy) (e : Entity) : Schema :=
  let combined := combine (e.variants.map fun v => ofProperties policy v.properties)
  if e.isArray then .array combined else combined

theorem fragments_eq_flatMap (policy : NullPolicy) (as : List Alternative) :
    fragments policy as = as.flatMap (fragment policy) := by
  induction as with
  | nil => rfl
  | cons a as ih => simp [fragments, ih]

theorem positionSchemas_eq_map (policy : NullPolicy) (positions : List (List Alternative)) :
    positionSchemas policy positions = positions.map (ofAlternatives policy) := by
  induction positions with
  | nil => rfl
  | cons as rest ih => simp [positionSchemas, ofAlternatives, ih]

theorem propertySchemas_eq_map (policy : NullPolicy) (properties : Properties) :
    propertySchemas policy properties =
      properties.map fun p => (p.1, ofAlternatives policy p.2.alternatives) := by
  induction properties with
  | nil => rfl
  | cons p rest ih =>
    obtain ⟨name, ⟨_, as⟩⟩ := p
    rw [propertySchemas, ih, List.map_cons, ofAlternatives]

theorem keys_propertySchemas (policy : NullPolicy) (properties : Properties) :
    Keyed.keys (propertySchemas policy properties) = Keyed.keys properties := by
  simp [Keyed.keys, propertySchemas_eq_map, Function.comp_def]

theorem mem_requiredNames_iff {name : String} {properties : Properties} :
    name ∈ requiredNames properties ↔
      ∃ p ∈ properties, p.2.isRequired = true ∧ p.1 = name := by
  simp only [requiredNames, List.mem_map, List.mem_filter, and_assoc]

/-! The fragments of composites, in terms of what they are made of. -/

theorem fragment_object (policy : NullPolicy) (properties : Properties) :
    fragment policy (.object properties) = [ofProperties policy properties] := rfl

theorem fragment_array (policy : NullPolicy) (items : List Alternative) :
    fragment policy (.array items) = [.array (ofAlternatives policy items)] := rfl

theorem fragment_tuple (policy : NullPolicy) (positions : List (List Alternative)) :
    fragment policy (.tuple positions) = [.tuple (positions.map (ofAlternatives policy))] := by
  rw [fragment, positionSchemas_eq_map]

end Schema

/-- The schema of a descriptor, or the first reason to reject it. -/
def Descriptor.schema (settings : Settings) (d : Descriptor) : Compiled Schema := do
  let e ← Entity.ofDescriptor settings.maxDepth d
  return Schema.ofEntity settings.nullPolicy e

end TypeSchema
