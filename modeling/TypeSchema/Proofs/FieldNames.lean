import Mathlib.Logic.Equiv.Basic
import TypeSchema.Proofs.Relabelling

/-!
No field name is special: other names for the fields, different ones for different ones, change the
keys and the required names of the schema and nothing else of a compilation.
-/
namespace TypeSchema

section
variable (r : String → String)

namespace Schema

mutual

/-- Other names for the properties, in the lists of required ones too. -/
def rename : Schema → Schema
  | .object properties required => .object (renameProperties properties) (required.map r)
  | .array items => .array (rename items)
  | .tuple items => .tuple (renameAll items)
  | .anyOf arms => .anyOf (renameAll arms)
  | s => s

def renameAll : List Schema → List Schema
  | [] => []
  | s :: rest => rename s :: renameAll rest

def renameProperties : List (String × Schema) → List (String × Schema)
  | [] => []
  | (name, s) :: rest => (r name, rename s) :: renameProperties rest

end

theorem renameAll_eq_map (ss : List Schema) : renameAll r ss = ss.map (rename r) := by
  induction ss with
  | nil => rfl
  | cons s ss ih => simp [renameAll, ih]

theorem renameProperties_eq_map (properties : List (String × Schema)) :
    renameProperties r properties = properties.map fun p => (r p.1, p.2.rename r) := by
  induction properties with
  | nil => rfl
  | cons p rest ih => simp [renameProperties, ih]

theorem rename_combine (ss : List Schema) :
    (combine ss).rename r = combine (ss.map (rename r)) := by
  match ss with
  | [] => rfl
  | [_] => rfl
  | _ :: _ :: _ => simp [combine, rename, renameAll_eq_map]

end Schema

/-! ### Schemas of alternatives under other names -/

namespace Alternative

theorem isNull_rename (a : Alternative) : (a.rename r).isNull = a.isNull := by
  cases a <;> rfl

theorem any_isNull_map_rename (as : List Alternative) :
    (as.map (rename r)).any isNull = as.any isNull := by
  rw [List.any_map]
  exact congrArg (as.any ·) (funext (isNull_rename r))

theorem freshPrimitives_map_rename (seen : List Primitive) (as : List Alternative) :
    freshPrimitives seen (as.map (rename r)) = freshPrimitives seen as := by
  induction as generalizing seen with
  | nil => rfl
  | cons a as ih => cases a <;> simp [rename, freshPrimitives, ih]

end Alternative

theorem Property.isRequired_rename (p : Property) : (p.rename r).isRequired = p.isRequired := by
  rw [isRequired, isRequired, acceptsNull, acceptsNull, rename, Alternative.any_isNull_map_rename]

namespace Schema

theorem requiredNames_rename (properties : Properties) :
    requiredNames (properties.rename r) = (requiredNames properties).map r := by
  have hrequired : (·.2.isRequired) ∘ (fun p : String × Property => (r p.1, p.2.rename r)) =
      (·.2.isRequired) := funext fun p => p.2.isRequired_rename r
  rw [requiredNames, requiredNames, Properties.rename, List.filter_map, List.map_map, List.map_map,
    hrequired]
  rfl

theorem typeFragment_map_rename (policy : NullPolicy) (as : List Alternative) :
    typeFragment policy (as.map (Alternative.rename r)) = typeFragment policy as := by
  unfold typeFragment Alternative.primitives
  rw [Alternative.freshPrimitives_map_rename, Alternative.any_isNull_map_rename]

theorem map_rename_typeFragment (policy : NullPolicy) (as : List Alternative) :
    (typeFragment policy as).map (rename r) = typeFragment policy as := by
  unfold typeFragment
  cases as.any Alternative.isNull <;> split <;> rfl

section
variable {policy : NullPolicy}

theorem ofAlternatives_rename {as : List Alternative}
    (h : ∀ a ∈ as, fragment policy (a.rename r) = (fragment policy a).map (rename r)) :
    ofAlternatives policy (as.map (Alternative.rename r)) =
      (ofAlternatives policy as).rename r := by
  have hfragments : fragments policy (as.map (Alternative.rename r)) =
      (fragments policy as).map (rename r) := by
    rw [fragments_eq_flatMap, fragments_eq_flatMap, List.flatMap_map, List.map_flatMap]
    exact List.flatMap_congr h
  rw [ofAlternatives, ofAlternatives, rename_combine, List.map_append, map_rename_typeFragment,
    typeFragment_map_rename, hfragments]

theorem ofProperties_rename_of {properties : Properties}
    (h : ∀ p ∈ properties, ∀ a ∈ p.2.alternatives,
      fragment policy (a.rename r) = (fragment policy a).map (rename r)) :
    ofProperties policy (properties.rename r) = (ofProperties policy properties).rename r := by
  have hproperties : propertySchemas policy (properties.rename r) =
      (propertySchemas policy properties).map fun p => (r p.1, p.2.rename r) := by
    rw [propertySchemas_eq_map, propertySchemas_eq_map, Properties.rename, List.map_map,
      List.map_map]
    exact List.map_congr_left fun p hp => congrArg (r p.1, ·) (ofAlternatives_rename r (h p hp))
  rw [ofProperties, ofProperties, rename, renameProperties_eq_map, requiredNames_rename,
    hproperties]

end

theorem fragment_rename (policy : NullPolicy) (a : Alternative) :
    fragment policy (a.rename r) = (fragment policy a).map (rename r) := by
  induction a with
  | object properties ih =>
    rw [Alternative.rename_object, fragment_object, fragment_object, ofProperties_rename_of r ih]
    rfl
  | array items ih =>
    rw [Alternative.rename_array, fragment_array, fragment_array, ofAlternatives_rename r ih]
    rfl
  | tuple positions ih =>
    have hpositions := List.map_congr_left fun as has => ofAlternatives_rename r (ih as has)
    rw [Alternative.rename_tuple, fragment_tuple, fragment_tuple, List.map_singleton, rename,
      renameAll_eq_map, List.map_map, List.map_map]
    exact congrArg ([tuple ·]) hpositions
  | _ => rfl

theorem ofProperties_rename (policy : NullPolicy) (properties : Properties) :
    ofProperties policy (properties.rename r) = (ofProperties policy properties).rename r :=
  ofProperties_rename_of r fun _ _ a _ => fragment_rename r policy a

end Schema

end

/-- The schema of a relabelled root is that of the root, with other names for its properties. -/
theorem Schema.ofEntity_relabel (ρ : Relabelling) (policy : NullPolicy) (d : Descriptor) :
    ofEntity policy (Entity.listing (d.relabel ρ)) =
      (ofEntity policy (Entity.listing d)).rename ρ.field := by
  have hvariant (s : Shape) : ofProperties policy (Entity.variant (s.relabel ρ)).properties =
      (ofProperties policy (Entity.variant s).properties).rename ρ.field := by
    rw [Entity.variant, Entity.variant, Shape.relabel,
      Descriptor.fieldListings_relabel ρ fun _ _ d _ => d.listing_relabel ρ, ofProperties_rename]
  rw [ofEntity, ofEntity, Entity.listing, Entity.listing, Entity.target_relabel,
    Entity.shapes_relabel]
  simp only [List.map_map, Function.comp_def, hvariant]
  cases (Entity.target d).1 with
  | false => simp [rename_combine, Function.comp_def]
  | true => simp [rename, rename_combine, Function.comp_def]

namespace Descriptor

theorem schema_relabel {root : String → String} {ρ : Relabelling}
    (hρ : Function.Injective ρ.field) (hroot : root Entity.rootName = Entity.rootName)
    (hobject : ∀ name, (ρ.object name).getD Entity.rootName = root (name.getD Entity.rootName))
    (settings : Settings) (d : Descriptor) :
    (d.relabel ρ).schema settings =
      verdict ((Entity.faults settings.maxDepth d).map (Rejection.relabel root ρ))
        ((Schema.ofEntity settings.nullPolicy (Entity.listing d)).rename ρ.field) := by
  rw [schema_eq_verdict, Entity.faults_relabel hρ hroot hobject, Schema.ofEntity_relabel]

/-- Other names for the fields of all objects. -/
def renameFields (r : String → String) (d : Descriptor) : Descriptor := d.relabel { field := r }

/-- Other names for fields, as long as different ones stay different, change neither whether a
descriptor compiles nor why it does not. They are the names in the schema and on the way to what is
wrong. -/
theorem schema_renameFields {r : String → String} (hr : Function.Injective r) (settings : Settings)
    (d : Descriptor) :
    ((∃ s, (d.renameFields r).schema settings = .ok s) ↔ ∃ s, d.schema settings = .ok s) ∧
      (∀ s, d.schema settings = .ok s → (d.renameFields r).schema settings = .ok (s.rename r)) ∧
      ∀ e, d.schema settings = .error e → (d.renameFields r).schema settings =
        .error ⟨⟨e.location.root, e.location.segments.map (Segment.rename r)⟩, e.cause⟩ := by
  have hrenamed : (d.renameFields r).schema settings =
      verdict ((Entity.faults settings.maxDepth d).map (Rejection.relabel id { field := r }))
        ((Schema.ofEntity settings.nullPolicy (Entity.listing d)).rename r) :=
    schema_relabel hr rfl (fun _ => rfl) settings d
  have hok (s : Schema) (hs : d.schema settings = .ok s) :
      (d.renameFields r).schema settings = .ok (s.rename r) := by
    rw [schema_eq_verdict, verdict_eq_ok_iff] at hs
    obtain ⟨hfaults, rfl⟩ := hs
    rw [hrenamed, hfaults]
    rfl
  have herror (e : Rejection) (he : d.schema settings = .error e) :
      (d.renameFields r).schema settings =
        .error ⟨⟨e.location.root, e.location.segments.map (Segment.rename r)⟩, e.cause⟩ := by
    rw [schema_eq_verdict, verdict_eq_error_iff] at he
    rw [hrenamed, verdict_eq_error_iff, List.head?_map, he, Option.map_some, Rejection.relabel,
      Rejection.Cause.relabel_of_member rfl]
    rfl
  refine ⟨⟨?_, ?_⟩, hok, herror⟩
  · rintro ⟨s, hs⟩
    cases h : d.schema settings with
    | ok s => exact ⟨s, rfl⟩
    | error e =>
      rw [herror e h] at hs
      cases hs
  · rintro ⟨s, hs⟩
    exact ⟨_, hok s hs⟩

/-- Fields under the empty name and under a keyword change their names with each other, two of them
in an object inside. A second field under a name is one too many whatever the name. -/
theorem schema_renameFields_swap :
    let r := Equiv.swap "" "type"
    let inner : Field := ⟨"rows", true, [.array (.object ⟨some "", [⟨"type", false, [.null]⟩,
      ⟨"", false, [.primitive .string]⟩]⟩)]⟩
    let d : Descriptor := .object ⟨some "type", [⟨"", false, [.wildcard]⟩, inner]⟩
    let twice : Descriptor :=
      .object ⟨some "type", [⟨"", false, [.wildcard]⟩, ⟨"", false, [.unsupported "type"]⟩]⟩
    (d.renameFields r).schema {} = .ok (.object
        [("type", .any), ("rows", .array (.object [("", .types ["null"]),
          ("type", .types ["string"])] ["type"]))] ["type"]) ∧
      (twice.renameFields r).schema {} =
        .error ⟨⟨"type", [.field "type"]⟩, .ambiguousDeclaration 2⟩ := by
  intro r inner d twice
  exact ⟨(schema_renameFields r.injective {} d).2.1 _ rfl,
    (schema_renameFields r.injective {} twice).2.2 _ rfl⟩

end Descriptor

end TypeSchema
