import Mathlib.Data.List.Forall2
import TypeSchema.Proofs.FirstFault
import TypeSchema.Proofs.Membership

/-!
The schema of an object beside its fields. There is a property for each field, in the order of the
fields and with the schema of its declaration, and what has to be there are the fields that are
neither optional nor nullable.
-/
namespace TypeSchema

/-- The schema under the name of a field is that of the one declaration, at the place of the
field. -/
def Field.HasSchema (policy : NullPolicy) (limit : Nat) (at_ : Location) (f : Field)
    (p : String × Schema) : Prop :=
  ∃ d as, f.declarations = [d] ∧ d.alternatives limit (at_.field f.name) = .ok as ∧
    p = (f.name, Schema.ofAlternatives policy as)

namespace Shape

section
variable {limit : Nat} {at_ : Location} {s : Shape}

theorem properties_eq_ok_iff {properties : Properties} :
    s.properties limit at_ = .ok properties ↔
      (s.Unambiguous ∧ ∀ f ∈ s.fields, ∀ d ∈ f.declarations, d.Clean limit 0) ∧
        Descriptor.fieldListings s.fields = properties := by
  rw [properties_eq_verdict, verdict_eq_ok_iff, faults_eq_nil_iff]

theorem hasSchema_of_clean (policy : NullPolicy) (hs : s.Unambiguous)
    (hclean : ∀ f ∈ s.fields, ∀ d ∈ f.declarations, d.Clean limit 0) {f : Field}
    (hf : f ∈ s.fields) :
    f.HasSchema policy limit at_
      (f.name, Schema.ofAlternatives policy f.property.alternatives) := by
  obtain ⟨d, hd⟩ := hs.single f hf
  have hfaults : Descriptor.faultsAt limit 0 (at_.field f.name) d = [] :=
    Descriptor.faultsAt_eq_nil_iff.mpr (hclean f hf d (by simp [hd]))
  have halternatives : d.alternatives limit (at_.field f.name) = .ok d.listing :=
    Descriptor.alternatives_eq_ok_iff.mpr ⟨hfaults, rfl⟩
  have hproperty : f.property.alternatives = d.listing := by simp [Field.property, hd]
  exact ⟨d, d.listing, hd, halternatives, by rw [hproperty]⟩

/-- An object that compiles has exactly its fields as properties, each once and in their order, with
the schemas of their declarations; and it requires the fields that are neither optional nor
nullable, in their order. -/
theorem schema_of_properties (policy : NullPolicy) {properties : Properties}
    (h : s.properties limit at_ = .ok properties) :
    ∃ schemas required, Schema.ofProperties policy properties = .object schemas required ∧
      Keyed.keys schemas = s.fields.map (·.name) ∧ (Keyed.keys schemas).Nodup ∧
      List.Forall₂ (Field.HasSchema policy limit at_) s.fields schemas ∧
      required = (s.fields.filter Field.isRequired).map (·.name) := by
  obtain ⟨⟨hs, hclean⟩, rfl⟩ := properties_eq_ok_iff.mp h
  have hkeys : Keyed.keys (Schema.propertySchemas policy (Descriptor.fieldListings s.fields)) =
      s.fields.map (·.name) := by
    rw [Schema.keys_propertySchemas, Descriptor.keys_fieldListings]
  have hschemas : List.Forall₂ (Field.HasSchema policy limit at_) s.fields
      (Schema.propertySchemas policy (Descriptor.fieldListings s.fields)) := by
    rw [Schema.propertySchemas_eq_map, Descriptor.fieldListings_eq_map, List.map_map]
    exact List.forall₂_map_right_iff.mpr
      (List.forall₂_same.mpr fun f hf => hasSchema_of_clean policy hs hclean hf)
  exact ⟨_, _, rfl, hkeys, hkeys ▸ hs.nodup, hschemas, Schema.requiredNames_fieldListings s.fields⟩

end

/-- Null three unions deep and in an array: only the first takes its field out of what is
required. -/
theorem schema_of_properties_contact :
    let s : Shape := ⟨some "Contact", [⟨"id", false, [.primitive .number]⟩,
      ⟨"mail", false, [.union [.primitive .string, .union [.wildcard, .union [.literal .null]]]]⟩,
      ⟨"tags", false, [.array .null]⟩, ⟨"note", true, [.wildcard]⟩]⟩
    let properties : Properties := [("id", ⟨false, [.value .number]⟩),
      ("mail", ⟨false, [.value .string, .any, .null]⟩), ("tags", ⟨false, [.array [.null]]⟩),
      ("note", ⟨true, [.any]⟩)]
    s.properties 3 ⟨"Contact", []⟩ = .ok properties ∧
      ∃ schemas required, Schema.ofProperties .omit properties = .object schemas required ∧
        Keyed.keys schemas = ["id", "mail", "tags", "note"] ∧ (Keyed.keys schemas).Nodup ∧
        List.Forall₂ (Field.HasSchema .omit 3 ⟨"Contact", []⟩) s.fields schemas ∧
        required = ["id", "tags"] := by
  intro s properties
  have h : s.properties 3 ⟨"Contact", []⟩ = .ok properties := rfl
  exact ⟨h, schema_of_properties .omit h⟩

end Shape

end TypeSchema
