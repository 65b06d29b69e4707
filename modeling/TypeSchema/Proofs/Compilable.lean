import TypeSchema.Proofs.FirstFault
import TypeSchema.Proofs.Nodes

/-!
Which descriptors compile.
-/
namespace TypeSchema

namespace Entity

/-- What a target must be. It opens to objects, at least one, through no more layers of unions than
the limit; the objects are unambiguous; and below a field no node is unsound or further than the
limit from the declaration of the field. -/
structure Compilable (limit : Nat) (target : Descriptor) : Prop where
  opens : ∀ k x, target.Opens k x → (∃ s, x = .object s) ∨ ∃ members, x = .union members
  inhabited : ∃ k s, target.Opens k (.object s)
  layers : ∀ k members, target.Opens k (.union members) → k + 1 ≤ limit
  unambiguous : ∀ k s, target.Opens k (.object s) → s.Unambiguous
  nodes : ∀ k s, target.Opens k (.object s) → ∀ f ∈ s.fields, ∀ d ∈ f.declarations,
    ∀ j x, d.Reaches j x → j ≤ limit ∧ x.Sound

theorem faults_eq_nil_iff_compilable {limit : Nat} {root : Descriptor} :
    faults limit root = [] ↔ Compilable limit (target root).2 := by
  rw [faults_eq_nil_iff]
  constructor
  · rintro ⟨hopened, hne, hshapes⟩
    obtain ⟨s, hs⟩ := List.exists_mem_of_ne_nil _ hne
    have hshape (k : Nat) (s : Shape) (h : (target root).2.Opens k (.object s)) :=
      hshapes s (mem_shapes_iff.mpr ⟨k, h⟩)
    refine ⟨fun k x hx => (hopened k x hx).imp_right And.left, ?_, fun k members h => ?_,
      fun k s h => (hshape k s h).1, fun k s h f hf d hd j x hx => ?_⟩
    · obtain ⟨k, h⟩ := mem_shapes_iff.mp hs
      exact ⟨k, s, h⟩
    · have := hopened k _ h
      simp at this
      omega
    · have := (hshape k s h).2 f hf d hd j x hx
      exact ⟨by omega, this.2⟩
  · rintro ⟨hopens, ⟨k, s, hs⟩, hlayers, hunambiguous, hnodes⟩
    refine ⟨fun k x hx => ?_, List.ne_nil_of_mem (mem_shapes_iff.mpr ⟨k, hs⟩), fun s hs => ?_⟩
    · rcases hopens k x hx with hobject | ⟨members, rfl⟩
      · exact .inl hobject
      · have := hlayers k members hx
        exact .inr ⟨⟨members, rfl⟩, by omega⟩
    · obtain ⟨k, hk⟩ := mem_shapes_iff.mp hs
      refine ⟨hunambiguous k s hk, fun f hf d hd j x hx => ?_⟩
      have := hnodes k s hk f hf d hd j x hx
      exact ⟨by omega, this.2⟩

/-- A root has an entity exactly when its target is compilable, and a schema exactly when it has an
entity. -/
theorem exists_ofDescriptor_iff (limit : Nat) (root : Descriptor) :
    ((∃ e, ofDescriptor limit root = .ok e) ↔ Compilable limit (target root).2) ∧
      ∀ policy r, root.schema ⟨limit, policy⟩ = .error r ↔ ofDescriptor limit root = .error r := by
  refine ⟨?_, fun policy r => ?_⟩
  · simp [ofDescriptor_eq_ok_iff, ← faults_eq_nil_iff_compilable]
  · rw [Descriptor.schema_eq_verdict, ofDescriptor_eq_verdict, verdict_eq_error_iff,
      verdict_eq_error_iff]

end Entity

end TypeSchema
