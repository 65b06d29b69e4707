import TypeSchema.Proofs.Compilable

/-!
Unions without members. Below a field none compiles, and a target that is one has no object; but the
unions of a target are opened before its objects are counted, so that an empty union beside an
object is passed over.
-/
namespace TypeSchema

namespace Descriptor

theorem Reaches.opens_or_below {k : Nat} {d x : Descriptor} (h : d.Reaches k x) :
    d.Opens k x ∨
      ∃ j y i, d.Opens j y ∧ (∀ members, y ≠ .union members) ∧ y.Reaches i x := by
  induction h with
  | refl d => exact .inl (.refl d)
  | @step d e x k he hx ih =>
    cases d with
    | union members =>
      rcases ih with hopens | ⟨j, y, i, hy, hne, hx⟩
      · exact .inl (.step he hopens)
      · exact .inr ⟨j + 1, y, i, .step he hy, hne, hx⟩
    | _ => exact .inr ⟨0, _, k + 1, .refl _, nofun, .step he hx⟩

end Descriptor

namespace Entity

open Descriptor

variable {limit : Nat} {t : Descriptor}

theorem exists_reaches_target {root : Descriptor} {k : Nat} {members : List Descriptor}
    (h : root.Reaches k (.union members)) : ∃ j, (target root).2.Reaches j (.union members) := by
  unfold target
  split
  · cases h with
    | step he hx => exact ⟨_, List.mem_singleton.mp he ▸ hx⟩
  · cases h with
    | step he hx => exact ⟨_, List.mem_singleton.mp he ▸ hx⟩
  · exact ⟨k, h⟩

theorem Compilable.not_reaches_of_object (h : Compilable limit t) {j : Nat} {s : Shape}
    (hs : t.Opens j (.object s)) (i : Nat) : ¬ (object s).Reaches i (.union []) := by
  intro hreach
  cases hreach with
  | step hd hx =>
    obtain ⟨f, hf, hd⟩ := List.mem_flatMap.mp hd
    exact (h.nodes j s hs f hf _ hd _ _ hx).2 rfl

/-- An empty union in a compilable target is one of the unions that are opened, and not the
outermost. -/
theorem Compilable.opens_of_reaches (h : Compilable limit t) {k : Nat}
    (hx : t.Reaches k (.union [])) : ∃ j, t.Opens (j + 1) (.union []) := by
  rcases hx.opens_or_below with hopens | ⟨j, y, i, hy, hne, hx⟩
  · cases hopens with
    | refl =>
      obtain ⟨j, s, hs⟩ := h.inhabited
      cases hs with
      | step hd _ => cases hd
    | step hd hopens => exact ⟨_, .step hd hopens⟩
  · rcases h.opens j y hy with ⟨s, rfl⟩ | ⟨members, rfl⟩
    · exact absurd hx (h.not_reaches_of_object hy i)
    · exact absurd rfl (hne members)

theorem compilable_of_schema_eq_ok {settings : Settings} {root : Descriptor} {schema : Schema}
    (h : root.schema settings = .ok schema) : Compilable settings.maxDepth (target root).2 := by
  rw [Descriptor.schema_eq_verdict, verdict_eq_ok_iff] at h
  exact faults_eq_nil_iff_compilable.mp h.1

/-- A descriptor with an empty union anywhere is rejected under every settings, with one exception:
the empty union is a member of a union of the target, or of one nested in it, which opens to an
object too. Below an object none escapes. -/
theorem emptyUnion_rejected_or_beside_object {root : Descriptor} {k : Nat}
    (h : root.Reaches k (.union [])) (settings : Settings) :
    (∃ r, root.schema settings = .error r) ∨
      (∃ j, (target root).2.Opens (j + 1) (.union [])) ∧
      (∃ j s, (target root).2.Opens j (.object s)) ∧
      ∀ j s, (target root).2.Opens j (.object s) → ∀ i, ¬ (object s).Reaches i (.union []) := by
  cases hschema : root.schema settings with
  | error r => exact .inl ⟨r, rfl⟩
  | ok schema =>
    have hcompilable := compilable_of_schema_eq_ok hschema
    obtain ⟨j, hreaches⟩ := exists_reaches_target h
    exact .inr ⟨hcompilable.opens_of_reaches hreaches, hcompilable.inhabited,
      fun _ _ hs => hcompilable.not_reaches_of_object hs⟩

/-- An empty union as the element of an array in a field. -/
theorem emptyUnion_rejected_belowField :
    let root : Descriptor := .object ⟨none, [⟨"x", false, [.array (.union [])]⟩]⟩
    root.Reaches 2 (.union []) ∧ ∃ r, root.schema {} = .error r := by
  intro root
  have hreaches : root.Reaches 2 (.union []) :=
    .step (List.mem_singleton_self _) (.step (List.mem_singleton_self _) (.refl _))
  rcases emptyUnion_rejected_or_beside_object hreaches {} with h | ⟨-, -, hnone⟩
  · exact ⟨hreaches, h⟩
  · exact absurd hreaches (hnone 0 _ (.refl _) 2)

/-- An empty union beside an object is no reason to reject the root. -/
theorem emptyUnion_not_rejected :
    ¬ ∀ root k, Descriptor.Reaches root k (.union []) →
      ∀ settings, ∃ r, root.schema settings = .error r := by
  intro h
  have hreaches : Reaches (.union [.object ⟨none, []⟩, .union []]) 1 (.union []) :=
    .step (List.mem_of_mem_tail (List.mem_singleton_self _)) (.refl _)
  obtain ⟨r, hr⟩ := h _ 1 hreaches {}
  cases hr

end Entity

end TypeSchema
