import TypeSchema.Alternative

/-!
Induction over descriptors and over alternatives. The parts of a composite stand in lists, and those
of an object behind its fields; the principles give the hypothesis for every part at once.
-/
namespace TypeSchema

@[induction_eliminator]
theorem Descriptor.induction {motive : Descriptor → Prop}
    (primitive : ∀ kind, motive (.primitive kind))
    (literal : ∀ value, motive (.literal value))
    (null : motive .null)
    (wildcard : motive .wildcard)
    (object : ∀ name (fields : List Field), (∀ f ∈ fields, ∀ d ∈ f.declarations, motive d) →
      motive (.object ⟨name, fields⟩))
    (array : ∀ element, motive element → motive (.array element))
    (tuple : ∀ elements, (∀ d ∈ elements, motive d) → motive (.tuple elements))
    (union : ∀ members, (∀ d ∈ members, motive d) → motive (.union members))
    (enumeration : ∀ shape, motive (.enumeration shape))
    (unsupported : ∀ spelling, motive (.unsupported spelling))
    (d : Descriptor) : motive d := by
  exact @Descriptor.rec motive
    (fun s => ∀ f ∈ s.fields, ∀ d ∈ f.declarations, motive d)
    (fun f => ∀ d ∈ f.declarations, motive d)
    (fun ds => ∀ d ∈ ds, motive d)
    (fun fs => ∀ f ∈ fs, ∀ d ∈ f.declarations, motive d)
    primitive literal null wildcard (fun ⟨name, fields⟩ => object name fields) array tuple union
    enumeration unsupported (fun _ _ h => h) (fun _ _ _ h => h)
    (by simp) (fun _ _ h hs => List.forall_mem_cons.mpr ⟨h, hs⟩)
    (by simp) (fun _ _ h hs => List.forall_mem_cons.mpr ⟨h, hs⟩) d

@[induction_eliminator]
theorem Alternative.induction {motive : Alternative → Prop}
    (value : ∀ kind, motive (.value kind))
    (literal : ∀ value, motive (.literal value))
    (null : motive .null)
    (any : motive .any)
    (object : ∀ properties, (∀ p ∈ properties, ∀ a ∈ p.2.alternatives, motive a) →
      motive (.object properties))
    (array : ∀ items, (∀ a ∈ items, motive a) → motive (.array items))
    (tuple : ∀ positions, (∀ as ∈ positions, ∀ a ∈ as, motive a) → motive (.tuple positions))
    (a : Alternative) : motive a := by
  exact @Alternative.rec motive
    (fun p => ∀ a ∈ p.alternatives, motive a)
    (fun ps => ∀ p ∈ ps, ∀ a ∈ p.2.alternatives, motive a)
    (fun as => ∀ a ∈ as, motive a)
    (fun ass => ∀ as ∈ ass, ∀ a ∈ as, motive a)
    (fun p => ∀ a ∈ p.2.alternatives, motive a)
    value literal null any object array tuple
    (fun _ _ h => h)
    (by simp) (fun _ _ h hs => List.forall_mem_cons.mpr ⟨h, hs⟩)
    (by simp) (fun _ _ h hs => List.forall_mem_cons.mpr ⟨h, hs⟩)
    (by simp) (fun _ _ h hs => List.forall_mem_cons.mpr ⟨h, hs⟩) (fun _ _ h => h) a

end TypeSchema
