import Mathlib.Data.List.MinMax
import Mathlib.Order.Bounds.Basic
import Mathlib.Order.Nat
import TypeSchema.Proofs.Compilable

/-!
How deep a descriptor goes. Its height is the greatest number of steps down to a node, and the
layers of a target are the unions that lie directly inside one another in it. A target that is
compilable at all is so at the limits from the greater of the two on, its fields counted each from
its own declaration.
-/
namespace TypeSchema

namespace Descriptor

mutual

/-- The greatest number of steps down to a node. -/
def height : Descriptor → Nat
  | .object ⟨_, fields⟩ => fieldHeight fields
  | .array element => height element + 1
  | .tuple elements => partHeight elements
  | .union members => partHeight members
  | _ => 0

def partHeight : List Descriptor → Nat
  | [] => 0
  | d :: ds => max (height d + 1) (partHeight ds)

def fieldHeight : List Field → Nat
  | [] => 0
  | ⟨_, _, declarations⟩ :: fields => max (partHeight declarations) (fieldHeight fields)

end

theorem partHeight_append (ds es : List Descriptor) :
    partHeight (ds ++ es) = max (partHeight ds) (partHeight es) := by
  induction ds with
  | nil => simp [partHeight]
  | cons d ds ih => simp [partHeight, ih, max_assoc]

theorem fieldHeight_eq_partHeight (fields : List Field) :
    fieldHeight fields = partHeight (fields.flatMap (·.declarations)) := by
  induction fields with
  | nil => rfl
  | cons f fields ih =>
    obtain ⟨name, optional, declarations⟩ := f
    simp [fieldHeight, partHeight_append, ih]

theorem height_eq_partHeight (d : Descriptor) : d.height = partHeight d.parts := by
  cases d with
  | object s =>
    obtain ⟨name, fields⟩ := s
    exact fieldHeight_eq_partHeight fields
  | array element => simp [height, parts, partHeight]
  | _ => rfl

theorem height_lt_partHeight {d : Descriptor} {ds : List Descriptor} (h : d ∈ ds) :
    d.height < partHeight ds := by
  induction ds with
  | nil => simp at h
  | cons e ds ih =>
    rw [partHeight]
    rcases List.mem_cons.mp h with rfl | h
    · omega
    · have := ih h
      omega

theorem exists_partHeight_eq {ds : List Descriptor} (hne : ds ≠ []) :
    ∃ d ∈ ds, partHeight ds = d.height + 1 := by
  induction ds with
  | nil => exact absurd rfl hne
  | cons d ds ih =>
    rcases Nat.le_total (partHeight ds) (d.height + 1) with hle | hle
    · exact ⟨d, by simp, by rw [partHeight, Nat.max_eq_left hle]⟩
    · have hds : ds ≠ [] := by
        rintro rfl
        simp [partHeight] at hle
      obtain ⟨e, he, heq⟩ := ih hds
      exact ⟨e, by simp [he], by rw [partHeight, Nat.max_eq_right hle, heq]⟩

theorem Reaches.le_height {k : Nat} {d x : Descriptor} (h : d.Reaches k x) : k ≤ d.height := by
  induction h with
  | refl d => exact Nat.zero_le _
  | @step d e x k he _ ih =>
    have := height_lt_partHeight he
    rw [height_eq_partHeight]
    omega

theorem exists_reaches_height (d : Descriptor) : ∃ x, d.Reaches d.height x := by
  induction d using induction_on_parts with
  | node d ih =>
    rw [height_eq_partHeight]
    by_cases hparts : d.parts = []
    · rw [hparts]
      exact ⟨d, .refl d⟩
    · obtain ⟨e, he, heq⟩ := exists_partHeight_eq hparts
      obtain ⟨x, hx⟩ := ih e he
      exact ⟨x, heq ▸ .step he hx⟩

/-- The height is the number of steps to a node furthest down. -/
theorem isGreatest_height (d : Descriptor) : IsGreatest {k | ∃ x, d.Reaches k x} d.height :=
  ⟨d.exists_reaches_height, fun _ ⟨_, hx⟩ => hx.le_height⟩

theorem height_le_iff {d : Descriptor} {n : Nat} :
    d.height ≤ n ↔ ∀ k x, d.Reaches k x → k ≤ n := by
  obtain ⟨⟨x, hx⟩, hgreatest⟩ := d.isGreatest_height
  exact ⟨fun h k y hy => (hgreatest ⟨y, hy⟩).trans h, fun h => h _ x hx⟩

/-- A descriptor that is clean at some limit is so at every limit with room for its height. -/
theorem Clean.clean_zero_iff {limit depth n : Nat} {d : Descriptor} (h : d.Clean limit depth) :
    d.Clean n 0 ↔ d.height ≤ n := by
  rw [height_le_iff]
  constructor
  · intro hn k x hx
    have := (hn k x hx).1
    omega
  · intro hn k x hx
    have := hn k x hx
    exact ⟨by omega, (h k x hx).2⟩

end Descriptor

namespace Entity

open Descriptor

mutual

/-- The unions directly inside one another in a target, itself the first. -/
def layers : Descriptor → Nat
  | .union members => memberLayers members + 1
  | _ => 0

def memberLayers : List Descriptor → Nat
  | [] => 0
  | d :: ds => max (layers d) (memberLayers ds)

end

theorem memberLayers_le_iff {ds : List Descriptor} {n : Nat} :
    memberLayers ds ≤ n ↔ ∀ d ∈ ds, layers d ≤ n := by
  induction ds with
  | nil => simp [memberLayers]
  | cons d ds ih => simp [memberLayers, ih]

theorem lt_layers {k : Nat} {t : Descriptor} {members : List Descriptor}
    (h : t.Opens k (.union members)) : k < layers t := by
  generalize hx : Descriptor.union members = x at h
  induction h with
  | refl d =>
    subst hx
    exact Nat.succ_pos _
  | @step members d x k hd _ ih =>
    have hk := ih hx
    have hle := memberLayers_le_iff.mp (Nat.le_refl _) d hd
    rw [layers]
    omega

theorem layers_le_iff {t : Descriptor} {n : Nat} :
    layers t ≤ n ↔ ∀ k members, t.Opens k (.union members) → k + 1 ≤ n := by
  refine ⟨fun h k members hk => (lt_layers hk).trans_le h, fun h => ?_⟩
  induction t generalizing n with
  | union members ih =>
    obtain ⟨n, rfl⟩ : ∃ m, n = m + 1 := Nat.exists_eq_add_one.mpr (h 0 members (.refl _))
    rw [layers, Nat.add_le_add_iff_right, memberLayers_le_iff]
    intro d hd
    exact ih d hd fun k ms hk => Nat.le_of_succ_le_succ (h (k + 1) ms (.step hd hk))
  | _ => exact Nat.zero_le _

def declarations (t : Descriptor) : List Descriptor :=
  (shapes t).flatMap fun s => s.fields.flatMap (·.declarations)

/-- The greatest height of a declaration in the objects of a target. -/
def declarationHeight (t : Descriptor) : Nat := ((declarations t).map height).foldr max 0

theorem declarationHeight_le_iff {t : Descriptor} {n : Nat} :
    declarationHeight t ≤ n ↔ ∀ d ∈ declarations t, d.height ≤ n := by
  constructor
  · intro h d hd
    exact (List.le_max_of_le (List.mem_map_of_mem hd) (Nat.le_refl _)).trans h
  · intro h
    refine List.max_le_of_forall_le _ n fun k hk => ?_
    obtain ⟨d, hd, rfl⟩ := List.mem_map.mp hk
    exact h d hd

theorem mem_declarations_iff {t d : Descriptor} :
    d ∈ declarations t ↔
      ∃ k s, t.Opens k (.object s) ∧ ∃ f ∈ s.fields, d ∈ f.declarations := by
  simp only [declarations, List.mem_flatMap, mem_shapes_iff]
  grind

/-- A target that is compilable at some limit is so at every limit with room for its layers and
for the heights of its declarations. -/
theorem Compilable.compilable_iff {limit n : Nat} {t : Descriptor} (h : Compilable limit t) :
    Compilable n t ↔ max (Entity.layers t) (declarationHeight t) ≤ n := by
  rw [max_le_iff, layers_le_iff, declarationHeight_le_iff]
  constructor
  · intro hn
    refine ⟨hn.layers, fun d hd => height_le_iff.mpr fun k x hx => ?_⟩
    obtain ⟨j, s, hs, f, hf, hd⟩ := mem_declarations_iff.mp hd
    exact (hn.nodes j s hs f hf d hd k x hx).1
  · rintro ⟨hlayers, hheight⟩
    refine ⟨h.opens, h.inhabited, hlayers, h.unambiguous, fun j s hs f hf d hd k x hx => ?_⟩
    have hd' := hheight d (mem_declarations_iff.mpr ⟨j, s, hs, f, hf, hd⟩)
    exact ⟨height_le_iff.mp hd' k x hx, (h.nodes j s hs f hf d hd k x hx).2⟩

end Entity

end TypeSchema
