import Mathlib.Data.List.Forall2
import TypeSchema.Proofs.FieldNames

/-!
The names of objects, enumerations and members are there for messages. Descriptors that differ in
them only have the same schema or are rejected for the same reason at the same place; the path to it
may begin with another name, and the member at fault may have another.
-/
namespace TypeSchema

theorem Segment.rename_id (s : Segment) : s.rename id = s := by
  cases s <;> rfl

namespace Schema

mutual

theorem rename_id : ∀ s : Schema, s.rename id = s
  | .object properties required => by rw [rename, renameProperties_id, List.map_id]
  | .array items => by rw [rename, rename_id items]
  | .tuple items => by rw [rename, renameAll_id]
  | .anyOf arms => by rw [rename, renameAll_id]
  | .types _ => rfl
  | .const _ => rfl
  | .any => rfl

theorem renameAll_id : ∀ ss : List Schema, renameAll id ss = ss
  | [] => rfl
  | s :: rest => by rw [renameAll, rename_id s, renameAll_id rest]

theorem renameProperties_id : ∀ properties : List (String × Schema),
    renameProperties id properties = properties
  | [] => rfl
  | (name, s) :: rest => by rw [renameProperties, rename_id s, renameProperties_id rest, id]

end

end Schema

/-- No object or enumeration has a name, and every member has the empty one. -/
def Relabelling.unnaming : Relabelling :=
  { object := fun _ => none, enumeration := fun _ => none, member := fun _ => "" }

def Descriptor.unnamed (d : Descriptor) : Descriptor := d.relabel .unnaming

def Rejection.Cause.unnamed (cause : Rejection.Cause) : Rejection.Cause := cause.relabel .unnaming

theorem forall₂_of_map_eq {α β : Type} {f : α → β} {as bs : List α} (h : as.map f = bs.map f) :
    List.Forall₂ (fun a b => f a = f b) as bs := by
  rwa [← List.forall₂_map_right_iff, ← List.forall₂_map_left_iff, List.forall₂_eq_eq_eq]

namespace Entity

open Descriptor

/-- The names of corresponding variants of two roots, or that of a root as a whole. -/
def RootsAlike (d d' : Descriptor) (root root' : String) : Prop :=
  (root = rootName ∧ root' = rootName) ∨
    ∃ s s', (s, s') ∈ (shapes (target d).2).zip (shapes (target d').2) ∧
      root = s.name.getD rootName ∧ root' = s'.name.getD rootName

/-- Faults of two roots for the same reason at the same place. -/
structure Alike (d d' : Descriptor) (e e' : Rejection) : Prop where
  cause : e.cause.unnamed = e'.cause.unnamed
  segments : e.location.segments = e'.location.segments
  root : RootsAlike d d' e.location.root e'.location.root

def RootedAt (root : String) (faults : List Rejection) : Prop :=
  ∀ e ∈ faults, e.location.root = root

theorem RootedAt.of_map_eq {root : String} {faults : List Rejection}
    (h : faults.map (Rejection.relabel (fun _ => root) {}) = faults) : RootedAt root faults := by
  intro e he
  rw [← h] at he
  obtain ⟨e', -, rfl⟩ := List.mem_map.mp he
  rfl

theorem rootedAt_targetFaults (limit : Nat) (isArray : Bool) (t : Descriptor) :
    RootedAt rootName (targetFaults limit isArray t) := by
  refine .of_map_eq ?_
  rw [← targetFaults_relabel rfl, relabel_id]

theorem rootedAt_variantFaults (limit : Nat) (s : Shape) :
    RootedAt (s.name.getD rootName) (variantFaults limit s) := by
  refine .of_map_eq ?_
  rw [← variantFaults_relabel Function.injective_id rfl, Shape.relabel_id]

section
variable {d d' : Descriptor}

theorem forall₂_alike {root root' : String} {faults faults' : List Rejection}
    (h : faults.map (Rejection.relabel (fun _ => rootName) .unnaming) =
      faults'.map (Rejection.relabel (fun _ => rootName) .unnaming))
    (hroots : RootsAlike d d' root root') (hfaults : RootedAt root faults)
    (hfaults' : RootedAt root' faults') : List.Forall₂ (Alike d d') faults faults' := by
  obtain ⟨hlength, hrelabel⟩ := List.forall₂_iff_zip.mp (forall₂_of_map_eq h)
  refine List.forall₂_iff_zip.mpr ⟨hlength, fun {e e'} hmem => ?_⟩
  obtain ⟨hlocation, hcause⟩ := Rejection.mk.inj (hrelabel hmem)
  have hsegments := congrArg Location.segments hlocation
  have hrename : Segment.rename Relabelling.unnaming.field = id := funext Segment.rename_id
  rw [Location.relabel, Location.relabel, hrename, List.map_id, List.map_id] at hsegments
  have hroot := hfaults e (List.of_mem_zip hmem).1
  have hroot' := hfaults' e' (List.of_mem_zip hmem).2
  exact ⟨hcause, hsegments, hroot ▸ hroot' ▸ hroots⟩

theorem target_of_unnamed_eq (h : d.unnamed = d'.unnamed) :
    (target d).1 = (target d').1 ∧
      (target d).2.relabel .unnaming = (target d').2.relabel .unnaming := by
  have htarget := congrArg target h
  rw [unnamed, unnamed, target_relabel, target_relabel] at htarget
  exact Prod.mk.inj htarget

theorem targetFaults_alike (h : d.unnamed = d'.unnamed) (limit : Nat) :
    List.Forall₂ (Alike d d') (targetFaults limit (target d).1 (target d).2)
      (targetFaults limit (target d').1 (target d').2) := by
  obtain ⟨hisArray, ht⟩ := target_of_unnamed_eq h
  refine forall₂_alike ?_ (.inl ⟨rfl, rfl⟩) (rootedAt_targetFaults _ _ _)
    (rootedAt_targetFaults _ _ _)
  rw [← targetFaults_relabel rfl, ← targetFaults_relabel rfl, hisArray, ht]

theorem variantFaults_alike {s s' : Shape} (h : s.relabel .unnaming = s'.relabel .unnaming)
    (hmem : (s, s') ∈ (shapes (target d).2).zip (shapes (target d').2)) (limit : Nat) :
    List.Forall₂ (Alike d d') (variantFaults limit s) (variantFaults limit s') := by
  refine forall₂_alike ?_ (.inr ⟨s, s', hmem, rfl, rfl⟩) (rootedAt_variantFaults _ _)
    (rootedAt_variantFaults _ _)
  rw [← variantFaults_relabel Function.injective_id rfl,
    ← variantFaults_relabel Function.injective_id rfl, h]

/-- Descriptors that differ in the names for messages have the same faults, but for these names. -/
theorem faults_alike (h : d.unnamed = d'.unnamed) (limit : Nat) :
    List.Forall₂ (Alike d d') (faults limit d) (faults limit d') := by
  have hshapes : List.Forall₂ (fun s s' => s.relabel .unnaming = s'.relabel .unnaming)
      (shapes (target d).2) (shapes (target d').2) := by
    refine forall₂_of_map_eq ?_
    rw [← shapes_relabel, ← shapes_relabel, (target_of_unnamed_eq h).2]
  have hpairs : List.Forall₂
      (fun s s' => List.Forall₂ (Alike d d') (variantFaults limit s) (variantFaults limit s'))
      (shapes (target d).2) (shapes (target d').2) := by
    obtain ⟨hlength, hrelabel⟩ := List.forall₂_iff_zip.mp hshapes
    exact List.forall₂_iff_zip.mpr
      ⟨hlength, fun hmem => variantFaults_alike (hrelabel hmem) hmem limit⟩
  have hvariants : List.Forall₂ (Alike d d') ((shapes (target d).2).flatMap (variantFaults limit))
      ((shapes (target d').2).flatMap (variantFaults limit)) :=
    List.rel_flatMap hpairs fun _ _ hfaults => hfaults
  have htarget := targetFaults_alike h limit
  unfold faults
  cases hfaults : targetFaults limit (target d).1 (target d).2 <;>
    cases hfaults' : targetFaults limit (target d').1 (target d').2 <;>
    rw [hfaults, hfaults'] at htarget
  · exact hvariants
  · cases htarget
  · cases htarget
  · exact htarget

end

end Entity

namespace Descriptor

/-- Descriptors that differ in no more than the names of objects, enumerations and members have the
same schema, or are rejected for the same reason at the same place. -/
theorem schema_of_unnamed_eq {d d' : Descriptor} (h : d.unnamed = d'.unnamed)
    (settings : Settings) :
    (∃ s, d.schema settings = .ok s ∧ d'.schema settings = .ok s) ∨
      ∃ e e', d.schema settings = .error e ∧ d'.schema settings = .error e' ∧
        Entity.Alike d d' e e' := by
  -- fields keep their names, so the schema of a descriptor is that of it unnamed
  have hlisting (d : Descriptor) :
      Schema.ofEntity settings.nullPolicy (Entity.listing d.unnamed) =
        Schema.ofEntity settings.nullPolicy (Entity.listing d) :=
    (Schema.ofEntity_relabel .unnaming settings.nullPolicy d).trans (Schema.rename_id _)
  have hschema : Schema.ofEntity settings.nullPolicy (Entity.listing d) =
      Schema.ofEntity settings.nullPolicy (Entity.listing d') := by
    rw [← hlisting d, h, hlisting d']
  have hfaults := Entity.faults_alike h settings.maxDepth
  rw [schema_eq_verdict, schema_eq_verdict, hschema]
  generalize Entity.faults settings.maxDepth d = faults at hfaults ⊢
  generalize Entity.faults settings.maxDepth d' = faults' at hfaults ⊢
  cases hfaults with
  | nil => exact .inl ⟨_, rfl, rfl⟩
  | cons hhead _ => exact .inr ⟨_, _, rfl, rfl, hhead⟩

/-- An enumeration in the second of two variants, with all its names and with as few as can be. -/
theorem schema_of_unnamed_eq_kinds :
    let shape (name kind : Option String) (member : String) (initializer : Json) : Descriptor :=
      .union [.object ⟨some "Point", []⟩, .object ⟨name, [⟨"kind", false,
        [.enumeration ⟨kind, [⟨member, some initializer⟩]⟩]⟩]⟩]
    let named := shape (some "Line") (some "Kind") "Straight"
    let other := shape none none ""
    (∃ s, (named (.string "s")).schema {} = .ok s ∧ (other (.string "s")).schema {} = .ok s) ∧
      (named .null).schema {} =
        .error ⟨⟨"Line", [.field "kind"]⟩, .unknownInitializer "Straight" .null⟩ ∧
      (other .null).schema {} =
        .error ⟨⟨"<root>", [.field "kind"]⟩, .unknownInitializer "" .null⟩ ∧
      Entity.RootsAlike (named .null) (other .null) "Line" "<root>" := by
  intro shape named other
  have hunnamed (initializer : Json) :
      (named initializer).unnamed = (other initializer).unnamed := rfl
  refine ⟨?_, rfl, rfl, ?_⟩
  · rcases schema_of_unnamed_eq (hunnamed (.string "s")) {} with hok | ⟨_, _, he, _⟩
    · exact hok
    · cases he
  · rcases schema_of_unnamed_eq (hunnamed .null) {} with ⟨_, hs, _⟩ | ⟨e, e', he, he', halike⟩
    · cases hs
    · cases he
      cases he'
      exact halike.root

end Descriptor

end TypeSchema
