import TypeSchema.Proofs.Except
import TypeSchema.Proofs.Rewriting

/-!
Enumerations as unions of literals. An enumeration lists what the union of the literals of its
members lists, and a literal null lists what null does; so a descriptor may be written without
either. The literals lie one step further down than the enumeration, and as nothing lies below them
the limit has to be greater by one, however many enumerations there are.
-/
namespace TypeSchema

theorem Member.plain_iff {m : Member} : m.Plain ↔ m.initializer.all Json.isScalar = true := by
  unfold Plain
  cases m.initializer <;> simp

instance (m : Member) : Decidable m.Plain := decidable_of_iff _ Member.plain_iff.symm

/-- What a member stands for: its initializer, or else its position. -/
def Member.constant (position : Nat) (m : Member) : Constant :=
  match m.initializer with
  | some (.string s) => .string s
  | some (.number n) => .number n
  | some (.bool b) => .bool b
  | _ => .number (.int position)

/-- The literal of what a member stands for. -/
theorem Member.Plain.alternative_constant {m : Member} (h : m.Plain) (position : Nat) :
    ∃ s, m.scalar? position = some s ∧ (m.constant position).alternative = .literal s := by
  unfold constant scalar?
  cases hm : m.initializer with
  | none => exact ⟨_, rfl, rfl⟩
  | some v =>
    have hv := h v hm
    cases v with
    | string s => exact ⟨_, rfl, rfl⟩
    | number n => exact ⟨_, rfl, rfl⟩
    | bool b => exact ⟨_, rfl, rfl⟩
    | _ => cases hv

namespace Enumeration

/-- There are members, and each stands for something. -/
def Valued (e : Enumeration) : Prop := e.members ≠ [] ∧ ∀ m ∈ e.members, m.Plain

instance (e : Enumeration) : Decidable e.Valued :=
  inferInstanceAs (Decidable (e.members ≠ [] ∧ ∀ m ∈ e.members, m.Plain))

/-- The literals of the members, in their order. -/
def literals (e : Enumeration) : List Descriptor :=
  e.members.mapIdx fun position m => .literal (m.constant position)

theorem literals_ne_nil {e : Enumeration} (h : e.Valued) : e.literals ≠ [] := by
  simpa [literals] using h.1

theorem exists_of_mem_literals {e : Enumeration} {d : Descriptor} (h : d ∈ e.literals) :
    ∃ c, c ≠ .null ∧ d = .literal c := by
  obtain ⟨position, hposition, rfl⟩ := List.mem_mapIdx.mp h
  refine ⟨_, ?_, rfl⟩
  unfold Member.constant
  split <;> simp

end Enumeration

namespace Descriptor

mutual

/-- The descriptor with a union of literals in the place of every enumeration that stands for one,
and null in the place of every literal null. -/
def desugar : Descriptor → Descriptor
  | .literal .null => .null
  | .enumeration e => if e.Valued then .union e.literals else .enumeration e
  | .object ⟨name, fields⟩ => .object ⟨name, desugarFields fields⟩
  | .array element => .array (desugar element)
  | .tuple elements => .tuple (desugarAll elements)
  | .union members => .union (desugarAll members)
  | d => d

def desugarAll : List Descriptor → List Descriptor
  | [] => []
  | d :: ds => desugar d :: desugarAll ds

def desugarFields : List Field → List Field
  | [] => []
  | ⟨name, optional, declarations⟩ :: fields =>
    ⟨name, optional, desugarAll declarations⟩ :: desugarFields fields

end

theorem desugarAll_eq_map (ds : List Descriptor) : desugarAll ds = ds.map desugar := by
  induction ds with
  | nil => rfl
  | cons d ds ih => exact congrArg (d.desugar :: ·) ih

theorem desugarFields_eq_map (fields : List Field) :
    desugarFields fields =
      fields.map fun f => { f with declarations := f.declarations.map desugar } := by
  induction fields with
  | nil => rfl
  | cons f fields ih =>
    obtain ⟨name, optional, declarations⟩ := f
    rw [List.map_cons, ← ih, ← desugarAll_eq_map]
    rfl

theorem desugar_object (name : Option String) (fields : List Field) :
    desugar (.object ⟨name, fields⟩) = .object ⟨name,
      fields.map fun f => { f with declarations := f.declarations.map desugar }⟩ :=
  congrArg (fun fields => object ⟨name, fields⟩) (desugarFields_eq_map fields)

theorem desugar_array (element : Descriptor) : desugar (.array element) = .array element.desugar :=
  rfl

theorem desugar_tuple (elements : List Descriptor) :
    desugar (.tuple elements) = .tuple (elements.map desugar) :=
  congrArg tuple (desugarAll_eq_map elements)

theorem desugar_union (members : List Descriptor) :
    desugar (.union members) = .union (members.map desugar) :=
  congrArg union (desugarAll_eq_map members)

theorem desugar_enumeration (e : Enumeration) :
    desugar (.enumeration e) = if e.Valued then .union e.literals else .enumeration e :=
  rfl

/-- An enumeration may give way to a union; every other descriptor has the parts that it had. -/
theorem desugar_cases (d : Descriptor) :
    (∃ e, d = .enumeration e ∧ e.Valued ∧ d.desugar = .union e.literals) ∨
      d.desugar.parts = d.parts.map desugar ∧ (d.desugar.Sound ↔ d.Sound) := by
  cases d with
  | literal value => cases value <;> exact .inr ⟨rfl, Iff.rfl⟩
  | object s =>
    obtain ⟨name, fields⟩ := s
    rw [desugar_object]
    refine .inr ⟨by simp [parts, List.map_flatMap, List.flatMap_map], ?_⟩
    have hsingle (f : Field) : (∃ d, f.declarations.map desugar = [d]) ↔
        ∃ d, f.declarations = [d] := by
      simp [← List.length_eq_one_iff]
    constructor
    · rintro ⟨hnodup, hall⟩
      rw [List.forall_mem_map] at hall
      exact ⟨by simpa [Function.comp_def] using hnodup, fun f hf => (hsingle f).mp (hall f hf)⟩
    · rintro ⟨hnodup, hall⟩
      refine ⟨by simpa [Function.comp_def] using hnodup, ?_⟩
      rw [List.forall_mem_map]
      exact fun f hf => (hsingle f).mpr (hall f hf)
  | array element => exact .inr ⟨rfl, Iff.rfl⟩
  | tuple elements =>
    rw [desugar_tuple]
    exact .inr ⟨rfl, Iff.rfl⟩
  | union members =>
    rw [desugar_union]
    exact .inr ⟨rfl, by simp [Sound]⟩
  | enumeration e =>
    rw [desugar_enumeration]
    by_cases he : e.Valued
    · exact .inl ⟨e, rfl, he, if_pos he⟩
    · rw [if_neg he]
      exact .inr ⟨rfl, Iff.rfl⟩
  | _ => exact .inr ⟨rfl, Iff.rfl⟩

/-! ### What is listed -/

theorem memberListings_mapIdx {ms : List Member} (h : ∀ m ∈ ms, m.Plain) (start : Nat) :
    memberListings (ms.mapIdx fun i m => .literal (m.constant (start + i))) =
      (Member.scalars start ms).map .literal := by
  induction ms generalizing start with
  | nil => rfl
  | cons m ms ih =>
    rw [List.forall_mem_cons] at h
    have hrest := ih h.2 (start + 1)
    simp only [Nat.add_assoc, Nat.add_comm 1] at hrest
    obtain ⟨s, hs, hconstant⟩ := h.1.alternative_constant start
    rw [List.mapIdx_cons, memberListings, listing, Nat.add_zero, hrest, hconstant, Member.scalars,
      hs]
    rfl

theorem Enumeration.listing_literals {e : Enumeration} (h : e.Valued) :
    (union e.literals).listing = (enumeration e).listing := by
  have hmembers := memberListings_mapIdx h.2 0
  simp only [Nat.zero_add] at hmembers
  exact hmembers

theorem listing_desugar (d : Descriptor) : d.desugar.listing = d.listing := by
  induction d with
  | literal value => cases value <;> rfl
  | object name fields ih =>
    rw [desugar_object, listing, listing, fieldListings_eq_map, fieldListings_eq_map, List.map_map]
    refine congrArg (fun properties => [Alternative.object properties]) ?_
    refine List.map_congr_left fun f hf => ?_
    simp only [Function.comp_apply, Field.property, List.flatMap_map]
    rw [List.flatMap_congr fun d hd => ih f hf d hd]
  | array element ih => rw [desugar_array, listing, ih, listing]
  | tuple elements ih =>
    rw [desugar_tuple, listing, listing, positionListings_eq_map, positionListings_eq_map,
      List.map_map]
    exact congrArg (fun positions => [Alternative.tuple positions]) (List.map_congr_left ih)
  | union members ih =>
    rw [desugar_union, listing, listing, memberListings_eq_flatMap, memberListings_eq_flatMap,
      List.flatMap_map]
    exact List.flatMap_congr ih
  | enumeration e =>
    rw [desugar_enumeration]
    split
    next he => exact Enumeration.listing_literals he
    next => rfl
  | _ => rfl

/-! ### How deep it is -/

theorem clean_literals_iff {limit depth : Nat} {e : Enumeration} (he : e.Valued) :
    (union e.literals).Clean limit depth ↔ depth + 1 ≤ limit := by
  rw [clean_union_iff]
  refine ⟨fun h => ?_, fun h => ⟨by omega, Enumeration.literals_ne_nil he, fun d hd => ?_⟩⟩
  · obtain ⟨d, hd⟩ := List.exists_mem_of_ne_nil _ (Enumeration.literals_ne_nil he)
    exact (clean_iff.mp (h.2.2 d hd)).1
  · obtain ⟨c, -, rfl⟩ := Enumeration.exists_of_mem_literals hd
    exact clean_iff.mpr ⟨h, trivial, nofun⟩

theorem clean_of_desugar {d : Descriptor} {limit depth : Nat} (h : d.desugar.Clean limit depth) :
    d.Clean limit depth := by
  induction d using induction_on_parts generalizing depth with
  | node d ih =>
    rcases d.desugar_cases with ⟨e, rfl, he, hd⟩ | ⟨hparts, hsound⟩
    · rw [hd, clean_literals_iff he] at h
      exact clean_iff.mpr ⟨by omega, he, nofun⟩
    · rw [clean_iff, hparts, List.forall_mem_map, hsound] at h
      exact clean_iff.mpr ⟨h.1, h.2.1, fun e he => ih e he (h.2.2 e he)⟩

theorem Clean.desugar {d : Descriptor} {limit depth : Nat} (h : d.Clean limit depth) :
    d.desugar.Clean (limit + 1) depth := by
  induction d using induction_on_parts generalizing depth with
  | node d ih =>
    rcases d.desugar_cases with ⟨e, rfl, he, hd⟩ | ⟨hparts, hsound⟩
    · rw [hd, clean_literals_iff he]
      have := (clean_iff.mp h).1
      omega
    · obtain ⟨hdepth, hd, hd'⟩ := clean_iff.mp h
      rw [clean_iff, hparts, List.forall_mem_map, hsound]
      exact ⟨by omega, hd, fun e he => ih e he (hd' e he)⟩

theorem desugar_ne (d : Descriptor) :
    d.desugar ≠ .literal .null ∧ ∀ e, d.desugar = .enumeration e → ¬ e.Valued := by
  cases d with
  | literal value => cases value <;> exact ⟨nofun, nofun⟩
  | enumeration e =>
    rw [desugar_enumeration]
    split
    next => simp
    next he => simpa using he
  | object s =>
    cases s
    simp [desugar_object]
  | _ => exact ⟨nofun, nofun⟩

/-- No literal null is left, and no enumeration that stands for a union. -/
theorem reaches_desugar {d x : Descriptor} {k : Nat} (h : d.desugar.Reaches k x) :
    x ≠ .literal .null ∧ ∀ e, x = .enumeration e → ¬ e.Valued := by
  induction d using induction_on_parts generalizing k with
  | node d ih =>
    generalize hd' : d.desugar = d' at h
    cases h with
    | refl => exact hd' ▸ d.desugar_ne
    | step hy hx =>
      subst hd'
      rcases d.desugar_cases with ⟨e, -, -, hd⟩ | ⟨hparts, -⟩
      · rw [hd] at hy
        obtain ⟨c, hc, rfl⟩ := Enumeration.exists_of_mem_literals hy
        cases hx with
        | refl => simpa using hc
        | step hz _ => cases hz
      · rw [hparts] at hy
        obtain ⟨y, hmem, rfl⟩ := List.mem_map.mp hy
        exact ih y hmem hx

end Descriptor

namespace Entity

open Descriptor

/-! ### Targets -/

theorem target_desugar (d : Descriptor) :
    target d.desugar = ((target d).1, (target d).2.desugar) := by
  cases d with
  | literal value => cases value <;> rfl
  | tuple elements => rcases elements with _ | ⟨d, _ | ⟨e, rest⟩⟩ <;> rfl
  | enumeration e =>
    change target (enumeration e).desugar = (false, (enumeration e).desugar)
    rw [desugar_enumeration]
    split <;> rfl
  | object s => cases s; rfl
  | _ => rfl

theorem targetName_desugar (t : Descriptor) : targetName t.desugar = targetName t := by
  cases t with
  | literal value => cases value <;> rfl
  | enumeration e =>
    rw [desugar_enumeration]
    split <;> rfl
  | object s => cases s; rfl
  | _ => rfl

theorem shapes_literals (e : Enumeration) : shapes (.union e.literals) = [] := by
  rw [shapes, memberShapes_eq_flatMap, List.flatMap_eq_nil_iff]
  intro d hd
  obtain ⟨c, -, rfl⟩ := Enumeration.exists_of_mem_literals hd
  rfl

theorem variants_desugar (t : Descriptor) :
    (shapes t.desugar).map variant = (shapes t).map variant := by
  induction t with
  | literal value => cases value <;> rfl
  | object name fields _ =>
    have hlisting := Descriptor.listing_desugar (.object ⟨name, fields⟩)
    simpa [desugar_object, Descriptor.listing, shapes, variant] using hlisting
  | union members ih =>
    rw [desugar_union, shapes, shapes, memberShapes_eq_flatMap, memberShapes_eq_flatMap,
      List.flatMap_map, List.map_flatMap, List.map_flatMap]
    exact List.flatMap_congr ih
  | enumeration e =>
    rw [desugar_enumeration]
    split
    next => rw [shapes_literals]; rfl
    next => rfl
  | _ => rfl

section
variable {limit layer : Nat} {t : Descriptor}

theorem fits_of_desugar (h : Fits limit layer t.desugar) : Fits limit layer t := by
  induction t generalizing layer with
  | object name fields _ =>
    exact fits_object_iff.mpr (clean_of_desugar (fits_object_iff.mp h))
  | union members ih =>
    rw [desugar_union, fits_union_iff, List.forall_mem_map] at h
    exact fits_union_iff.mpr ⟨h.1, fun d hd => ih d hd (h.2 d hd)⟩
  | enumeration e =>
    rw [desugar_enumeration] at h
    split at h
    next he =>
      obtain ⟨d, hd⟩ := List.exists_mem_of_ne_nil _ (Enumeration.literals_ne_nil he)
      obtain ⟨c, -, rfl⟩ := Enumeration.exists_of_mem_literals hd
      simpa using ((fits_union_iff.mp h).2 _ hd).object_or_union
    next => simpa using h.object_or_union
  | literal value =>
    cases value with
    | null => simpa using Fits.object_or_union (t := .null) h
    | _ => exact h
  | array element => simpa [desugar_array] using h.object_or_union
  | tuple elements => simpa [desugar_tuple] using h.object_or_union
  | _ => exact h

theorem Fits.desugar (h : Fits limit layer t) : Fits (limit + 1) layer t.desugar := by
  induction t generalizing layer with
  | object name fields _ => exact fits_object_iff.mpr (fits_object_iff.mp h).desugar
  | union members ih =>
    rw [fits_union_iff] at h
    rw [desugar_union, fits_union_iff, List.forall_mem_map]
    exact ⟨by omega, fun d hd => ih d hd (h.2 d hd)⟩
  | _ => simpa using h.object_or_union

end

theorem listing_desugar (d : Descriptor) : listing d.desugar = listing d := by
  rw [listing, listing, target_desugar, targetName_desugar, variants_desugar]

/-- Enumerations are unions of literals, and a literal null is null. With the one in the place of
the other, wherever that is, a root has the entity and the schemas that it has as it is; the other
way round under a limit that is greater by one. -/
theorem enumerations_are_unions (d : Descriptor) (limit : Nat) :
    (∀ k x, d.desugar.Reaches k x → x ≠ .literal .null ∧ ∀ e, x = .enumeration e → ¬ e.Valued) ∧
    (∀ e, ofDescriptor limit d.desugar = .ok e → ofDescriptor limit d = .ok e) ∧
    (∀ e, ofDescriptor limit d = .ok e → ofDescriptor (limit + 1) d.desugar = .ok e) ∧
    (∀ policy s, d.desugar.schema ⟨limit, policy⟩ = .ok s → d.schema ⟨limit, policy⟩ = .ok s) ∧
    ∀ policy s, d.schema ⟨limit, policy⟩ = .ok s →
      d.desugar.schema ⟨limit + 1, policy⟩ = .ok s := by
  have hof (e : Entity) (h : ofDescriptor limit d.desugar = .ok e) :
      ofDescriptor limit d = .ok e := by
    rw [ofDescriptor_eq_ok_iff_fits, target_desugar, variants_desugar, listing_desugar] at h
    exact ofDescriptor_eq_ok_iff_fits.mpr ⟨fits_of_desugar h.1, h.2⟩
  have hto (e : Entity) (h : ofDescriptor limit d = .ok e) :
      ofDescriptor (limit + 1) d.desugar = .ok e := by
    rw [ofDescriptor_eq_ok_iff_fits] at h
    rw [ofDescriptor_eq_ok_iff_fits, target_desugar, variants_desugar, listing_desugar]
    exact ⟨h.1.desugar, h.2⟩
  refine ⟨fun k x hx => reaches_desugar hx, hof, hto, fun policy s hs => ?_, fun policy s hs => ?_⟩
  · obtain ⟨e, he, hs⟩ := Except.bind_eq_ok_iff.mp hs
    exact Except.bind_eq_ok_iff.mpr ⟨e, hof e he, hs⟩
  · obtain ⟨e, he, hs⟩ := Except.bind_eq_ok_iff.mp hs
    exact Except.bind_eq_ok_iff.mpr ⟨e, hto e he, hs⟩

/-- Enumerations at two depths; at the limit that the descriptor needs, the unions are too deep. -/
theorem enumerations_are_unions_token :
    let kinds : Enumeration :=
      ⟨some "Kind", [⟨"word", none⟩, ⟨"sign", some (.string "s")⟩, ⟨"gap", none⟩]⟩
    let token : Descriptor := .object ⟨some "Token", [⟨"kind", false, [.enumeration kinds]⟩,
      ⟨"before", false, [.array (.enumeration kinds)]⟩, ⟨"next", true, [.literal .null]⟩]⟩
    let listed : List Alternative :=
      [.literal (.number (.int 0)), .literal (.string "s"), .literal (.number (.int 2))]
    let entity : Entity := ⟨some "Token", false, [⟨some "Token", [("kind", ⟨false, listed⟩),
      ("before", ⟨false, [.array listed]⟩), ("next", ⟨true, [.null]⟩)]⟩]⟩
    ofDescriptor 2 token.desugar = .ok entity ∧ ofDescriptor 2 token = .ok entity ∧
      ofDescriptor 1 token = .ok entity ∧ ofDescriptor 1 token.desugar =
        .error ⟨⟨"Token", [.field "before", .element]⟩, .depthExceeded 1⟩ := by
  intro kinds token listed entity
  have hto : ofDescriptor 2 token.desugar = .ok entity :=
    (enumerations_are_unions token 1).2.2.1 entity rfl
  exact ⟨hto, (enumerations_are_unions token 2).2.1 entity hto, rfl, rfl⟩

end Entity

end TypeSchema
