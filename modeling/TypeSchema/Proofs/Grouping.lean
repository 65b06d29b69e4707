import Mathlib.Logic.Relation
import TypeSchema.Proofs.Limit
import TypeSchema.Proofs.Rewriting

/-!
How the alternatives of a type are grouped in unions does not matter. A union directly inside a
union may be spliced into it, and below a field a union of one member is as good as the member: one
such step leaves the entity of a root as it is, and so does a run of them. Undoing a step may ask
for a greater limit, and for nothing else unless an empty union comes back with it.
-/
namespace TypeSchema

namespace Descriptor

/-! ### One step -/

/-- A union directly inside a union gives way to its members. -/
inductive Splices : Descriptor → Descriptor → Prop where
  | splice (before members after : List Descriptor) :
    Splices (.union (before ++ .union members :: after)) (.union (before ++ members ++ after))

/-- A union of one member gives way to the member. -/
inductive Unwraps : Descriptor → Descriptor → Prop where
  | unwrap (d : Descriptor) : Unwraps (.union [d]) d

theorem forall_mem_spliced_iff {α : Type} {P : α → Prop} {before members after : List α} :
    (∀ d ∈ before ++ members ++ after, P d) ↔
      (∀ d ∈ members, P d) ∧ ∀ d ∈ before ++ after, P d := by
  simp only [List.forall_mem_append]
  rw [and_assoc, and_left_comm]

theorem harmless_splices : Harmless Splices where
  listing_eq h := by
    obtain ⟨before, members, after⟩ := h
    simp [listing, memberListings_eq_flatMap]
  noEmptyUnion h := by
    obtain ⟨before, members, after⟩ := h
    simp only [noEmptyUnion_union_iff, forall_mem_middle_iff, forall_mem_spliced_iff]
    rintro ⟨-, ⟨hne, hmembers⟩, hothers⟩
    exact ⟨by simp [hne], hmembers, hothers⟩
  clean h limit depth := by
    obtain ⟨before, members, after⟩ := h
    simp only [clean_union_iff, forall_mem_middle_iff, forall_mem_spliced_iff]
    rintro ⟨hdepth, -, ⟨-, hne, hmembers⟩, hothers⟩
    exact ⟨hdepth, by simp [hne], fun d hd => (hmembers d hd).mono (by omega), hothers⟩
  clean_of h hempty limit depth := by
    obtain ⟨before, members, after⟩ := h
    simp only [noEmptyUnion_union_iff, forall_mem_middle_iff] at hempty
    simp only [clean_union_iff, forall_mem_middle_iff, forall_mem_spliced_iff]
    rintro ⟨hdepth, -, hmembers, hothers⟩
    refine ⟨by omega, by simp, ⟨by omega, hempty.2.1.1, fun d hd => ?_⟩, fun d hd => ?_⟩
    · exact (hmembers d hd).mono (by omega)
    · exact (hothers d hd).mono (by omega)

theorem harmless_unwraps : Harmless Unwraps where
  listing_eq h := by
    obtain ⟨⟩ := h
    simp [listing, memberListings]
  noEmptyUnion h := by
    obtain ⟨⟩ := h
    rw [noEmptyUnion_union_iff]
    exact fun h => h.2 _ (by simp)
  clean h limit depth := by
    obtain ⟨⟩ := h
    rw [clean_union_iff]
    exact fun h => (h.2.2 _ (by simp)).mono (by omega)
  clean_of h _ limit depth hclean := by
    obtain ⟨⟩ := h
    have hdepth := (clean_iff.mp hclean).1
    refine clean_union_iff.mpr ⟨by omega, by simp, ?_⟩
    simpa using hclean.mono (by omega)

end Descriptor

namespace Entity

open Descriptor

theorem harmlessAtRoot_splices : HarmlessAtRoot Splices where
  unions h := by
    obtain ⟨before, members, after⟩ := h
    exact ⟨_, _, rfl, rfl⟩
  agree h := by
    obtain ⟨before, members, after⟩ := h
    refine ⟨rfl, by simp [shapes, memberShapes_eq_flatMap], fun limit layer => ?_,
      fun _ limit layer => ?_⟩
    · simp only [fits_union_iff, forall_mem_middle_iff, forall_mem_spliced_iff]
      rintro ⟨hlayer, ⟨-, hmembers⟩, hothers⟩
      exact ⟨hlayer, fun d hd => (hmembers d hd).mono (by omega) (by omega), hothers⟩
    · simp only [fits_union_iff, forall_mem_middle_iff, forall_mem_spliced_iff]
      rintro ⟨hlayer, hmembers, hothers⟩
      refine ⟨by omega, ⟨by omega, fun d hd => ?_⟩, fun d hd => ?_⟩
      · exact (hmembers d hd).mono (by omega) (by omega)
      · exact (hothers d hd).mono (by omega) (by omega)

end Entity

/-! ### Runs of steps -/

open Relation (ReflTransGen)

/-- One splice after another, each anywhere in the descriptor. -/
abbrev Descriptor.Regroups : Descriptor → Descriptor → Prop :=
  ReflTransGen (Rewrites Splices true)

namespace Entity

open Descriptor

variable {root root' : Descriptor}

theorem ofDescriptor_of_regroups (h : Regroups root root') {limit : Nat} {e : Entity}
    (he : ofDescriptor limit root = .ok e) : ofDescriptor limit root' = .ok e := by
  induction h with
  | refl => exact he
  | tail _ hstep ih =>
    exact (ofDescriptor_of_rewrites harmless_splices (fun _ => harmlessAtRoot_splices) hstep).1 _ _
      ih

theorem exists_ofDescriptor_of_regroups (h : Regroups root root') (hempty : root.NoEmptyUnion)
    {limit : Nat} {e : Entity} (he : ofDescriptor limit root' = .ok e) :
    ∃ limit, ofDescriptor limit root = .ok e := by
  induction h using ReflTransGen.head_induction_on with
  | refl => exact ⟨limit, he⟩
  | head hstep _ ih =>
    obtain ⟨n, hn⟩ := ih (hstep.noEmptyUnion harmless_splices hempty)
    exact ⟨n + 1, (ofDescriptor_of_rewrites harmless_splices (fun _ => harmlessAtRoot_splices)
      hstep).2 hempty _ _ hn⟩

/-- What compiles at all compiles at every limit from some on, and is rejected only for the limit
below. -/
theorem exists_hadFrom {limit : Nat} {e : Entity} (he : ofDescriptor limit root = .ok e) :
    ∃ least, HadFrom least e fun n => ofDescriptor n root := by
  obtain ⟨hfaults, rfl⟩ := ofDescriptor_eq_ok_iff.mp he
  have hcompilable := faults_eq_nil_iff_compilable.mp hfaults
  simp only [ofDescriptor_eq_verdict]
  refine ⟨max (layers (target root).2) (declarationHeight (target root).2),
    hadFrom_verdict (fun n m hnm => faults_cutOff hnm root) (fun n => ?_) _⟩
  rw [faults_eq_nil_iff_compilable]
  exact hcompilable.compilable_iff

end Entity

/-! ### The end of all splices -/

namespace Descriptor

def spliced : Descriptor → List Descriptor
  | .union members => members
  | d => [d]

mutual

/-- The descriptor with every union that is directly inside a union spliced into it, again and
again, wherever it is. -/
def flat : Descriptor → Descriptor
  | .object ⟨name, fields⟩ => .object ⟨name, flatFields fields⟩
  | .array element => .array (flat element)
  | .tuple elements => .tuple (flatAll elements)
  | .union members => .union (flatMembers members)
  | d => d

def flatAll : List Descriptor → List Descriptor
  | [] => []
  | d :: ds => flat d :: flatAll ds

def flatMembers : List Descriptor → List Descriptor
  | [] => []
  | d :: ds => (flat d).spliced ++ flatMembers ds

def flatFields : List Field → List Field
  | [] => []
  | ⟨name, optional, declarations⟩ :: fields =>
    ⟨name, optional, flatAll declarations⟩ :: flatFields fields

end

theorem flatAll_eq_map (ds : List Descriptor) : flatAll ds = ds.map flat := by
  induction ds with
  | nil => rfl
  | cons d ds ih => simp [flatAll, ih]

theorem flatMembers_eq_flatMap (ds : List Descriptor) :
    flatMembers ds = (ds.map flat).flatMap spliced := by
  induction ds with
  | nil => rfl
  | cons d ds ih => simp [flatMembers, ih]

theorem flatFields_eq_map (fields : List Field) :
    flatFields fields =
      fields.map fun f => { f with declarations := f.declarations.map flat } := by
  induction fields with
  | nil => rfl
  | cons f fields ih =>
    obtain ⟨name, optional, declarations⟩ := f
    simp [flatFields, ih, flatAll_eq_map]

/-- Runs in parts of a whole, one part after another; those that are done stand before. -/
theorem regroups_parts (whole : List Descriptor → Descriptor) {f : Descriptor → Descriptor}
    (hwhole : ∀ before after {t t'}, Rewrites Splices true t t' →
      Rewrites Splices true (whole (before ++ t :: after)) (whole (before ++ t' :: after)))
    {ds : List Descriptor} (h : ∀ d ∈ ds, Regroups d (f d)) (done : List Descriptor) :
    Regroups (whole (done ++ ds)) (whole (done ++ ds.map f)) := by
  induction ds generalizing done with
  | nil => exact .refl
  | cons d ds ih =>
    have hfirst : Regroups (whole (done ++ d :: ds)) (whole (done ++ f d :: ds)) :=
      (h d (by simp)).lift (fun t => whole (done ++ t :: ds)) fun _ _ ht => hwhole done ds ht
    have hrest := ih (fun e he => h e (by simp [he])) (done ++ [f d])
    simp only [List.append_assoc, List.singleton_append] at hrest
    exact hfirst.trans hrest

theorem regroups_fields (name : Option String) {fields : List Field}
    (h : ∀ f ∈ fields, ∀ d ∈ f.declarations, Regroups d d.flat) (done : List Field) :
    Regroups (.object ⟨name, done ++ fields⟩) (.object ⟨name, done ++ flatFields fields⟩) := by
  induction fields generalizing done with
  | nil => exact .refl
  | cons f fields ih =>
    obtain ⟨field, optional, declarations⟩ := f
    have hfirst := regroups_parts
      (fun ds => .object ⟨name, done ++ ⟨field, optional, ds⟩ :: fields⟩)
      (fun ds es _ _ ht => .declaration name done fields field optional ds es ht)
      (h _ (List.mem_cons_self ..)) []
    have hrest := ih (fun g hg => h g (by simp [hg]))
      (done ++ [⟨field, optional, declarations.map flat⟩])
    simp only [List.append_assoc, List.singleton_append] at hrest
    rw [flatFields, flatAll_eq_map]
    exact hfirst.trans hrest

theorem regroups_spliced (ds done : List Descriptor) :
    Regroups (.union (done ++ ds)) (.union (done ++ ds.flatMap spliced)) := by
  induction ds generalizing done with
  | nil => exact .refl
  | cons d ds ih =>
    have hfirst : Regroups (.union (done ++ d :: ds)) (.union (done ++ (d.spliced ++ ds))) := by
      unfold spliced
      split
      · simpa using ReflTransGen.single (Rewrites.here (Splices.splice done _ ds))
      · exact .refl
    have hrest := ih (done ++ d.spliced)
    simp only [List.append_assoc] at hrest
    exact hfirst.trans hrest

theorem regroups_flat (d : Descriptor) : Regroups d d.flat := by
  induction d with
  | object name fields ih => exact regroups_fields name ih []
  | array element ih => exact ih.lift Descriptor.array fun _ _ h => .element h
  | tuple elements ih =>
    rw [flat, flatAll_eq_map]
    exact regroups_parts .tuple (fun before after _ _ h => .position before after h) ih []
  | union members ih =>
    rw [flat, flatMembers_eq_flatMap]
    exact (regroups_parts .union (fun before after _ _ h => .member before after h) ih []).trans
      (regroups_spliced _ [])
  | _ => exact .refl

def Grouped (d : Descriptor) : Prop :=
  ∀ k members, d.Reaches k (.union members) → ∀ inner, .union inner ∉ members

theorem grouped_iff {d : Descriptor} :
    d.Grouped ↔ (∀ members, d = .union members → ∀ inner, .union inner ∉ members) ∧
      ∀ e ∈ d.parts, e.Grouped := by
  constructor
  · intro h
    exact ⟨fun members hd => h 0 members (hd ▸ .refl d),
      fun e he k members hk => h (k + 1) members (.step he hk)⟩
  · rintro ⟨hd, hparts⟩ k members hk
    generalize hx : Descriptor.union members = x at hk
    cases hk with
    | refl => exact hd members hx.symm
    | step he hk => exact hparts _ he _ members (hx ▸ hk)

theorem Grouped.not_rewrites {d d' : Descriptor} (hd : d.Grouped) :
    ¬ Rewrites Splices true d d' := by
  intro h
  refine h.induction_on_parts (motive := fun d _ => ¬ d.Grouped) ?_ ?_ hd
  · rintro _ _ ⟨before, members, after⟩ hd
    exact (grouped_iff.mp hd).1 _ rfl members (by simp)
  · intro d d' t t' before after hparts _ _ ih hd
    exact ih ((grouped_iff.mp hd).2 t (by simp [hparts]))

theorem grouped_flat (d : Descriptor) : d.flat.Grouped := by
  induction d with
  | object name fields ih =>
    rw [flat, flatFields_eq_map, grouped_iff]
    refine ⟨by simp, fun e he => ?_⟩
    simp only [parts, List.mem_flatMap, List.mem_map] at he
    obtain ⟨_, ⟨f, hf, rfl⟩, he⟩ := he
    obtain ⟨d, hd, rfl⟩ := List.mem_map.mp he
    exact ih f hf d hd
  | array element ih =>
    rw [flat, grouped_iff]
    exact ⟨by simp, by simpa [parts] using ih⟩
  | tuple elements ih =>
    rw [flat, flatAll_eq_map, grouped_iff]
    exact ⟨by simp, by simpa [parts] using ih⟩
  | union members ih =>
    -- a member is what a grouped union had inside, or it is no union
    have hmember (e : Descriptor) (he : e ∈ flatMembers members) :
        (∀ inner, e ≠ .union inner) ∧ e.Grouped := by
      rw [flatMembers_eq_flatMap, List.flatMap_map] at he
      obtain ⟨d, hd, he⟩ := List.mem_flatMap.mp he
      have hflat := grouped_iff.mp (ih d hd)
      unfold spliced at he
      split at he
      next inner hinner =>
        rw [hinner] at hflat
        exact ⟨fun ms hms => hflat.1 inner rfl ms (hms ▸ he), hflat.2 e he⟩
      next hunion =>
        obtain rfl := List.mem_singleton.mp he
        exact ⟨hunion, ih d hd⟩
    rw [flat, grouped_iff]
    refine ⟨fun ms hms inner hinner => ?_, fun e he => (hmember e he).2⟩
    cases hms
    exact (hmember _ hinner).1 inner rfl
  | _ => exact grouped_iff.mpr ⟨by simp [flat], by simp [flat, parts]⟩

end Descriptor

namespace Entity

open Descriptor

theorem schema_eq_ok_of_ofDescriptor {limit : Nat} {root : Descriptor} {e : Entity}
    (he : ofDescriptor limit root = .ok e) (policy : NullPolicy) :
    root.schema ⟨limit, policy⟩ = .ok (Schema.ofEntity policy e) := by
  simp only [Descriptor.schema, he]
  rfl

/-- The grouping of unions does not matter. With all unions spliced that can be, a root has the
entity and the schemas that it has as it is. The other way round the limit may have to be greater,
and too small a limit is the only reason to reject the root, if no union in it is empty. Below a
field, a union of one member may be replaced by the member. -/
theorem grouping_irrelevant (d : Descriptor) :
    (∀ limit e, ofDescriptor limit d = .ok e → ofDescriptor limit d.flat = .ok e ∧
      ∀ policy, d.schema ⟨limit, policy⟩ = .ok (Schema.ofEntity policy e) ∧
        d.flat.schema ⟨limit, policy⟩ = .ok (Schema.ofEntity policy e)) ∧
    ((∀ k, ¬ d.Reaches k (.union [])) → ∀ limit e, ofDescriptor limit d.flat = .ok e →
      ∃ least, HadFrom least e fun n => ofDescriptor n d) ∧
    (∀ d', Rewrites Unwraps false d d' → ∀ limit e, ofDescriptor limit d = .ok e →
      ofDescriptor limit d' = .ok e) ∧
    Regroups d d.flat ∧ ∀ d', ¬ Rewrites Splices true d.flat d' := by
  refine ⟨fun limit e he => ?_, fun hempty limit e he => ?_, fun d' h limit e he => ?_,
    d.regroups_flat, fun d' => d.grouped_flat.not_rewrites⟩
  · have hflat := ofDescriptor_of_regroups d.regroups_flat he
    exact ⟨hflat, fun policy => ⟨schema_eq_ok_of_ofDescriptor he policy,
      schema_eq_ok_of_ofDescriptor hflat policy⟩⟩
  · obtain ⟨n, hn⟩ := exists_ofDescriptor_of_regroups d.regroups_flat hempty he
    exact exists_hadFrom hn
  · have hroot : false = true → HarmlessAtRoot Unwraps := nofun
    exact (ofDescriptor_of_rewrites harmless_unwraps hroot h).1 limit e he

/-- Unions in unions at the root and below a field, where one has a single member. -/
theorem grouping_irrelevant_nested :
    let d := Descriptor.union [.union [.object ⟨some "A", [⟨"x", false,
      [.array (.union [.union [.primitive .number], .null])]⟩]⟩], .object ⟨none, []⟩]
    let e : Entity := ⟨none, false, [⟨some "A", [("x", ⟨false, [.array [.value .number, .null]]⟩)]⟩,
      ⟨none, []⟩]⟩
    ofDescriptor 3 d = .ok e ∧ ofDescriptor 3 d.flat = .ok e ∧
      (∃ least, HadFrom least e fun n => ofDescriptor n d) ∧
      ofDescriptor 3 (.union [.union [.object ⟨some "A", [⟨"x", false,
        [.array (.union [.primitive .number, .null])]⟩]⟩], .object ⟨none, []⟩]) = .ok e := by
  intro d e
  have h := grouping_irrelevant d
  have hnumber : (primitive .number).NoEmptyUnion := noEmptyUnion_iff.mpr (by simp [parts])
  have hnull : null.NoEmptyUnion := noEmptyUnion_iff.mpr (by simp [parts])
  have hrow : (array (.union [.union [.primitive .number], .null])).NoEmptyUnion := by
    rw [noEmptyUnion_iff]
    simp [parts, noEmptyUnion_union_iff, hnumber, hnull]
  have hA : (object ⟨some "A", [⟨"x", false,
      [.array (.union [.union [.primitive .number], .null])]⟩]⟩).NoEmptyUnion := by
    rw [noEmptyUnion_iff]
    simpa [parts] using hrow
  have hB : (object ⟨none, []⟩).NoEmptyUnion := noEmptyUnion_iff.mpr (by simp [parts])
  have hempty : d.NoEmptyUnion := by
    simp [d, noEmptyUnion_union_iff, hA, hB]
  have hunwraps : Rewrites Unwraps false d (.union [.union [.object ⟨some "A", [⟨"x", false,
      [.array (.union [.primitive .number, .null])]⟩]⟩], .object ⟨none, []⟩]) :=
    .member [] _ (.member [] [] (.declaration _ [] [] "x" false [] []
      (.element (.member [] _ (.here (.unwrap _))))))
  exact ⟨rfl, (h.1 3 e rfl).1, h.2.1 hempty 2 e rfl, h.2.2.1 _ hunwraps 3 e rfl⟩

end Entity

end TypeSchema
