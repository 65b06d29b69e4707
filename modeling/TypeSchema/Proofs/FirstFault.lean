import TypeSchema.Proofs.Nodes
import TypeSchema.Schema.Synthesis

/-!
A compilation ends at the first fault. Each function that compiles a part is equal to the verdict of
the faults of that part on its listing.
-/
namespace TypeSchema

theorem verdict_bind {α β : Type} {x : Compiled α} {f : α → Compiled β}
    {faults more : List Rejection} {a : α} {b : β} (hx : x = verdict faults a)
    (hf : faults = [] → f a = verdict more b) : x >>= f = verdict (faults ++ more) b := by
  subst hx
  cases faults with
  | nil => simpa [verdict, bind, Except.bind] using hf rfl
  | cons r rest => rfl

theorem verdict_bind_pure {α β : Type} {x : Compiled α} {faults : List Rejection} {a : α}
    (g : α → β) (hx : x = verdict faults a) :
    (x >>= fun a => pure (g a)) = verdict faults (g a) := by
  subst hx
  cases faults <;> rfl

theorem verdict_eq_error_iff {α : Type} {faults : List Rejection} {a : α} {r : Rejection} :
    verdict faults a = .error r ↔ faults.head? = some r := by
  cases faults <;> simp [verdict]

theorem verdict_eq_ok_iff {α : Type} {faults : List Rejection} {a b : α} :
    verdict faults a = .ok b ↔ faults = [] ∧ a = b := by
  cases faults <;> simp [verdict]

namespace Member

theorem alternative_of_scalar? {ordinal : Nat} {m : Member} {s : Scalar}
    (h : m.scalar? ordinal = some s) (at_ : Location) :
    m.alternative at_ ordinal = .ok (.literal s) := by
  unfold scalar? at h
  unfold alternative
  split at h <;> simp_all [pure, Except.pure]

theorem alternative_of_fault?_eq_some {at_ : Location} {m : Member} {r : Rejection}
    (h : m.fault? at_ = some r) (ordinal : Nat) : m.alternative at_ ordinal = .error r := by
  unfold fault? at h
  unfold alternative
  cases hm : m.initializer with
  | none => simp [hm] at h
  | some v => cases v <;> simp_all [Json.isScalar, Location.reject]

theorem alternatives_eq_verdict (at_ : Location) (ordinal : Nat) (ms : List Member) :
    alternatives at_ ordinal ms =
      verdict (ms.filterMap (fault? at_)) ((scalars ordinal ms).map .literal) := by
  induction ms generalizing ordinal with
  | nil => rfl
  | cons m ms ih =>
    cases h : m.fault? at_ with
    | none =>
      obtain ⟨s, hs⟩ := (fault?_eq_none_iff.mp h).exists_scalar? ordinal
      have ha := alternative_of_scalar? hs at_
      have hrest := verdict_bind_pure (Alternative.literal s :: ·) (ih (ordinal + 1))
      simpa [alternatives, ha, hs, h, scalars, bind, Except.bind] using hrest
    | some r =>
      have ha := alternative_of_fault?_eq_some h ordinal
      simp [alternatives, ha, h, bind, Except.bind, verdict]

end Member

theorem Enumeration.alternatives_eq_verdict (at_ : Location) (e : Enumeration) :
    e.alternatives at_ = verdict (e.faults at_) ((Member.scalars 0 e.members).map .literal) := by
  unfold Enumeration.alternatives Enumeration.faults
  cases e.members with
  | nil => rfl
  | cons m ms => simpa using Member.alternatives_eq_verdict at_ 0 (m :: ms)

namespace Descriptor

section
variable {limit depth : Nat} {at_ : Location}

/-! Lists of parts inherit the equation from the parts. -/

theorem memberAlternativesAt_eq_verdict {ds : List Descriptor}
    (h : ∀ d ∈ ds, alternativesAt limit depth at_ d =
      verdict (faultsAt limit depth at_ d) d.listing) :
    memberAlternativesAt limit depth at_ ds =
      verdict (memberFaultsAt limit depth at_ ds) (memberListings ds) := by
  induction ds with
  | nil => rfl
  | cons d ds ih =>
    have hrest := ih fun e he => h e (by simp [he])
    exact verdict_bind (h d (by simp)) fun _ => verdict_bind_pure (d.listing ++ ·) hrest

theorem positionsAt_eq_verdict (at_ : Location) {ds : List Descriptor}
    (h : ∀ d ∈ ds, ∀ at_, alternativesAt limit depth at_ d =
      verdict (faultsAt limit depth at_ d) d.listing) (i : Nat) :
    positionsAt limit depth at_ i ds =
      verdict (positionFaultsAt limit depth at_ i ds) (positionListings ds) := by
  induction ds generalizing i with
  | nil => rfl
  | cons d ds ih =>
    have hrest := ih (fun e he => h e (by simp [he])) (i + 1)
    exact verdict_bind (h d (by simp) (at_.position i)) fun _ =>
      verdict_bind_pure (d.listing :: ·) hrest

theorem propertiesAt_eq_verdict (at_ : Location) (all : List Field) {fields : List Field}
    (h : ∀ f ∈ fields, ∀ d ∈ f.declarations, ∀ at_, alternativesAt limit depth at_ d =
      verdict (faultsAt limit depth at_ d) d.listing) (seen : List String) :
    propertiesAt limit depth at_ all seen fields =
      verdict (fieldFaultsAt limit depth at_ all seen fields) (fieldListings fields) := by
  induction fields generalizing seen with
  | nil => rfl
  | cons f fields ih =>
    obtain ⟨name, optional, declarations⟩ := f
    have hrest := ih (fun g hg => h g (by simp [hg])) (name :: seen)
    unfold propertiesAt fieldFaultsAt
    by_cases hseen : seen.contains name = true
    · rw [if_pos hseen, if_pos hseen]
      rfl
    · rw [if_neg hseen, if_neg hseen]
      rcases declarations with _ | ⟨d, _ | ⟨e, more⟩⟩
      · rfl
      · have hd := h _ (List.mem_cons_self ..) d (by simp) (at_.field name)
        rw [fieldListings_single]
        exact verdict_bind hd fun _ =>
          verdict_bind_pure ((name, Property.mk optional d.listing) :: ·) hrest
      · rfl

theorem eq_verdict_of_le {d : Descriptor}
    (h : depth ≤ limit → alternativesAt limit depth at_ d =
      verdict (faultsAt limit depth at_ d) d.listing) :
    alternativesAt limit depth at_ d = verdict (faultsAt limit depth at_ d) d.listing := by
  rcases Nat.lt_or_ge limit depth with hlt | hle
  · unfold alternativesAt
    rw [if_pos hlt, faultsAt_of_lt at_ d hlt]
    rfl
  · exact h hle

end

theorem alternativesAt_eq_verdict (limit depth : Nat) (at_ : Location) (d : Descriptor) :
    alternativesAt limit depth at_ d = verdict (faultsAt limit depth at_ d) d.listing := by
  induction d generalizing depth at_ with
  | object name fields ih =>
    refine eq_verdict_of_le fun hle => ?_
    have hfields := propertiesAt_eq_verdict at_ fields
      (fun f hf d hd at_ => ih f hf d hd (depth + 1) at_) []
    rw [alternativesAt, if_neg (Nat.not_lt.mpr hle), faultsAt_object hle]
    exact verdict_bind_pure (fun ps => [Alternative.object ps]) hfields
  | array element ih =>
    refine eq_verdict_of_le fun hle => ?_
    rw [alternativesAt, if_neg (Nat.not_lt.mpr hle), faultsAt_array hle]
    exact verdict_bind_pure (fun items => [Alternative.array items]) (ih (depth + 1) at_.element)
  | tuple elements ih =>
    refine eq_verdict_of_le fun hle => ?_
    have hpositions := positionsAt_eq_verdict at_ (fun d hd at_ => ih d hd (depth + 1) at_) 0
    rw [alternativesAt, if_neg (Nat.not_lt.mpr hle), faultsAt_tuple hle]
    exact verdict_bind_pure (fun ps => [Alternative.tuple ps]) hpositions
  | union members ih =>
    refine eq_verdict_of_le fun hle => ?_
    have hmembers := memberAlternativesAt_eq_verdict (fun d hd => ih d hd (depth + 1) at_)
    rw [alternativesAt, if_neg (Nat.not_lt.mpr hle), faultsAt_union hle]
    cases members with
    | nil => rfl
    | cons d ds =>
      -- the members have alternatives unless they have faults, so the test for none is idle
      have hflat (hnil : memberFaultsAt limit (depth + 1) at_ (d :: ds) = []) :
          memberListings (d :: ds) ≠ [] := by
        have hd := (faultsAt_eq_nil_iff.mp (List.append_eq_nil_iff.mp hnil).1).listing_ne_nil
        simp [memberListings, hd]
      rw [if_neg (by simp), ← List.append_nil (memberFaultsAt limit (depth + 1) at_ (d :: ds))]
      refine verdict_bind hmembers fun hnil => ?_
      cases hl : memberListings (d :: ds) with
      | nil => exact absurd hl (hflat hnil)
      | cons a as => simp [listing, hl, verdict, pure, Except.pure]
  | enumeration e =>
    refine eq_verdict_of_le fun hle => ?_
    rw [alternativesAt, if_neg (Nat.not_lt.mpr hle), faultsAt_enumeration hle]
    exact e.alternatives_eq_verdict at_
  | _ =>
    refine eq_verdict_of_le fun hle => ?_
    rw [alternativesAt, faultsAt, if_neg (Nat.not_lt.mpr hle), if_neg (Nat.not_lt.mpr hle)]
    rfl

end Descriptor

theorem Shape.properties_eq_verdict (limit : Nat) (at_ : Location) (s : Shape) :
    s.properties limit at_ = verdict (s.faults limit at_) (Descriptor.fieldListings s.fields) :=
  Descriptor.propertiesAt_eq_verdict at_ s.fields
    (fun _ _ d _ at_ => d.alternativesAt_eq_verdict limit 0 at_) []

namespace Entity

section
variable {limit layer : Nat} {isArray : Bool}

theorem memberShapesAt_eq_verdict {ds : List Descriptor}
    (h : ∀ d ∈ ds, shapesAt limit layer isArray d =
      verdict (targetFaultsAt limit layer isArray d) (shapes d)) :
    memberShapesAt limit layer isArray ds =
      verdict (memberFaultsAt limit layer isArray ds) (memberShapes ds) := by
  induction ds with
  | nil => rfl
  | cons d ds ih =>
    have hrest := ih fun e he => h e (by simp [he])
    exact verdict_bind (h d (by simp)) fun _ => verdict_bind_pure (shapes d ++ ·) hrest

end

theorem shapesAt_eq_verdict (limit layer : Nat) (isArray : Bool) (d : Descriptor) :
    shapesAt limit layer isArray d =
      verdict (targetFaultsAt limit layer isArray d) (shapes d) := by
  induction d generalizing layer with
  | union members ih =>
    have hmembers := memberShapesAt_eq_verdict fun d hd => ih d hd (layer + 1)
    unfold shapesAt targetFaultsAt
    by_cases hlayer : limit < layer
    · rw [if_pos hlayer, if_pos hlayer]
      rfl
    · rw [if_neg hlayer, if_neg hlayer]
      exact hmembers
  | _ => rfl

theorem variantOf_eq_verdict (limit : Nat) (s : Shape) :
    variantOf limit s = verdict (variantFaults limit s) (variant s) :=
  verdict_bind_pure (Variant.mk s.name) (s.properties_eq_verdict limit _)

theorem variantsOf_eq_verdict (limit : Nat) (ss : List Shape) :
    variantsOf limit ss = verdict (ss.flatMap (variantFaults limit)) (ss.map variant) := by
  induction ss with
  | nil => rfl
  | cons s ss ih =>
    exact verdict_bind (variantOf_eq_verdict limit s) fun _ => verdict_bind_pure (variant s :: ·) ih

theorem ofDescriptor_eq_verdict (limit : Nat) (root : Descriptor) :
    ofDescriptor limit root = verdict (faults limit root) (listing root) := by
  unfold ofDescriptor faults targetFaults listing
  obtain ⟨isArray, t⟩ := target root
  have hshapes := shapesAt_eq_verdict limit 1 isArray t
  have hvariants := variantsOf_eq_verdict limit (shapes t)
  -- only a target without faults is asked for its objects, and only with some are they compiled
  cases hfaults : targetFaultsAt limit 1 isArray t with
  | cons r rest =>
    rw [hfaults] at hshapes
    simp only [hshapes]
    rfl
  | nil =>
    rw [hfaults] at hshapes
    cases hs : shapes t with
    | nil =>
      rw [hs] at hshapes
      simp only [hshapes]
      rfl
    | cons s ss =>
      rw [hs] at hshapes hvariants
      simp only [hshapes]
      exact verdict_bind_pure (fun vs => Entity.mk (targetName t) isArray vs) hvariants

theorem ofDescriptor_eq_ok_iff {limit : Nat} {root : Descriptor} {e : Entity} :
    ofDescriptor limit root = .ok e ↔ faults limit root = [] ∧ listing root = e := by
  rw [ofDescriptor_eq_verdict, verdict_eq_ok_iff]

end Entity

theorem Descriptor.alternatives_eq_ok_iff {limit : Nat} {at_ : Location} {d : Descriptor}
    {as : List Alternative} :
    d.alternatives limit at_ = .ok as ↔ faultsAt limit 0 at_ d = [] ∧ d.listing = as := by
  rw [alternatives, alternativesAt_eq_verdict, verdict_eq_ok_iff]

theorem Descriptor.schema_eq_verdict (settings : Settings) (root : Descriptor) :
    root.schema settings = verdict (Entity.faults settings.maxDepth root)
      (Schema.ofEntity settings.nullPolicy (Entity.listing root)) :=
  verdict_bind_pure (Schema.ofEntity settings.nullPolicy)
    (Entity.ofDescriptor_eq_verdict settings.maxDepth root)

/-- A root has an entity exactly when it has no fault, and is else rejected for the first of its
faults. The schema is had or refused with the entity. -/
theorem Entity.ofDescriptor_first_fault (limit : Nat) (root : Descriptor) :
    ((∃ e, ofDescriptor limit root = .ok e) ↔ faults limit root = []) ∧
      (∀ r, ofDescriptor limit root = .error r ↔ (faults limit root).head? = some r) ∧
      ∀ policy r, root.schema ⟨limit, policy⟩ = .error r ↔
        (faults limit root).head? = some r := by
  refine ⟨?_, fun r => ?_, fun policy r => ?_⟩
  · simp [ofDescriptor_eq_ok_iff]
  · rw [ofDescriptor_eq_verdict, verdict_eq_error_iff]
  · rw [Descriptor.schema_eq_verdict, verdict_eq_error_iff]

example :
    Entity.ofDescriptor 0
        (.array (.object ⟨none, [⟨"a", false, []⟩, ⟨"a", false, [.array .null]⟩]⟩)) =
      .error ⟨⟨"<root>", [.field "a"]⟩, .missingDeclaration⟩ :=
  rfl

end TypeSchema
