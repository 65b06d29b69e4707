import Mathlib.Data.List.Forall2
import TypeSchema.Proofs.Acceptance

/-!
Acceptance grows with the alternatives. If each of a list of alternatives is in another list, or one
with a fragment that accepts more is, then the schema of the second list accepts what that of the
first does. Under either policy this needs that the first list puts a constraint on its place.
-/
namespace TypeSchema

theorem forall₂_middle {α : Type} {R : α → α → Prop} (hrefl : ∀ x, R x x) (before after : List α)
    {x y : α} (h : R x y) : List.Forall₂ R (before ++ x :: after) (before ++ y :: after) :=
  List.rel_append (List.forall₂_same.mpr fun z _ => hrefl z)
    (.cons h (List.forall₂_same.mpr fun z _ => hrefl z))

namespace Schema

variable {equal : Json → Json → Bool}

def Below (equal : Json → Json → Bool) (s t : Schema) : Prop :=
  ∀ v, s.accepts equal v = true → t.accepts equal v = true

theorem Below.refl (s : Schema) : Below equal s s := fun _ h => h

abbrev PropertiesBelow (equal : Json → Json → Bool) : List (String × Schema) →
    List (String × Schema) → Prop :=
  List.Forall₂ fun p q => p.1 = q.1 ∧ Below equal p.2 q.2

/-! ### Values under a condition -/

/-- A condition on values that passes on to the values inside. -/
structure Hereditary (P : Json → Prop) : Prop where
  items : ∀ {vs}, P (.array vs) → ∀ v ∈ vs, P v
  entries : ∀ {entries}, P (.object entries) → ∀ e ∈ entries, P e.2

theorem hereditary_true : Hereditary fun _ => True := ⟨fun _ _ _ => trivial, fun _ _ _ => trivial⟩

/-- Of the values under a condition, the second schema accepts those that the first does. -/
def BelowOn (equal : Json → Json → Bool) (P : Json → Prop) (s t : Schema) : Prop :=
  ∀ v, P v → s.accepts equal v = true → t.accepts equal v = true

theorem belowOn_true_iff {s t : Schema} : BelowOn equal (fun _ => True) s t ↔ Below equal s t := by
  simp [BelowOn, Below]

section
variable {P : Json → Prop}

theorem BelowOn.array (hP : Hereditary P) {s t : Schema} (h : BelowOn equal P s t) :
    BelowOn equal P (array s) (array t) := by
  intro v hPv hv
  cases v with
  | array vs =>
    rw [accepts, List.all_eq_true] at hv ⊢
    exact fun w hw => h w (hP.items hPv w hw) (hv w hw)
  | _ => simp [accepts] at hv

theorem acceptsPositions_of_belowOn {ss ts : List Schema}
    (h : List.Forall₂ (BelowOn equal P) ss ts) {vs : List Json} (hvs : ∀ v ∈ vs, P v)
    (hv : acceptsPositions equal ss vs = true) : acceptsPositions equal ts vs = true := by
  induction h generalizing vs with
  | nil => exact hv
  | cons hst _ ih =>
    cases vs with
    | nil => rfl
    | cons v vs =>
      rw [List.forall_mem_cons] at hvs
      rw [acceptsPositions, Bool.and_eq_true] at hv ⊢
      exact ⟨hst v hvs.1 hv.1, ih hvs.2 hv.2⟩

theorem BelowOn.tuple (hP : Hereditary P) {ss ts : List Schema}
    (h : List.Forall₂ (BelowOn equal P) ss ts) : BelowOn equal P (tuple ss) (tuple ts) := by
  intro v hPv hv
  cases v with
  | array vs => exact acceptsPositions_of_belowOn h (hP.items hPv) hv
  | _ => simp [accepts] at hv

/-- The same names, and below each name a schema that accepts more under the condition. -/
abbrev PropertiesBelowOn (equal : Json → Json → Bool) (P : Json → Prop) :
    List (String × Schema) → List (String × Schema) → Prop :=
  List.Forall₂ fun p q => p.1 = q.1 ∧ BelowOn equal P p.2 q.2

theorem PropertiesBelowOn.keys_eq {ps qs : List (String × Schema)}
    (h : PropertiesBelowOn equal P ps qs) : Keyed.keys ps = Keyed.keys qs := by
  induction h with
  | nil => rfl
  | cons hpq _ ih => exact congrArg₂ List.cons hpq.1 ih

theorem PropertiesBelowOn.acceptsProperties {ps qs : List (String × Schema)}
    (h : PropertiesBelowOn equal P ps qs) {entries : List (String × Json)}
    (hP : ∀ e ∈ entries, P e.2) (hentries : acceptsProperties equal ps entries = true) :
    acceptsProperties equal qs entries = true := by
  rw [acceptsProperties_eq_all] at hentries ⊢
  induction h with
  | nil => rfl
  | cons hpq _ ih =>
    rw [List.all_cons, Bool.and_eq_true] at hentries ⊢
    refine ⟨List.all_eq_true.mpr fun e he => ?_, ih hentries.2⟩
    have := List.all_eq_true.mp hentries.1 e he
    rw [Bool.or_eq_true] at this ⊢
    exact this.imp (hpq.1 ▸ ·) (hpq.2 e.2 (hP e he))

theorem BelowOn.object (hP : Hereditary P) {ps qs : List (String × Schema)}
    {required required' : List String} (h : PropertiesBelowOn equal P ps qs)
    (hrequired : required' ⊆ required) :
    BelowOn equal P (object ps required) (object qs required') := by
  intro v hPv hv
  cases v with
  | object entries =>
    simp only [accepts, Bool.and_eq_true] at hv ⊢
    obtain ⟨⟨hproperties, hkeys⟩, hpresent⟩ := hv
    refine ⟨⟨h.acceptsProperties (hP.entries hPv) hproperties, h.keys_eq ▸ hkeys⟩, ?_⟩
    exact List.all_eq_true.mpr fun name hname =>
      List.all_eq_true.mp hpresent name (hrequired hname)
  | _ => simp [accepts] at hv

theorem any_accepts_of_belowOn {ss ts : List Schema} (h : List.Forall₂ (BelowOn equal P) ss ts)
    {v : Json} (hPv : P v) (hv : ss.any (·.accepts equal v) = true) :
    ts.any (·.accepts equal v) = true := by
  induction h with
  | nil => exact hv
  | cons hst _ ih =>
    rw [List.any_cons, Bool.or_eq_true] at hv ⊢
    exact hv.imp (hst v hPv) ih

theorem BelowOn.combine {ss ts : List Schema} (h : List.Forall₂ (BelowOn equal P) ss ts) :
    BelowOn equal P (combine ss) (combine ts) := by
  intro v hPv hv
  by_cases hss : ss = []
  · subst hss
    cases h
    exact hv
  · have hts : ts ≠ [] := fun hts => hss (List.forall₂_nil_right_iff.mp (hts ▸ h))
    rw [accepts_combine equal hss] at hv
    rw [accepts_combine equal hts]
    exact any_accepts_of_belowOn h hPv hv

end

theorem Below.array {s t : Schema} (h : Below equal s t) : Below equal (array s) (array t) :=
  belowOn_true_iff.mp (.array hereditary_true (belowOn_true_iff.mpr h))

theorem Below.tuple {ss ts : List Schema} (h : List.Forall₂ (Below equal) ss ts) :
    Below equal (tuple ss) (tuple ts) :=
  belowOn_true_iff.mp (.tuple hereditary_true (h.imp fun _ _ => belowOn_true_iff.mpr))

theorem Below.object {ps qs : List (String × Schema)} {required required' : List String}
    (h : PropertiesBelow equal ps qs) (hrequired : required' ⊆ required) :
    Below equal (object ps required) (object qs required') :=
  belowOn_true_iff.mp (.object hereditary_true
    (h.imp fun _ _ hpq => ⟨hpq.1, belowOn_true_iff.mpr hpq.2⟩) hrequired)

/-! ### Lists of alternatives -/

/-- Alternatives whose schema is not the one without a constraint for want of fragments. -/
def Constrained (policy : NullPolicy) (as : List Alternative) : Prop :=
  as ≠ [] ∧ (policy = .omit → ∃ a ∈ as, a ≠ .null)

theorem Constrained.fragments_ne_nil {policy : NullPolicy} {as : List Alternative}
    (h : Constrained policy as) : typeFragment policy as ++ fragments policy as ≠ [] := by
  match policy, h with
  | .typeNull, h => exact Schema.fragments_ne_nil h.1
  | .omit, h =>
    obtain ⟨a, ha, hnull⟩ := h.2 rfl
    rcases fragment_cases .omit a with ⟨kind, rfl⟩ | rfl | ⟨s, hs⟩
    · have hkind := Alternative.mem_primitives_iff.mpr ha
      unfold typeFragment
      cases hkinds : Alternative.primitives as with
      | nil => simp [hkinds] at hkind
      | cons => simp
    · exact absurd rfl hnull
    · have hmem : s ∈ fragments .omit as := by
        rw [fragments_eq_flatMap]
        exact List.mem_flatMap.mpr ⟨a, ha, by simp [hs]⟩
      exact List.append_ne_nil_of_right_ne_nil _ (List.ne_nil_of_mem hmem)

/-- What is the same or has a fragment of its own that accepts more. -/
inductive BelowAs (equal : Json → Json → Bool) (policy : NullPolicy) :
    Alternative → Alternative → Prop where
  | same (a : Alternative) : BelowAs equal policy a a
  | fragment {a b : Alternative} {s t : Schema} : fragment policy a = [s] →
    fragment policy b = [t] → Below equal s t → BelowAs equal policy a b

def AllBelow (equal : Json → Json → Bool) (policy : NullPolicy) (as bs : List Alternative) : Prop :=
  ∀ a ∈ as, ∃ b ∈ bs, BelowAs equal policy a b

variable {policy : NullPolicy} {as bs : List Alternative}

theorem AllBelow.of_subset (h : as ⊆ bs) : AllBelow equal policy as bs :=
  fun a ha => ⟨a, h ha, .same a⟩

theorem BelowAs.single {a b : Alternative} (h : BelowAs equal policy a b) :
    AllBelow equal policy [a] [b] := by
  intro x hx
  obtain rfl := List.mem_singleton.mp hx
  exact ⟨b, by simp, h⟩

theorem AllBelow.mem (h : AllBelow equal policy as bs) {a : Alternative} (ha : a ∈ as)
    (hnone : fragment policy a = []) : a ∈ bs := by
  obtain ⟨b, hb, hbelow⟩ := h a ha
  cases hbelow with
  | same => exact hb
  | fragment hs => simp [hnone] at hs

theorem AllBelow.any_isNull (h : AllBelow equal policy as bs)
    (hnull : as.any Alternative.isNull = true) : bs.any Alternative.isNull = true :=
  Alternative.any_isNull_iff.mpr (h.mem (Alternative.any_isNull_iff.mp hnull) rfl)

theorem AllBelow.constrained (h : AllBelow equal policy as bs) (has : Constrained policy as) :
    Constrained policy bs := by
  refine ⟨?_, fun hpolicy => ?_⟩
  · obtain ⟨a, ha⟩ := List.exists_mem_of_ne_nil _ has.1
    obtain ⟨b, hb, -⟩ := h a ha
    exact List.ne_nil_of_mem hb
  · obtain ⟨a, ha, hnull⟩ := has.2 hpolicy
    obtain ⟨b, hb, hbelow⟩ := h a ha
    refine ⟨b, hb, ?_⟩
    -- null has no fragment, so nothing but null is below it
    rintro rfl
    cases hbelow with
    | same => exact hnull rfl
    | fragment _ ht => cases ht

/-- More alternatives make a schema that accepts more, if there was a constraint before. -/
theorem AllBelow.below (h : AllBelow equal policy as bs) (has : Constrained policy as) :
    Below equal (ofAlternatives policy as) (ofAlternatives policy bs) := by
  intro v hv
  rw [accepts_ofAlternatives_iff equal has.fragments_ne_nil] at hv
  rw [accepts_ofAlternatives_iff equal (h.constrained has).fragments_ne_nil]
  rcases hv with (⟨kind, hkind, hv⟩ | ⟨hnull, hv, hpolicy⟩) | ⟨a, ha, s, hs, hv⟩
  · exact .inl (.inl ⟨kind, h.mem hkind rfl, hv⟩)
  · exact .inl (.inr ⟨h.any_isNull hnull, hv,
      hpolicy.imp_right fun ⟨kind, hkind⟩ => ⟨kind, h.mem hkind rfl⟩⟩)
  · obtain ⟨b, hb, hbelow⟩ := h a ha
    rcases hbelow with _ | ⟨hfragment, ht, hst⟩
    · exact .inr ⟨a, hb, s, hs, hv⟩
    · obtain rfl := List.mem_singleton.mp (hfragment ▸ hs)
      exact .inr ⟨b, hb, _, by simp [ht], hst v hv⟩

/-- A property whose schema accepts more and that is required only if the other is. -/
structure PropertyBelow (equal : Json → Json → Bool) (policy : NullPolicy) (p q : Property) :
    Prop where
  required : q.isRequired = true → p.isRequired = true
  schema : Below equal (ofAlternatives policy p.alternatives) (ofAlternatives policy q.alternatives)

theorem PropertyBelow.refl (p : Property) : PropertyBelow equal policy p p :=
  ⟨fun h => h, .refl _⟩

theorem PropertyBelow.optional (optional : Bool) (as : List Alternative) :
    PropertyBelow equal policy ⟨optional, as⟩ ⟨true, as⟩ :=
  ⟨fun h => by simp [Property.isRequired] at h, .refl _⟩

theorem AllBelow.property (h : AllBelow equal policy as bs) (has : Constrained policy as)
    (optional : Bool) : PropertyBelow equal policy ⟨optional, as⟩ ⟨optional, bs⟩ := by
  refine ⟨fun hrequired => ?_, h.below has⟩
  simp only [Property.isRequired, Property.acceptsNull, Bool.and_eq_true,
    Bool.not_eq_true'] at hrequired ⊢
  refine ⟨hrequired.1, Bool.eq_false_iff.mpr fun hnull => ?_⟩
  simp [h.any_isNull hnull] at hrequired

theorem requiredNames_subset {ps qs : Properties}
    (h : List.Forall₂ (fun p q => p.1 = q.1 ∧ PropertyBelow equal policy p.2 q.2) ps qs) :
    requiredNames qs ⊆ requiredNames ps := by
  intro name hname
  rw [mem_requiredNames_iff] at hname ⊢
  obtain ⟨r, hr, hrequired, rfl⟩ := hname
  induction h with
  | nil => simp at hr
  | @cons p q ps qs hpq _ ih =>
    rcases List.mem_cons.mp hr with rfl | hr
    · exact ⟨p, by simp, hpq.2.required hrequired, hpq.1⟩
    · obtain ⟨p', hp', hp'required⟩ := ih hr
      exact ⟨p', by simp [hp'], hp'required⟩

theorem BelowAs.object {ps qs : Properties}
    (h : List.Forall₂ (fun p q => p.1 = q.1 ∧ PropertyBelow equal policy p.2 q.2) ps qs) :
    BelowAs equal policy (.object ps) (.object qs) := by
  refine .fragment (fragment_object policy ps) (fragment_object policy qs) (.object ?_
    (requiredNames_subset h))
  rw [propertySchemas_eq_map, propertySchemas_eq_map, PropertiesBelow, List.forall₂_map_left_iff,
    List.forall₂_map_right_iff]
  exact h.imp fun p q hpq => ⟨hpq.1, hpq.2.schema⟩

theorem BelowAs.array (h : AllBelow equal policy as bs) (has : Constrained policy as) :
    BelowAs equal policy (.array as) (.array bs) :=
  .fragment (fragment_array policy as) (fragment_array policy bs) (.array (h.below has))

theorem BelowAs.tuple {ass bss : List (List Alternative)}
    (h : List.Forall₂ (fun as bs => Below equal (ofAlternatives policy as)
      (ofAlternatives policy bs)) ass bss) :
    BelowAs equal policy (.tuple ass) (.tuple bss) := by
  refine .fragment (fragment_tuple policy ass) (fragment_tuple policy bss) (.tuple ?_)
  rwa [List.forall₂_map_left_iff, List.forall₂_map_right_iff]

end Schema

end TypeSchema
