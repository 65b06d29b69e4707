import TypeSchema.Proofs.Correspondence
import TypeSchema.Proofs.Monotone

/-!
What the policies for null accept, one against the other. To leave null out is the stricter policy
where no list of alternatives is of nulls alone, and it rejects only for nulls: a value without null
inside is accepted wherever it is accepted with null written out.
-/
namespace TypeSchema

namespace Json

mutual

/-- The value is not null and has no null inside. -/
def isNullFree : Json → Bool
  | .null => false
  | .array vs => areNullFree vs
  | .object entries => areNullFreeInside entries
  | _ => true

def areNullFree : List Json → Bool
  | [] => true
  | v :: vs => isNullFree v && areNullFree vs

def areNullFreeInside : List (String × Json) → Bool
  | [] => true
  | (_, v) :: entries => isNullFree v && areNullFreeInside entries

end

theorem areNullFree_eq_all (vs : List Json) : areNullFree vs = vs.all isNullFree := by
  induction vs with
  | nil => rfl
  | cons v vs ih => simp [areNullFree, ih]

theorem areNullFreeInside_eq_all (entries : List (String × Json)) :
    areNullFreeInside entries = entries.all fun e => e.2.isNullFree := by
  induction entries with
  | nil => rfl
  | cons e entries ih => simp [areNullFreeInside, ih]

end Json

namespace Schema

open TypeSchema.Alternative (Within)

theorem hereditary_isNullFree : Hereditary fun v => v.isNullFree = true where
  items h := by
    rw [Json.isNullFree, Json.areNullFree_eq_all] at h
    exact List.all_eq_true.mp h
  entries h := by
    rw [Json.isNullFree, Json.areNullFreeInside_eq_all] at h
    exact List.all_eq_true.mp h

/-! ### From one policy to the other -/

variable {equal : Json → Json → Bool} {policy other : NullPolicy} {P : Json → Prop}

/-- What null is accepted for under the first policy, it is accepted for under the other, as far as
values under the condition are null. -/
def KeepsNull (policy other : NullPolicy) (P : Json → Prop) : Prop :=
  ∀ v, P v → v.isNull = true → policy = .typeNull → other = .typeNull

theorem ofAlternatives_belowOn (hnull : KeepsNull policy other P) {as : List Alternative}
    (has : Constrained policy as) (h : ∀ a ∈ as, ∀ s ∈ fragment policy a, ∃ t ∈ fragment other a,
      BelowOn equal P s t) :
    BelowOn equal P (ofAlternatives policy as) (ofAlternatives other as) := by
  intro v hPv hv
  by_cases hother : typeFragment other as ++ fragments other as = []
  · -- no constraint is left
    rw [ofAlternatives, hother]
    rfl
  · rw [accepts_ofAlternatives_iff equal has.fragments_ne_nil] at hv
    rw [accepts_ofAlternatives_iff equal hother]
    rcases hv with (hkind | ⟨hany, hv, hpolicy⟩) | ⟨a, ha, s, hs, hv⟩
    · exact .inl (.inl hkind)
    · exact .inl (.inr ⟨hany, hv, hpolicy.imp_left (hnull v hPv hv)⟩)
    · obtain ⟨t, ht, hst⟩ := h a ha s hs
      exact .inr ⟨a, ha, t, ht, hst v hPv hv⟩

theorem fragment_belowOn (equal : Json → Json → Bool) (hP : Hereditary P)
    (hnull : KeepsNull policy other P) (a : Alternative)
    (ha : ∀ as ∈ a.lists, ∀ bs, Within bs as → Constrained policy bs) :
    ∀ s ∈ fragment policy a, ∃ t ∈ fragment other a, BelowOn equal P s t := by
  induction a using Alternative.induction_on_lists with
  | h a ih =>
    have hlists (as : List Alternative) (has : as ∈ a.lists) :
        BelowOn equal P (ofAlternatives policy as) (ofAlternatives other as) :=
      ofAlternatives_belowOn hnull (ha as has as (.refl as)) fun b hb =>
        ih as has b hb fun cs hcs ds hds => ha as has ds (.step hb hcs hds)
    intro s hs
    cases a with
    | object properties =>
      obtain rfl := List.mem_singleton.mp (fragment_object policy properties ▸ hs)
      refine ⟨_, List.mem_singleton_self _, .object hP ?_ (List.Subset.refl _)⟩
      rw [propertySchemas_eq_map, propertySchemas_eq_map, PropertiesBelowOn,
        List.forall₂_map_left_iff, List.forall₂_map_right_iff]
      exact List.forall₂_same.mpr fun p hp => ⟨rfl, hlists _ (List.mem_map_of_mem hp)⟩
    | array items =>
      obtain rfl := List.mem_singleton.mp (fragment_array policy items ▸ hs)
      exact ⟨_, List.mem_singleton_self _, .array hP (hlists items (List.mem_singleton_self _))⟩
    | tuple positions =>
      obtain rfl := List.mem_singleton.mp (fragment_tuple policy positions ▸ hs)
      refine ⟨_, fragment_tuple other positions ▸ List.mem_singleton_self _, .tuple hP ?_⟩
      rw [List.forall₂_map_left_iff, List.forall₂_map_right_iff]
      exact List.forall₂_same.mpr hlists
    | _ => exact ⟨s, hs, fun _ _ hv => hv⟩

end Schema

namespace Entity

open Schema (BelowOn Constrained Hereditary KeepsNull hereditary_isNullFree hereditary_true)

theorem ofEntity_belowOn {equal : Json → Json → Bool} {policy other : NullPolicy}
    {P : Json → Prop} (hP : Hereditary P) (hnull : KeepsNull policy other P) {e : Entity}
    (he : ∀ as, e.Lists as → Constrained policy as) :
    BelowOn equal P (Schema.ofEntity policy e) (Schema.ofEntity other e) := by
  have hvariant (v : Variant) (hv : v ∈ e.variants) : BelowOn equal P
      (Schema.ofProperties policy v.properties) (Schema.ofProperties other v.properties) := by
    have hlists : ∀ as ∈ (Alternative.object v.properties).lists, ∀ bs,
        Alternative.Within bs as → Constrained policy bs :=
      List.forall_mem_map.mpr fun p hp bs hbs => he bs ⟨v, hv, p, hp, hbs⟩
    obtain ⟨t, ht, hbelow⟩ := Schema.fragment_belowOn equal hP hnull _ hlists _
      (Schema.fragment_object policy v.properties ▸ List.mem_singleton_self _)
    obtain rfl := List.mem_singleton.mp (Schema.fragment_object other v.properties ▸ ht)
    exact hbelow
  have hcombine : BelowOn equal P
      (Schema.combine (e.variants.map fun v => Schema.ofProperties policy v.properties))
      (Schema.combine (e.variants.map fun v => Schema.ofProperties other v.properties)) := by
    refine .combine ?_
    rw [List.forall₂_map_left_iff, List.forall₂_map_right_iff]
    exact List.forall₂_same.mpr hvariant
  unfold Schema.ofEntity
  cases e.isArray with
  | false => exact hcombine
  | true => exact .array hP hcombine

/-- A descriptor that compiles has a schema under either policy. If no list of alternatives in its
entity is of nulls alone, the schema with null left out accepts no more than the one with null
written out. Whether one is or not, of the values without null it accepts all that the other
does. -/
theorem omit_stricter (equal : Json → Json → Bool) {limit : Nat} {d : Descriptor} {e : Entity}
    (h : ofDescriptor limit d = .ok e) :
    ∃ written omitted, d.schema ⟨limit, .typeNull⟩ = .ok written ∧
      d.schema ⟨limit, .omit⟩ = .ok omitted ∧
      ((∀ as, e.Lists as → ¬ ∀ a ∈ as, a = .null) →
        ∀ v, omitted.accepts equal v = true → written.accepts equal v = true) ∧
      ∀ v, v.isNullFree = true → written.accepts equal v = true →
        omitted.accepts equal v = true := by
  have hschema (policy : NullPolicy) :
      d.schema ⟨limit, policy⟩ = .ok (Schema.ofEntity policy e) := by
    rw [Descriptor.schema, h]
    rfl
  have hne (as : List Alternative) (has : e.Lists as) : as ≠ [] := (wellFormed_of_lists h has).1
  refine ⟨_, _, hschema .typeNull, hschema .omit, fun hsome v hv => ?_, fun v hfree hv => ?_⟩
  · refine ofEntity_belowOn hereditary_true (fun _ _ _ hpolicy => by cases hpolicy)
      (fun as has => ⟨hne as has, fun _ => ?_⟩) v trivial hv
    simpa using hsome as has
  · refine ofEntity_belowOn hereditary_isNullFree (fun w hw hnull _ => ?_)
      (fun as has => ⟨hne as has, by simp⟩) v hfree hv
    -- there is no null among the values without null
    cases w <;> simp_all [Json.isNull, Json.isNullFree]

/-- Tags that are a constant or null: `[null]` needs null written out, and `["new"]` is accepted
either way. -/
theorem omit_stricter_tags :
    let d : Descriptor := .object ⟨none, [⟨"tags", false,
      [.array (.union [.null, .literal (.string "new")])]⟩]⟩
    let written : Schema :=
      .object [("tags", .array (.anyOf [.types ["null"], .const (.string "new")]))] ["tags"]
    let omitted : Schema := .object [("tags", .array (.const (.string "new")))] ["tags"]
    d.schema ⟨64, .typeNull⟩ = .ok written ∧ d.schema ⟨64, .omit⟩ = .ok omitted ∧
      (∀ v, omitted.accepts Json.same v = true → written.accepts Json.same v = true) ∧
      omitted.accepts Json.same (.object [("tags", .array [.string "new"])]) = true ∧
      written.accepts Json.same (.object [("tags", .array [.null])]) = true ∧
      omitted.accepts Json.same (.object [("tags", .array [.null])]) = false := by
  intro d written omitted
  let tags : List Alternative := [.array [.null, .literal (.string "new")]]
  have he : ofDescriptor 64 d = .ok ⟨none, false, [⟨none, [("tags", ⟨false, tags⟩)]⟩]⟩ := rfl
  have hlists : ∀ as, Entity.Lists ⟨none, false, [⟨none, [("tags", ⟨false, tags⟩)]⟩]⟩ as →
      ¬ ∀ a ∈ as, a = .null := by
    rintro as ⟨v, hv, p, hp, has⟩
    obtain rfl := List.mem_singleton.mp hv
    obtain rfl := List.mem_singleton.mp hp
    cases has with
    | refl => simp [tags]
    | step ha hbs has =>
      obtain rfl := List.mem_singleton.mp ha
      obtain rfl := List.mem_singleton.mp hbs
      cases has with
      | refl => simp
      | step ha hbs _ =>
        rcases List.mem_cons.mp ha with rfl | ha
        · simp [Alternative.lists] at hbs
        · obtain rfl := List.mem_singleton.mp ha
          simp [Alternative.lists] at hbs
  obtain ⟨s, t, hs, ht, hstricter, hfree⟩ := omit_stricter Json.same he
  cases hs
  cases ht
  exact ⟨rfl, rfl, hstricter hlists, hfree _ rfl rfl, rfl, rfl⟩

end Entity

end TypeSchema
