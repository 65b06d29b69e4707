import TypeSchema.Proofs.Monotone
import TypeSchema.Proofs.WellFormed

/-!
Types that are widened in one place. A union there gains members, the type there becomes a member of
a union, or a field there becomes optional; what the schema accepted before it accepts afterwards.
-/
namespace TypeSchema

namespace Descriptor

/-- A type that gains alternatives at a place with only unions around it: what is there now stands
in a union, or the union there has further members. -/
inductive Gains : Descriptor → Descriptor → Prop where
  | beside {t : Descriptor} {members : List Descriptor} : t ∈ members → Gains t (.union members)
  | added {members members' : List Descriptor} : members.Sublist members' →
    Gains (.union members) (.union members')
  | member {t t' : Descriptor} (before after : List Descriptor) : Gains t t' →
    Gains (.union (before ++ t :: after)) (.union (before ++ t' :: after))

/-- A type that is widened in one place, at any depth. Where null is not written out, what gains
alternatives must have listed one besides null, in all the unions around the place together: null
alone puts no constraint on it. -/
inductive Widens (policy : NullPolicy) : Descriptor → Descriptor → Prop where
  | gains {t t' : Descriptor} : Gains t t' → (policy = .omit → ∃ a ∈ t.listing, a ≠ .null) →
    Widens policy t t'
  | loosened (name : Option String) (before after : List Field) (field : String) (optional : Bool)
    (declarations : List Descriptor) :
    Widens policy (.object ⟨name, before ++ ⟨field, optional, declarations⟩ :: after⟩)
      (.object ⟨name, before ++ ⟨field, true, declarations⟩ :: after⟩)
  | field {t t' : Descriptor} (name : Option String) (before after : List Field) (field : String)
    (optional : Bool) : Widens policy t t' →
    Widens policy (.object ⟨name, before ++ ⟨field, optional, [t]⟩ :: after⟩)
      (.object ⟨name, before ++ ⟨field, optional, [t']⟩ :: after⟩)
  | element {t t' : Descriptor} : Widens policy t t' → Widens policy (.array t) (.array t')
  | position {t t' : Descriptor} (before after : List Descriptor) : Widens policy t t' →
    Widens policy (.tuple (before ++ t :: after)) (.tuple (before ++ t' :: after))
  | member {t t' : Descriptor} (before after : List Descriptor) : Widens policy t t' →
    Widens policy (.union (before ++ t :: after)) (.union (before ++ t' :: after))

theorem listing_subset_union {d : Descriptor} {members : List Descriptor} (h : d ∈ members) :
    d.listing ⊆ (union members).listing := by
  intro a ha
  rw [listing, memberListings_eq_flatMap]
  exact List.mem_flatMap.mpr ⟨d, h, ha⟩

theorem mem_listing_of_member {before after : List Descriptor} {t : Descriptor} {a : Alternative}
    (ha : a ∈ (union (before ++ t :: after)).listing) :
    a ∈ t.listing ∨ ∀ t', a ∈ (union (before ++ t' :: after)).listing := by
  rw [listing, memberListings_eq_flatMap, List.flatMap_append, List.flatMap_cons] at ha
  simp only [listing, memberListings_eq_flatMap, List.flatMap_append, List.flatMap_cons,
    List.mem_append] at ha ⊢
  rcases ha with ha | ha | ha
  · exact .inr fun _ => .inl ha
  · exact .inl ha
  · exact .inr fun _ => .inr (.inr ha)

theorem Gains.listing_subset {t t' : Descriptor} (h : Gains t t') : t.listing ⊆ t'.listing := by
  induction h with
  | beside ht => exact listing_subset_union ht
  | @added members members' hsub =>
    intro a ha
    rw [listing, memberListings_eq_flatMap] at ha
    obtain ⟨d, hd, ha⟩ := List.mem_flatMap.mp ha
    exact listing_subset_union (hsub.subset hd) ha
  | @member t t' before after _ ih =>
    intro a ha
    rcases mem_listing_of_member ha with ha | ha
    · exact listing_subset_union (by simp) (ih ha)
    · exact ha t'

theorem Gains.exists_union {t t' : Descriptor} (h : Gains t t') :
    ∃ members, t' = union members := by
  cases h <;> exact ⟨_, rfl⟩

theorem exists_object_of_mem_listing {settings : Settings} {members : List Descriptor} {s : Schema}
    (h : (union members).schema settings = .ok s) {a : Alternative}
    (ha : a ∈ (union members).listing) : ∃ ps, a = .object ps := by
  rw [schema_eq_verdict, verdict_eq_ok_iff, Entity.faults_eq_nil_iff] at h
  obtain ⟨⟨hopened, -⟩, -⟩ := h
  have hlisting := Opened.listing_eq (d := union members) hopened
  obtain ⟨shape, -, rfl⟩ := List.mem_map.mp (hlisting ▸ ha)
  exact ⟨_, rfl⟩

end Descriptor

namespace Descriptor.Widens

open Schema (AllBelow BelowAs Constrained PropertyBelow)

variable {equal : Json → Json → Bool} {policy : NullPolicy} {d d' : Descriptor}

theorem constrained (h : Widens policy d d') (hne : d.listing ≠ []) :
    Constrained policy d.listing := by
  refine ⟨hne, fun hpolicy => ?_⟩
  clear hne
  induction h with
  | gains _ hother => exact hother hpolicy
  | member before after _ ih =>
    obtain ⟨a, ha, hnull⟩ := ih
    exact ⟨a, listing_subset_union (by simp) ha, hnull⟩
  | _ => exact ⟨_, List.mem_singleton_self _, by simp⟩

theorem allBelow (h : Widens policy d d') (hwell : ∀ a ∈ d.listing, a.WellFormed) :
    AllBelow equal policy d.listing d'.listing := by
  induction h with
  | gains h _ => exact .of_subset h.listing_subset
  | loosened name before after field optional declarations =>
    simp only [listing, fieldListings_eq_map, List.map_append, List.map_cons]
    refine BelowAs.single (.object (forall₂_middle (fun p => ⟨rfl, .refl p.2⟩) _ _ ⟨rfl, ?_⟩))
    exact .optional optional _
  | @field t t' name before after field optional ht ih =>
    have hobject := hwell _ (List.mem_singleton_self _)
    simp only [listing, fieldListings_eq_map, List.map_append, List.map_cons] at hobject ⊢
    cases hobject with
    | object _ hne hwell =>
      have hproperty : (field, (⟨field, optional, [t]⟩ : Field).property) ∈
          before.map (fun f => (f.name, f.property)) ++
            (field, (⟨field, optional, [t]⟩ : Field).property) ::
              after.map fun f => (f.name, f.property) := by simp
      -- a field in the object is not empty, so its type puts a constraint on it before
      have hne := hne _ hproperty
      have hwell := hwell _ hproperty
      simp only [Field.property, List.flatMap_singleton] at hne hwell
      refine BelowAs.single (.object (forall₂_middle (fun p => ⟨rfl, .refl p.2⟩) _ _ ⟨rfl, ?_⟩))
      simp only [Field.property, List.flatMap_singleton]
      exact (ih hwell).property (ht.constrained hne) optional
  | @element t t' ht ih =>
    have harray := hwell _ (List.mem_singleton_self _)
    cases harray with
    | array hne hwell => exact BelowAs.single (.array (ih hwell) (ht.constrained hne))
  | @position t t' before after ht ih =>
    have htuple := hwell _ (List.mem_singleton_self _)
    simp only [listing, positionListings_eq_map, List.map_append, List.map_cons] at htuple ⊢
    cases htuple with
    | tuple hne hwell =>
      have hposition : t.listing ∈ before.map listing ++ t.listing :: after.map listing := by simp
      refine BelowAs.single (.tuple (forall₂_middle (fun as => .refl _) _ _ ?_))
      exact (ih (hwell _ hposition)).below (ht.constrained (hne _ hposition))
  | @member t t' before after _ ih =>
    intro a ha
    rcases mem_listing_of_member ha with hat | ha
    · have hwell (b : Alternative) (hb : b ∈ t.listing) : b.WellFormed :=
        hwell b (listing_subset_union (by simp) hb)
      obtain ⟨b, hb, hbelow⟩ := ih hwell a hat
      exact ⟨b, listing_subset_union (by simp) hb, hbelow⟩
    · exact ⟨a, ha t', .same a⟩

theorem asRoot {settings : Settings} {s : Schema} (h : Widens policy d d')
    (hd' : d'.schema settings = .ok s) : Widens policy d.asRoot d'.asRoot := by
  cases h with
  | gains h hother =>
    obtain ⟨members, rfl⟩ := h.exists_union
    -- only a tuple of one position is read as something else, and a union of it is no root
    have htuple (element : Descriptor) : d ≠ .tuple [element] := by
      rintro rfl
      have ha := h.listing_subset (List.mem_singleton_self (Alternative.tuple [element.listing]))
      obtain ⟨ps, hps⟩ := exists_object_of_mem_listing hd' ha
      cases hps
    have hroot : d.asRoot = d := by
      unfold Descriptor.asRoot
      split
      · exact absurd rfl (htuple _)
      · rfl
    exact hroot.symm ▸ .gains h hother
  | loosened name before after field optional declarations =>
    exact .loosened name before after field optional declarations
  | field name before after field optional h => exact .field name before after field optional h
  | element h => exact .element h
  | position before after h =>
    match before, after with
    | [], [] => exact .element h
    | [], x :: rest => exact .position [] (x :: rest) h
    | [x], after => exact .position [x] after h
    | x :: y :: rest, after => exact .position (x :: y :: rest) after h
  | member before after h => exact .member before after h

end Descriptor.Widens

namespace Descriptor

/-- Widening a type never rejects a value that was accepted before. -/
theorem accepts_of_widens (equal : Json → Json → Bool) {settings : Settings} {d d' : Descriptor}
    {s s' : Schema} (h : Widens settings.nullPolicy d d') (hd : d.schema settings = .ok s)
    (hd' : d'.schema settings = .ok s') (v : Json) (hv : s.accepts equal v = true) :
    s'.accepts equal v = true := by
  have hroot := h.asRoot hd'
  obtain ⟨hne, hwell, rfl⟩ := schema_eq_ok hd
  obtain ⟨-, -, rfl⟩ := schema_eq_ok hd'
  exact (hroot.allBelow hwell).below (hroot.constrained hne) v hv

/-- Null becomes a number or null, beside a string, in the items of an array. -/
theorem accepts_of_widens_tags :
    (object ⟨none, [⟨"tags", false, [array (union [null, primitive .string])]⟩]⟩).schema
        ⟨64, .omit⟩ =
      .ok (.object [("tags", .array (.types ["string", "null"]))] ["tags"]) ∧
    (object ⟨none, [⟨"tags", false, [array (union [union [null, primitive .number],
        primitive .string])]⟩]⟩).schema ⟨64, .omit⟩ =
      .ok (.object [("tags", .array (.types ["number", "string", "null"]))] ["tags"]) ∧
    (Schema.object [("tags", .array (.types ["number", "string", "null"]))] ["tags"]).accepts
      Json.same (.object [("tags", .array [.null, .string "new"])]) = true :=
  have hgains : Gains (union [null, primitive .string])
      (union [union [null, primitive .number], primitive .string]) :=
    .member [] [primitive .string] (.beside (by simp))
  have hwidens : Widens .omit
      (object ⟨none, [⟨"tags", false, [array (union [null, primitive .string])]⟩]⟩)
      (object ⟨none, [⟨"tags", false, [array (union [union [null, primitive .number],
        primitive .string])]⟩]⟩) :=
    .field none [] [] "tags" false
      (.element (.gains hgains fun _ =>
        ⟨.value .string, by simp [listing, memberListings], by simp⟩))
  ⟨rfl, rfl, @accepts_of_widens Json.same ⟨64, .omit⟩ _ _ _ _ hwidens rfl rfl _ rfl⟩

/-- Where null is not written out, null alone leaves its place open and beside a number it does
not. -/
example : (Schema.ofAlternatives .omit [.null]).accepts Json.same (.string "new") = true ∧
    (Schema.ofAlternatives .omit [.null, .value .number]).accepts Json.same (.string "new") =
      false :=
  ⟨rfl, rfl⟩

end Descriptor

end TypeSchema
