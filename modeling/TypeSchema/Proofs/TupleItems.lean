import TypeSchema.Proofs.Dialect
import TypeSchema.Proofs.EmptyUnion
import TypeSchema.Proofs.Omission
import TypeSchema.Proofs.Rewriting

/-!
The items of a tuple. Wherever a tuple is all that the type of a field, an element or a position
lists, its schema stands inside the schema of the root, and the items of an array that the schema
accepts belong to the types of their positions. Neither this nor the schema says how many items
there are.
-/
namespace TypeSchema

namespace Schema

theorem contains_of_mem_fragments {fragments : List Schema} {s : Schema} (hs : s ∈ fragments) :
    (combine fragments).Contains s := by
  match fragments with
  | [t] =>
    obtain rfl := List.mem_singleton.mp hs
    exact .refl
  | t :: u :: rest => exact contains_iff.mpr (.inr ⟨s, hs, .refl⟩)

theorem contains_fragment {policy : NullPolicy} {as : List Alternative} {a : Alternative}
    (ha : a ∈ as) {s : Schema} (hs : s ∈ fragment policy a) :
    (ofAlternatives policy as).Contains s := by
  refine contains_of_mem_fragments (List.mem_append_right _ ?_)
  rw [fragments_eq_flatMap]
  exact List.mem_flatMap.mpr ⟨a, ha, hs⟩

theorem accepts_item {equal : Json → Json → Bool} {items : List Schema} {vs : List Json}
    (h : (tuple items).accepts equal (.array vs) = true) {i : Nat} {s : Schema} {v : Json}
    (hs : items[i]? = some s) (hv : vs[i]? = some v) : s.accepts equal v = true := by
  rw [accepts, acceptsPositions_eq_all, List.all_eq_true] at h
  have hzip : (items.zip vs)[i]? = some (s, v) := List.getElem?_zip_eq_some.mpr ⟨hs, hv⟩
  exact h (s, v) (List.mem_of_getElem? hzip)

theorem ofAlternatives_tuple (policy : NullPolicy) (positions : List (List Alternative)) :
    ofAlternatives policy [.tuple positions] = .tuple (positions.map (ofAlternatives policy)) := by
  rw [← positionSchemas_eq_map]
  cases policy <;> rfl

end Schema

namespace Descriptor

/-! ### Places -/

/-- The second descriptor is the type of a field, an element or a position somewhere in the
first. -/
inductive HasPlace : Descriptor → Descriptor → Prop where
  | here {d p : Descriptor} : (∀ members, d ≠ .union members) → p ∈ d.parts → HasPlace d p
  | inside {d e p : Descriptor} : e ∈ d.parts → HasPlace e p → HasPlace d p

/-- The second descriptor is all there is to the first, which may wrap it in unions. -/
inductive Sole : Descriptor → Descriptor → Prop where
  | refl (d : Descriptor) : Sole d d
  | member {d x : Descriptor} : Sole d x → Sole (.union [d]) x

theorem Sole.listing_eq {d x : Descriptor} (h : d.Sole x) : d.listing = x.listing := by
  induction h with
  | refl d => rfl
  | member _ ih => simpa [listing, memberListings] using ih

theorem Sole.exists_opens {d x : Descriptor} (h : d.Sole x) : ∃ k, d.Opens k x := by
  induction h with
  | refl d => exact ⟨0, .refl d⟩
  | member _ ih =>
    obtain ⟨k, hk⟩ := ih
    exact ⟨k + 1, .step (by simp) hk⟩

theorem Opens.trans {j k : Nat} {d x y : Descriptor} (h : d.Opens j x) (hx : x.Opens k y) :
    ∃ i, d.Opens i y := by
  induction h with
  | refl d => exact ⟨k, hx⟩
  | step hd _ ih =>
    obtain ⟨i, hi⟩ := ih hx
    exact ⟨i + 1, .step hd hi⟩

theorem HasPlace.exists_reaches {d p : Descriptor} (h : d.HasPlace p) : ∃ k, d.Reaches k p := by
  induction h with
  | here _ hp => exact ⟨1, .step hp (.refl _)⟩
  | inside he _ ih =>
    obtain ⟨k, hk⟩ := ih
    exact ⟨k + 1, .step he hk⟩

theorem parts_asRoot (root : Descriptor) : root.asRoot.parts = root.parts := by
  unfold asRoot
  split <;> rfl

theorem HasPlace.asRoot {root p : Descriptor} (h : root.HasPlace p) : root.asRoot.HasPlace p := by
  cases h with
  | here hunion hp =>
    refine .here (fun members => ?_) (root.parts_asRoot ▸ hp)
    unfold Descriptor.asRoot
    split
    · nofun
    · exact hunion members
  | inside he h => exact .inside (root.parts_asRoot ▸ he) h

/-! ### The schemas of places -/

variable {d p : Descriptor}

theorem exists_fragment_of_mem_parts (policy : NullPolicy) (hunion : ∀ members, d ≠ .union members)
    (hobject : ∀ s, d = .object s → s.Unambiguous) (hp : p ∈ d.parts) :
    ∃ a ∈ d.listing, ∃ s ∈ Schema.fragment policy a,
      s.Contains (Schema.ofAlternatives policy p.listing) := by
  have hcontains {s : Schema} (hs : Schema.ofAlternatives policy p.listing ∈ s.parts) :
      s.Contains (Schema.ofAlternatives policy p.listing) :=
    Schema.contains_iff.mpr (.inr ⟨_, hs, .refl⟩)
  cases d with
  | object shape =>
    obtain ⟨name, fields⟩ := shape
    obtain ⟨f, hf, hd⟩ := List.mem_flatMap.mp hp
    obtain ⟨e, he⟩ := (hobject _ rfl).single f hf
    obtain rfl : p = e := by simpa [he] using hd
    have hs : Schema.ofAlternatives policy p.listing ∈
        (Schema.ofProperties policy (fieldListings fields)).parts := by
      rw [Schema.ofProperties, Schema.parts, Schema.propertySchemas_eq_map, fieldListings_eq_map,
        List.map_map, List.map_map]
      exact List.mem_map.mpr ⟨f, hf, by simp [Field.property, he]⟩
    exact ⟨.object (fieldListings fields), by simp [listing], _,
      Schema.fragment_object policy _ ▸ List.mem_singleton_self _, hcontains hs⟩
  | array element =>
    obtain rfl := List.mem_singleton.mp hp
    exact ⟨.array p.listing, by simp [listing], _, List.mem_singleton_self _,
      hcontains (List.mem_singleton_self _)⟩
  | tuple elements =>
    have hs : Schema.ofAlternatives policy p.listing ∈
        (Schema.tuple ((elements.map listing).map (Schema.ofAlternatives policy))).parts := by
      rw [Schema.parts, List.map_map]
      exact List.mem_map_of_mem hp
    exact ⟨.tuple (elements.map listing), by simp [listing, positionListings_eq_map], _,
      Schema.fragment_tuple policy _ ▸ List.mem_singleton_self _, hcontains hs⟩
  | union members => exact absurd rfl (hunion members)
  | _ => simp [parts] at hp

theorem HasPlace.exists_fragment (policy : NullPolicy) (h : d.HasPlace p)
    (hobjects : ∀ k s, d.Reaches k (.object s) → s.Unambiguous) :
    ∃ a ∈ d.listing, ∃ s ∈ Schema.fragment policy a,
      s.Contains (Schema.ofAlternatives policy p.listing) := by
  induction h with
  | @here d p hunion hp =>
    exact exists_fragment_of_mem_parts policy hunion (fun s hs => hobjects 0 s (hs ▸ .refl _)) hp
  | @inside d e p he _ ih =>
    obtain ⟨a, ha, s, hs, hp⟩ := ih fun k s hk => hobjects (k + 1) s (.step he hk)
    by_cases hunion : ∃ members, d = .union members
    · obtain ⟨members, rfl⟩ := hunion
      refine ⟨a, ?_, s, hs, hp⟩
      rw [listing, memberListings_eq_flatMap]
      exact List.mem_flatMap.mpr ⟨e, he, ha⟩
    · -- the part is a place itself, and its schema has the fragment inside
      obtain ⟨b, hb, t, ht, he⟩ := exists_fragment_of_mem_parts policy (not_exists.mp hunion)
        (fun s hs => hobjects 0 s (hs ▸ .refl _)) he
      exact ⟨b, hb, t, ht, he.trans ((Schema.contains_fragment ha hs).trans hp)⟩

end Descriptor

namespace Entity

open Descriptor

variable {limit layer : Nat} {t x : Descriptor}

/-- What lies in a target is opened from it or is free of faults. -/
theorem Fits.opens_or_clean (h : Fits limit layer t) {k : Nat} (hx : t.Reaches k x) :
    (∃ j, t.Opens j x) ∨ x.Clean limit 0 := by
  rcases hx.opens_or_below with hopens | ⟨j, y, i, hy, hunion, hx⟩
  · exact .inl ⟨k, hopens⟩
  · rcases h.opened j y hy with ⟨s, rfl⟩ | ⟨⟨members, rfl⟩, -⟩
    · have hclean := h.clean s (mem_shapes_iff.mpr ⟨j, hy⟩)
      cases hx with
      | refl => exact .inl ⟨j, hy⟩
      | step hd hx =>
        exact .inr (((clean_iff.mp hclean).2.2 _ hd).of_reaches hx |>.mono (by omega))
    · exact absurd rfl (hunion members)

theorem Fits.unambiguous (h : Fits limit layer t) {k : Nat} {s : Shape}
    (hs : t.Reaches k (.object s)) : s.Unambiguous := by
  rcases h.opens_or_clean hs with ⟨j, hs⟩ | hs
  · exact (clean_iff.mp (h.clean s (mem_shapes_iff.mpr ⟨j, hs⟩))).2.1
  · exact (clean_iff.mp hs).2.1

theorem Fits.clean_of_sole (h : Fits limit layer t) {k : Nat} (hx : t.Reaches k x)
    {elements : List Descriptor} (hsole : x.Sole (.tuple elements)) : x.Clean limit 0 := by
  refine (h.opens_or_clean hx).resolve_left fun ⟨j, hj⟩ => ?_
  obtain ⟨i, hi⟩ := hsole.exists_opens
  obtain ⟨n, hn⟩ := hj.trans hi
  simpa using h.opened n _ hn

theorem exists_reaches_target_of_asRoot {root : Descriptor} {k : Nat} (h : root.asRoot.Reaches k x)
    (hx : ∀ element, x ≠ .array element) : ∃ j, (target root).2.Reaches j x := by
  rw [asRoot_eq_target] at h
  split at h
  · cases h with
    | refl => exact absurd rfl (hx _)
    | step he h => exact ⟨_, List.mem_singleton.mp he ▸ h⟩
  · exact ⟨k, h⟩

theorem fits_of_schema_eq_ok {settings : Settings} {root : Descriptor} {s : Schema}
    (h : root.schema settings = .ok s) : Fits settings.maxDepth 1 (target root).2 := by
  rw [Descriptor.schema_eq_verdict, verdict_eq_ok_iff] at h
  exact (ofDescriptor_eq_ok_iff_fits.mp (ofDescriptor_eq_ok_iff.mpr ⟨h.1, rfl⟩)).1

end Entity

namespace Descriptor

open Entity (exists_reaches_target_of_asRoot fits_of_schema_eq_ok)

variable {settings : Settings} {root p : Descriptor} {s : Schema}

theorem HasPlace.contains (hplace : root.HasPlace p) (h : root.schema settings = .ok s) :
    s.Contains (Schema.ofAlternatives settings.nullPolicy p.listing) := by
  obtain ⟨-, -, rfl⟩ := schema_eq_ok h
  have hobjects (k : Nat) (shape : Shape) (hk : root.asRoot.Reaches k (.object shape)) :
      shape.Unambiguous := by
    obtain ⟨j, hj⟩ := exists_reaches_target_of_asRoot hk nofun
    exact (fits_of_schema_eq_ok h).unambiguous hj
  obtain ⟨a, ha, t, ht, hp⟩ := hplace.asRoot.exists_fragment settings.nullPolicy hobjects
  exact (Schema.contains_fragment ha ht).trans hp

/-- Where a tuple is all that a place lists, the schema of the place is a list of as many items as
the tuple has, and each item of an array that it accepts belongs to the type of its position. Where
null is left out by policy, a type of null alone stands for anything. -/
theorem tuple_items_belong (equal : Json → Json → Bool) (h : root.schema settings = .ok s)
    (hplace : root.HasPlace p) {elements : List Descriptor} (hsole : p.Sole (.tuple elements)) :
    ∃ as items, (∀ at_, p.alternatives settings.maxDepth at_ = .ok as) ∧
      Schema.ofAlternatives settings.nullPolicy as = .tuple items ∧ s.Contains (.tuple items) ∧
      items.length = elements.length ∧
      ∀ vs : List Json, (Schema.tuple items).accepts equal (.array vs) = true →
        ∀ (i : Nat) (d : Descriptor) (v : Json), elements[i]? = some d → vs[i]? = some v →
          (d.underPolicy settings.nullPolicy).admits equal v = true := by
  have harray (element : Descriptor) : p ≠ .array element := by
    rintro rfl
    cases hsole
  obtain ⟨k, hk⟩ := hplace.asRoot.exists_reaches
  obtain ⟨j, hj⟩ := exists_reaches_target_of_asRoot hk harray
  have hclean := (fits_of_schema_eq_ok h).clean_of_sole hj hsole
  have hlisting : p.listing = [.tuple (elements.map listing)] := by
    rw [hsole.listing_eq, listing, positionListings_eq_map]
  have hschema := Schema.ofAlternatives_tuple settings.nullPolicy (elements.map listing)
  have hcontains := hplace.contains h
  rw [hlisting, hschema] at hcontains
  refine ⟨_, _, fun at_ => alternatives_eq_ok_iff.mpr ⟨faultsAt_eq_nil_iff.mpr hclean, hlisting⟩,
    hschema, hcontains, by simp, fun vs hvs i d v hd hv => ?_⟩
  obtain ⟨n, hn⟩ := hsole.exists_opens
  have hdclean := (clean_iff.mp (hclean.of_reaches hn.reaches)).2.2 d (List.mem_of_getElem? hd)
  exact hdclean.admits_underPolicy equal (Schema.accepts_item hvs (by simp [hd]) hv)

/-- A number and what may only be null, in a union of nothing else, with null left out. -/
theorem tuple_items_belong_pair :
    let pair := tuple [primitive .number, null]
    let root := object ⟨none, [⟨"pair", false, [union [pair]]⟩]⟩
    root.schema ⟨64, .omit⟩ =
        .ok (.object [("pair", .tuple [.types ["number"], .any])] ["pair"]) ∧
      root.HasPlace (union [pair]) ∧ (union [pair]).Sole pair ∧
      ∃ as items, (∀ at_, (union [pair]).alternatives 64 at_ = .ok as) ∧
        Schema.ofAlternatives .omit as = .tuple items ∧
        (Schema.object [("pair", .tuple [.types ["number"], .any])] ["pair"]).Contains
          (.tuple items) ∧
        items.length = 2 ∧
        ∀ vs : List Json, (Schema.tuple items).accepts Json.same (.array vs) = true →
          ∀ (i : Nat) (d : Descriptor) (v : Json), [primitive .number, null][i]? = some d →
            vs[i]? = some v → (d.underPolicy .omit).admits Json.same v = true := by
  intro pair root
  have hschema : root.schema ⟨64, .omit⟩ =
      .ok (.object [("pair", .tuple [.types ["number"], .any])] ["pair"]) := rfl
  have hplace : root.HasPlace (union [pair]) := .here nofun (by simp [root, parts])
  have hsole : (union [pair]).Sole pair := .member (.refl pair)
  exact ⟨hschema, hplace, hsole, tuple_items_belong Json.same hschema hplace hsole⟩

/-- An array of no items is accepted for a tuple of two numbers. A text is accepted where only null
may stand, if null is left out. -/
theorem tuple_items_not_fixed :
    (object ⟨none, [⟨"x", false, [tuple [primitive .number, primitive .number]]⟩]⟩).schema
        ⟨64, .typeNull⟩ =
      .ok (.object [("x", .tuple [.types ["number"], .types ["number"]])] ["x"]) ∧
    (Schema.tuple [.types ["number"], .types ["number"]]).accepts Json.same (.array []) = true ∧
    (object ⟨none, [⟨"x", false, [tuple [null]]⟩]⟩).schema ⟨64, .omit⟩ =
      .ok (.object [("x", .tuple [.any])] ["x"]) ∧
    (Schema.tuple [.any]).accepts Json.same (.array [.string "none"]) = true ∧
    null.admits Json.same (.string "none") = false :=
  ⟨rfl, rfl, rfl, rfl, rfl⟩

end Descriptor

end TypeSchema
