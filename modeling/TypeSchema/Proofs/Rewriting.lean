import TypeSchema.Proofs.RootPosition

/-!
A change in one place of a descriptor. A rule that lists the same and keeps a descriptor free of
faults does so in every place, and where it is used the entity of a root stays as it is. A change
that saves a step down may be undone under a limit that is one greater.
-/
namespace TypeSchema

theorem forall_mem_middle_iff {α : Type} {P : α → Prop} {before after : List α} {b : α} :
    (∀ a ∈ before ++ b :: after, P a) ↔ P b ∧ ∀ a ∈ before ++ after, P a := by
  simp only [List.forall_mem_append, List.forall_mem_cons]
  exact and_left_comm

theorem Shape.Unambiguous.replace {name : Option String} {before after : List Field} {f g : Field}
    (h : Shape.Unambiguous ⟨name, before ++ f :: after⟩) (hname : g.name = f.name)
    (hsingle : (∃ d, f.declarations = [d]) → ∃ d, g.declarations = [d]) :
    Shape.Unambiguous ⟨name, before ++ g :: after⟩ := by
  obtain ⟨hf, hothers⟩ := forall_mem_middle_iff.mp h.single
  exact ⟨by simpa [hname] using h.nodup, forall_mem_middle_iff.mpr ⟨hsingle hf, hothers⟩⟩

namespace Descriptor

def NoEmptyUnion (d : Descriptor) : Prop := ∀ k, ¬ d.Reaches k (.union [])

theorem noEmptyUnion_iff {d : Descriptor} :
    d.NoEmptyUnion ↔ d ≠ .union [] ∧ ∀ e ∈ d.parts, e.NoEmptyUnion := by
  constructor
  · intro h
    exact ⟨fun hd => h 0 (hd ▸ .refl d), fun e he k hk => h (k + 1) (.step he hk)⟩
  · rintro ⟨hd, hparts⟩ k hk
    generalize hx : Descriptor.union [] = x at hk
    cases hk with
    | refl => exact hd hx.symm
    | step he hk => exact hparts _ he _ (hx ▸ hk)

theorem noEmptyUnion_union_iff {members : List Descriptor} :
    (union members).NoEmptyUnion ↔ members ≠ [] ∧ ∀ d ∈ members, d.NoEmptyUnion := by
  rw [noEmptyUnion_iff]
  simp [parts]

theorem clean_union_iff {limit depth : Nat} {members : List Descriptor} :
    (union members).Clean limit depth ↔
      depth ≤ limit ∧ members ≠ [] ∧ ∀ d ∈ members, d.Clean limit (depth + 1) :=
  clean_iff

/-- A change by a rule in one place of a descriptor: anywhere, or else only below a field. -/
inductive Rewrites (rule : Descriptor → Descriptor → Prop) :
    (anywhere : Bool) → Descriptor → Descriptor → Prop where
  | here {t t' : Descriptor} : rule t t' → Rewrites rule true t t'
  | declaration {anywhere : Bool} {t t' : Descriptor} (name : Option String)
    (before after : List Field) (field : String) (optional : Bool) (ds es : List Descriptor) :
    Rewrites rule true t t' →
    Rewrites rule anywhere (.object ⟨name, before ++ ⟨field, optional, ds ++ t :: es⟩ :: after⟩)
      (.object ⟨name, before ++ ⟨field, optional, ds ++ t' :: es⟩ :: after⟩)
  | element {anywhere : Bool} {t t' : Descriptor} : Rewrites rule anywhere t t' →
    Rewrites rule anywhere (.array t) (.array t')
  | position {anywhere : Bool} {t t' : Descriptor} (before after : List Descriptor) :
    Rewrites rule anywhere t t' →
    Rewrites rule anywhere (.tuple (before ++ t :: after)) (.tuple (before ++ t' :: after))
  | member {anywhere : Bool} {t t' : Descriptor} (before after : List Descriptor) :
    Rewrites rule anywhere t t' →
    Rewrites rule anywhere (.union (before ++ t :: after)) (.union (before ++ t' :: after))

/-- What makes a rule safe below a field: it lists the same and brings in no fault. Backwards, one
step more down may be needed. -/
structure Harmless (rule : Descriptor → Descriptor → Prop) : Prop where
  listing_eq : ∀ {d d'}, rule d d' → d'.listing = d.listing
  noEmptyUnion : ∀ {d d'}, rule d d' → d.NoEmptyUnion → d'.NoEmptyUnion
  clean : ∀ {d d'}, rule d d' → ∀ limit depth, d.Clean limit depth → d'.Clean limit depth
  clean_of : ∀ {d d'}, rule d d' → d.NoEmptyUnion → ∀ limit depth, d'.Clean limit depth →
    d.Clean (limit + 1) depth

namespace Rewrites

variable {rule : Descriptor → Descriptor → Prop} {anywhere : Bool} {d d' : Descriptor}

/-- Induction along the way to the place of a change: a node on the way is as sound as before, and
one of its parts is changed. -/
theorem induction_on_parts {motive : Descriptor → Descriptor → Prop}
    (h : Rewrites rule anywhere d d') (here : ∀ d d', rule d d' → motive d d')
    (below : ∀ d d' t t' before after, d.parts = before ++ t :: after →
      d'.parts = before ++ t' :: after → (d.Sound ↔ d'.Sound) → motive t t' → motive d d') :
    motive d d' := by
  induction h with
  | here h => exact here _ _ h
  | @declaration _ t t' name before after field optional ds es _ ih =>
    have hsingle {t t' : Descriptor} (h : ∃ d, ds ++ t :: es = [d]) :
        ∃ d, ds ++ t' :: es = [d] := by
      cases ds <;> simp_all
    refine below _ _ t t' (before.flatMap (·.declarations) ++ ds)
      (es ++ after.flatMap (·.declarations)) (by simp [parts]) (by simp [parts]) ?_ ih
    exact ⟨fun h => h.replace rfl hsingle, fun h => h.replace rfl hsingle⟩
  | @element _ t t' _ ih => exact below _ _ t t' [] [] rfl rfl Iff.rfl ih
  | @position _ t t' before after _ ih => exact below _ _ t t' before after rfl rfl Iff.rfl ih
  | @member _ t t' before after _ ih =>
    exact below _ _ t t' before after rfl rfl (by simp [Sound]) ih

theorem listing_eq (hrule : Harmless rule) (h : Rewrites rule anywhere d d') :
    d'.listing = d.listing := by
  induction h with
  | here h => exact hrule.listing_eq h
  | declaration name before after field optional ds es _ ih =>
    simp [listing, fieldListings_eq_map, Field.property, ih]
  | element _ ih => rw [listing, listing, ih]
  | position before after _ ih => simp [listing, positionListings_eq_map, ih]
  | member before after _ ih => simp [listing, memberListings_eq_flatMap, ih]

theorem noEmptyUnion (hrule : Harmless rule) (h : Rewrites rule anywhere d d') :
    d.NoEmptyUnion → d'.NoEmptyUnion := by
  refine h.induction_on_parts (fun d d' h => hrule.noEmptyUnion h) ?_
  intro d d' t t' before after hparts hparts' _ ih hd
  have hne : d' ≠ .union [] := by
    rintro rfl
    simp [parts] at hparts'
  rw [noEmptyUnion_iff, hparts, forall_mem_middle_iff] at hd
  rw [noEmptyUnion_iff, hparts', forall_mem_middle_iff]
  exact ⟨hne, ih hd.2.1, hd.2.2⟩

theorem clean (hrule : Harmless rule) (h : Rewrites rule anywhere d d') :
    ∀ limit depth, d.Clean limit depth → d'.Clean limit depth := by
  refine h.induction_on_parts (fun d d' h => hrule.clean h) ?_
  intro d d' t t' before after hparts hparts' hsound ih limit depth hd
  rw [clean_iff, hparts, forall_mem_middle_iff] at hd
  rw [clean_iff, hparts', forall_mem_middle_iff]
  exact ⟨hd.1, hsound.mp hd.2.1, ih _ _ hd.2.2.1, hd.2.2.2⟩

theorem clean_of (hrule : Harmless rule) (h : Rewrites rule anywhere d d') :
    d.NoEmptyUnion → ∀ limit depth, d'.Clean limit depth → d.Clean (limit + 1) depth := by
  refine h.induction_on_parts (fun d d' h => hrule.clean_of h) ?_
  intro d d' t t' before after hparts hparts' hsound ih hne limit depth hd
  rw [noEmptyUnion_iff, hparts, forall_mem_middle_iff] at hne
  rw [clean_iff, hparts', forall_mem_middle_iff] at hd
  rw [clean_iff, hparts, forall_mem_middle_iff]
  refine ⟨by omega, hsound.mpr hd.2.1, ih hne.2.1 _ _ hd.2.2.1, fun e he => ?_⟩
  exact (hd.2.2.2 e he).mono (by omega)

end Rewrites

end Descriptor

namespace Entity

open Descriptor

/-! ### Targets -/

/-- A target opens to objects, through unions counted from this layer, and the objects are free of
faults. -/
structure Fits (limit layer : Nat) (t : Descriptor) : Prop where
  opened : t.Opened limit layer
  clean : ∀ s ∈ shapes t, (object s).Clean (limit + 1) 0

section
variable {limit layer : Nat}

theorem clean_object_iff {s : Shape} :
    (object s).Clean (limit + 1) 0 ↔
      s.Unambiguous ∧ ∀ f ∈ s.fields, ∀ d ∈ f.declarations, d.Clean limit 0 := by
  refine ⟨fun h => ?_, fun h => clean_object h.1 h.2⟩
  obtain ⟨-, hsound, hparts⟩ := clean_iff.mp h
  refine ⟨hsound, fun f hf d hd => ?_⟩
  exact (hparts d (List.mem_flatMap.mpr ⟨f, hf, hd⟩)).mono (by omega)

theorem fits_object_iff {s : Shape} :
    Fits limit layer (.object s) ↔ (object s).Clean (limit + 1) 0 := by
  refine ⟨fun h => h.clean s (by simp [shapes]), fun h => ⟨fun k x hx => ?_, by simpa [shapes]⟩⟩
  cases hx
  exact .inl ⟨s, rfl⟩

theorem fits_union_iff {members : List Descriptor} :
    Fits limit layer (.union members) ↔
      layer ≤ limit ∧ ∀ d ∈ members, Fits limit (layer + 1) d := by
  have hshapes (s : Shape) : s ∈ shapes (.union members) ↔ ∃ d ∈ members, s ∈ shapes d := by
    rw [shapes, memberShapes_eq_flatMap, List.mem_flatMap]
  constructor
  · rintro ⟨hopened, hclean⟩
    obtain ⟨hlayer, hmembers⟩ := opened_union_iff.mp hopened
    exact ⟨hlayer, fun d hd => ⟨hmembers d hd, fun s hs => hclean s ((hshapes s).mpr ⟨d, hd, hs⟩)⟩⟩
  · rintro ⟨hlayer, hmembers⟩
    refine ⟨opened_union_iff.mpr ⟨hlayer, fun d hd => (hmembers d hd).opened⟩, fun s hs => ?_⟩
    obtain ⟨d, hd, hs⟩ := (hshapes s).mp hs
    exact (hmembers d hd).clean s hs

theorem Fits.object_or_union {t : Descriptor} (h : Fits limit layer t) :
    (∃ s, t = .object s) ∨ ∃ members, t = .union members :=
  (h.opened 0 t (.refl t)).imp_right And.left

theorem Fits.mono {limit' layer' : Nat} {t : Descriptor} (h : Fits limit layer t)
    (hlimit : limit ≤ limit') (hle : limit + layer' ≤ limit' + layer) : Fits limit' layer' t := by
  refine ⟨fun k x hx => ?_, fun s hs => (h.clean s hs).mono (by omega)⟩
  exact (h.opened k x hx).imp_right fun hx => ⟨hx.1, by omega⟩

theorem ofDescriptor_eq_ok_iff_fits {root : Descriptor} {e : Entity} :
    ofDescriptor limit root = .ok e ↔
      Fits limit 1 (target root).2 ∧ (shapes (target root).2).map variant ≠ [] ∧
        listing root = e := by
  rw [ofDescriptor_eq_ok_iff, faults_eq_nil_iff]
  simp only [← clean_object_iff]
  constructor
  · rintro ⟨⟨hopened, hne, hclean⟩, he⟩
    exact ⟨⟨hopened, hclean⟩, by simpa using hne, he⟩
  · rintro ⟨⟨hopened, hclean⟩, hne, he⟩
    exact ⟨⟨hopened, by simpa using hne, hclean⟩, he⟩

end

/-- Two targets make the same entity: the second at every limit at which the first does, and the
first at the next limit. -/
structure Agree (t t' : Descriptor) : Prop where
  name : targetName t' = targetName t
  variants : (shapes t').map variant = (shapes t).map variant
  fits : ∀ limit layer, Fits limit layer t → Fits limit layer t'
  fits_of : t.NoEmptyUnion → ∀ limit layer, Fits limit layer t' → Fits (limit + 1) layer t

namespace Agree

theorem object {s s' : Shape} (hname : s'.name = s.name)
    (hlisting : (Descriptor.object s').listing = (Descriptor.object s).listing)
    (hclean : ∀ limit depth, (Descriptor.object s).Clean limit depth →
      (Descriptor.object s').Clean limit depth)
    (hclean_of : (Descriptor.object s).NoEmptyUnion → ∀ limit depth,
      (Descriptor.object s').Clean limit depth → (Descriptor.object s).Clean (limit + 1) depth) :
    Agree (.object s) (.object s') := by
  refine ⟨hname, ?_, fun limit layer h => ?_, fun hne limit layer h => ?_⟩
  · obtain ⟨name, fields⟩ := s
    obtain ⟨name', fields'⟩ := s'
    have hfields : fieldListings fields' = fieldListings fields := by
      simpa [Descriptor.listing] using hlisting
    simpa [shapes, variant, hfields] using hname
  · exact fits_object_iff.mpr (hclean _ _ (fits_object_iff.mp h))
  · exact fits_object_iff.mpr (hclean_of hne _ _ (fits_object_iff.mp h))

theorem member {t t' : Descriptor} (before after : List Descriptor) (h : Agree t t') :
    Agree (.union (before ++ t :: after)) (.union (before ++ t' :: after)) := by
  refine ⟨rfl, by simp [shapes, memberShapes_eq_flatMap, h.variants], fun limit layer hfits => ?_,
    fun hne limit layer hfits => ?_⟩
  · rw [fits_union_iff, forall_mem_middle_iff] at hfits ⊢
    exact ⟨hfits.1, h.fits _ _ hfits.2.1, hfits.2.2⟩
  · rw [noEmptyUnion_union_iff, forall_mem_middle_iff] at hne
    rw [fits_union_iff, forall_mem_middle_iff] at hfits ⊢
    refine ⟨by omega, h.fits_of hne.2.1 _ _ hfits.2.1, fun d hd => ?_⟩
    exact (hfits.2.2 d hd).mono (by omega) (by omega)

theorem of_misfit {t t' : Descriptor} (hname : targetName t' = targetName t)
    (hshapes : shapes t' = shapes t)
    (ht : (∀ s, t ≠ .object s) ∧ ∀ members, t ≠ .union members)
    (ht' : (∀ s, t' ≠ .object s) ∧ ∀ members, t' ≠ .union members) : Agree t t' := by
  refine ⟨hname, by rw [hshapes], fun _ _ h => ?_, fun _ _ _ h => ?_⟩
  · rcases h.object_or_union with ⟨s, hs⟩ | ⟨members, hm⟩
    · exact absurd hs (ht.1 s)
    · exact absurd hm (ht.2 members)
  · rcases h.object_or_union with ⟨s, hs⟩ | ⟨members, hm⟩
    · exact absurd hs (ht'.1 s)
    · exact absurd hm (ht'.2 members)

end Agree

/-! ### Changes in a root -/

/-- What makes a rule safe in a target: it is about unions there, and targets agree. -/
structure HarmlessAtRoot (rule : Descriptor → Descriptor → Prop) : Prop where
  unions : ∀ {d d'}, rule d d' → ∃ members members', d = .union members ∧ d' = .union members'
  agree : ∀ {d d'}, rule d d' → Agree d d'

variable {rule : Descriptor → Descriptor → Prop} {anywhere : Bool} {t t' root root' : Descriptor}

theorem agree_of_rewrites (hrule : Harmless rule) (hroot : anywhere = true → HarmlessAtRoot rule)
    (h : Rewrites rule anywhere t t') : Agree t t' := by
  induction h with
  | here h => exact (hroot rfl).agree h
  | @declaration _ u u' name before after field optional ds es h _ =>
    have hobject :
        Rewrites rule true (.object ⟨name, before ++ ⟨field, optional, ds ++ u :: es⟩ :: after⟩)
          (.object ⟨name, before ++ ⟨field, optional, ds ++ u' :: es⟩ :: after⟩) :=
      .declaration name before after field optional ds es h
    exact .object rfl (hobject.listing_eq hrule) (hobject.clean hrule) (hobject.clean_of hrule)
  | element _ _ => exact .of_misfit rfl rfl ⟨nofun, nofun⟩ ⟨nofun, nofun⟩
  | position before after _ _ => exact .of_misfit rfl rfl ⟨nofun, nofun⟩ ⟨nofun, nofun⟩
  | member before after _ ih => exact (ih hroot).member before after

theorem target_of_rewrites (hroot : anywhere = true → HarmlessAtRoot rule)
    (h : Rewrites rule anywhere root root') :
    (target root').1 = (target root).1 ∧
      Rewrites rule anywhere (target root).2 (target root').2 := by
  cases h with
  | here h =>
    obtain ⟨members, members', rfl, rfl⟩ := (hroot rfl).unions h
    exact ⟨rfl, .here h⟩
  | declaration name before after field optional ds es h =>
    exact ⟨rfl, .declaration name before after field optional ds es h⟩
  | element h => exact ⟨rfl, h⟩
  | position before after h =>
    -- a tuple of one position is opened, every other one is the target itself
    match before, after with
    | [], [] => exact ⟨rfl, h⟩
    | [], x :: rest => exact ⟨rfl, .position [] (x :: rest) h⟩
    | [x], after => exact ⟨rfl, .position [x] after h⟩
    | x :: y :: rest, after => exact ⟨rfl, .position (x :: y :: rest) after h⟩
  | member before after h => exact ⟨rfl, .member before after h⟩

theorem noEmptyUnion_target (h : root.NoEmptyUnion) : (target root).2.NoEmptyUnion := by
  unfold target
  split
  · exact (noEmptyUnion_iff.mp h).2 _ (by simp [parts])
  · exact (noEmptyUnion_iff.mp h).2 _ (by simp [parts])
  · exact h

/-- A harmless change in a root leaves its entity as it is; undone, at the next limit. -/
theorem ofDescriptor_of_rewrites (hrule : Harmless rule)
    (hroot : anywhere = true → HarmlessAtRoot rule) (h : Rewrites rule anywhere root root') :
    (∀ limit e, ofDescriptor limit root = .ok e → ofDescriptor limit root' = .ok e) ∧
      (root.NoEmptyUnion → ∀ limit e, ofDescriptor limit root' = .ok e →
        ofDescriptor (limit + 1) root = .ok e) := by
  obtain ⟨harray, htarget⟩ := target_of_rewrites hroot h
  have hagree := agree_of_rewrites hrule hroot htarget
  have hlisting : listing root' = listing root := by
    rw [listing, listing, harray, hagree.name, hagree.variants]
  simp only [ofDescriptor_eq_ok_iff_fits, hlisting, hagree.variants]
  exact ⟨fun _ _ he => ⟨hagree.fits _ _ he.1, he.2⟩,
    fun hne _ _ he => ⟨hagree.fits_of (noEmptyUnion_target hne) _ _ he.1, he.2⟩⟩

end Entity

end TypeSchema
