import TypeSchema.Proofs.Dialect

/-!
What the policy for null changes. A list of alternatives in which null stands without a primitive
has another schema under each policy, whatever is beside null, and no schema around it hides the
difference; every other list is written the same way. The names of the properties of an object, and
which of them are required, do not depend on the policy.
-/
namespace TypeSchema

theorem flatMap_eq_flatMap_iff {α β : Type} {f g : α → List β}
    (h : ∀ a, (f a).length = (g a).length) {l : List α} :
    l.flatMap f = l.flatMap g ↔ ∀ a ∈ l, f a = g a := by
  induction l with
  | nil => simp
  | cons a l ih =>
    rw [List.flatMap_cons, List.flatMap_cons, List.forall_mem_cons, ← ih]
    exact ⟨fun heq => List.append_inj heq (h a), fun ⟨ha, hl⟩ => by rw [ha, hl]⟩

namespace Alternative

def lists : Alternative → List (List Alternative)
  | .object properties => properties.map (·.2.alternatives)
  | .array items => [items]
  | .tuple positions => positions
  | _ => []

theorem induction_on_lists {motive : Alternative → Prop} (a : Alternative)
    (h : ∀ a, (∀ as ∈ a.lists, ∀ b ∈ as, motive b) → motive a) : motive a := by
  induction a with
  | object properties ih =>
    refine h _ fun as has => ?_
    obtain ⟨p, hp, rfl⟩ := List.mem_map.mp has
    exact ih p hp
  | array items ih =>
    refine h _ fun as has => ?_
    obtain rfl : as = items := by simpa [lists] using has
    exact ih
  | tuple positions ih => exact h _ ih
  | _ => exact h _ (by simp [lists])

/-- The first list is the second or stands somewhere inside it. -/
inductive Within : List Alternative → List Alternative → Prop where
  | refl (as : List Alternative) : Within as as
  | step {as bs cs : List Alternative} {a : Alternative} :
    a ∈ cs → bs ∈ a.lists → Within as bs → Within as cs

theorem forall_within_iff {P : List Alternative → Prop} {as : List Alternative} :
    (∀ bs, Within bs as → P bs) ↔
      P as ∧ ∀ a ∈ as, ∀ bs ∈ a.lists, ∀ cs, Within cs bs → P cs := by
  refine ⟨fun h => ⟨h as (.refl as), fun a ha bs hbs cs hcs => h cs (.step ha hbs hcs)⟩, ?_⟩
  rintro ⟨has, hinside⟩ bs hbs
  cases hbs with
  | refl => exact has
  | step ha hbs hcs => exact hinside _ ha _ hbs _ hcs

/-- If null is among the alternatives, it has a primitive to join. -/
def NullJoins (as : List Alternative) : Prop := .null ∈ as → ∃ kind, .value kind ∈ as

end Alternative

namespace Schema

open TypeSchema.Alternative (NullJoins Within forall_within_iff)

/-! ### One list of alternatives -/

theorem combine_inj {ss ts : List Schema} (h : ss.length = ts.length) :
    combine ss = combine ts ↔ ss = ts := by
  match ss, ts, h with
  | [], [], _ => simp
  | [s], [t], _ => simp [combine]
  | s :: s' :: ss, t :: t' :: ts, _ => simp [combine]

theorem combine_types_cons_ne {names : List String} {ss ts : List Schema}
    (h : ss.length = ts.length) (hts : ∀ t ∈ ts, t.isAnyOf = false) :
    combine (types names :: ss) ≠ combine ts := by
  intro heq
  match ss, ts, h with
  | [], [], _ => cases heq
  | [s], [t], _ =>
    have ht := hts t (by simp)
    rw [show t = anyOf [types names, s] from heq.symm] at ht
    cases ht
  | s :: s' :: ss, t :: t' :: ts, h =>
    have hlength := congrArg List.length (anyOf.inj heq)
    simp only [List.length_cons] at hlength h
    omega

theorem length_fragment (a : Alternative) :
    (fragment .typeNull a).length = (fragment .omit a).length := by
  cases a <;> rfl

theorem length_fragments (as : List Alternative) :
    (fragments .typeNull as).length = (fragments .omit as).length := by
  induction as with
  | nil => rfl
  | cons a as ih => simp [fragments, length_fragment, ih]

theorem fragments_eq_iff {as : List Alternative} :
    fragments .typeNull as = fragments .omit as ↔
      ∀ a ∈ as, fragment .typeNull a = fragment .omit a := by
  rw [fragments_eq_flatMap, fragments_eq_flatMap, flatMap_eq_flatMap_iff length_fragment]

/-- The list of types is the same under both policies, unless null is alone in it. -/
theorem typeFragment_eq_or_null (as : List Alternative) :
    (NullJoins as ∧ typeFragment .typeNull as = typeFragment .omit as) ∨
      (¬ NullJoins as ∧ typeFragment .typeNull as = [.types ["null"]] ∧
        typeFragment .omit as = []) := by
  simp only [NullJoins, ← Alternative.any_isNull_iff, ← Alternative.mem_primitives_iff]
  unfold typeFragment
  cases Alternative.primitives as with
  | nil => cases as.any Alternative.isNull <;> simp
  | cons kind kinds => exact .inl ⟨fun _ => ⟨kind, by simp⟩, rfl⟩

theorem ofAlternatives_eq_iff {as : List Alternative} :
    ofAlternatives .typeNull as = ofAlternatives .omit as ↔
      NullJoins as ∧ ∀ a ∈ as, fragment .typeNull a = fragment .omit a := by
  have hlength := length_fragments as
  rw [ofAlternatives, ofAlternatives, ← fragments_eq_iff]
  rcases typeFragment_eq_or_null as with ⟨hjoins, htypes⟩ | ⟨hjoins, htypes, homit⟩
  · rw [htypes, combine_inj (by simp [hlength]), List.append_cancel_left_eq]
    simp [hjoins]
  · rw [htypes, homit]
    exact iff_of_false
      (combine_types_cons_ne hlength fun t ht => (not_isTypes_of_mem_fragments ht).2)
      fun h => hjoins h.1

/-! ### Lists inside lists -/

theorem fragment_eq_iff {a : Alternative} :
    fragment .typeNull a = fragment .omit a ↔
      ∀ as ∈ a.lists, ofAlternatives .typeNull as = ofAlternatives .omit as := by
  cases a with
  | object properties =>
    rw [Alternative.lists, List.forall_mem_map]
    simp [fragment_object, ofProperties, propertySchemas_eq_map]
  | array items => simp [fragment_array, Alternative.lists]
  | tuple positions => simp [fragment_tuple, Alternative.lists]
  | _ => simp [fragment, Alternative.lists]

theorem ofAlternatives_eq_iff_of_mem {as : List Alternative}
    (h : ∀ a ∈ as, fragment .typeNull a = fragment .omit a ↔
      ∀ bs ∈ a.lists, ∀ cs, Within cs bs → NullJoins cs) :
    ofAlternatives .typeNull as = ofAlternatives .omit as ↔
      ∀ bs, Within bs as → NullJoins bs := by
  rw [ofAlternatives_eq_iff, forall_within_iff]
  exact and_congr_right fun _ => forall₂_congr h

/-- A difference inside a fragment shows in the fragment, however deep it lies. -/
theorem fragment_eq_iff_within (a : Alternative) :
    fragment .typeNull a = fragment .omit a ↔
      ∀ as ∈ a.lists, ∀ bs, Within bs as → NullJoins bs := by
  induction a using Alternative.induction_on_lists with
  | h a ih =>
    rw [fragment_eq_iff]
    exact forall₂_congr fun as has => ofAlternatives_eq_iff_of_mem (ih as has)

/-! ### The objects of a root -/

def arms : Schema → List Schema
  | .any => []
  | .anyOf arms => arms
  | s => [s]

/-- The objects of the schema of a root, which is made of objects or is an array of those. -/
def rootObjects : Schema → List Schema
  | .array items => items.arms
  | s => s.arms

def outline : Schema → List String × List String
  | .object properties required => (Keyed.keys properties, required)
  | _ => ([], [])

theorem rootObjects_ofEntity (policy : NullPolicy) (e : Entity) :
    (ofEntity policy e).rootObjects =
      e.variants.map fun v => ofProperties policy v.properties := by
  unfold ofEntity
  cases e.isArray <;> match e.variants with
  | [] | [_] | _ :: _ :: _ => rfl

theorem outline_rootObjects (policy : NullPolicy) (e : Entity) :
    (ofEntity policy e).rootObjects.map outline =
      e.variants.map fun v => (Keyed.keys v.properties, requiredNames v.properties) := by
  rw [rootObjects_ofEntity, List.map_map]
  refine List.map_congr_left fun v _ => ?_
  simp [ofProperties, outline, keys_propertySchemas]

end Schema

namespace Entity

open TypeSchema.Alternative (NullJoins Within)

def Lists (e : Entity) (as : List Alternative) : Prop :=
  ∃ v ∈ e.variants, ∃ p ∈ v.properties, Within as p.2.alternatives

theorem ofEntity_eq_iff_variants (e : Entity) :
    Schema.ofEntity .typeNull e = Schema.ofEntity .omit e ↔
      ∀ v ∈ e.variants, Schema.ofProperties .typeNull v.properties =
        Schema.ofProperties .omit v.properties := by
  have hcombine := @Schema.combine_inj
    (e.variants.map fun v => Schema.ofProperties .typeNull v.properties)
    (e.variants.map fun v => Schema.ofProperties .omit v.properties) (by simp)
  rw [← List.map_inj_left, ← hcombine, Schema.ofEntity, Schema.ofEntity]
  cases e.isArray <;> simp

theorem ofProperties_eq_iff {properties : Properties} :
    Schema.ofProperties .typeNull properties = Schema.ofProperties .omit properties ↔
      ∀ p ∈ properties, ∀ as, Within as p.2.alternatives → NullJoins as := by
  have hfragment := Schema.fragment_eq_iff_within (.object properties)
  rwa [Schema.fragment_object, Schema.fragment_object, List.singleton_inj, Alternative.lists,
    List.forall_mem_map] at hfragment

/-- The policies for null make the same schema of an entity exactly if null stands beside a
primitive in every list of alternatives that has it, wherever the list is. Whether they do or not,
the objects of the root have the same properties in the same order, and the same of them are
required. -/
theorem policies_agree_iff (e : Entity) :
    (Schema.ofEntity .typeNull e = Schema.ofEntity .omit e ↔
      ∀ as, e.Lists as → .null ∈ as → ∃ kind, .value kind ∈ as) ∧
    (Schema.ofEntity .typeNull e).rootObjects.map Schema.outline =
      (Schema.ofEntity .omit e).rootObjects.map Schema.outline ∧
    ∀ policy, (Schema.ofEntity policy e).rootObjects.map Schema.outline =
      e.variants.map fun v => (Keyed.keys v.properties, Schema.requiredNames v.properties) := by
  refine ⟨?_, ?_, fun policy => Schema.outline_rootObjects policy e⟩
  · simp only [ofEntity_eq_iff_variants, ofProperties_eq_iff]
    constructor
    · rintro h as ⟨v, hv, p, hp, has⟩
      exact h v hv p hp as has
    · intro h v hv p hp as has
      exact h as ⟨v, hv, p, hp, has⟩
  · rw [Schema.outline_rootObjects, Schema.outline_rootObjects]

/-- Null beside a constant, in the items of an array. -/
example :
    Schema.ofAlternatives .typeNull [.array [.literal (.string "auto"), .null]] =
      .array (.anyOf [.types ["null"], .const (.string "auto")]) ∧
    Schema.ofAlternatives .omit [.array [.literal (.string "auto"), .null]] =
      .array (.const (.string "auto")) :=
  ⟨rfl, rfl⟩

end Entity

end TypeSchema
