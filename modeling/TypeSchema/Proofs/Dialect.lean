import Mathlib.Data.List.Nodup
import Mathlib.Logic.Relation
import TypeSchema.Proofs.WellFormed

/-!
The part of the schema language that is written. In every schema of a descriptor, at whatever place,
a list of types names each type once and null last, `anyOf` is never idle and never nested, the
required names follow the properties, and nothing is left without a constraint unless a wildcard
asks for it.
-/
namespace TypeSchema

namespace Schema

def parts : Schema → List Schema
  | .object properties _ => properties.map Prod.snd
  | .array items => [items]
  | .tuple items => items
  | .anyOf arms => arms
  | _ => []

/-- The second schema is the first or lies somewhere inside it. -/
def Contains : Schema → Schema → Prop := Relation.ReflTransGen fun s t => t ∈ s.parts

theorem contains_iff {s x : Schema} : s.Contains x ↔ s = x ∨ ∃ t ∈ s.parts, t.Contains x :=
  Relation.ReflTransGen.cases_head_iff

def isTypes : Schema → Bool
  | .types _ => true
  | _ => false

def isAnyOf : Schema → Bool
  | .anyOf _ => true
  | _ => false

/-- What a schema keeps to, whatever is inside it. -/
def InDialect : Schema → Prop
  | .types names => names ≠ [] ∧ names.Nodup ∧ "null" ∉ names.dropLast ∧
    ∀ name ∈ names, name ∈ ["number", "string", "boolean", "null"]
  | .anyOf arms => 2 ≤ arms.length ∧ (∀ s ∈ arms, s.isAnyOf = false) ∧
    ∀ s ∈ arms.tail, s.isTypes = false
  | .object properties required => (Keyed.keys properties).Nodup ∧ required.Nodup ∧
    required.Sublist (Keyed.keys properties)
  | _ => True

theorem eq_of_contains {s x : Schema} (hparts : s.parts = []) (h : s.Contains x) : x = s := by
  rcases contains_iff.mp h with rfl | ⟨t, ht, -⟩
  · rfl
  · simp [hparts] at ht

theorem contains_combine {fragments : List Schema} {x : Schema}
    (h : (combine fragments).Contains x) :
    x = combine fragments ∨ ∃ s ∈ fragments, s.Contains x := by
  match fragments, h with
  | [], h => exact .inl (eq_of_contains rfl h)
  | [s], h => exact .inr ⟨s, by simp, h⟩
  | s :: t :: rest, h => exact (contains_iff.mp h).imp_left Eq.symm

end Schema

namespace Alternative

theorem nodup_freshPrimitives (seen : List Primitive) (as : List Alternative) :
    (freshPrimitives seen as).Nodup := by
  induction as generalizing seen with
  | nil => simp [freshPrimitives]
  | cons a as ih =>
    cases a with
    | value kind =>
      rw [freshPrimitives]
      split
      · exact ih seen
      · refine List.nodup_cons.mpr ⟨fun hk => ?_, ih (kind :: seen)⟩
        exact (mem_freshPrimitives_iff.mp hk).1 (by simp)
    | _ => exact ih seen

/-- An unconstrained value is allowed somewhere inside. -/
inductive Unconstrained : Alternative → Prop where
  | any : Unconstrained .any
  | property {properties : Properties} {p : String × Property} {a : Alternative} :
    p ∈ properties → a ∈ p.2.alternatives → Unconstrained a → Unconstrained (.object properties)
  | item {items : List Alternative} {a : Alternative} :
    a ∈ items → Unconstrained a → Unconstrained (.array items)
  | position {positions : List (List Alternative)} {as : List Alternative} {a : Alternative} :
    as ∈ positions → a ∈ as → Unconstrained a → Unconstrained (.tuple positions)

end Alternative

namespace Schema

variable {policy : NullPolicy}

theorem combine_inDialect {fragments : List Schema}
    (h : ∀ s ∈ fragments, ∀ x, s.Contains x → x.InDialect)
    (hanyOf : ∀ s ∈ fragments, s.isAnyOf = false)
    (htypes : ∀ s ∈ fragments.tail, s.isTypes = false) :
    ∀ x, (combine fragments).Contains x → x.InDialect := by
  intro x hx
  rcases contains_combine hx with rfl | ⟨s, hs, hx⟩
  · match fragments with
    | [] => trivial
    | [s] => exact h s (by simp) s .refl
    | s :: t :: rest => exact ⟨by simp, hanyOf, htypes⟩
  · exact h s hs x hx

theorem names_inDialect {kinds : List Primitive} (hne : kinds ≠ []) (hnodup : kinds.Nodup)
    (nullable : Bool) :
    (types (kinds.map Primitive.name ++ if nullable then ["null"] else [])).InDialect := by
  have hnull := null_notMem_names kinds
  have hinjective : Function.Injective Primitive.name := by
    intro a b h
    cases a <;> cases b <;> first | rfl | exact absurd h (by decide)
  have hkinds := hnodup.map hinjective
  have hnames : ∀ name ∈ kinds.map Primitive.name,
      name ∈ ["number", "string", "boolean", "null"] := by
    intro name h
    obtain ⟨kind, -, rfl⟩ := List.mem_map.mp h
    cases kind <;> decide
  cases nullable with
  | false =>
    refine ⟨by simpa using hne, by simpa using hkinds, fun h => ?_, by simpa using hnames⟩
    exact hnull ((List.dropLast_sublist _).subset (by simpa using h))
  | true =>
    refine ⟨by simp, ?_, by simpa using hnull, fun name h => ?_⟩
    · exact hkinds.append (List.nodup_singleton _) (by simpa using hnull)
    · rcases List.mem_append.mp h with h | h
      · exact hnames name h
      · obtain rfl : name = "null" := by simpa using h
        decide

theorem typeFragment_cases (policy : NullPolicy) (as : List Alternative) :
    typeFragment policy as = [] ∨
      ∃ names, typeFragment policy as = [.types names] ∧ (types names).InDialect := by
  unfold typeFragment
  have hnodup := Alternative.nodup_freshPrimitives [] as
  cases hkinds : Alternative.primitives as with
  | nil =>
    cases policy <;> cases as.any Alternative.isNull <;> simp [InDialect]
  | cons kind kinds =>
    rw [← Alternative.primitives, hkinds] at hnodup
    exact .inr ⟨_, rfl, names_inDialect (by simp) hnodup _⟩

theorem not_isTypes_of_mem_fragments {as : List Alternative} {s : Schema}
    (h : s ∈ fragments policy as) : s.isTypes = false ∧ s.isAnyOf = false := by
  rw [fragments_eq_flatMap] at h
  obtain ⟨a, -, hs⟩ := List.mem_flatMap.mp h
  cases a <;> simp [fragment] at hs <;> subst hs <;> exact ⟨rfl, rfl⟩

theorem ofAlternatives_inDialect {as : List Alternative}
    (h : ∀ a ∈ as, ∀ s ∈ fragment policy a, ∀ x, s.Contains x → x.InDialect) :
    ∀ x, (ofAlternatives policy as).Contains x → x.InDialect := by
  have hown (s : Schema) (hs : s ∈ fragments policy as) := not_isTypes_of_mem_fragments hs
  have hfragments (s : Schema) (hs : s ∈ fragments policy as) :
      ∀ x, s.Contains x → x.InDialect := by
    rw [fragments_eq_flatMap] at hs
    obtain ⟨a, ha, hs⟩ := List.mem_flatMap.mp hs
    exact h a ha s hs
  rw [ofAlternatives]
  obtain htypes | ⟨names, htypes, hnames⟩ := typeFragment_cases policy as
  · rw [htypes]
    exact combine_inDialect hfragments (fun s hs => (hown s hs).2)
      fun s hs => (hown s (List.mem_of_mem_tail hs)).1
  · rw [htypes]
    refine combine_inDialect (List.forall_mem_cons.mpr ⟨fun x hx => ?_, hfragments⟩)
      (List.forall_mem_cons.mpr ⟨rfl, fun s hs => (hown s hs).2⟩) fun s hs => (hown s hs).1
    exact eq_of_contains rfl hx ▸ hnames

theorem exists_fragment_of_contains {as : List Alternative} (hne : as ≠ [])
    (h : (ofAlternatives .typeNull as).Contains .any) :
    ∃ a ∈ as, ∃ s ∈ fragment .typeNull a, s.Contains .any := by
  obtain ⟨s, hs, hany⟩ : ∃ s ∈ typeFragment .typeNull as ++ fragments .typeNull as,
      s.Contains .any := by
    rcases contains_combine h with heq | hs
    · have hne := fragments_ne_nil hne
      match hl : typeFragment .typeNull as ++ fragments .typeNull as with
      | [] => exact absurd hl hne
      | [s] =>
        -- a lone fragment is the schema itself
        rw [ofAlternatives, hl, combine] at h
        exact ⟨s, by simp, h⟩
      | _ :: _ :: _ => simp [hl, combine] at heq
    · exact hs
  rcases List.mem_append.mp hs with hs | hs
  · obtain hnil | ⟨names, hnames, -⟩ := typeFragment_cases .typeNull as
    · simp [hnil] at hs
    · obtain rfl : s = .types names := by simpa [hnames] using hs
      cases eq_of_contains rfl hany
  · rw [fragments_eq_flatMap] at hs
    obtain ⟨a, ha, hs⟩ := List.mem_flatMap.mp hs
    exact ⟨a, ha, s, hs, hany⟩

end Schema

namespace Alternative.WellFormed

open Schema

theorem fragment_inDialect {policy : NullPolicy} {a : Alternative} (h : a.WellFormed) :
    ∀ s ∈ fragment policy a, ∀ x, s.Contains x → x.InDialect := by
  induction h with
  | value kind => simp [fragment]
  | null => simp [fragment]
  | literal value =>
    intro s hs x hx
    obtain rfl : s = .const value := by simpa [fragment] using hs
    exact eq_of_contains rfl hx ▸ trivial
  | any =>
    intro s hs x hx
    obtain rfl : s = .any := by simpa [fragment] using hs
    exact eq_of_contains rfl hx ▸ trivial
  | @object properties hnodup _ _ ih =>
    intro s hs x hx
    obtain rfl := List.mem_singleton.mp (fragment_object policy properties ▸ hs)
    rcases contains_iff.mp hx with rfl | ⟨t, ht, hx⟩
    · have hsub : (requiredNames properties).Sublist (Keyed.keys properties) :=
        List.filter_sublist.map Prod.fst
      rw [ofProperties, InDialect, keys_propertySchemas]
      exact ⟨hnodup, hsub.nodup hnodup, hsub⟩
    · rw [ofProperties, parts, propertySchemas_eq_map, List.map_map] at ht
      obtain ⟨p, hp, rfl⟩ := List.mem_map.mp ht
      exact ofAlternatives_inDialect (ih p hp) x hx
  | @array items _ _ ih =>
    intro s hs x hx
    obtain rfl := List.mem_singleton.mp (fragment_array policy items ▸ hs)
    rcases contains_iff.mp hx with rfl | ⟨t, ht, hx⟩
    · trivial
    · obtain rfl : t = ofAlternatives policy items := by simpa [parts] using ht
      exact ofAlternatives_inDialect ih x hx
  | @tuple positions _ _ ih =>
    intro s hs x hx
    obtain rfl := List.mem_singleton.mp (fragment_tuple policy positions ▸ hs)
    rcases contains_iff.mp hx with rfl | ⟨t, ht, hx⟩
    · trivial
    · obtain ⟨as, has, rfl⟩ := List.mem_map.mp ht
      exact ofAlternatives_inDialect (ih as has) x hx

theorem unconstrained_of_contains {a : Alternative} (h : a.WellFormed) :
    ∀ s ∈ fragment .typeNull a, s.Contains .any → a.Unconstrained := by
  induction h with
  | value kind => simp [fragment]
  | null => simp [fragment]
  | literal value =>
    intro s hs hx
    obtain rfl : s = .const value := by simpa [fragment] using hs
    cases eq_of_contains rfl hx
  | any => exact fun _ _ _ => .any
  | @object properties _ hne _ ih =>
    intro s hs hx
    obtain rfl := List.mem_singleton.mp (fragment_object .typeNull properties ▸ hs)
    rcases contains_iff.mp hx with h | ⟨t, ht, hx⟩
    · cases h
    · rw [ofProperties, parts, propertySchemas_eq_map, List.map_map] at ht
      obtain ⟨p, hp, rfl⟩ := List.mem_map.mp ht
      obtain ⟨a, ha, s, hs, hx⟩ := exists_fragment_of_contains (hne p hp) hx
      exact .property hp ha (ih p hp a ha s hs hx)
  | @array items hne _ ih =>
    intro s hs hx
    obtain rfl := List.mem_singleton.mp (fragment_array .typeNull items ▸ hs)
    rcases contains_iff.mp hx with h | ⟨t, ht, hx⟩
    · cases h
    · obtain rfl : t = ofAlternatives .typeNull items := by simpa [parts] using ht
      obtain ⟨a, ha, s, hs, hx⟩ := exists_fragment_of_contains hne hx
      exact .item ha (ih a ha s hs hx)
  | @tuple positions hne _ ih =>
    intro s hs hx
    obtain rfl := List.mem_singleton.mp (fragment_tuple .typeNull positions ▸ hs)
    rcases contains_iff.mp hx with h | ⟨t, ht, hx⟩
    · cases h
    · obtain ⟨as, has, rfl⟩ := List.mem_map.mp ht
      obtain ⟨a, ha, s, hs, hx⟩ := exists_fragment_of_contains (hne as has) hx
      exact .position has ha (ih as has a ha s hs hx)

end Alternative.WellFormed

namespace Descriptor

theorem reaches_wildcard {d : Descriptor} {a : Alternative} (ha : a ∈ d.listing)
    (hopen : a.Unconstrained) : ∃ k, d.Reaches k .wildcard := by
  induction d generalizing a with
  | object name fields ih =>
    obtain rfl : a = .object (fieldListings fields) := by simpa [listing] using ha
    cases hopen with
    | @property _ p a hp ha hopen =>
      obtain ⟨f, hf, rfl⟩ := List.mem_map.mp (fieldListings_eq_map fields ▸ hp)
      obtain ⟨d, hd, ha⟩ := List.mem_flatMap.mp ha
      obtain ⟨k, hk⟩ := ih f hf d hd ha hopen
      exact ⟨k + 1, .step (List.mem_flatMap.mpr ⟨f, hf, hd⟩) hk⟩
  | array element ih =>
    obtain rfl : a = .array element.listing := by simpa [listing] using ha
    cases hopen with
    | item ha hopen =>
      obtain ⟨k, hk⟩ := ih ha hopen
      exact ⟨k + 1, .step (by simp [parts]) hk⟩
  | tuple elements ih =>
    obtain rfl : a = .tuple (elements.map listing) := by
      simpa [listing, positionListings_eq_map] using ha
    cases hopen with
    | position has ha hopen =>
      obtain ⟨d, hd, rfl⟩ := List.mem_map.mp has
      obtain ⟨k, hk⟩ := ih d hd ha hopen
      exact ⟨k + 1, .step hd hk⟩
  | union members ih =>
    rw [listing, memberListings_eq_flatMap] at ha
    obtain ⟨d, hd, ha⟩ := List.mem_flatMap.mp ha
    obtain ⟨k, hk⟩ := ih d hd ha hopen
    exact ⟨k + 1, .step hd hk⟩
  | wildcard => exact ⟨0, .refl _⟩
  | enumeration e =>
    obtain ⟨s, -, rfl⟩ := List.mem_map.mp ha
    cases hopen
  | literal value =>
    obtain rfl : a = value.alternative := by simpa [listing] using ha
    cases value <;> cases hopen
  | primitive kind =>
    obtain rfl : a = .value kind := by simpa [listing] using ha
    cases hopen
  | null =>
    obtain rfl : a = .null := by simpa [listing] using ha
    cases hopen
  | unsupported spelling => simp [listing] at ha

theorem reaches_of_reaches_asRoot {d x : Descriptor} {k : Nat} (h : d.asRoot.Reaches k x)
    (hx : ∀ element, x ≠ .array element) : d.Reaches k x := by
  unfold asRoot at h
  split at h
  · cases h with
    | refl => exact absurd rfl (hx _)
    | step he h => exact .step he h
  · exact h

/-- Every place in the schema of a descriptor is in the dialect, and with null written out a place
without constraint comes from a wildcard. -/
theorem schema_inDialect {settings : Settings} {d : Descriptor} {s : Schema}
    (h : d.schema settings = .ok s) :
    (∀ x, s.Contains x → x.InDialect) ∧
      (settings.nullPolicy = .typeNull → s.Contains .any → ∃ k, d.Reaches k .wildcard) := by
  obtain ⟨hne, hwell, rfl⟩ := schema_eq_ok h
  refine ⟨Schema.ofAlternatives_inDialect fun a ha => (hwell a ha).fragment_inDialect,
    fun hpolicy hany => ?_⟩
  rw [hpolicy] at hany
  obtain ⟨a, ha, s, hs, hany⟩ := Schema.exists_fragment_of_contains hne hany
  obtain ⟨k, hk⟩ := reaches_wildcard ha ((hwell a ha).unconstrained_of_contains s hs hany)
  exact ⟨k, reaches_of_reaches_asRoot hk (by simp)⟩

/-- A list of types with null last and a constant beside it, and a place that a wildcard leaves
open. -/
theorem schema_inDialect_readings :
    (object ⟨none, [⟨"reading", false, [union [null, literal (.string "none"), primitive .number,
        union [primitive .boolean, primitive .number]]]⟩,
        ⟨"source", false, [array wildcard]⟩]⟩).schema ⟨64, .typeNull⟩ =
      .ok (.object [("reading", .anyOf [.types ["number", "boolean", "null"],
        .const (.string "none")]), ("source", .array .any)] ["source"]) ∧
    (∀ x, (Schema.object [("reading", .anyOf [.types ["number", "boolean", "null"],
        .const (.string "none")]), ("source", .array .any)] ["source"]).Contains x →
      x.InDialect) ∧
    ∃ k, (object ⟨none, [⟨"reading", false, [union [null, literal (.string "none"),
        primitive .number, union [primitive .boolean, primitive .number]]]⟩,
        ⟨"source", false, [array wildcard]⟩]⟩).Reaches k .wildcard :=
  have h := @schema_inDialect ⟨64, .typeNull⟩ (object ⟨none, [⟨"reading", false, [union [null,
    literal (.string "none"), primitive .number, union [primitive .boolean, primitive .number]]]⟩,
    ⟨"source", false, [array wildcard]⟩]⟩) _ rfl
  ⟨rfl, h.1, h.2 rfl (.tail (.single (.tail _ (.head _))) (.head _))⟩

end Descriptor

end TypeSchema
