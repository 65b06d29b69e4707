import TypeSchema.Schema.Synthesis

/-!
The values that a schema accepts, keyword by keyword. Under the policy that writes null out, the
schema of several alternatives accepts what the schema of one of them accepts. `equal` is the
equality of values that constants go by; nothing here depends on which it is.
-/
namespace TypeSchema

namespace Json

def isNull : Json → Bool
  | .null => true
  | _ => false

end Json

def Primitive.holds : Primitive → Json → Bool
  | .number, .number _ => true
  | .string, .string _ => true
  | .boolean, .bool _ => true
  | _, _ => false

/-- Whether a value is of the type of this name. No other type is ever named in a schema here. -/
def Json.hasType : Json → String → Bool
  | .number _, "number" => true
  | .string _, "string" => true
  | .bool _, "boolean" => true
  | .null, "null" => true
  | _, _ => false

theorem Json.hasType_name (kind : Primitive) (v : Json) :
    v.hasType kind.name = kind.holds v := by
  cases kind <;> cases v <;> rfl

theorem Json.hasType_null (v : Json) : v.hasType "null" = v.isNull := by
  cases v <;> rfl

namespace Schema

variable (equal : Json → Json → Bool)

mutual

def accepts : Schema → Json → Bool
  | .object properties required, v =>
    match v with
    | .object entries =>
      acceptsProperties properties entries &&
        (Keyed.keys entries).all (Keyed.keys properties).contains &&
        required.all (Keyed.keys entries).contains
    | _ => false
  | .array items, v =>
    match v with
    | .array vs => vs.all (accepts items)
    | _ => false
  | .tuple items, v =>
    match v with
    | .array vs => acceptsPositions items vs
    | _ => false
  | .types names, v => names.any v.hasType
  | .const value, v => equal value.toJson v
  | .any, _ => true
  | .anyOf arms, v => acceptsSome arms v

def acceptsSome : List Schema → Json → Bool
  | [], _ => false
  | s :: rest, v => accepts s v || acceptsSome rest v

/-- Items without a schema of their own are free, and so are schemas without an item. -/
def acceptsPositions : List Schema → List Json → Bool
  | s :: rest, v :: vs => accepts s v && acceptsPositions rest vs
  | _, _ => true

def acceptsProperties : List (String × Schema) → List (String × Json) → Bool
  | [], _ => true
  | (name, s) :: rest, entries =>
    (entries.all fun e => e.1 != name || accepts s e.2) && acceptsProperties rest entries

end

theorem accepts_types (names : List String) (v : Json) :
    accepts equal (.types names) v = names.any v.hasType :=
  rfl

theorem acceptsSome_eq_any (arms : List Schema) (v : Json) :
    acceptsSome equal arms v = arms.any (·.accepts equal v) := by
  induction arms with
  | nil => rfl
  | cons s rest ih => exact congrArg (accepts equal s v || ·) ih

theorem acceptsProperties_eq_all (properties : List (String × Schema))
    (entries : List (String × Json)) :
    acceptsProperties equal properties entries =
      properties.all fun p => entries.all fun e => e.1 != p.1 || p.2.accepts equal e.2 := by
  induction properties with
  | nil => rfl
  | cons p rest ih =>
    exact congrArg ((entries.all fun e => e.1 != p.1 || p.2.accepts equal e.2) && ·) ih

theorem accepts_anyOf (arms : List Schema) (v : Json) :
    accepts equal (.anyOf arms) v = arms.any (·.accepts equal v) :=
  acceptsSome_eq_any equal arms v

theorem accepts_combine {fragments : List Schema} (hne : fragments ≠ []) (v : Json) :
    (combine fragments).accepts equal v = fragments.any (·.accepts equal v) := by
  match fragments with
  | [] => exact absurd rfl hne
  | [s] => simp [combine]
  | s :: t :: rest => exact accepts_anyOf equal (s :: t :: rest) v

end Schema

namespace Alternative

theorem any_isNull_iff {as : List Alternative} : as.any isNull = true ↔ .null ∈ as := by
  rw [List.any_eq_true]
  refine ⟨fun ⟨a, ha, hnull⟩ => ?_, fun h => ⟨.null, h, rfl⟩⟩
  cases a <;> first | exact ha | cases hnull

theorem mem_freshPrimitives_iff {kind : Primitive} {seen : List Primitive}
    {as : List Alternative} :
    kind ∈ freshPrimitives seen as ↔ kind ∉ seen ∧ .value kind ∈ as := by
  induction as generalizing seen with
  | nil => simp [freshPrimitives]
  | cons a as ih =>
    cases a with
    | value other =>
      by_cases hseen : seen.contains other = true
      · rw [freshPrimitives, if_pos hseen, ih]
        grind
      · rw [freshPrimitives, if_neg hseen, List.mem_cons, ih]
        grind
    | literal _ => simp [freshPrimitives, ih]
    | null => simp [freshPrimitives, ih]
    | any => simp [freshPrimitives, ih]
    | object _ => simp [freshPrimitives, ih]
    | array _ => simp [freshPrimitives, ih]
    | tuple _ => simp [freshPrimitives, ih]

theorem mem_primitives_iff {kind : Primitive} {as : List Alternative} :
    kind ∈ primitives as ↔ .value kind ∈ as := by
  simp [primitives, mem_freshPrimitives_iff]

end Alternative

namespace Schema

variable (equal : Json → Json → Bool)

/-- The list of types accepts the values of each primitive among the alternatives, and null if it
is one of them and is written out or stands beside a primitive. -/
theorem any_typeFragment_iff {policy : NullPolicy} {as : List Alternative} {v : Json} :
    (typeFragment policy as).any (·.accepts equal v) = true ↔
      (∃ kind, .value kind ∈ as ∧ kind.holds v = true) ∨
        (as.any Alternative.isNull = true ∧ v.isNull = true ∧
          (policy = .typeNull ∨ ∃ kind, .value kind ∈ as)) := by
  simp only [← Alternative.mem_primitives_iff]
  unfold typeFragment
  cases as.any Alternative.isNull <;> cases policy <;> cases Alternative.primitives as <;>
    simp [accepts_types, Json.hasType_name, Json.hasType_null, or_assoc, and_comm]

theorem accepts_ofAlternatives_iff {policy : NullPolicy} {as : List Alternative}
    (hne : typeFragment policy as ++ fragments policy as ≠ []) {v : Json} :
    (ofAlternatives policy as).accepts equal v = true ↔
      ((∃ kind, .value kind ∈ as ∧ kind.holds v = true) ∨
        (as.any Alternative.isNull = true ∧ v.isNull = true ∧
          (policy = .typeNull ∨ ∃ kind, .value kind ∈ as))) ∨
      ∃ a ∈ as, ∃ s ∈ fragment policy a, s.accepts equal v = true := by
  rw [ofAlternatives, accepts_combine equal hne, List.any_append, Bool.or_eq_true,
    any_typeFragment_iff, fragments_eq_flatMap, List.any_flatMap, List.any_eq_true]
  simp only [List.any_eq_true]

/-- What an alternative accepts by itself. -/
def acceptsAs (a : Alternative) (v : Json) : Bool :=
  (ofAlternatives .typeNull [a]).accepts equal v

theorem acceptsAs_value (kind : Primitive) (v : Json) :
    acceptsAs equal (.value kind) v = kind.holds v := by
  simp [acceptsAs, ofAlternatives, fragments, fragment, combine, accepts_types, typeFragment,
    Alternative.primitives, Alternative.freshPrimitives, Alternative.isNull,
    Json.hasType_name]

theorem acceptsAs_null (v : Json) : acceptsAs equal .null v = v.isNull := by
  simp [acceptsAs, ofAlternatives, fragments, fragment, combine, accepts_types, typeFragment,
    Alternative.primitives, Alternative.freshPrimitives, Alternative.isNull, Json.hasType_null]

theorem fragment_cases (policy : NullPolicy) (a : Alternative) :
    (∃ kind, a = .value kind) ∨ a = .null ∨ ∃ s, fragment policy a = [s] := by
  cases a <;> simp [fragment]

theorem acceptsAs_of_fragment {a : Alternative} {s : Schema}
    (h : fragment .typeNull a = [s]) (v : Json) : acceptsAs equal a v = s.accepts equal v := by
  have htypes : typeFragment .typeNull [a] = [] := by
    cases a <;> first | rfl | simp [fragment] at h
  simp [acceptsAs, ofAlternatives, htypes, fragments, h, combine]

theorem fragments_ne_nil {as : List Alternative} (hne : as ≠ []) :
    typeFragment .typeNull as ++ fragments .typeNull as ≠ [] := by
  obtain ⟨a, rest, rfl⟩ := List.exists_cons_of_ne_nil hne
  cases a with
  | value kind => simp [typeFragment, Alternative.primitives, Alternative.freshPrimitives]
  | null =>
    unfold typeFragment
    cases Alternative.primitives (.null :: rest) <;> simp [Alternative.isNull]
  | literal _ => simp [fragments, fragment]
  | any => simp [fragments, fragment]
  | object _ => simp [fragments, fragment]
  | array _ => simp [fragments, fragment]
  | tuple _ => simp [fragments, fragment]

/-- Several alternatives accept what one of them accepts. -/
theorem accepts_ofAlternatives {as : List Alternative} (hne : as ≠ []) (v : Json) :
    (ofAlternatives .typeNull as).accepts equal v = as.any (acceptsAs equal · v) := by
  rw [Bool.eq_iff_iff, accepts_ofAlternatives_iff equal (fragments_ne_nil hne)]
  constructor
  · refine fun h => List.any_eq_true.mpr ?_
    rcases h with (⟨kind, hkind, hv⟩ | ⟨hnull, hv, -⟩) | ⟨a, ha, s, hs, hv⟩
    · refine ⟨.value kind, hkind, ?_⟩
      rwa [acceptsAs_value]
    · refine ⟨.null, Alternative.any_isNull_iff.mp hnull, ?_⟩
      rwa [acceptsAs_null]
    · refine ⟨a, ha, ?_⟩
      rcases fragment_cases .typeNull a with ⟨kind, rfl⟩ | rfl | ⟨t, ht⟩
      · simp [fragment] at hs
      · simp [fragment] at hs
      · have : s = t := by simpa [ht] using hs
        rwa [acceptsAs_of_fragment equal ht, ← this]
  · intro h
    obtain ⟨a, ha, hv⟩ := List.any_eq_true.mp h
    rcases fragment_cases .typeNull a with ⟨kind, rfl⟩ | rfl | ⟨t, ht⟩
    · rw [acceptsAs_value] at hv
      exact .inl (.inl ⟨kind, ha, hv⟩)
    · rw [acceptsAs_null] at hv
      exact .inl (.inr ⟨Alternative.any_isNull_iff.mpr ha, hv, .inl rfl⟩)
    · rw [acceptsAs_of_fragment equal ht] at hv
      exact .inr ⟨a, ha, t, by simp [ht], hv⟩

end Schema

end TypeSchema
