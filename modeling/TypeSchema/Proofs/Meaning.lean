import TypeSchema.Proofs.Membership
import TypeSchema.Proofs.RootPosition

/-!
The schema of a descriptor accepts the values that belong to the descriptor.
-/
namespace TypeSchema

namespace Descriptor

variable (equal : Json → Json → Bool)

theorem accepts_ofProperties {fields : List Field}
    (h : ∀ f ∈ fields, ∀ w,
      (Schema.ofAlternatives .typeNull f.property.alternatives).accepts equal w =
        f.declarations.any (·.admits equal w)) (name : Option String) (v : Json) :
    (Schema.ofProperties .typeNull (fieldListings fields)).accepts equal v =
      (object ⟨name, fields⟩).admits equal v := by
  cases v with
  | object entries =>
    have hkeys : Keyed.keys (Schema.propertySchemas .typeNull (fieldListings fields)) =
        fields.map (·.name) := by
      rw [Schema.keys_propertySchemas, keys_fieldListings]
    have hproperties : Schema.acceptsProperties equal
        (Schema.propertySchemas .typeNull (fieldListings fields)) entries =
        admitsFields equal fields entries := by
      rw [Schema.acceptsProperties_eq_all, Schema.propertySchemas_eq_map, fieldListings_eq_map,
        admitsFields_eq_all, List.map_map, List.all_map]
      exact all_congr_of_mem fun f hf => all_congr_of_mem fun e _ => by simp [h f hf]
    have hnames (key : String) :
        (fields.map (·.name)).contains key = fields.any (·.name == key) := by
      rw [Bool.eq_iff_iff]
      simp
    rw [Schema.ofProperties, Schema.accepts, admits, hkeys, hproperties,
      Schema.requiredNames_fieldListings, List.all_map, List.all_filter,
      all_congr_of_mem fun key _ => hnames key]
    rfl
  | _ => simp [Schema.ofProperties, Schema.accepts, admits]

theorem accepts_positions {elements : List Descriptor}
    (h : ∀ d ∈ elements, ∀ v,
      (Schema.ofAlternatives .typeNull d.listing).accepts equal v = d.admits equal v)
    (vs : List Json) :
    Schema.acceptsPositions equal (Schema.positionSchemas .typeNull (positionListings elements))
      vs = admitsPositions equal elements vs := by
  induction elements generalizing vs with
  | nil => simp [positionListings, Schema.positionSchemas, Schema.acceptsPositions, admitsPositions]
  | cons d ds ih =>
    cases vs with
    | nil =>
      simp [positionListings, Schema.positionSchemas, Schema.acceptsPositions, admitsPositions]
    | cons v vs =>
      have hd := h d (by simp) v
      have hrest := ih (fun e he => h e (by simp [he])) vs
      rw [Schema.ofAlternatives] at hd
      rw [positionListings, Schema.positionSchemas, Schema.acceptsPositions, admitsPositions, hd,
        hrest]

theorem any_scalars {ms : List Member} (h : ∀ m ∈ ms, m.Plain) (ordinal : Nat) (v : Json) :
    (Member.scalars ordinal ms).any (fun s => equal s.toJson v) =
      (ms.zipIdx ordinal).any fun m => equal (m.1.value m.2) v := by
  induction ms generalizing ordinal with
  | nil => rfl
  | cons m ms ih =>
    obtain ⟨s, hs⟩ := (h m (by simp)).exists_scalar? ordinal
    have hvalue := Member.value_of_scalar? hs
    have hrest := ih (fun m hm => h m (by simp [hm])) (ordinal + 1)
    simp [Member.scalars, hs, hvalue, hrest]

/-- The schema of what a clean descriptor lists accepts the values of the descriptor. -/
theorem Clean.accepts_listing {limit depth : Nat} {d : Descriptor} (h : d.Clean limit depth)
    (v : Json) :
    (Schema.ofAlternatives .typeNull d.listing).accepts equal v = d.admits equal v := by
  induction d generalizing depth v with
  | object name fields ih =>
    obtain ⟨-, hsound, hparts⟩ := clean_iff.mp h
    refine accepts_ofProperties equal (fun f hf w => ?_) name v
    obtain ⟨d, hd⟩ := hsound.single f hf
    have hclean := hparts d (List.mem_flatMap.mpr ⟨f, hf, by simp [hd]⟩)
    simpa [Field.property, hd] using ih f hf d (by simp [hd]) hclean w
  | array element ih =>
    obtain ⟨-, -, hparts⟩ := clean_iff.mp h
    show (Schema.array (Schema.ofAlternatives .typeNull element.listing)).accepts equal v = _
    cases v with
    | array vs => exact all_congr_of_mem fun w _ => ih (hparts element (by simp [parts])) w
    | _ => simp [Schema.accepts, admits]
  | tuple elements ih =>
    obtain ⟨-, -, hparts⟩ := clean_iff.mp h
    show (Schema.tuple (Schema.positionSchemas .typeNull (positionListings elements))).accepts
      equal v = _
    cases v with
    | array vs => exact accepts_positions equal (fun d hd w => ih d hd (hparts d hd) w) vs
    | _ => simp [Schema.accepts, admits]
  | union members ih =>
    obtain ⟨-, -, hparts⟩ := clean_iff.mp h
    -- the members share one list of types, so their schemas are found alternative by alternative
    rw [Schema.accepts_ofAlternatives equal h.listing_ne_nil, listing, memberListings_eq_flatMap,
      List.any_flatMap, admits, admitsSome_eq_any]
    refine any_congr_of_mem fun d hd => ?_
    rw [← Schema.accepts_ofAlternatives equal (hparts d hd).listing_ne_nil]
    exact ih d hd (hparts d hd) v
  | enumeration e =>
    obtain ⟨-, ⟨-, hplain⟩, -⟩ := clean_iff.mp h
    rw [Schema.accepts_ofAlternatives equal h.listing_ne_nil, listing, List.any_map]
    exact any_scalars equal hplain 0 v
  | literal value =>
    cases value with
    | null => exact Schema.acceptsAs_null equal v
    | _ => rfl
  | primitive kind => exact Schema.acceptsAs_value equal kind v
  | null => exact Schema.acceptsAs_null equal v
  | wildcard => rfl
  | unsupported spelling => exact absurd (clean_iff.mp h).2.1 (by simp [Sound])

theorem Opened.admits_eq {limit layer : Nat} {t : Descriptor} (h : t.Opened limit layer)
    (v : Json) : t.admits equal v = (Entity.shapes t).any fun s => (object s).admits equal v := by
  induction t generalizing layer with
  | object name fields _ => simp [Entity.shapes]
  | union members ih =>
    have hmembers := (opened_union_iff.mp h).2
    rw [admits, admitsSome_eq_any, Entity.shapes, Entity.memberShapes_eq_flatMap, List.any_flatMap]
    exact any_congr_of_mem fun d hd => ih d hd (hmembers d hd)
  | _ => simpa using h 0 _ (.refl _)

theorem Opened.accepts_listing {limit layer : Nat} {t : Descriptor} (h : t.Opened limit layer)
    (hne : Entity.shapes t ≠ []) (hshapes : ∀ s ∈ Entity.shapes t, s.Unambiguous ∧
      ∀ f ∈ s.fields, ∀ d ∈ f.declarations, d.Clean limit 0) (v : Json) :
    (Schema.ofAlternatives .typeNull t.listing).accepts equal v = t.admits equal v := by
  have hlisting : t.listing ≠ [] := by
    rw [h.listing_eq]
    simpa using hne
  rw [Schema.accepts_ofAlternatives equal hlisting, h.listing_eq, h.admits_eq equal, List.any_map]
  refine any_congr_of_mem fun s hs => ?_
  obtain ⟨hsound, hfields⟩ := hshapes s hs
  obtain ⟨name, fields⟩ := s
  exact (clean_object hsound hfields).accepts_listing equal v

/-- What a root is read as: a tuple of one position, as an array. -/
def asRoot : Descriptor → Descriptor
  | .tuple [element] => .array element
  | root => root

theorem asRoot_eq_target (root : Descriptor) :
    root.asRoot =
      if (Entity.target root).1 then .array (Entity.target root).2
      else (Entity.target root).2 := by
  cases root with
  | tuple elements =>
    match elements with
    | [] => rfl
    | [_] => rfl
    | _ :: _ :: _ => rfl
  | _ => rfl

end Descriptor

namespace Schema

theorem ofEntity_listing {limit layer : Nat} {root : Descriptor} (policy : NullPolicy)
    (h : (Entity.target root).2.Opened limit layer) :
    ofEntity policy (Entity.listing root) =
      if (Entity.target root).1 then .array (ofAlternatives policy (Entity.target root).2.listing)
      else ofAlternatives policy (Entity.target root).2.listing := by
  have hcombine := ofAlternatives_map_object policy
    ((Entity.shapes (Entity.target root).2).map fun s => (Entity.variant s).properties)
  rw [List.map_map, List.map_map] at hcombine
  rw [h.listing_eq, ofEntity, Entity.listing, List.map_map]
  exact congrArg (fun s => if (Entity.target root).1 then Schema.array s else s) hcombine.symm

end Schema

namespace Descriptor

/-- With null written out, the schema of a type accepts exactly the values of the type, at whatever
limit it is made. A root that is a tuple of one position stands for an array. -/
theorem schema_accepts (equal : Json → Json → Bool) (limit : Nat) (d : Descriptor) (s : Schema)
    (h : d.schema ⟨limit, .typeNull⟩ = .ok s) (v : Json) :
    s.accepts equal v = d.asRoot.admits equal v := by
  rw [schema_eq_verdict, verdict_eq_ok_iff, Entity.faults_eq_nil_iff] at h
  obtain ⟨⟨hopened, hne, hshapes⟩, rfl⟩ := h
  have htarget := hopened.accepts_listing equal hne hshapes
  rw [Schema.ofEntity_listing .typeNull hopened, asRoot_eq_target]
  cases (Entity.target d).1 with
  | false => exact htarget v
  | true =>
    cases v with
    | array vs => exact all_congr_of_mem fun w _ => htarget w
    | _ => simp [Schema.accepts, admits]

/-- Points with a label that may be null and so may be left out. -/
theorem schema_accepts_points :
    (array (object ⟨some "Point", [⟨"x", false, [primitive .number]⟩,
        ⟨"label", false, [union [primitive .string, null]]⟩]⟩)).schema ⟨64, .typeNull⟩ =
      .ok (.array
        (.object [("x", .types ["number"]), ("label", .types ["string", "null"])] ["x"])) ∧
    (Schema.array (.object [("x", .types ["number"]), ("label", .types ["string", "null"])]
        ["x"])).accepts Json.same (.array [.object [("x", .number (.int 1))]]) =
      (array (object ⟨some "Point", [⟨"x", false, [primitive .number]⟩,
        ⟨"label", false, [union [primitive .string, null]]⟩]⟩)).admits Json.same
          (.array [.object [("x", .number (.int 1))]]) :=
  ⟨rfl, schema_accepts Json.same 64 (array (object ⟨some "Point",
    [⟨"x", false, [primitive .number]⟩, ⟨"label", false, [union [primitive .string, null]]⟩]⟩))
    _ rfl _⟩

/-- By itself, a tuple of one position admits items beyond it; at the root its schema does not. -/
theorem schema_rejects_of_single_position :
    (tuple [object ⟨none, []⟩]).schema ⟨64, .typeNull⟩ = .ok (.array (.object [] [])) ∧
      (Schema.array (.object [] [])).accepts Json.same (.array [.object [], .null]) = false ∧
      (tuple [object ⟨none, []⟩]).admits Json.same (.array [.object [], .null]) = true :=
  ⟨rfl, rfl, rfl⟩

end Descriptor

end TypeSchema
