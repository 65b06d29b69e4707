import TypeSchema.Proofs.Places
import TypeSchema.Proofs.Routes

/-!
Where an unknown kind is reported. The kind of the outermost descriptor has a place of its own; what
lies inside has been set aside before it is read, and all that is known of it is the place of the
outermost descriptor.
-/
namespace TypeSchema

open Reading

section
variable (read : Spot → Document → Read Descriptor) (place : Place)
  {entries : List (String × Json)} {x : Json}

/-! What the readers of records that hold descriptors rest on. -/

theorem Field.restsOn_first (hx : entries.lookup "type" = some x) (hne : x ≠ .null) :
    RestsOn (Field.readWith read ⟨.buffered, place⟩) (read ⟨.buffered, place⟩) (.object entries)
      [.key "type"] x := by
  have hrecord : RestsOn (layout.read (readField read) {} ⟨.buffered, place⟩)
      (readOption read ⟨.buffered, place⟩) (.object entries) [.key "type"] x :=
    Layout.restsOn_read (fun w first => { w with first := first }) (by decide) (fun _ _ => rfl) hx
  have hfirst := hrecord.trans (restsOn_readOption read ⟨.buffered, place⟩ hne)
  exact hfirst.map Written.field

theorem Field.restsOn_others (hx : entries.lookup "declarations" = some x) :
    RestsOn (Field.readWith read ⟨.buffered, place⟩) (readList read ⟨.buffered, place⟩)
      (.object entries) [.key "declarations"] x := by
  have hrecord : RestsOn (layout.read (readField read) {} ⟨.buffered, place⟩)
      (readList read ⟨.buffered, place⟩) (.object entries) [.key "declarations"] x :=
    Layout.restsOn_read (fun w others => { w with others := others }) (by decide) (fun _ _ => rfl)
      hx
  exact hrecord.map Written.field

theorem Shape.restsOn_fields (hx : entries.lookup "fields" = some x) :
    RestsOn (Shape.readWith read ⟨.buffered, place⟩)
      (readList (Field.readWith read) ⟨.buffered, place⟩) (.object entries) [.key "fields"] x :=
  Layout.restsOn_read (fun s fields => { s with fields := fields }) (by decide) (fun _ _ => rfl) hx

end

namespace Descriptor

theorem restsOn_readSingle {α : Type} (read : Spot → Document → Read α) (place : Place)
    (noun : String) {name : String} {entries : List (String × Json)} {x : Json}
    (hx : entries.lookup name = some x) :
    RestsOn (readSingle noun name read ⟨.buffered, place⟩) (read ⟨.buffered, place⟩)
      (.object entries) [.key name] x := by
  have hrecord : RestsOn (Layout.read ⟨"struct variant TypeDescriptor::" ++ noun, [(name, true)]⟩
      (fun _ spot doc _ => some <$> read spot doc) none ⟨.buffered, place⟩)
      (read ⟨.buffered, place⟩) (.object entries) [.key name] x :=
    Layout.restsOn_read (fun _ a => some a) (List.mem_singleton_self _) (fun _ _ => rfl) hx
  exact hrecord.bind _

/-- The kind that a descriptor in others gives under its key, by name or by position. -/
def HasKind (entries : List (String × Json)) (form : Form) : Prop :=
  ∃ v, entries.lookup "kind" = some v ∧
    readVariant Form.choices ⟨.buffered, []⟩ v.toDocument = .ok form

/-- The descriptors, themselves objects, that a descriptor of a kind holds in its content. -/
inductive Holds (entries : List (String × Json)) :
    Form → Place → List (String × Json) → Prop where
  | element {inner : List (String × Json)} : entries.lookup "element" = some (.object inner) →
    Holds entries .array [.key "element"] inner
  | position {items : List Json} {i : Nat} {inner : List (String × Json)} :
    entries.lookup "elements" = some (.array items) → items[i]? = some (.object inner) →
    Holds entries .tuple [.key "elements", .index i] inner
  | member {items : List Json} {i : Nat} {inner : List (String × Json)} :
    entries.lookup "members" = some (.array items) → items[i]? = some (.object inner) →
    Holds entries .union [.key "members", .index i] inner
  | first {fields : List Json} {i : Nat} {field inner : List (String × Json)} :
    entries.lookup "fields" = some (.array fields) → fields[i]? = some (.object field) →
    field.lookup "type" = some (.object inner) →
    Holds entries .object [.key "fields", .index i, .key "type"] inner
  | other {fields items : List Json} {i j : Nat} {field inner : List (String × Json)} :
    entries.lookup "fields" = some (.array fields) → fields[i]? = some (.object field) →
    field.lookup "declarations" = some (.array items) → items[j]? = some (.object inner) →
    Holds entries .object [.key "fields", .index i, .key "declarations", .index j] inner

/-- The descriptors nested in a descriptor, and itself, all of them objects. -/
inductive Nests : List (String × Json) → Place → List (String × Json) → Prop where
  | refl (entries : List (String × Json)) : Nests entries [] entries
  | step {entries middle inner : List (String × Json)} {form : Form} {p q : Place} :
    HasKind entries form → Holds entries form p middle → Nests middle q inner →
    Nests entries (p ++ q) inner

theorem Holds.restsOn {entries inner : List (String × Json)} {form : Form} {p : Place}
    (h : Holds entries form p inner) (place : Place) :
    RestsOn (readContent read ⟨.buffered, place⟩ · form) (read ⟨.buffered, place⟩)
      (.object entries) p (.object inner) := by
  cases h with
  | element h => exact (restsOn_readSingle read place "Array" h).map array
  | position h hitem =>
    have helements := restsOn_readSingle (readList read) place "Tuple" h
    exact (helements.trans (restsOn_readList read place hitem)).map tuple
  | member h hitem =>
    have hmembers := restsOn_readSingle (readList read) place "Union" h
    exact (hmembers.trans (restsOn_readList read place hitem)).map union
  | first h hfield hfirst =>
    have hfields := Shape.restsOn_fields read place h
    have hfield := hfields.trans (restsOn_readList (Field.readWith read) place hfield)
    exact (hfield.trans (Field.restsOn_first read place hfirst (by simp))).map object
  | other h hfield hothers hother =>
    have hfields := Shape.restsOn_fields read place h
    have hfield := hfields.trans (restsOn_readList (Field.readWith read) place hfield)
    have hothers := Field.restsOn_others read place hothers
    have hother := hothers.trans (restsOn_readList read place hother)
    exact (hfield.trans hother).map object

section
variable {α : Type} {choices : List (String × α)} {spot : Spot} {doc : Document} {a b : α}

theorem readVariant_cases (h : readVariant choices spot doc = .ok a) :
    (∃ name, doc = .string (some name) ∧ choices.lookup name = some a) ∨
      ∃ n name, doc = .number (some (.int n)) ∧ choices[n.toNat]? = some (name, a) := by
  unfold readVariant at h
  split at h
  · rename_i name
    split at h
    · rename_i c hc
      exact .inl ⟨name, rfl, hc.trans (congrArg some (Except.ok.inj h))⟩
    · simp [Spot.fail] at h
  · rename_i n
    split at h
    · split at h
      · rename_i name c hc
        obtain rfl : c = a := Except.ok.inj h
        exact .inr ⟨n, name, rfl, hc⟩
      · simp [Spot.fail] at h
    · exact absurd h (spot.wrongType_ne_ok _ _ _)
  · exact absurd h (spot.wrongType_ne_ok _ _ _)

theorem readVariant_unique {spot' : Spot} (ha : readVariant choices spot doc = .ok a)
    (hb : readVariant choices spot' doc = .ok b) : a = b := by
  rcases readVariant_cases ha with ⟨name, rfl, hname⟩ | ⟨n, name, rfl, hn⟩
  · rcases readVariant_cases hb with ⟨_, ⟨⟩, hname'⟩ | ⟨_, _, h, -⟩
    · exact Option.some.inj (hname.symm.trans hname')
    · cases h
  · rcases readVariant_cases hb with ⟨_, h, -⟩ | ⟨_, _, ⟨⟩, hn'⟩
    · cases h
    · exact congrArg Prod.snd (Option.some.inj (hn.symm.trans hn'))

end

section
variable {spot : Spot} {entries : List (String × Json)} {form : Form}

theorem readTag_some (hspot : spot.route ≠ .text) {found : Option Form}
    (h : readTag spot (Json.toEntries entries) (some form) = .ok found) : found = some form := by
  induction entries with
  | nil => exact (Except.ok.inj h).symm
  | cons e rest ih =>
    obtain ⟨key, v⟩ := e
    by_cases hkey : key = "kind"
    · simp [Json.toEntries, readTag, hkey, Spot.fail] at h
    · rw [Json.toEntries, readTag_cons_of_ne hspot hkey] at h
      exact ih h

/-- Where a kind is found it is that under the first key for it, and where another value stands
there, that value is read as the kind. -/
theorem exists_kind_of_readTag (hspot : spot.route ≠ .text)
    (h : readTag spot (Json.toEntries entries) none = .ok (some form)) :
    (∃ v, entries.lookup "kind" = some v ∧
      readVariant Form.choices (spot.inside (.key "kind")) v.toDocument = .ok form) ∧
    ∀ v e, readVariant Form.choices (spot.inside (.key "kind")) v.toDocument = .error e →
      readTag spot (Json.toEntries (Keyed.insert "kind" v entries)) none = .error e := by
  induction entries with
  | nil => cases h
  | cons f rest ih =>
    obtain ⟨key, w⟩ := f
    by_cases hkey : key = "kind"
    · subst hkey
      simp only [Json.toEntries, readTag, if_pos, Except.bind_eq_ok_iff] at h
      obtain ⟨found, hvariant, hrest⟩ := h
      obtain rfl : form = found := Option.some.inj (readTag_some hspot hrest)
      refine ⟨⟨w, by simp, hvariant⟩, fun v e he => ?_⟩
      simp only [Keyed.insert, Json.toEntries, readTag, if_pos, he]
      rfl
    · rw [Json.toEntries, readTag_cons_of_ne hspot hkey] at h
      obtain ⟨⟨v, hv, hvariant⟩, hfails⟩ := ih h
      have hlookup : ((key, w) :: rest).lookup "kind" = some v := by
        rwa [List.lookup_cons, beq_eq_false_iff_ne.mpr (Ne.symm hkey)]
      refine ⟨⟨v, hlookup, hvariant⟩, fun v e he => ?_⟩
      rw [Keyed.insert, if_neg hkey, Json.toEntries, readTag_cons_of_ne hspot hkey]
      exact hfails v e he

theorem readTag_insert_of_ne (hspot : spot.route ≠ .text) {key : String} (hkey : key ≠ "kind")
    (v : Json) (found : Option Form) :
    readTag spot (Json.toEntries (Keyed.insert key v entries)) found =
      readTag spot (Json.toEntries entries) found := by
  induction entries generalizing found with
  | nil => exact readTag_cons_of_ne hspot hkey v.toDocument [] found
  | cons e rest ih =>
    obtain ⟨name, w⟩ := e
    by_cases hname : name = key
    · subst hname
      rw [Keyed.insert, if_pos rfl, Json.toEntries, Json.toEntries, readTag_cons_of_ne hspot hkey,
        readTag_cons_of_ne hspot hkey]
    · simp only [Keyed.insert, if_neg hname, Json.toEntries, readTag, ih]

theorem exists_content_of_read {d : Descriptor}
    (h : read spot (Json.object entries).toDocument = .ok d) :
    ∃ form, readTag spot (Json.toEntries entries) none = .ok (some form) ∧
      readContent read spot.buffered (Json.object entries).toDocument form = .ok d := by
  rw [read_eq, Except.bind_eq_ok_iff] at h
  obtain ⟨⟨form, content⟩, htagged, hcontent⟩ := h
  rcases readTagged_eq_ok_iff.mp htagged with ⟨_, hdoc, rfl, htag⟩ | ⟨_, _, hdoc, -⟩
  · obtain ⟨rfl, -⟩ := Document.object.inj hdoc
    exact ⟨form, htag, hcontent⟩
  · cases hdoc

theorem read_object_eq_error {e : Error}
    (h : readTag spot (Json.toEntries entries) none = .error e ∨
      ∃ form, readTag spot (Json.toEntries entries) none = .ok (some form) ∧
        readContent read spot.buffered (Json.object entries).toDocument form = .error e) :
    read spot (Json.object entries).toDocument = .error e := by
  rw [read_eq, Except.bind_eq_error_iff]
  rcases h with h | ⟨form, htag, hcontent⟩
  · exact .inl (Except.bind_eq_error_iff.mpr (.inl h))
  · exact .inr ⟨_, readTagged_eq_ok_iff.mpr (.inl ⟨_, rfl, rfl, htag⟩), hcontent⟩

theorem Holds.exists_key {p : Place} {inner : List (String × Json)}
    (h : Holds entries form p inner) :
    ∃ key q x, p = .key key :: q ∧ key ≠ "kind" ∧ entries.lookup key = some x := by
  cases h with
  | element h => exact ⟨"element", _, _, rfl, by decide, h⟩
  | position h _ => exact ⟨"elements", _, _, rfl, by decide, h⟩
  | member h _ => exact ⟨"members", _, _, rfl, by decide, h⟩
  | first h _ _ => exact ⟨"fields", _, _, rfl, by decide, h⟩
  | other h _ _ _ => exact ⟨"fields", _, _, rfl, by decide, h⟩

theorem Holds.restsOn_read {p : Place} {inner : List (String × Json)}
    (h : Holds entries form p inner) (hkind : HasKind entries form) (hspot : spot.route ≠ .text) :
    RestsOn (read spot) (read ⟨.buffered, spot.place⟩) (.object entries) p (.object inner) := by
  have hcontent := h.restsOn spot.place
  have hform {d : Descriptor} (hd : read spot (Json.object entries).toDocument = .ok d) :
      readTag spot (Json.toEntries entries) none = .ok (some form) ∧
        readContent read spot.buffered (Json.object entries).toDocument form = .ok d := by
    obtain ⟨found, htag, hd⟩ := exists_content_of_read hd
    obtain ⟨⟨v, hv, hvariant⟩, -⟩ := exists_kind_of_readTag hspot htag
    obtain ⟨w, hw, hnamed⟩ := hkind
    obtain rfl : v = w := Option.some.inj (hv.symm.trans hw)
    obtain rfl : found = form := readVariant_unique hvariant hnamed
    exact ⟨htag, hd⟩
  refine ⟨hcontent.part, fun d hd => hcontent.reads d (hform hd).2, fun d hd v hv e he => ?_⟩
  obtain ⟨htag, hd⟩ := hform hd
  have hfails := hcontent.fails d hd v hv e he
  obtain ⟨key, q, x, rfl, hkey, hx⟩ := h.exists_key
  have hchild : (Json.object entries).child? (.key key) = some x := hx
  rw [Json.put_cons hchild] at hfails ⊢
  exact read_object_eq_error (.inr ⟨form, by rw [readTag_insert_of_ne hspot hkey, htag], hfails⟩)

theorem Nests.restsOn_read {q : Place} {inner : List (String × Json)} (h : Nests entries q inner)
    (hspot : spot.route ≠ .text) :
    (q = [] ∧ entries = inner) ∨ q ≠ [] ∧
      RestsOn (read spot) (read ⟨.buffered, spot.place⟩) (.object entries) q (.object inner) := by
  induction h generalizing spot with
  | refl entries => exact .inl ⟨rfl, rfl⟩
  | @step entries middle inner form p q hkind hholds _ ih =>
    have hne : p ++ q ≠ [] := by
      obtain ⟨key, r, x, rfl, -⟩ := hholds.exists_key
      simp
    have hheld := hholds.restsOn_read hkind hspot
    rcases @ih ⟨.buffered, spot.place⟩ (by simp) with ⟨rfl, rfl⟩ | ⟨-, hinner⟩
    · rw [List.append_nil] at hne ⊢
      exact .inr ⟨hne, hheld⟩
    · exact .inr ⟨hne, hheld.trans hinner⟩

theorem read_put_kind {bad : String} (hbad : Form.choices.lookup bad = none)
    (hspot : spot.route ≠ .text) {d : Descriptor}
    (hd : read spot (Json.object entries).toDocument = .ok d) :
    read spot ((Json.object entries).put [.key "kind"] (.string bad)).toDocument =
      .error (.misshapen (spot.inside (.key "kind")).place
        (.unknownVariant bad (Form.choices.map Prod.fst))) := by
  obtain ⟨form, htag, -⟩ := exists_content_of_read hd
  obtain ⟨⟨v, hv, -⟩, hfails⟩ := exists_kind_of_readTag hspot htag
  have hchild : (Json.object entries).child? (.key "kind") = some v := hv
  have hvariant : readVariant Form.choices (spot.inside (.key "kind"))
      (Json.string bad).toDocument = .error (.misshapen (spot.inside (.key "kind")).place
        (.unknownVariant bad (Form.choices.map Prod.fst))) := by
    simp [readVariant, Json.toDocument, hbad, Spot.fail]
  rw [Json.put_cons hchild]
  exact read_object_eq_error (.inl (hfails _ _ hvariant))

end

/-- An unknown kind is reported with its own place only for the outermost descriptor. In a nested
one, wherever it is, it is reported for the whole document. A value and its text are rejected
alike. -/
theorem unknownKind_reported {entries inner : List (String × Json)} {q : Place} {d : Descriptor}
    {bad : String} (hd : ofJson (.object entries) = .ok d) (h : Nests entries q inner)
    (hbad : Form.choices.lookup bad = none) :
    let w := (Json.object entries).put (q ++ [.key "kind"]) (.string bad)
    let error := Error.misshapen (if q = [] then [.key "kind"] else [])
      (.unknownVariant bad (Form.choices.map Prod.fst))
    ofJson w = .error error ∧
      ∀ text : String, (Document.scan text.toList).1 = w.toDocument →
        w.nesting ≤ Document.maxNesting → ofText text = .error error := by
  intro w error
  have hvalue : ofJson w = .error error := by
    rcases @Nests.restsOn_read ⟨.value, []⟩ _ _ _ h (by simp) with ⟨rfl, rfl⟩ | ⟨hne, hrests⟩
    · exact @read_put_kind ⟨.value, []⟩ _ bad hbad (by simp) d hd
    · obtain ⟨d', hd'⟩ := hrests.reads d hd
      have hinner := @read_put_kind ⟨.buffered, []⟩ _ bad hbad (by simp) d' hd'
      have hput := hrests.fails d hd _ (Json.put_ne_null (by simp) (by simp) _) _ hinner
      rw [← Json.put_append hrests.part] at hput
      have herror : error = .misshapen []
          (.unknownVariant bad (Form.choices.map Prod.fst)) := by simp only [error, if_neg hne]
      exact herror ▸ hput
  refine ⟨hvalue, fun text hscan hnesting => ?_⟩
  rw [ofText, fromText, hscan, read_text hnesting, hvalue]

/-- The element of an array that a field is declared as, in a value and in its text. -/
theorem unknownKind_reported_element :
    let error := Error.misshapen [] (.unknownVariant "map" (Form.choices.map Prod.fst))
    ofJson (.object [("fields", .array [.object [("type", .object
        [("kind", .string "array"), ("element", .object [("kind", .string "map")])]),
        ("name", .string "x")]]), ("kind", .string "object")]) = .error error ∧
      ofText ("\x7b\"fields\":[\x7b\"type\":\x7b\"kind\":\"array\"," ++
        "\"element\":\x7b\"kind\":\"map\"\x7d\x7d,\"name\":\"x\"\x7d],\"kind\":\"object\"\x7d") =
          .error error := by
  have hnests : Nests [("fields", .array [.object [("type", .object
      [("kind", .string "array"), ("element", .object [("kind", .string "null")])]),
      ("name", .string "x")]]), ("kind", .string "object")]
      [.key "fields", .index 0, .key "type", .key "element"] [("kind", .string "null")] :=
    .step ⟨.string "object", rfl, rfl⟩ (.first rfl rfl rfl)
      (.step ⟨.string "array", rfl, rfl⟩ (.element rfl) (.refl _))
  obtain ⟨hvalue, htext⟩ := @unknownKind_reported _ _ _
    (.object ⟨none, [⟨"x", false, [.array .null]⟩]⟩) "map" rfl hnests rfl
  refine ⟨hvalue, htext _ ?_ (by decide)⟩
  simp only [String.reduceAppend, String.reduceToList]
  rfl

/-- The declaration of a field, whose own place is not named. -/
theorem unknownKind_not_at_its_place :
    ¬ ∀ entries q inner d bad, Nests entries q inner → ofJson (.object entries) = .ok d →
      Form.choices.lookup bad = none → ∃ mismatch,
        ofJson ((Json.object entries).put (q ++ [.key "kind"]) (.string bad)) =
          .error (.misshapen (q ++ [.key "kind"]) mismatch) := by
  intro h
  have hnests : Nests [("kind", .string "object"), ("fields", .array [.object
      [("name", .string "x"), ("type", .object [("kind", .string "null")])]])]
      [.key "fields", .index 0, .key "type"] [("kind", .string "null")] :=
    .step ⟨.string "object", rfl, rfl⟩ (.first rfl rfl rfl) (.refl _)
  obtain ⟨mismatch, hw⟩ := h _ _ _ (.object ⟨none, [⟨"x", false, [.null]⟩]⟩) "function" hnests
    rfl rfl
  cases hw

end Descriptor

end TypeSchema
