import Mathlib.Data.List.Forall2
import TypeSchema.Proofs.Induction
import TypeSchema.Proofs.Records

/-!
Every way to write a descriptor as a JSON value, and that each of them is read back as it. The form
is chosen anew at every descriptor, field, enumeration and member: an object with its keys in any
order and unknown ones among them, or an array of the fields in order.
-/
namespace TypeSchema

open Reading

/-- A record that gives its kind, among its keys or before its fields. -/
inductive SpellsTagged (kind : String) (slots : List Slot) : Json → Prop where
  | byKey {entries : List (String × Json)} : ("kind", .string kind) ∈ entries →
    SpelledByKey slots entries → SpellsTagged kind slots (.object entries)
  | byPosition {items : List Json} : SpelledByPosition slots items →
    SpellsTagged kind slots (.array (.string kind :: items))

namespace Slot

def needed (name : String) (spelled : Json → Prop) : Slot := ⟨name, spelled, False⟩

/-- A name that is absent may be left out, or written as null. -/
def ofName (name : Option String) : Slot :=
  ⟨"name", (· = name.elim .null .string), name = none⟩

def ofList (name : String) (spelled : List Json → Prop) (omissible : Prop) : Slot :=
  ⟨name, fun v => ∃ ws, v = .array ws ∧ spelled ws, omissible⟩

end Slot

def Constant.toJson : Constant → Json
  | .null => .null
  | .bool b => .bool b
  | .number n => .number n
  | .string s => .string s

/-- An initializer is written exactly if there is one, and repeats no keys. -/
def Member.slots (m : Member) : List Slot :=
  [.needed "name" (· = .string m.name),
    ⟨"value", fun v => m.initializer = some v ∧ v.toDocument.hasDistinctKeys = true,
      m.initializer = none⟩]

def Enumeration.slots (e : Enumeration) : List Slot :=
  [.ofName e.name,
    .ofList "members" (List.Forall₂ (fun m w => SpellsRecord m.slots w) e.members) False]

/-- A field with one declaration apart from the others, or none. -/
def Field.slots (name : String) (optional : Bool) (first others : Slot) : List Slot :=
  [.needed "name" (· = .string name), ⟨"optional", (· = .bool optional), optional = false⟩,
    first, others]

namespace Descriptor

mutual

/-- The value is a way to write the descriptor. -/
def Spells : Descriptor → Json → Prop
  | .primitive kind => SpellsTagged "primitive" [.needed "type" (· = .string kind.name)]
  | .literal c => SpellsTagged "literal" [.needed "value" (· = c.toJson)]
  | .null => SpellsTagged "null" []
  | .wildcard => SpellsTagged "wildcard" []
  | .object ⟨name, fields⟩ =>
    SpellsTagged "object" [.ofName name, .ofList "fields" (SpellsFields fields) (fields = [])]
  | .array element => SpellsTagged "array" [.needed "element" (Spells element)]
  | .tuple elements => SpellsTagged "tuple" [.ofList "elements" (SpellsList elements) False]
  | .union members => SpellsTagged "union" [.ofList "members" (SpellsList members) False]
  | .enumeration e => SpellsTagged "enum" e.slots
  | .unsupported spelling => SpellsTagged "unsupported" [.needed "syntax" (· = .string spelling)]

def SpellsList : List Descriptor → List Json → Prop
  | [], ws => ws = []
  | d :: ds, ws => ∃ w, Spells d w ∧ ∃ rest, SpellsList ds rest ∧ ws = w :: rest

def SpellsFields : List Field → List Json → Prop
  | [], ws => ws = []
  | f :: fs, ws => ∃ w, SpellsField f w ∧ ∃ rest, SpellsFields fs rest ∧ ws = w :: rest

/-- The declarations of a field are all in one list, or the first of them stands apart. -/
def SpellsField : Field → Json → Prop
  | ⟨name, optional, declarations⟩, w =>
    SpellsRecord (Field.slots name optional ⟨"type", (· = .null), True⟩
      (.ofList "declarations" (SpellsList declarations) (declarations = []))) w ∨
    SpellsFirst name optional declarations w

def SpellsFirst (name : String) (optional : Bool) : List Descriptor → Json → Prop
  | [], _ => False
  | d :: ds, w =>
    SpellsRecord (Field.slots name optional (.needed "type" (Spells d))
      (.ofList "declarations" (SpellsList ds) (ds = []))) w

end

theorem spellsList_iff_forall₂ {ds : List Descriptor} {ws : List Json} :
    SpellsList ds ws ↔ List.Forall₂ Spells ds ws := by
  induction ds generalizing ws with
  | nil => simp [SpellsList]
  | cons d ds ih => simp [SpellsList, List.forall₂_cons_left_iff, ih]

theorem spellsFields_iff_forall₂ {fs : List Field} {ws : List Json} :
    SpellsFields fs ws ↔ List.Forall₂ SpellsField fs ws := by
  induction fs generalizing ws with
  | nil => simp [SpellsFields]
  | cons f fs ih => simp [SpellsFields, List.forall₂_cons_left_iff, ih]

end Descriptor

namespace Reading

variable {α : Type} {place : Place}

theorem readItems_of_forall₂ {read : Spot → Document → Read α} {spells : α → Json → Prop}
    {as : List α} {ws : List Json} (h : List.Forall₂ spells as ws)
    (hread : ∀ a ∈ as, ∀ w, spells a w → read ⟨.buffered, place⟩ w.toDocument = .ok a) (i : Nat) :
    readItems read ⟨.buffered, place⟩ i (Json.toDocuments ws) = .ok as := by
  induction h generalizing i with
  | nil => rfl
  | @cons a w as ws ha _ ih =>
    have hrest := ih (fun b hb => hread b (List.mem_cons_of_mem _ hb)) (i + 1)
    exact Except.bind_eq_ok_iff.mpr ⟨a, hread a (List.mem_cons_self ..) w ha,
      Except.bind_eq_ok_iff.mpr ⟨as, hrest, rfl⟩⟩

theorem readList_of_spelled {read : Spot → Document → Read α} {spells : α → Json → Prop}
    {spelled : List Json → Prop} {as : List α}
    (h : ∀ ws, spelled ws → List.Forall₂ spells as ws)
    (hread : ∀ a ∈ as, ∀ w, spells a w → read ⟨.buffered, place⟩ w.toDocument = .ok a) (v : Json)
    (hv : ∃ ws, v = .array ws ∧ spelled ws) :
    readList read ⟨.buffered, place⟩ v.toDocument = .ok as := by
  obtain ⟨ws, rfl, hws⟩ := hv
  exact Except.bind_eq_ok_iff.mpr ⟨as, readItems_of_forall₂ (h ws hws) hread 0, rfl⟩

theorem readName_of_spelled {name : Option String} {v : Json}
    (h : v = name.elim .null .string) (spot : Spot) :
    readOption readString spot v.toDocument = .ok name := by
  subst h
  cases name <;> rfl

end Reading

section
variable {place : Place}

theorem Constant.read_toJson (c : Constant) :
    Constant.read ⟨.buffered, place⟩ c.toJson.toDocument = .ok c := by
  cases c <;> rfl

namespace Member

def fill (m : Member) (key : String) (state : Member) : Member :=
  if key = "name" then { state with name := m.name }
  else { state with initializer := m.initializer }

theorem fills (m : Member) : Layout.Fills m.fill where
  again key state := by unfold fill; split <;> rfl
  swap key key' state := by unfold fill; split <;> split <;> rfl

theorem hasSlots (m : Member) : layout.HasSlots m.slots where
  names := rfl
  required := by simp [slots, Slot.needed, layout]

theorem enters (m : Member) :
    ∀ slot ∈ m.slots, Layout.Enters readField ⟨.buffered, place⟩ m.fill slot := by
  simp only [slots, List.forall_mem_cons]
  refine ⟨?_, ?_, by simp⟩
  · rintro _ state rfl
    rfl
  · rintro v state ⟨hv, hdistinct⟩
    have hread : readJson ⟨.buffered, place⟩ v.toDocument = .ok v := by
      simp [readJson, Json.value?_toDocument, Json.plain_of_hasDistinctKeys hdistinct, pure,
        Except.pure]
    simp [readField, fill, hread, hv, bind, Except.bind, pure, Except.pure]

theorem read_of_spells {m : Member} {w : Json} (h : SpellsRecord m.slots w) :
    Member.read ⟨.buffered, place⟩ w.toDocument = .ok m := by
  refine Layout.read_of_spells m.fills m.hasSlots m.enters ?_ ?_ h
  · simp [slots, Slot.needed, fill]
  · rintro ⟨name, initializer⟩ hstate
    obtain ⟨rfl, rfl⟩ : m.name = name ∧ m.initializer = initializer := by
      simpa [slots, fill, Slot.needed] using hstate
    rfl

end Member

namespace Enumeration

def fill (e : Enumeration) (key : String) (state : Enumeration) : Enumeration :=
  if key = "name" then { state with name := e.name } else { state with members := e.members }

theorem fills (e : Enumeration) : Layout.Fills e.fill where
  again key state := by unfold fill; split <;> rfl
  swap key key' state := by unfold fill; split <;> split <;> rfl

theorem hasSlots (e : Enumeration) : layout.HasSlots e.slots where
  names := rfl
  required := by simp [slots, Slot.ofName, Slot.ofList, layout]

theorem enters (e : Enumeration) :
    ∀ slot ∈ e.slots, Layout.Enters readField ⟨.buffered, place⟩ e.fill slot := by
  simp only [slots, List.forall_mem_cons]
  refine ⟨?_, ?_, by simp⟩
  · have htakes : Layout.Takes readField ⟨.buffered, place⟩ "name"
        (readOption readString ⟨.buffered, place⟩) fun e name => { e with name := name } :=
      fun _ _ => rfl
    exact htakes.enters (fun v hv => readName_of_spelled hv _) fun _ => rfl
  · have htakes : Layout.Takes readField ⟨.buffered, place⟩ "members"
        (readList Member.read ⟨.buffered, place⟩) fun e members => { e with members := members } :=
      fun _ _ => rfl
    have hread := @readList_of_spelled _ place Member.read _ _ e.members (fun _ h => h)
      fun m _ w hw => Member.read_of_spells hw
    exact htakes.enters hread fun _ => rfl

theorem read_of_spells {e : Enumeration} {w : Json} (h : SpellsRecord e.slots w) :
    Enumeration.read ⟨.buffered, place⟩ w.toDocument = .ok e := by
  refine Layout.read_of_spells e.fills e.hasSlots e.enters ?_ ?_ h
  · simp only [slots, List.forall_mem_cons]
    exact ⟨fun hname => by simp [Slot.ofName, fill, show e.name = none from hname], False.elim,
      by simp⟩
  · rintro ⟨name, members⟩ hstate
    obtain ⟨rfl, rfl⟩ : e.name = name ∧ e.members = members := by
      simpa [slots, fill, Slot.ofName, Slot.ofList] using hstate
    rfl

end Enumeration

section
variable {readInner : Spot → Document → Read Descriptor}

namespace Field

def Written.fill (written : Written) (key : String) (state : Written) : Written :=
  if key = "name" then { state with name := written.name }
  else if key = "optional" then { state with optional := written.optional }
  else if key = "type" then { state with first := written.first }
  else { state with others := written.others }

theorem Written.fills (written : Written) : Layout.Fills written.fill where
  again key state := by unfold fill; split_ifs <;> rfl
  swap key key' state := by unfold fill; split_ifs <;> rfl

section
variable {written : Written} {first others : Json → Prop} {noFirst noOthers : Prop}

theorem Written.enters
    (hfirst : ∀ v, first v →
      readOption readInner ⟨.buffered, place⟩ v.toDocument = .ok written.first)
    (hothers : ∀ v, others v →
      readList readInner ⟨.buffered, place⟩ v.toDocument = .ok written.others) :
    ∀ slot ∈ slots written.name written.optional ⟨"type", first, noFirst⟩
      ⟨"declarations", others, noOthers⟩,
      Layout.Enters (readField readInner) ⟨.buffered, place⟩ written.fill slot := by
  simp only [slots, List.forall_mem_cons]
  refine ⟨?_, ?_, ?_, ?_, by simp⟩
  · rintro _ state rfl
    rfl
  · rintro _ state rfl
    rfl
  · have htakes : Layout.Takes (readField readInner) ⟨.buffered, place⟩ "type"
        (readOption readInner ⟨.buffered, place⟩) fun w first => { w with first := first } :=
      fun _ _ => rfl
    exact htakes.enters hfirst fun _ => rfl
  · have htakes : Layout.Takes (readField readInner) ⟨.buffered, place⟩ "declarations"
        (readList readInner ⟨.buffered, place⟩) fun w others => { w with others := others } :=
      fun _ _ => rfl
    exact htakes.enters hothers fun _ => rfl

theorem readWith_of_spells
    (hfirst : ∀ v, first v →
      readOption readInner ⟨.buffered, place⟩ v.toDocument = .ok written.first)
    (hothers : ∀ v, others v →
      readList readInner ⟨.buffered, place⟩ v.toDocument = .ok written.others)
    (hnoFirst : noFirst → written.first = none) (hnoOthers : noOthers → written.others = [])
    {w : Json}
    (h : SpellsRecord (slots written.name written.optional ⟨"type", first, noFirst⟩
      ⟨"declarations", others, noOthers⟩) w) :
    readWith readInner ⟨.buffered, place⟩ w.toDocument = .ok written.field := by
  have hslots : layout.HasSlots (slots written.name written.optional ⟨"type", first, noFirst⟩
      ⟨"declarations", others, noOthers⟩) :=
    ⟨rfl, by simp [slots, Slot.needed, layout]⟩
  have hread : layout.read (readField readInner) {} ⟨.buffered, place⟩ w.toDocument =
      .ok written := by
    refine Layout.read_of_spells written.fills hslots (written.enters hfirst hothers) ?_ ?_ h
    · simp only [slots, List.forall_mem_cons]
      refine ⟨False.elim, fun hoptional => ?_, fun h => ?_, fun h => ?_, by simp⟩
      · simp [Written.fill, show written.optional = false from hoptional]
      · simp [Written.fill, hnoFirst h]
      · simp [Written.fill, hnoOthers h]
    · rintro ⟨name, optional, first, others⟩ hstate
      obtain ⟨rfl, rfl, rfl, rfl⟩ : written.name = name ∧ written.optional = optional ∧
          written.first = first ∧ written.others = others := by
        simpa [slots, Written.fill, Slot.needed] using hstate
      rfl
  rw [readWith, hread]
  rfl

end

end Field

namespace Shape

def fill (s : Shape) (key : String) (state : Shape) : Shape :=
  if key = "name" then { state with name := s.name } else { state with fields := s.fields }

theorem fills (s : Shape) : Layout.Fills s.fill where
  again key state := by unfold fill; split <;> rfl
  swap key key' state := by unfold fill; split <;> split <;> rfl

theorem readWith_of_spells {name : Option String} {fields : List Field} {spells : List Json → Prop}
    (hfields : ∀ v : Json, (∃ ws, v = .array ws ∧ spells ws) →
      readList (Field.readWith readInner) ⟨.buffered, place⟩ v.toDocument = .ok fields) {w : Json}
    (h : SpellsRecord [.ofName name, .ofList "fields" spells (fields = [])] w) :
    readWith readInner ⟨.buffered, place⟩ w.toDocument = .ok ⟨name, fields⟩ := by
  have hslots : layout.HasSlots [.ofName name, .ofList "fields" spells (fields = [])] :=
    ⟨rfl, by simp [Slot.ofName, Slot.ofList, layout]⟩
  refine Layout.read_of_spells (fills ⟨name, fields⟩) hslots ?_ ?_ ?_ h
  · simp only [List.forall_mem_cons]
    refine ⟨?_, ?_, by simp⟩
    · have htakes : Layout.Takes (readField readInner) ⟨.buffered, place⟩ "name"
          (readOption readString ⟨.buffered, place⟩) fun s name => { s with name := name } :=
        fun _ _ => rfl
      exact htakes.enters (fun v hv => readName_of_spelled hv _) fun _ => rfl
    · have htakes : Layout.Takes (readField readInner) ⟨.buffered, place⟩ "fields"
          (readList (Field.readWith readInner) ⟨.buffered, place⟩)
          fun s fields => { s with fields := fields } := fun _ _ => rfl
      exact htakes.enters hfields fun _ => rfl
  · simp only [List.forall_mem_cons]
    refine ⟨fun hname => ?_, fun hnil => ?_, by simp⟩
    · simp [Slot.ofName, fill, show name = none from hname]
    · simp [Slot.ofList, fill, show fields = [] from hnil]
  · rintro ⟨name', fields'⟩ hstate
    obtain ⟨rfl, rfl⟩ : name = name' ∧ fields = fields' := by
      simpa [fill, Slot.ofName, Slot.ofList] using hstate
    rfl

end Shape

end

namespace Descriptor

theorem readSingle_of_spells {α : Type} {read : Spot → Document → Read α} {slot : Slot} {a : α}
    (hread : ∀ v, slot.spelled v → read ⟨.buffered, place⟩ v.toDocument = .ok a)
    (hneeded : ¬ slot.omissible) {w : Json} (h : SpellsRecord [slot] w) (noun : String) :
    readSingle noun slot.name read ⟨.buffered, place⟩ w.toDocument = .ok a := by
  have hfills : Layout.Fills fun (_ : String) (_ : Option α) => some a :=
    ⟨fun _ _ => rfl, fun _ _ _ => rfl⟩
  have hslots : Layout.HasSlots
      ⟨"struct variant TypeDescriptor::" ++ noun, [(slot.name, true)]⟩ [slot] :=
    ⟨rfl, by simp [hneeded]⟩
  have hlayout : Layout.read ⟨"struct variant TypeDescriptor::" ++ noun, [(slot.name, true)]⟩
      (fun _ spot doc _ => some <$> read spot doc) none ⟨.buffered, place⟩ w.toDocument =
        .ok (some a) := by
    refine Layout.read_of_spells hfills hslots ?_ (by simp [hneeded]) (by simp [eq_comm]) h
    simp only [List.forall_mem_singleton]
    exact fun v _ hv => congrArg (some <$> ·) (hread v hv)
  simp [readSingle, hlayout, bind, Except.bind, pure, Except.pure]

theorem readNothing_of_spells {w : Json} (h : SpellsRecord [] w) :
    readNothing ⟨.buffered, place⟩ w.toDocument = .ok () :=
  Layout.read_of_spells ⟨fun _ _ => rfl, fun _ _ _ => rfl⟩ ⟨rfl, by simp⟩ (by simp) (by simp)
    (by simp) h

theorem readTag_of_not_mem {spot : Spot} (hspot : spot.route ≠ .text)
    {entries : List (String × Json)} (h : "kind" ∉ Keyed.keys entries) (form : Option Form) :
    readTag spot (Json.toEntries entries) form = .ok form := by
  induction entries with
  | nil => rfl
  | cons e rest ih =>
    obtain ⟨hkey, hrest⟩ := not_or.mp (mt List.mem_cons.mpr h)
    rw [Json.toEntries, readTag_cons_of_ne hspot (Ne.symm hkey)]
    exact ih hrest

theorem readTag_of_mem {spot : Spot} (hspot : spot.route ≠ .text) {kind : String} {form : Form}
    (hform : Form.choices.lookup kind = some form) {entries : List (String × Json)}
    (hdistinct : (Keyed.keys entries).Nodup) (h : ("kind", .string kind) ∈ entries) :
    readTag spot (Json.toEntries entries) none = .ok (some form) := by
  induction entries with
  | nil => cases h
  | cons e rest ih =>
    obtain ⟨hkey, hrest⟩ : e.1 ∉ Keyed.keys rest ∧ (Keyed.keys rest).Nodup :=
      List.nodup_cons.mp hdistinct
    rcases List.mem_cons.mp h with rfl | h
    · have hvariant : readVariant Form.choices (spot.inside (.key "kind")) (.string (some kind)) =
          .ok form := by simp [readVariant, hform, pure, Except.pure]
      have hrest := readTag_of_not_mem hspot hkey (some form)
      simp only [Json.toEntries, Json.toDocument, readTag, if_pos, hvariant]
      exact hrest
    · have hne : e.1 ≠ "kind" := fun heq => hkey (heq ▸ List.mem_map_of_mem h)
      rw [Json.toEntries, readTag_cons_of_ne hspot hne]
      exact ih hrest h

/-- The kind is found wherever it stands, and the rest is the content. -/
theorem readTagged_of_spells {kind : String} {form : Form} {slots : List Slot} {w : Json}
    (hform : Form.choices.lookup kind = some form) (h : SpellsTagged kind slots w) {spot : Spot}
    (hspot : spot.route ≠ .text) :
    ∃ content : Json, readTagged spot w.toDocument = .ok (form, content.toDocument) ∧
      SpellsRecord slots content := by
  cases h with
  | @byKey entries hkind h =>
    have htag := readTag_of_mem hspot hform h.distinct hkind
    exact ⟨.object entries, readTagged_eq_ok_iff.mpr (.inl ⟨_, rfl, rfl, htag⟩), .byKey h⟩
  | @byPosition items h =>
    have hkind : readVariant Form.choices (spot.inside (.index 0)) (.string (some kind)) =
        .ok form := by simp [readVariant, hform, pure, Except.pure]
    have haside := Spot.forM_setAside_of_ne_text hspot (Json.toDocuments items)
    exact ⟨.array items, readTagged_eq_ok_iff.mpr (.inr ⟨_, _, rfl, rfl, hkind, haside⟩),
      .byPosition h⟩

theorem read_of_content {kind : String} {form : Form} {slots : List Slot} {w : Json}
    {d : Descriptor} (hform : Form.choices.lookup kind = some form) (h : SpellsTagged kind slots w)
    {spot : Spot} (hspot : spot.route ≠ .text)
    (hcontent : ∀ content : Json, SpellsRecord slots content →
      readContent read spot.buffered content.toDocument form = .ok d) :
    read spot w.toDocument = .ok d := by
  obtain ⟨content, htagged, hrecord⟩ := readTagged_of_spells hform h hspot
  rw [read_eq]
  exact Except.bind_eq_ok_iff.mpr ⟨_, htagged, hcontent content hrecord⟩

/-- A descriptor that is read back from any way to write it, inside another one. -/
def ReadsBack (place : Place) (d : Descriptor) : Prop :=
  ∀ w, d.Spells w → read ⟨.buffered, place⟩ w.toDocument = .ok d

theorem readDescriptors_of_spells {name : String} {ds : List Descriptor}
    (hds : ∀ d ∈ ds, ReadsBack place d) {w : Json}
    (h : SpellsRecord [.ofList name (SpellsList ds) False] w) (noun : String) :
    readSingle noun name (readList read) ⟨.buffered, place⟩ w.toDocument = .ok ds := by
  have hread := readList_of_spelled (fun _ => spellsList_iff_forall₂.mp) hds
  exact readSingle_of_spells hread id h noun

theorem read_null_ne_ok (spot : Spot) (d : Descriptor) : read spot .null ≠ .ok d := by
  rw [read_eq, Ne, Except.bind_eq_ok_iff]
  rintro ⟨tagged, htag, -⟩
  exact spot.wrongType_ne_ok .descriptor .null tagged htag

theorem readField_of_spells {f : Field} (hf : ∀ d ∈ f.declarations, ReadsBack place d) {w : Json}
    (h : SpellsField f w) : Field.readWith read ⟨.buffered, place⟩ w.toDocument = .ok f := by
  obtain ⟨name, optional, declarations⟩ := f
  have hothers {ds : List Descriptor} (hds : ∀ d ∈ ds, ReadsBack place d) :=
    readList_of_spelled (fun _ => spellsList_iff_forall₂.mp) hds
  rcases h with h | h
  · exact @Field.readWith_of_spells place read ⟨name, optional, none, declarations⟩ _ _ _ _
      (by rintro _ rfl; rfl) (hothers hf) (fun _ => rfl) id _ h
  · cases declarations with
    | nil => exact h.elim
    | cons d ds =>
      obtain ⟨hd, hds⟩ := List.forall_mem_cons.mp hf
      refine @Field.readWith_of_spells place read ⟨name, optional, some d, ds⟩ _ _ _ _
        (fun v hv => ?_) (hothers hds) False.elim id _ h
      have hread := hd v hv
      cases v with
      | null => exact absurd hread (read_null_ne_ok _ d)
      | _ => exact congrArg (some <$> ·) hread

/-- A descriptor is read back from any way to write it. -/
theorem read_of_spells {d : Descriptor} {w : Json} (h : d.Spells w) {spot : Spot}
    (hspot : spot.route ≠ .text) : read spot w.toDocument = .ok d := by
  induction d generalizing w spot with
  | primitive kind =>
    refine read_of_content rfl h hspot fun content hrecord => ?_
    have hread := @readSingle_of_spells spot.place _ Primitive.read _ kind
      (by rintro _ rfl; cases kind <;> rfl) id _ hrecord "Primitive"
    exact congrArg (primitive <$> ·) hread
  | literal c =>
    refine read_of_content rfl h hspot fun content hrecord => ?_
    have hread := @readSingle_of_spells spot.place _ Constant.read _ c
      (by rintro _ rfl; exact c.read_toJson) id _ hrecord "Literal"
    exact congrArg (literal <$> ·) hread
  | null =>
    refine read_of_content rfl h hspot fun content hrecord => ?_
    exact congrArg ((fun _ => null) <$> ·) (readNothing_of_spells hrecord)
  | wildcard =>
    refine read_of_content rfl h hspot fun content hrecord => ?_
    exact congrArg ((fun _ => wildcard) <$> ·) (readNothing_of_spells hrecord)
  | object name fields ih =>
    refine read_of_content rfl h hspot fun content hrecord => ?_
    have hread : Shape.readWith read spot.buffered content.toDocument = .ok ⟨name, fields⟩ := by
      refine Shape.readWith_of_spells ?_ hrecord
      exact readList_of_spelled (fun _ => spellsFields_iff_forall₂.mp) fun f hf w hw =>
        readField_of_spells (fun d hd v hv => ih f hf d hd hv (by simp)) hw
    exact congrArg (object <$> ·) hread
  | array element ih =>
    refine read_of_content rfl h hspot fun content hrecord => ?_
    have hread := @readSingle_of_spells spot.place _ read _ element
      (fun v hv => ih hv (by simp)) id _ hrecord "Array"
    exact congrArg (array <$> ·) hread
  | tuple elements ih =>
    refine read_of_content rfl h hspot fun content hrecord => ?_
    have hread := @readDescriptors_of_spells spot.place _ _
      (fun d hd v hv => ih d hd hv (by simp)) _ hrecord "Tuple"
    exact congrArg (tuple <$> ·) hread
  | union members ih =>
    refine read_of_content rfl h hspot fun content hrecord => ?_
    have hread := @readDescriptors_of_spells spot.place _ _
      (fun d hd v hv => ih d hd hv (by simp)) _ hrecord "Union"
    exact congrArg (union <$> ·) hread
  | enumeration e =>
    refine read_of_content rfl h hspot fun content hrecord => ?_
    exact congrArg (enumeration <$> ·) (Enumeration.read_of_spells hrecord)
  | unsupported spelling =>
    refine read_of_content rfl h hspot fun content hrecord => ?_
    have hread := @readSingle_of_spells spot.place _ readString _ spelling
      (by rintro _ rfl; rfl) id _ hrecord "Unsupported"
    exact congrArg (unsupported <$> ·) hread

/-- Decoding undoes every encoding: a value that spells a descriptor is read as that descriptor. -/
theorem ofJson_of_spells {d : Descriptor} {w : Json} (h : d.Spells w) : ofJson w = .ok d :=
  read_of_spells h (by simp)

/-- A field whose first declaration stands apart, as an array, and the other one in the list, as an
object; both records have their keys out of order, and the initializer of the member is a null. -/
theorem ofJson_of_spells_mixedForms :
    let enumeration : Json := .object
      [("members", .array [.array [.string "A", .null]]), ("kind", .string "enum"),
        ("name", .null)]
    let field : Json := .object
      [("type", .array [.string "null"]), ("declarations", .array [enumeration]),
        ("note", .bool true), ("optional", .bool true), ("name", .string "a")]
    let w : Json := .object [("fields", .array [field]), ("kind", .string "object")]
    let d : Descriptor := .object
      ⟨none, [⟨"a", true, [.null, .enumeration ⟨none, [⟨"A", some .null⟩]⟩]⟩]⟩
    d.Spells w ∧ ofJson w = .ok d := by
  intro enumeration field w d
  have hnull : Spells .null (.array [.string "null"]) := .byPosition (.ended (by simp))
  have hmember : SpellsRecord (Member.slots ⟨"A", some .null⟩) (.array [.string "A", .null]) :=
    .byPosition (.next rfl (.next ⟨rfl, rfl⟩ (.ended (by simp))))
  have henumeration : Spells (.enumeration ⟨none, [⟨"A", some .null⟩]⟩) enumeration := by
    refine .byKey (by simp) ⟨by decide, ?_, ?_⟩
    · simp [Enumeration.slots, Slot.ofName, Slot.ofList, hmember]
    · simp [Enumeration.slots, Slot.ofName, Slot.ofList, Keyed.keys]
  have hfield : SpellsField
      ⟨"a", true, [.null, .enumeration ⟨none, [⟨"A", some .null⟩]⟩]⟩ field := by
    refine .inr (.byKey ⟨by decide, ?_, ?_⟩)
    · simp [Field.slots, Slot.needed, Slot.ofList, SpellsList, hnull, henumeration]
    · simp [Field.slots, Slot.needed, Slot.ofList, Keyed.keys]
  have hspells : d.Spells w := by
    refine .byKey (by simp) ⟨by decide, ?_, ?_⟩
    · simp [Slot.ofName, Slot.ofList, SpellsFields, hfield]
    · simp [Slot.ofName, Slot.ofList, Keyed.keys]
  exact ⟨hspells, ofJson_of_spells hspells⟩

end Descriptor

end

end TypeSchema
