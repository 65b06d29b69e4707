import TypeSchema.Descriptor.Form
import TypeSchema.Proofs.Except

/-!
How a descriptor is read. Its kind and content come first, and the bound on its levels is never
reached: a reader of a composite looks only into its parts, which are nested less, so that reading a
descriptor is reading its content with the same reader.
-/
namespace TypeSchema

namespace Reading

theorem Spot.wrongType_ne_ok {α : Type} (spot : Spot) (wanted : Wanted) (doc : Document) (a : α) :
    spot.wrongType wanted doc ≠ .ok a := by
  unfold wrongType
  split <;> simp [fail]

/-! Beside a text nothing that is passed over or set aside can be faulty. -/

theorem Spot.skip_of_ne_text {spot : Spot} (h : spot.route ≠ .text) (doc : Document) :
    spot.skip doc = .ok () := by
  simp [skip, h, pure, Except.pure]

theorem Spot.setAside_of_ne_text {spot : Spot} (h : spot.route ≠ .text) (doc : Document) :
    spot.setAside doc = .ok () := by
  simp [setAside, h, pure, Except.pure]

theorem Spot.forM_setAside_of_ne_text {spot : Spot} (h : spot.route ≠ .text)
    (docs : List Document) : docs.forM spot.setAside = .ok () := by
  induction docs with
  | nil => rfl
  | cons doc docs ih =>
    rw [List.forM, Spot.setAside_of_ne_text h doc]
    exact ih

theorem requireClosed_eq_ok_iff {closed : Bool} {u : Unit} :
    requireClosed closed = .ok u ↔ closed = true := by
  cases closed <;> simp [requireClosed, pure, Except.pure]

end Reading

namespace Document

theorem nesting_le_nestingItems {x : Document} {xs : List Document} (h : x ∈ xs) :
    x.nesting ≤ nestingItems xs := by
  induction xs with
  | nil => simp at h
  | cons y ys ih =>
    rw [nestingItems]
    rcases List.mem_cons.mp h with rfl | h
    · exact Nat.le_max_left ..
    · exact Nat.le_trans (ih h) (Nat.le_max_right ..)

theorem nesting_le_nestingEntries {e : Document × Document} {es : List (Document × Document)}
    (h : e ∈ es) : e.2.nesting ≤ nestingEntries es := by
  induction es with
  | nil => simp at h
  | cons f fs ih =>
    obtain ⟨k, v⟩ := f
    rw [nestingEntries]
    rcases List.mem_cons.mp h with rfl | h
    · exact Nat.le_trans (Nat.le_max_right ..) (Nat.le_max_left ..)
    · exact Nat.le_trans (ih h) (Nat.le_max_right ..)

theorem nesting_lt_of_array {n : Nat} {xs : List Document} {closed : Bool}
    (h : (array xs closed).nesting < n + 1) : ∀ x ∈ xs, x.nesting < n := by
  intro x hx
  exact Nat.lt_of_le_of_lt (nesting_le_nestingItems hx) (Nat.lt_of_succ_lt_succ h)

theorem nesting_lt_of_object {n : Nat} {es : List (Document × Document)} {closed : Bool}
    (h : (object es closed).nesting < n + 1) : ∀ e ∈ es, e.2.nesting < n := by
  intro e he
  exact Nat.lt_of_le_of_lt (nesting_le_nestingEntries he) (Nat.lt_of_succ_lt_succ h)

end Document

namespace Reading

section
variable {α : Type} {n : Nat}

/-- Two readers that cannot be told apart by documents of less than a nesting. -/
def AgreeBelow (n : Nat) (read read' : Spot → Document → Read α) : Prop :=
  ∀ spot doc, doc.nesting < n → read spot doc = read' spot doc

theorem AgreeBelow.mono {m : Nat} {read read' : Spot → Document → Read α}
    (h : AgreeBelow n read read') (hle : m ≤ n) : AgreeBelow m read read' :=
  fun spot doc hdoc => h spot doc (Nat.lt_of_lt_of_le hdoc hle)

theorem AgreeBelow.map {β : Type} {read read' : Spot → Document → Read α} (f : α → β)
    (h : AgreeBelow n read read') :
    AgreeBelow n (fun spot doc => f <$> read spot doc) (fun spot doc => f <$> read' spot doc) :=
  fun spot doc hdoc => congrArg (f <$> ·) (h spot doc hdoc)

theorem AgreeBelow.option {read read' : Spot → Document → Read α} (h : AgreeBelow n read read') :
    AgreeBelow n (readOption read) (readOption read') := by
  intro spot doc hdoc
  cases doc with
  | null => rfl
  | _ => exact congrArg (some <$> ·) (h spot _ hdoc)

theorem AgreeBelow.items {read read' : Spot → Document → Read α} (h : AgreeBelow n read read')
    (spot : Spot) (i : Nat) {docs : List Document} (hdocs : ∀ doc ∈ docs, doc.nesting < n) :
    readItems read spot i docs = readItems read' spot i docs := by
  induction docs generalizing i with
  | nil => rfl
  | cons doc docs ih =>
    have hdoc := h (spot.inside (.index i)) doc (hdocs doc (by simp))
    have hrest := ih (i + 1) fun d hd => hdocs d (by simp [hd])
    rw [readItems, readItems, hdoc, hrest]

theorem AgreeBelow.list {read read' : Spot → Document → Read α} (h : AgreeBelow n read read') :
    AgreeBelow (n + 1) (readList read) (readList read') := by
  intro spot doc hdoc
  cases doc with
  | array docs closed =>
    rw [readList, readList, h.items spot 0 (Document.nesting_lt_of_array hdoc)]
  | _ => rfl

end

namespace Layout

variable {σ : Type} {n : Nat} {step step' : String → Spot → Document → σ → Read σ}

/-- The step for a key enters what another reader makes of the document there. -/
def Takes {β : Type} (step : String → Spot → Document → σ → Read σ) (spot : Spot) (key : String)
    (inner : Document → Read β) (enter : σ → β → σ) : Prop :=
  ∀ doc state, step key spot doc state = enter state <$> inner doc

theorem readEntries_of_known {layout : Layout} {key : String} {seen : List String}
    (hknown : key ∈ layout.names) (hnew : key ∉ seen) (spot : Spot) (doc : Document)
    (rest : List (Document × Document)) (state : σ) :
    layout.readEntries step spot ((.string (some key), doc) :: rest) seen state =
      step key (spot.inside (.key key)) doc state >>= fun state =>
        layout.readEntries step spot rest (key :: seen) state := by
  simp [readEntries, hknown, hnew]

theorem readEntries_of_unknown {layout : Layout} {key : String} (hunknown : key ∉ layout.names)
    {spot : Spot} (hspot : spot.route ≠ .text) (doc : Document)
    (rest : List (Document × Document)) (seen : List String) (state : σ) :
    layout.readEntries step spot ((.string (some key), doc) :: rest) seen state =
      layout.readEntries step spot rest seen state := by
  simp [readEntries, hunknown, spot.skip_of_ne_text hspot, bind, Except.bind]

theorem readEntries_congr (layout : Layout) (spot : Spot) {entries : List (Document × Document)}
    (h : ∀ key state, AgreeBelow n (step key · · state) (step' key · · state))
    (hentries : ∀ e ∈ entries, e.2.nesting < n) (seen : List String) (state : σ) :
    layout.readEntries step spot entries seen state =
      layout.readEntries step' spot entries seen state := by
  induction entries generalizing seen state with
  | nil => rfl
  | cons e rest ih =>
    obtain ⟨key, doc⟩ := e
    have hrest := ih fun f hf => hentries f (by simp [hf])
    match key with
    | .string (some key) =>
      have hdoc := h key state (spot.inside (.key key)) doc (hentries _ (List.mem_cons_self ..))
      simp only [readEntries, hdoc, hrest]
    | .string none | .null | .bool _ | .number _ | .array _ _ | .object _ _ | .fault => rfl

theorem readFields_congr (spot : Spot) {docs : List Document}
    (h : ∀ key state, AgreeBelow n (step key · · state) (step' key · · state))
    (hdocs : ∀ doc ∈ docs, doc.nesting < n) (i : Nat) (names : List String) (state : σ) :
    readFields step spot i names docs state = readFields step' spot i names docs state := by
  induction docs generalizing i names state with
  | nil => cases names <;> rfl
  | cons doc docs ih =>
    cases names with
    | nil => rfl
    | cons name names =>
      have hdoc := h name state (spot.inside (.index i)) doc (hdocs doc (by simp))
      simp only [readFields, hdoc, ih fun d hd => hdocs d (by simp [hd])]

/-- Records are read alike when their fields are. -/
theorem agreeBelow_read (layout : Layout)
    (h : ∀ key state, AgreeBelow n (step key · · state) (step' key · · state)) (state : σ) :
    AgreeBelow (n + 1) (layout.read step state) (layout.read step' state) := by
  intro spot doc hdoc
  cases doc with
  | object entries closed =>
    rw [read, read, layout.readEntries_congr spot h (Document.nesting_lt_of_object hdoc)]
  | array docs closed =>
    rw [read, read, readFields_congr spot h (Document.nesting_lt_of_array hdoc)]
  | _ => rfl

end Layout

end Reading

open Reading

section
variable {n : Nat} {f g : Spot → Document → Read Descriptor}

theorem Field.agreeBelow_readWith (h : AgreeBelow n f g) :
    AgreeBelow (n + 1) (Field.readWith f) (Field.readWith g) := by
  refine AgreeBelow.map _ (Layout.agreeBelow_read _ (fun key w => ?_) _)
  intro spot doc hdoc
  have hfirst := h.option spot doc hdoc
  have hothers := h.list spot doc (Nat.lt_succ_of_lt hdoc)
  simp only [readField, hfirst, hothers]

theorem Shape.agreeBelow_readWith (h : AgreeBelow n f g) :
    AgreeBelow (n + 1) (Shape.readWith f) (Shape.readWith g) := by
  refine Layout.agreeBelow_read _ (fun key s => ?_) _
  intro spot doc hdoc
  have hfields := (Field.agreeBelow_readWith h).list spot doc (by omega)
  simp only [readField, hfields]

namespace Descriptor

theorem agreeBelow_readSingle {α : Type} {read read' : Spot → Document → Read α}
    (h : AgreeBelow n read read') (noun name : String) :
    AgreeBelow (n + 1) (readSingle noun name read) (readSingle noun name read') := by
  intro spot content hcontent
  have hlayout := Layout.agreeBelow_read
    ⟨"struct variant TypeDescriptor::" ++ noun, [(name, true)]⟩
    (fun _ _ => AgreeBelow.map some h) (none : Option α) spot content hcontent
  simp only [readSingle, hlayout]

theorem readContent_congr (h : AgreeBelow n f g) {content : Document}
    (hcontent : content.nesting < n + 1) (spot : Spot) (form : Form) :
    readContent f spot content form = readContent g spot content form := by
  have hlist := agreeBelow_readSingle (h.list.mono (Nat.le_succ n))
  cases form with
  | object => rw [readContent, readContent, Shape.agreeBelow_readWith h spot content hcontent]
  | array =>
    rw [readContent, readContent, agreeBelow_readSingle h "Array" "element" spot content hcontent]
  | tuple => rw [readContent, readContent, hlist "Tuple" "elements" spot content hcontent]
  | union => rw [readContent, readContent, hlist "Union" "members" spot content hcontent]
  | _ => rfl

/-- Beside a text what stands under other keys has no say in the kind. -/
theorem readTag_cons_of_ne {spot : Spot} (hspot : spot.route ≠ .text) {key : String}
    (hkey : key ≠ "kind") (doc : Document) (rest : List (Document × Document))
    (found : Option Form) :
    readTag spot ((.string (some key), doc) :: rest) found = readTag spot rest found := by
  simp only [readTag, if_neg hkey, spot.setAside_of_ne_text hspot]
  rfl

/-- The two written forms of a descriptor. -/
theorem readTagged_eq_ok_iff {spot : Spot} {doc content : Document} {form : Form} :
    readTagged spot doc = .ok (form, content) ↔
      (∃ entries, doc = .object entries true ∧ content = .object entries true ∧
        readTag spot entries none = .ok (some form)) ∨
      ∃ kind rest, doc = .array (kind :: rest) true ∧ content = .array rest true ∧
        readVariant Form.choices (spot.inside (.index 0)) kind = .ok form ∧
        rest.forM spot.setAside = .ok () := by
  cases doc with
  | object entries closed =>
    simp only [readTagged, Except.bind_eq_ok_iff, requireClosed_eq_ok_iff, Document.object.injEq]
    constructor
    · rintro ⟨found, htag, _, rfl, h⟩
      cases found with
      | none => simp [Spot.fail] at h
      | some found =>
        obtain ⟨rfl, rfl⟩ : found = form ∧ .object entries true = content := by
          simpa [pure, Except.pure] using h
        exact .inl ⟨entries, ⟨rfl, rfl⟩, rfl, htag⟩
    · rintro (⟨_, ⟨rfl, rfl⟩, rfl, htag⟩ | ⟨_, _, h, _⟩)
      · exact ⟨_, htag, (), rfl, rfl⟩
      · cases h
  | array items closed =>
    cases items with
    | nil => simp [readTagged, Except.bind_eq_ok_iff, Spot.fail]
    | cons kind rest =>
      simp only [readTagged, Except.bind_eq_ok_iff, requireClosed_eq_ok_iff, Document.array.injEq]
      constructor
      · rintro ⟨found, hkind, ⟨⟩, hrest, _, rfl, h⟩
        obtain ⟨rfl, rfl⟩ : found = form ∧ .array rest true = content := by
          simpa [pure, Except.pure] using h
        exact .inr ⟨kind, rest, ⟨rfl, rfl⟩, rfl, hkind, hrest⟩
      · rintro (⟨_, h, _⟩ | ⟨_, _, ⟨h, rfl⟩, rfl, hkind, hrest⟩)
        · cases h
        · cases h
          exact ⟨_, hkind, (), hrest, (), rfl, rfl⟩
  | _ => simp [readTagged, Spot.wrongType_ne_ok]

/-- The content of a descriptor is not nested more than the descriptor. -/
theorem nesting_of_readTagged {spot : Spot} {doc content : Document} {form : Form}
    (h : readTagged spot doc = .ok (form, content)) : content.nesting ≤ doc.nesting := by
  rcases readTagged_eq_ok_iff.mp h with ⟨entries, rfl, rfl, -⟩ | ⟨kind, rest, rfl, rfl, -, -⟩
  · exact Nat.le_refl _
  · simp only [Document.nesting, Document.nestingItems]
    omega

theorem readWithin_stable {n m : Nat} {doc : Document} (hn : doc.nesting < n)
    (hm : doc.nesting < m) (spot : Spot) : readWithin n spot doc = readWithin m spot doc := by
  induction n generalizing m doc spot with
  | zero => exact absurd hn (Nat.not_lt_zero _)
  | succ n ih =>
    obtain ⟨m, rfl⟩ := Nat.exists_eq_succ_of_ne_zero (Nat.ne_zero_of_lt hm)
    simp only [readWithin, bind, Except.bind]
    cases htag : readTagged spot doc with
    | error e => rfl
    | ok tagged =>
      obtain ⟨form, content⟩ := tagged
      have hcontent := nesting_of_readTagged htag
      have hinner : AgreeBelow doc.nesting (readWithin n) (readWithin m) :=
        fun spot d hd => ih (by omega) (by omega) spot
      exact readContent_congr hinner (Nat.lt_succ_of_le hcontent) spot.buffered form

end Descriptor

end

/-- A descriptor is read by reading its content, the descriptors in it by the same reader. -/
theorem Descriptor.read_eq (spot : Spot) (doc : Document) :
    read spot doc = readTagged spot doc >>= fun (form, content) =>
      readContent read spot.buffered content form := by
  simp only [read.eq_1 spot doc, readWithin, bind, Except.bind]
  cases htag : readTagged spot doc with
  | error e => rfl
  | ok tagged =>
    obtain ⟨form, content⟩ := tagged
    have hcontent := nesting_of_readTagged htag
    have hinner : AgreeBelow doc.nesting (readWithin doc.nesting) read :=
      fun spot d hd => readWithin_stable hd (Nat.lt_succ_self _) spot
    exact readContent_congr hinner (Nat.lt_succ_of_le hcontent) spot.buffered form

end TypeSchema
