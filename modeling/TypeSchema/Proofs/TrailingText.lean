import TypeSchema.Fixtures
import TypeSchema.Proofs.Loading
import TypeSchema.Proofs.Routes
import TypeSchema.Proofs.Scanning

/-!
What comes after the descriptor in a text. A descriptor is read from the first value of a text, and
nothing looks at the rest; whoever reads the value of the whole text first finds that it has none.
-/
namespace TypeSchema

namespace Json

mutual

theorem isComplete_toDocument (v : Json) : v.toDocument.isComplete = true := by
  cases v with
  | array items => exact isCompleteItems_toDocuments items
  | object entries => exact isCompleteEntries_toEntries entries
  | _ => rfl

theorem isCompleteItems_toDocuments (items : List Json) :
    Document.isCompleteItems (toDocuments items) = true := by
  cases items with
  | nil => rfl
  | cons v items =>
    exact Bool.and_eq_true_iff.mpr ⟨isComplete_toDocument v, isCompleteItems_toDocuments items⟩

theorem isCompleteEntries_toEntries (entries : List (String × Json)) :
    Document.isCompleteEntries (toEntries entries) = true := by
  cases entries with
  | nil => rfl
  | cons e entries =>
    exact Bool.and_eq_true_iff.mpr
      ⟨isComplete_toDocument e.2, isCompleteEntries_toEntries entries⟩

end

end Json

namespace Descriptor

theorem mayPrecede_of_ofJson {v : Json} {d : Descriptor} (h : ofJson v = .ok d)
    (more : List Char) : v.toDocument.MayPrecede more := by
  cases v with
  | number n => cases h
  | _ => trivial

theorem exists_of_ofText {text : String} {d : Descriptor} (h : ofText text = .ok d) :
    ∃ (first rest : String) (v : Json), text = first ++ rest ∧ v.nesting ≤ Document.maxNesting ∧
      ofJson v = .ok d ∧
      ∀ more : String, Document.scan (first ++ more).toList = (v.toDocument, more.toList) := by
  obtain ⟨v, hv, hnesting, hd⟩ := ofText_eq_ok_iff.mp h
  obtain ⟨used, htext, hscan⟩ := Document.exists_of_scan (Prod.ext hv rfl) v.isComplete_toDocument
  refine ⟨.ofList used, .ofList (Document.scan text.toList).2, v, ?_, hnesting, hd, fun more => ?_⟩
  · rw [← String.toList_inj]
    simpa using htext
  · simpa using hscan more.toList (mayPrecede_of_ofJson hd _)

theorem ofText_append {text : String} {d : Descriptor} (h : ofText text = .ok d) (more : String) :
    ofText (text ++ more) = .ok d := by
  obtain ⟨first, rest, v, rfl, hnesting, hd, hscan⟩ := exists_of_ofText h
  rw [String.append_assoc, ofText_eq_ok_iff]
  exact ⟨v, congrArg Prod.fst (hscan (rest ++ more)), hnesting, hd⟩

theorem exists_parse?_of_ofText {text : String} {d : Descriptor} (h : ofText text = .ok d) :
    ∃ first rest : String, text = first ++ rest ∧ (∃ v, Json.parse? first = some v) ∧
      ofText first = .ok d := by
  obtain ⟨first, rest, v, rfl, hnesting, hd, hscan⟩ := exists_of_ofText h
  have hfirst : Document.scan first.toList = (v.toDocument, []) := by simpa using hscan ""
  have hparse : Json.parse? first = some v.plain := by
    rw [Json.parse?_eq_some_iff, hfirst]
    exact ⟨rfl, v, rfl, hnesting, rfl⟩
  refine ⟨first, rest, rfl, ⟨_, hparse⟩, ?_⟩
  exact ofText_eq_ok_iff.mpr ⟨v, congrArg Prod.fst hfirst, hnesting, hd⟩

/-- After a descriptor, blanks are all that a text of one value may go on with. -/
theorem parse?_append_iff {text : String} {d : Descriptor} (h : ofText text = .ok d)
    (more : String) (v : Json) : Json.parse? (text ++ more) = some v ↔
      Json.parse? text = some v ∧ more.toList.all Document.isBlank = true := by
  obtain ⟨first, rest, w, rfl, -, -, hscan⟩ := exists_of_ofText h
  have hmore : Document.scan (first ++ rest ++ more).toList =
      (w.toDocument, rest.toList ++ more.toList) := by
    rw [String.append_assoc, hscan, String.toList_append]
  rw [Json.parse?_eq_some_iff, Json.parse?_eq_some_iff, hscan, hmore]
  simp only [List.all_append, Bool.and_eq_true]
  tauto

/-- What comes after the descriptor is ignored. A text is read as a descriptor exactly if it begins
with a text of one value that is; then it may go on in any way, and a fixture has the same schema.
The text is one value only if blanks are all that it goes on with, and where the value of the whole
text is read first, it is rejected otherwise. -/
theorem ofText_ignores_rest (text : String) (d : Descriptor) :
    (ofText text = .ok d ↔ ∃ first rest : String, text = first ++ rest ∧
      (∃ v, Json.parse? first = some v) ∧ ofText first = .ok d) ∧
    (ofText text = .ok d → ∀ more : String, ofText (text ++ more) = .ok d ∧
      Fixtures.actual (text ++ more) = Fixtures.actual text ∧
      (∀ v, Json.parse? (text ++ more) = some v ↔
        Json.parse? text = some v ∧ more.toList.all Document.isBlank = true) ∧
      (more.toList.all Document.isBlank = false →
        ∀ (inputs : Command.Inputs) (filtering : Command.Filtering) path sources,
          inputs.load filtering (⟨path, .ok (text ++ more)⟩ :: sources) =
            .error (.notJson path))) := by
  refine ⟨⟨exists_parse?_of_ofText, ?_⟩, fun h more => ?_⟩
  · rintro ⟨first, rest, rfl, -, hfirst⟩
    exact ofText_append hfirst rest
  · have hparse := parse?_append_iff h more
    refine ⟨ofText_append h more, ?_, hparse, fun hmore inputs _ path _ => ?_⟩
    · rw [Fixtures.actual, Fixtures.actual, ofText_append h more, h]
    · have hnone : Json.parse? (text ++ more) = none := by
        refine Option.eq_none_iff_forall_ne_some.mpr fun v hv => ?_
        simp [((hparse v).mp hv).2] at hmore
      rw [Command.Inputs.load, Command.Inputs.values_of_notJson rfl hnone]
      rfl

/-- A brace too many. -/
theorem ofText_ignores_rest_brace :
    let text := "\x7b\"kind\":\"object\"\x7d"
    ofText (text ++ "\x7d") = .ok (.object ⟨none, []⟩) ∧
      (∀ v, Json.parse? (text ++ "\x7d") ≠ some v) ∧
      Command.Inputs.load ⟨none, none, []⟩ (fun _ v => .ok [v]) [⟨"a.json", .ok (text ++ "\x7d")⟩] =
        .error (.notJson "a.json") := by
  intro text
  have hfirst : ofText text = .ok (.object ⟨none, []⟩) := by
    refine ofText_eq_ok_iff.mpr ⟨.object [("kind", .string "object")], ?_, by decide, rfl⟩
    simp only [text, String.reduceToList]
    rfl
  obtain ⟨hread, -, hparse, hload⟩ := (ofText_ignores_rest _ _).2 hfirst "\x7d"
  have hblank : "\x7d".toList.all Document.isBlank = false := by
    simp only [String.reduceToList]
    rfl
  exact ⟨hread, fun v hv => Bool.eq_false_iff.mp hblank ((hparse v).mp hv).2, hload hblank _ _ _ _⟩

/-- Not every text that is read as a descriptor is one value. -/
theorem ofText_accepts_rest :
    ¬ ∀ text d, ofText text = .ok d → ∃ v, Json.parse? text = some v := by
  intro h
  have hscan : Document.scan "\x7b\"kind\":\"object\"\x7d\x7d".toList =
      ((Json.object [("kind", .string "object")]).toDocument, ['}']) := by
    simp only [String.reduceToList]
    rfl
  obtain ⟨v, hv⟩ := h "\x7b\"kind\":\"object\"\x7d\x7d" (.object ⟨none, []⟩)
    (ofText_eq_ok_iff.mpr ⟨_, congrArg Prod.fst hscan, by decide, rfl⟩)
  rw [Json.parse?_eq_some_iff, hscan] at hv
  simp [Document.isBlank] at hv

end Descriptor

end TypeSchema
