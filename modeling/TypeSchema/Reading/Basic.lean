import TypeSchema.Reading.Mismatch

/-!
Readers of typed values. A reader stands at a spot of a document and takes the first problem in
reading order. It reads along one of three routes: straight from a text, whose faults it may meet;
from a JSON value; or from content set aside until the kind of the enclosing descriptor was known,
where a mismatch is reported at the place of that descriptor.
-/
namespace TypeSchema

abbrev Read (α : Type) := Except Reading.Error α

namespace Reading

inductive Route where
  | text
  | value
  | buffered
  deriving DecidableEq, Repr

structure Spot where
  route : Route
  place : Place

namespace Spot

def inside (spot : Spot) (step : Step) : Spot :=
  match spot.route with
  | .buffered => spot
  | _ => { spot with place := spot.place ++ [step] }

def buffered (spot : Spot) : Spot := { spot with route := .buffered }

def fail {α : Type} (spot : Spot) (mismatch : Mismatch) : Read α :=
  .error (.misshapen spot.place mismatch)

def wrongType {α : Type} (spot : Spot) (wanted : Wanted) : Document → Read α
  | .null => spot.fail (.wrongType .null wanted)
  | .bool b => spot.fail (.wrongType (.bool b) wanted)
  | .number (some n) => spot.fail (.wrongType (.number n) wanted)
  | .string (some s) => spot.fail (.wrongType (.string s) wanted)
  | .array _ _ => spot.fail (.wrongType .sequence wanted)
  | .object _ _ => spot.fail (.wrongType .map wanted)
  | _ => .error .malformed

def skip (spot : Spot) (doc : Document) : Read Unit :=
  if spot.route ≠ .text || doc.isComplete then pure () else .error .malformed

/-- Sets aside a document that lies in a container at this spot. -/
def setAside (spot : Spot) (doc : Document) : Read Unit :=
  if spot.route ≠ .text || (doc.json? (spot.place.length + 1)).isSome then pure ()
  else .error .malformed

end Spot

def requireClosed (closed : Bool) : Read Unit :=
  if closed then pure () else .error .malformed

def readString (spot : Spot) : Document → Read String
  | .string (some s) => pure s
  | doc => spot.wrongType .string doc

def readBool (spot : Spot) : Document → Read Bool
  | .bool b => pure b
  | doc => spot.wrongType .boolean doc

def readNat (spot : Spot) : Document → Read Nat
  | .number (some (.int n)) => if 0 ≤ n then pure n.toNat else spot.fail (.negative n)
  | doc => spot.wrongType .natural doc

/-- Any JSON value; a repeated key keeps its first place and its last value. -/
def readJson (spot : Spot) (doc : Document) : Read Json :=
  let value := if spot.route = .text then doc.json? spot.place.length else doc.value?
  match value with
  | some v => pure v.plain
  | none => .error .malformed

section
variable {α : Type}

def readOption (read : Spot → Document → Read α) (spot : Spot) : Document → Read (Option α)
  | .null => pure none
  | doc => some <$> read spot doc

def readItems (read : Spot → Document → Read α) (spot : Spot) : Nat → List Document → Read (List α)
  | _, [] => pure []
  | i, doc :: docs => do
    let a ← read (spot.inside (.index i)) doc
    let rest ← readItems read spot (i + 1) docs
    return a :: rest

def readList (read : Spot → Document → Read α) (spot : Spot) : Document → Read (List α)
  | .array docs closed => do
    let items ← readItems read spot 0 docs
    requireClosed closed
    return items
  | doc => spot.wrongType .sequence doc

/-- One of several named choices. Content set aside may also give its position. -/
def readVariant (choices : List (String × α)) (spot : Spot) (doc : Document) : Read α :=
  match doc with
  | .string (some name) =>
    match choices.lookup name with
    | some a => pure a
    | none => spot.fail (.unknownVariant name (choices.map Prod.fst))
  | .number (some (.int n)) =>
    if spot.route = .buffered && 0 ≤ n then
      match choices[n.toNat]? with
      | some (_, a) => pure a
      | none => spot.fail (.variantIndex n choices.length)
    else spot.wrongType .variant doc
  | _ => spot.wrongType .variant doc

def readUnit (spot : Spot) (doc : Document) : Read Unit :=
  match doc with
  | .null => pure ()
  | .object [] true => if spot.route = .buffered then pure () else spot.wrongType .unit doc
  | _ => spot.wrongType .unit doc

/-- A choice as the only key of an object, over null. -/
def readChoiceEntry (choices : List (String × α)) (spot : Spot) (key value : Document) :
    Read α := do
  let a ← readVariant choices spot key
  match key with
  | .string (some name) => readUnit (spot.inside (.key name)) value
  | _ => pure ()
  return a

/-- A choice without content: its name, or an object with the name as its only key. -/
def readChoice (choices : List (String × α)) (spot : Spot) (doc : Document) : Read α :=
  match doc, spot.route with
  | .string _, _ => readVariant choices spot doc
  | .object ((.string key, value) :: rest) closed, .text => do
    let a ← readChoiceEntry choices spot (.string key) value
    requireClosed (rest.isEmpty && closed)
    return a
  | _, .text => .error .malformed
  | .object [(key, value)] _, _ => readChoiceEntry choices spot key value
  | .object _ _, _ => spot.fail .notOneKey
  | _, _ => spot.wrongType .stringOrMap doc

end

/-! Records: objects with known keys, or arrays of their fields in order. -/

/-- The fields of a record in order, each with whether it has to be there. -/
structure Layout where
  noun : String
  fields : List (String × Bool)

namespace Layout

variable {σ : Type}

def names (layout : Layout) : List String := layout.fields.map Prod.fst

def missing? (layout : Layout) (seen : List String) : Option String :=
  (layout.fields.find? fun field => field.2 && !seen.contains field.1).map Prod.fst

def required? (layout : Layout) (start : Nat) : Option Nat :=
  ((layout.fields.drop start).findIdx? Prod.snd).map (start + ·)

def readEntries (layout : Layout) (step : String → Spot → Document → σ → Read σ) (spot : Spot) :
    List (Document × Document) → List String → σ → Read (List String × σ)
  | [], seen, state => pure (seen, state)
  | (.string (some key), doc) :: rest, seen, state =>
    if layout.names.contains key then
      if seen.contains key then spot.fail (.duplicateField key)
      else do
        let state ← step key (spot.inside (.key key)) doc state
        readEntries layout step spot rest (key :: seen) state
    else do
      spot.skip doc
      readEntries layout step spot rest seen state
  | _ :: _, _, _ => .error .malformed

def readFields (step : String → Spot → Document → σ → Read σ) (spot : Spot) :
    Nat → List String → List Document → σ → Read σ
  | i, name :: names, doc :: docs, state => do
    let state ← step name (spot.inside (.index i)) doc state
    readFields step spot (i + 1) names docs state
  | _, _, _, state => pure state

/-- What follows from the number of items of an array that was read as a record. -/
def checkLength (layout : Layout) (spot : Spot) (length : Nat) (closed : Bool) : Read Unit :=
  let size := layout.fields.length
  if size < length then
    match spot.route with
    | .text => .error .malformed
    | .value => spot.fail (.longArray length)
    | .buffered => spot.fail (.longContent length size)
  else do
    requireClosed closed
    match layout.required? length with
    | some i => spot.fail (.shortRecord i layout.noun size)
    | none => pure ()

/-- Reads a record: `step` enters one field into the state. -/
def read (layout : Layout) (step : String → Spot → Document → σ → Read σ) (state : σ)
    (spot : Spot) : Document → Read σ
  | .object entries closed => do
    let (seen, state) ← layout.readEntries step spot entries [] state
    requireClosed closed
    match layout.missing? seen with
    | some name => spot.fail (.missingField name)
    | none => return state
  | .array docs closed => do
    let state ← readFields step spot 0 layout.names docs state
    layout.checkLength spot docs.length closed
    return state
  | doc => spot.wrongType (.record layout.noun) doc

end Layout

/-- Reads the first value of a text; what follows it is not looked at. -/
def fromText {α : Type} (read : Spot → Document → Read α) (text : String) : Read α :=
  read ⟨.text, []⟩ (Document.scan text.toList).1

def fromJson {α : Type} (read : Spot → Document → Read α) (value : Json) : Read α :=
  read ⟨.value, []⟩ value.toDocument

end Reading

end TypeSchema
