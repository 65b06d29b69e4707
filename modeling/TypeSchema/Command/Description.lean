import TypeSchema.Command.Basic
import TypeSchema.Text

/-!
The description of an invocation: an outline of named records, one part a line, the parts of a
record four spaces further in than the record.
-/
namespace TypeSchema.Command

inductive Outline where
  | word (text : String)
  | list (items : List Outline)
  /-- A name with one thing in parentheses. -/
  | wrapped (name : String) (item : Outline)
  | record (name : String) (fields : List (String × Outline))

namespace Outline

def indent (depth : Nat) : String := String.ofList (List.replicate (4 * depth) ' ')

mutual

/-- The text of an outline whose first line is already indented. -/
def textAt (depth : Nat) : Outline → String
  | .word text => text
  | .list items => "[\n" ++ itemsText (depth + 1) items ++ indent depth ++ "]"
  | .wrapped name item =>
    name ++ "(\n" ++ indent (depth + 1) ++ textAt (depth + 1) item ++ ",\n" ++ indent depth ++ ")"
  | .record name fields =>
    name ++ " \x7b\n" ++ fieldsText (depth + 1) fields ++ indent depth ++ "\x7d"

def itemsText (depth : Nat) : List Outline → String
  | [] => ""
  | item :: items => indent depth ++ textAt depth item ++ ",\n" ++ itemsText depth items

def fieldsText (depth : Nat) : List (String × Outline) → String
  | [] => ""
  | (name, value) :: fields =>
    indent depth ++ name ++ ": " ++ textAt depth value ++ ",\n" ++ fieldsText depth fields

end

def text (o : Outline) : String := o.textAt 0

def ofBool (b : Bool) : Outline := .word (if b then "true" else "false")

def ofText (text : String) : Outline := .word (Text.quoted text)

def ofOption {α : Type} (outline : α → Outline) : Option α → Outline
  | none => .word "None"
  | some a => .wrapped "Some" (outline a)

end Outline

def Inputs.outline (inputs : Inputs) : Outline :=
  .record "InputSettings"
    [("json_pointer", .ofOption .ofText inputs.pointer),
      ("jq_expr", .ofOption .ofText inputs.filter),
      ("input", .list (inputs.patterns.map .ofText))]

def Output.outline (output : Output) : Outline :=
  .record "OutputSettings"
    [("out", .ofOption .ofText output.file), ("compact", .ofBool output.compact)]

def policyName : NullPolicy → String
  | .typeNull => "TypeNull"
  | .omit => "Omit"

def settingsOutline (s : Settings) : Outline :=
  .record "Options"
    [("max_depth", .word (toString s.maxDepth)), ("null_only", .word (policyName s.nullPolicy))]

/-- The names of a product, by itself and with its options. -/
def Product.outlineNames : Product → String × String
  | .schema => ("Schema", "SchemaOut")
  | .entity => ("Entity", "EntityOut")

def Invocation.outline (i : Invocation) : Outline :=
  let (name, options) := i.product.outlineNames
  .record "CommandLineInterface"
    [("cmd", .wrapped name (.record options
      [("input_settings", i.inputs.outline), ("output", i.output.outline),
        ("options", settingsOutline i.settings), ("no_op", .ofBool i.isDescribed)]))]

def Invocation.description (i : Invocation) : String := i.outline.text

end TypeSchema.Command
