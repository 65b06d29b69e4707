import TypeSchema.Filter.Place

/-!
Filters: expressions that turn one value into a sequence of values. This is the part of the language
in which nothing is bound, defined or folded, with the functions that are listed here.
-/
namespace TypeSchema

mutual

inductive Filter where
  | identity
  | constant (value : Filter.Value)
  | variable (name : String)
  /-- All outputs of a filter, as one array. -/
  | collect (body : Filter)
  /-- An object with one entry. -/
  | entry (key value : Filter)
  | negate (body : Filter)
  | path (base : Filter) (trail : Filter.Trail)
  /-- The outputs of a filter before it fails. -/
  | attempt (body : Filter)
  | pipe (first second : Filter)
  | comma (first second : Filter)
  | orElse (first second : Filter)
  | both (first second : Filter)
  | either (first second : Filter)
  | compare (comparison : Filter.Comparison) (left right : Filter)
  | calculate (operation : Filter.Operation) (left right : Filter)
  | branch (condition positive negative : Filter)
  | update (target change : Filter)
  | assign (target value : Filter)
  | call (name : String) (arguments : List Filter)
  deriving Repr

inductive Filter.Selector where
  | all
  | index (key : Filter)
  | slice (lower upper : Filter)
  | sliceFrom (lower : Filter)
  | sliceTo (upper : Filter)
  deriving Repr

/-- Selectors after a filter, each with a mark that its place may be missing. -/
inductive Filter.Trail where
  | done
  | step (selector : Filter.Selector) (optional : Bool) (rest : Filter.Trail)
  deriving Repr

end

instance : Inhabited Filter := ⟨.identity⟩

namespace Filter

/-- The functions that a filter may call, with their numbers of arguments. -/
def functions : List (String × Nat) :=
  [("empty", 0), ("error", 0), ("error", 1), ("not", 0), ("length", 0), ("keys", 0),
    ("to_entries", 0), ("select", 1), ("map", 1), ("map_values", 1), ("first", 0), ("first", 1),
    ("last", 0), ("last", 1), ("has", 1), ("reverse", 0), ("del", 1), ("tostring", 0),
    ("flatten", 0), ("limit", 2)]

mutual

/-- Are all functions known and no variable used? There is nothing that binds one. -/
def isDefined : Filter → Bool
  | .identity => true
  | .constant _ => true
  | .variable _ => false
  | .collect f => isDefined f
  | .entry k f => isDefined k && isDefined f
  | .negate f => isDefined f
  | .path f trail => isDefined f && trail.isDefined
  | .attempt f => isDefined f
  | .pipe f g => isDefined f && isDefined g
  | .comma f g => isDefined f && isDefined g
  | .orElse f g => isDefined f && isDefined g
  | .both f g => isDefined f && isDefined g
  | .either f g => isDefined f && isDefined g
  | .compare _ f g => isDefined f && isDefined g
  | .calculate _ f g => isDefined f && isDefined g
  | .branch c f g => isDefined c && isDefined f && isDefined g
  | .update f g => isDefined f && isDefined g
  | .assign f g => isDefined f && isDefined g
  | .call name args => functions.contains (name, args.length) && areDefined args

def Selector.isDefined : Selector → Bool
  | .all => true
  | .index key => Filter.isDefined key
  | .slice lower upper => Filter.isDefined lower && Filter.isDefined upper
  | .sliceFrom lower => Filter.isDefined lower
  | .sliceTo upper => Filter.isDefined upper

def Trail.isDefined : Trail → Bool
  | .done => true
  | .step selector _ rest => selector.isDefined && rest.isDefined

def areDefined : List Filter → Bool
  | [] => true
  | f :: fs => isDefined f && areDefined fs

end

end Filter

end TypeSchema
