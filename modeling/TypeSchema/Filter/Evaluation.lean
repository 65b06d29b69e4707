import TypeSchema.Filter.Grammar

/-!
The outputs of a filter. Where several filters are combined, the outputs of the first vary slowest.
A failure takes the place of an output and does not stop the others; the run as a whole fails with
the first one.
-/
namespace TypeSchema.Filter

mutual

def run : Filter → Value → Outcomes Value
  | .identity, v => [.ok v]
  | .constant c, _ => [.ok c]
  | .variable _, _ => [fail]
  | .collect f, v => [(run f v).gather.map .array]
  | .entry key value, v =>
    (run key v).pairWith (fun k w => match k with
      | .string k => pure (.object [(k, w)])
      | _ => fail) (run value v)
  | .negate f, v => (run f v).andThen fun w => [w.opposite]
  | .path base trail, v =>
    (run base v).andThen fun w => (routes trail v).andThen fun route => route.follow w
  | .attempt f, v => (run f v).untilFailure
  | .pipe f g, v => (run f v).andThen (run g)
  | .comma f g, v => run f v ++ run g v
  | .orElse f g, v =>
    match (run f v).filter countsAsTrue with
    | [] => run g v
    | outcomes => outcomes
  | .both f g, v =>
    (run f v).andThen fun w =>
      if w.isTrue then (run g v).andThen fun u => [.ok (.bool u.isTrue)] else [.ok (.bool false)]
  | .either f g, v =>
    (run f v).andThen fun w =>
      if w.isTrue then [.ok (.bool true)] else (run g v).andThen fun u => [.ok (.bool u.isTrue)]
  | .compare c f g, v => (run f v).pairWith (fun w u => pure (.bool (c.holds w u))) (run g v)
  | .calculate op f g, v => (run f v).pairWith op.apply (run g v)
  | .branch c f g, v => (run c v).andThen fun w => if w.isTrue then run f v else run g v
  | .update target change, v => runUpdate target (run change) v
  | .assign target value, v =>
    (run value v).andThen fun w => runUpdate target (fun _ => [.ok w]) v
  | .call name args, v =>
    match name, args with
    | "empty", [] => []
    | "error", [] => [fail]
    | "error", [f] => if (run f v).isEmpty then [.ok v] else [fail]
    | "not", [] => [.ok (.bool !v.isTrue)]
    | "length", [] => [v.length]
    | "keys", [] => [v.keys]
    | "to_entries", [] => [v.entries]
    | "select", [f] => (run f v).andThen fun w => if w.isTrue then [.ok v] else []
    | "map", [f] => [((Outcomes.ofList v.items).andThen (run f)).gather.map .array]
    | "map_values", [f] => Route.change [(.all, false)] (run f) v
    | "first", [] => [v.index (.int 0)]
    | "first", [f] => (run f v).take 1
    | "last", [] => [v.index (.int (-1))]
    | "last", [f] => (Outcomes.ofList (run f v).gather).getLast?.toList
    | "has", [f] => (run f v).andThen fun key => [(v.has key).map .bool]
    | "reverse", [] => [v.reverse]
    | "del", [f] => runUpdate f (fun _ => []) v
    | "tostring", [] => [.ok (.string v.plainText)]
    | "flatten", [] => [.ok (.array v.leaves)]
    | "limit", [n, f] =>
      (run n v).andThen fun count =>
        match count with
        | .number (.exact n) => (run f v).take n.toNat
        | _ => [fail]
    | _, _ => [fail]

def places : Selector → Value → Outcomes Place
  | .all, _ => [.ok .all]
  | .index key, v => (run key v).andThen fun k => [.ok (.index k)]
  | .slice lower upper, v =>
    (run lower v).pairWith (fun l u => pure (.slice (some l) (some u))) (run upper v)
  | .sliceFrom lower, v => (run lower v).andThen fun l => [.ok (.slice (some l) none)]
  | .sliceTo upper, v => (run upper v).andThen fun u => [.ok (.slice none (some u))]

/-- The routes of a trail: one place for each selector, in all combinations. -/
def routes : Trail → Value → Outcomes Route
  | .done, _ => [.ok []]
  | .step selector optional rest, v =>
    (places selector v).pairWith (fun place route => pure ((place, optional) :: route))
      (routes rest v)

def runUpdate : Filter → (Value → Outcomes Value) → Value → Outcomes Value
  | .identity, change, v => change v
  | .path base trail, change, v =>
    runUpdate base ((routes trail v).lead fun route => route.change change) v
  | .pipe f g, change, v => runUpdate f (runUpdate g change) v
  | .comma f g, change, v => (runUpdate f change v).andThen (runUpdate g change)
  | .orElse f g, change, v =>
    if (run f v).any countsAsTrue then runUpdate f change v else runUpdate g change v
  | .branch c f g, change, v =>
    (run c v).lead (fun w u => if w.isTrue then runUpdate f change u else runUpdate g change u) v
  | .call name args, change, v =>
    match name, args with
    | "empty", [] => [.ok v]
    | "select", [f] => (run f v).lead (fun w u => if w.isTrue then change u else [.ok u]) v
    | "first", [] => Route.change [(.index (.int 0), false)] change v
    | "last", [] => Route.change [(.index (.int (-1)), false)] change v
    | "tostring", [] =>
      match v with
      | .string _ => change v
      | _ => [fail]
    | _, _ => [fail]
  | _, _, _ => [fail]

end

/-- An output leaves a filter as text and is read again, where a number may become a neighbour. -/
def output (v : Value) : Except Failure Json :=
  match v.json? with
  | some w => .ok w
  | none => .error .unreadable

/-- Applies a filter given as text: all its outputs, or the first problem. What is beyond this part
of the language counts as malformed or undefined. -/
def apply (text : String) (v : Json) : Except Error (List Json) :=
  match parse? text with
  | none => .error .malformed
  | some f =>
    if f.isDefined then
      ((run f (.ofJson v)).andThen fun w => [output w]).gather.mapError .failed
    else .error .undefined

end TypeSchema.Filter
