import ForeignModule.Yaml.Layout
import Std.Data.ExtTreeMap

/-!
# Values in YAML

The tree of values that a document stands for. An alias stands for an anchored value. Anchors are
numbered, and what an alias holds is the number of its anchor.

* `Anchors.place` and `Anchors.fill` note an anchored value, before and after it is read;
* `Node.expand?` puts the anchored values in the place of the aliases.
-/

namespace ForeignModule.Yaml

/-- A value. -/
inductive Node where
  | scalar (tag : Option Tag) (style : Style) (text : String)
  | sequence (tag : Option Tag) (items : List Node)
  | mapping (tag : Option Tag) (pairs : List (Node × Node))
  /-- It stands for the value whose anchor has this number. -/
  | alias (number : Nat)
deriving Repr, Inhabited

namespace Node

/-- What a missing value is read as. -/
def empty : Node := scalar none .plain ""

end Node

/-- The anchored values of a document. An anchor has the number of names that were known before it.
So one whose name was known takes the number that the next new name takes too, and of anchors with
one number the last one counts, also for the aliases before it. -/
structure Anchors where
  /-- The numbers of names. -/
  numbers : Std.ExtTreeMap String Nat := ∅
  /-- Which of the anchored values counts for a number. -/
  owners : Std.ExtTreeMap Nat Nat := ∅
  /-- The anchored values, by their order. One that is not complete yet is missing. -/
  values : Std.ExtTreeMap Nat Node := ∅
  /-- How many there are. -/
  count : Nat := 0

namespace Anchors

/-- Gives a name to the value that comes next. -/
def place (a : Anchors) (name : String) : Anchors :=
  let number := a.numbers.size
  { a with numbers := a.numbers.insert name number, owners := a.owners.insert number a.count
           count := a.count + 1 }

/-- Notes an anchored value, given the number of those before it. -/
def fill (a : Anchors) (order : Nat) (node : Node) : Anchors :=
  { a with values := a.values.insert order node }

/-- The value of the anchor with a number. -/
def value? (a : Anchors) (number : Nat) : Option Node := do a.values[← a.owners[number]?]?

end Anchors

namespace Node

/-- The depth to which collections may be nested. -/
def depthLimit : Nat := 128

/-- How many aliases are replaced at most for each mark that a document consists of. -/
def repetitionLimit : Nat := 100

mutual

/-- The number of marks that a value consists of: two for a collection, and one for all else. -/
def size : Node → Nat
  | sequence _ items => 2 + sizeItems items
  | mapping _ pairs => 2 + sizePairs pairs
  | _ => 1

/-- The number of marks of items. -/
def sizeItems : List Node → Nat
  | [] => 0
  | item :: rest => item.size + sizeItems rest

/-- The number of marks of pairs. -/
def sizePairs : List (Node × Node) → Nat
  | [] => 0
  | (key, value) :: rest => key.size + value.size + sizePairs rest

end

/-- Replaces an alias by its value. So many aliases may still be replaced as the state says. -/
def follow (a : Anchors) : Node → StateT Nat Option Node
  | .alias number => do
    match ← get with
    | 0 => failure
    | left + 1 =>
      set left
      a.value? number
  | node => return node

/-- Replaces all aliases in a value, which may have collections so many deep. -/
def expandTo (a : Anchors) : Nat → Node → StateT Nat Option Node
  | depth + 1, sequence tag items => do
    return sequence tag (← items.mapM fun item => do expandTo a depth (← follow a item))
  | depth + 1, mapping tag pairs => do
    return mapping tag (← pairs.mapM fun (key, value) => do
      return (← expandTo a depth (← follow a key), ← expandTo a depth (← follow a value)))
  | _, scalar tag style text => return scalar tag style text
  | _, _ => failure

/-- A document with all its aliases replaced, if that comes to an end soon. -/
def expand? (a : Anchors) (root : Node) : Option Node :=
  ((expandTo a depthLimit root).run (repetitionLimit * root.size)).map Prod.fst

end Node

end ForeignModule.Yaml
