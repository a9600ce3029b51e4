import ForeignModule.Yaml.Node

/-!
# Documents in YAML

The tokens of a text are read as one value.

* `Reader.node` reads one value from the tokens of a text;
* `Node.ofText?` reads a whole text, which holds one document at most.
-/

namespace ForeignModule.Yaml

/-- The tokens that are left, and what those before them have said about anchors and handles. -/
structure Cursor where
  tokens : List Token
  anchors : Anchors := {}
  handles : Handles := .usual

/-- Reading tokens one after the other. -/
abbrev Reader := StateT Cursor Option

namespace Reader

/-- The next token, which stays. -/
def peek : Reader (Option Token) := do return (← get).tokens.head?

/-- Passes over the next token. -/
def skip : Reader Unit := modify fun c => { c with tokens := c.tokens.tail }

/-- Passes over the next token if it is this one. -/
def take (t : Token) : Reader Bool := do
  if (← peek) == some t then
    skip
    return true
  else return false

/-- Is the next token one of these, or none? -/
def atOne (tokens : List Token) : Reader Bool := do return (← peek).all tokens.contains

/-- Reads a part of the next token, if it has one. -/
def takePart (part? : Token → Option α) : Reader (Option α) := do
  match (← peek).bind part? with
  | some a =>
    skip
    return some a
  | none => return none

/-- The name of an anchor. -/
def anchor? : Token → Option String
  | .anchor name => some name
  | _ => none

/-- A tag as it is written. -/
def tag? : Token → Option Tag.Written
  | .tag t => some t
  | _ => none

/-- What may stand before a value. -/
structure Properties where
  /-- The order of the value among the anchored ones. -/
  order : Option Nat := none
  tag : Option Tag := none

namespace Properties

/-- Is anything said about the value? -/
def isGiven (p : Properties) : Bool := p.order.isSome || p.tag.isSome

end Properties

/-- Reads the anchor and the tag before a value, in either order. -/
def properties : Reader Properties := do
  let before ← takePart anchor?
  let written ← takePart tag?
  let name ← if before.isNone && written.isSome then takePart anchor? else pure before
  let tag ← written.mapM fun t => do (← get).handles.tag? t
  let order ← name.mapM fun name => modifyGet fun c =>
    (c.anchors.count, { c with anchors := c.anchors.place name })
  return { order, tag }

/-- The alias of a name, which is known already. -/
def aliased (name : String) : Reader Node := do
  return .alias (← (← get).anchors.numbers[name]?)

/-- Where a value stands. -/
inductive Place where
  | block
  /-- In a block mapping, where a sequence needs no indentation. -/
  | inMapping
  | flow
deriving DecidableEq, Repr, Inhabited

/-- The value that properties without content stand before. -/
def missing (p : Properties) : Reader Node :=
  if p.isGiven then return .scalar p.tag .plain "" else failure

mutual

/-- Reads a value. Every call has less fuel than the one that makes it. -/
def node (place : Place) : Nat → Reader Node
  | 0 => failure
  | fuel + 1 => do
    match ← peek with
    | some (.alias name) =>
      skip
      aliased name
    | _ =>
      let p ← properties
      let value ← content place p fuel
      if let some order := p.order then
        modify fun c => { c with anchors := c.anchors.fill order value }
      return value

/-- Reads a value behind its properties. Only a value with properties may have no content. -/
def content (place : Place) (p : Properties) : Nat → Reader Node
  | 0 => failure
  | fuel + 1 => do
    match ← peek with
    | some (.scalar style text) =>
      skip
      return .scalar p.tag style text
    | some .flowSequence =>
      skip
      return .sequence p.tag (← flowItems true fuel)
    | some .flowMapping =>
      skip
      return .mapping p.tag (← flowPairs true fuel)
    | some .blockEntry =>
      if place = .inMapping then return .sequence p.tag (← bareItems fuel) else missing p
    | some .blockSequence =>
      if place = .flow then missing p
      else
        skip
        return .sequence p.tag (← items fuel)
    | some .blockMapping =>
      if place = .flow then missing p
      else
        skip
        return .mapping p.tag (← pairs fuel)
    | _ => missing p

/-- Reads a value, or none if one of these tokens comes next. -/
def nodeUnless (place : Place) (stops : List Token) : Nat → Reader Node
  | 0 => failure
  | fuel + 1 => do if ← atOne stops then return .empty else node place fuel

/-- Reads the items of a block sequence. -/
def items : Nat → Reader (List Node)
  | 0 => failure
  | fuel + 1 => do
    if ← take .blockEnd then return []
    else if ← take .blockEntry then
      let item ← nodeUnless .block [.blockEntry, .blockEnd] fuel
      return item :: (← items fuel)
    else failure

/-- Reads the items of a sequence without indentation of its own. -/
def bareItems : Nat → Reader (List Node)
  | 0 => failure
  | fuel + 1 => do
    if ← take .blockEntry then
      let item ← nodeUnless .block [.blockEntry, .key, .value, .blockEnd] fuel
      return item :: (← bareItems fuel)
    else return []

/-- Reads the pairs of a block mapping. -/
def pairs : Nat → Reader (List (Node × Node))
  | 0 => failure
  | fuel + 1 => do
    if ← take .blockEnd then return []
    else if ← take .key then
      let stops := [Token.key, .value, .blockEnd]
      let key ← nodeUnless .inMapping stops fuel
      let value ← if ← take .value then nodeUnless .inMapping stops fuel else pure .empty
      return (key, value) :: (← pairs fuel)
    else failure

/-- Reads the items of a flow sequence. A key makes a mapping of one pair. -/
def flowItems (first : Bool) : Nat → Reader (List Node)
  | 0 => failure
  | fuel + 1 => do
    if ← take .flowSequenceEnd then return []
    else
      unless first do guard (← take .flowEntry)
      if ← take .flowSequenceEnd then return []
      else
        let item ← if ← take .key then flowPair fuel else node .flow fuel
        return item :: (← flowItems false fuel)

/-- Reads the mapping of one pair that is an item of a flow sequence. In place of a missing key the
token that shows it to be missing is passed over. -/
def flowPair : Nat → Reader Node
  | 0 => failure
  | fuel + 1 => do
    let key ←
      if ← atOne [.value, .flowEntry, .flowSequenceEnd] then
        skip
        pure .empty
      else node .flow fuel
    let value ← flowValue .flowSequenceEnd fuel
    return .mapping none [(key, value)]

/-- Reads the value of a pair in a flow collection. -/
def flowValue (stop : Token) : Nat → Reader Node
  | 0 => failure
  | fuel + 1 => do
    if ← take .value then nodeUnless .flow [.flowEntry, stop] fuel else return .empty

/-- Reads the pairs of a flow mapping. A key alone has an empty value. -/
def flowPairs (first : Bool) : Nat → Reader (List (Node × Node))
  | 0 => failure
  | fuel + 1 => do
    if ← take .flowMappingEnd then return []
    else
      unless first do guard (← take .flowEntry)
      if ← take .flowMappingEnd then return []
      else
        let pair ←
          if ← take .key then
            let key ← nodeUnless .flow [.value, .flowEntry, .flowMappingEnd] fuel
            let value ← flowValue .flowMappingEnd fuel
            pure (key, value)
          else
            let key ← node .flow fuel
            pure (key, .empty)
        return pair :: (← flowPairs false fuel)

end

/-- What a directive says. -/
def directive? : Token → Option Directive
  | .directive d => some d
  | _ => none

/-- Reads the directives before a document, and says whether there are any. -/
def directives : Reader Bool := do
  let given := ((← get).tokens.takeWhile fun t => (directive? t).isSome).filterMap directive?
  let handles ← Handles.ofDirectives? given
  modify fun c => { c with tokens := c.tokens.drop given.length, handles }
  return !given.isEmpty

/-- Reads a document. Behind directives it needs a start mark, and a start mark without a value
stands for an empty one. -/
def document (fuel : Nat) : Reader Node := do
  let directed ← directives
  if ← take .documentStart then nodeUnless .block [.documentStart, .documentEnd] fuel
  else if directed then failure
  else node .block fuel

/-- Nothing but the ends of documents is left. -/
def finish : Reader Unit := do guard ((← get).tokens.all (· == .documentEnd))

end Reader

namespace Node

/-- The document of a text, if it has one. Each token makes at most four calls deep, so the fuel
does not run out. -/
def ofText? (text : String) : Option (Option Node) := do
  let tokens ← Layout.tokens? text.toList
  if tokens.isEmpty then return none
  let read : Reader Node := do
    let node ← Reader.document (4 * tokens.length + 4)
    Reader.finish
    return node
  let (node, cursor) ← read.run { tokens }
  return some (← node.expand? cursor.anchors)

end Node

end ForeignModule.Yaml
