import ForeignModule.Token

/-!
# Brackets in token lists

* `partner?` finds the partner of an opening bracket. It counts brackets of that one kind only.
* `splitTopLevel` and `breakTopLevel?` look for a token outside all brackets. They count brackets
  of all kinds together, and the count may fall below zero.

An arrow is a token of its own, so the `>` in it closes nothing.
-/

namespace ForeignModule.Token

/-- How a kind changes the number of open brackets. -/
def Kind.nesting : Kind → Int
  | .opening _ => 1
  | .closing _ => -1
  | _ => 0

/-- How many tokens stand between an opening bracket and its partner, given what follows the
`passed` tokens behind the bracket and how many further brackets of its kind are open there. -/
def partner? (b : Bracket) (depth passed : Nat) : List Token → Option Nat
  | [] => none
  | t :: rest =>
    if t.kind.closes b then
      match depth with
      | 0 => some passed
      | depth + 1 => partner? b depth (passed + 1) rest
    else partner? b (if t.kind.opens b then depth + 1 else depth) (passed + 1) rest

/-- Takes a bracketed group off the front: what is inside it and what follows it. -/
def group? (b : Bracket) : List Token → Option (List Token × List Token)
  | [] => none
  | t :: rest =>
    if t.kind.opens b then
      (partner? b 0 0 rest).map fun count => (rest.take count, rest.drop (count + 1))
    else none

/-- Cuts a list at every `separator` outside brackets. A separator at the very end opens no
further part, and no tokens make no part. -/
def splitTopLevel (separator : Kind) (depth : Int) : List Token → List (List Token)
  | [] => []
  | t :: rest =>
    let depth := depth + t.kind.nesting
    if depth = 0 ∧ t.kind = separator then [] :: splitTopLevel separator depth rest
    else
      match splitTopLevel separator depth rest with
      | [] => [[t]]
      | part :: parts => (t :: part) :: parts

/-- The tokens before and after the first `target` outside brackets. -/
def breakTopLevel? (target : Kind) (depth : Int) : List Token → Option (List Token × List Token)
  | [] => none
  | t :: rest =>
    if depth = 0 ∧ t.kind = target then some ([], rest)
    else
      (breakTopLevel? target (depth + t.kind.nesting) rest).map fun (before, after) =>
        (t :: before, after)

end ForeignModule.Token
