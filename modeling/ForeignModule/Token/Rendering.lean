import ForeignModule.Token

/-!
# Tokens written out

The text of a token list with as few blanks as keep its words apart: between two words, behind a
comma and around an arrow.
-/

namespace ForeignModule.Token

namespace Kind

/-- The kinds that would run together if nothing stood between them. -/
def isWordlike : Kind → Bool
  | identifier _ | number _ | string _ | character _ | lifetime _ => true
  | _ => false

/-- Does a blank stand between two neighbours? -/
def spaced (left right : Kind) : Bool :=
  (left.isWordlike && right.isWordlike) || left == .comma || left == .arrow || right == .arrow

/-- The text of a list of kinds. -/
def render : List Kind → String
  | [] => ""
  | [k] => k.text
  | left :: right :: rest =>
    left.text ++ (if left.spaced right then " " else "") ++ render (right :: rest)

end Kind

/-- The text of a list of tokens, whatever stood between them in the source. -/
def render (tokens : List Token) : String := Kind.render (tokens.map kind)

end ForeignModule.Token
