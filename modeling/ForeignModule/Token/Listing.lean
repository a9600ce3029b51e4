import ForeignModule.Source.Segment

/-!
# The tokens of a source text

The tokens are the token segments of the text, in order, each with its place. A text in which a
literal or a comment is never closed has no tokens but one error.
-/

namespace ForeignModule

/-- A literal or comment that is never closed. Its span runs to the end of the source. -/
structure UnclosedError where
  what : Unclosed
  span : Span
deriving DecidableEq, Repr, Inhabited

namespace UnclosedError

/-- The wording of the error. -/
def message (e : UnclosedError) : String :=
  let what := match e.what with
    | .string => "string literal"
    | .character => "character literal"
    | .comment => "block comment"
  s!"unterminated {what} (line {e.span.line}, column {e.span.column})"

end UnclosedError

namespace Token

/-- The tokens among segments that start at `p`. A token starts its line when none lies before it
on the line where it starts; one that breaks lines counts as such too. -/
def ofSegments (p : Position) (fresh : Bool) : List Segment → List Token
  | [] => []
  | s :: rest =>
    let q := p.after s.text
    let tail := ofSegments q (s.leavesFresh fresh) rest
    match s.role with
    | .token kind =>
      let span : Span := { start := p, stop := q.offset }
      { kind, span, startsLine := fresh || s.breaksLine } :: tail
    | _ => tail

end Token

/-- The tokens of a source text. -/
def tokenize (d : Dialect) (source : String) : Except UnclosedError (List Token) :=
  let cut := Cut.ofSource d source.toList
  match cut.unclosed? with
  | none => .ok (Token.ofSegments {} true cut.segments)
  | some (what, _) =>
    let start := ({} : Position).after cut.text
    .error { what, span := { start, stop := source.utf8ByteSize } }

end ForeignModule
