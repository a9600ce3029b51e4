import ForeignModule.Proofs.Token.Listing
import ForeignModule.Proofs.Token.Nesting
import ForeignModule.Signature.KotlinFunction

/-!
# Kotlin files and the functions that they export

`Items tokens functions` says that a token list is a sequence of functions that stand outside all braces and of
other items, and lists these functions. Other items and the bodies of functions are `Quiet`: outside braces, no
name with a parameter list follows a `fun` there. It does not in an extension function, a functional interface
or an anonymous function. What stands in braces may be anything.

`ofKotlin_of_items`: the signatures of these functions are read, unless one of them has no result type, and
then the first such function is named, with its line. A name that is written `fun` in backticks is not told apart
from the word that starts a function, so a property of that name can be taken for one (`ofKotlin_escapedName`).
-/

namespace ForeignModule.Signature

namespace KotlinFunction

open Token

/-! ## Types and parameters -/

/-- A name, perhaps with the names of packages and outer classes before it. -/
inductive Qualified : List Token → Prop where
  | name {s : String} (t : Of (.identifier s)) : s ≠ "" → Qualified [t.1]
  | member {s : String} (t : Of (.identifier s)) (dot : Of .dot) {rest : List Token} : s ≠ "" →
      Qualified rest → Qualified (t.1 :: dot.1 :: rest)

/-- A type: a qualified name, perhaps with type arguments, perhaps with a question mark. -/
structure NamedType where
  name : List Token
  arguments : Option (Group .angle)
  mark : Option (Of .question)
  qualified : Qualified name

namespace NamedType

variable (type : NamedType)

/-- The tokens behind the name. -/
def behind : List Token :=
  type.arguments.elim [] Group.tokens ++ (type.mark.map (·.1)).toList

/-- The tokens of a type. -/
def tokens : List Token := type.name ++ type.behind

end NamedType

/-- A parameter as it is written: modifiers, a name and a type. -/
structure Declared where
  modifiers : List Token
  name : String
  nameToken : Of (.identifier name)
  colon : Of .colon
  type : NamedType
  modified : Outer (fun t => t.kind ≠ .colon ∧ t.kind ≠ .comma) modifiers
  nested : ∀ g ∈ type.arguments, Nested g.inside

namespace Declared

variable (p : Declared)

/-- The tokens before the colon. -/
def pattern : List Token := p.modifiers ++ [p.nameToken.1]

/-- The tokens of a parameter. -/
def tokens : List Token := p.pattern ++ p.colon.1 :: p.type.tokens

/-- What a parameter says. -/
def parameter : Parameter := { name := p.name, type := Token.render p.type.tokens }

end Declared

/-! ## Functions -/

/-- A function from its `fun` up to its body, whatever its parameters are. -/
structure Heading where
  fn : Of (.identifier "fun")
  generics : Option (Group .angle)
  name : String
  nameToken : Of (.identifier name)
  list : Group .paren
  result : Option (Of .colon × NamedType)

namespace Heading

variable (h : Heading)

/-- The tokens of the type parameters. -/
def genericTokens : List Token := h.generics.elim [] Group.tokens

/-- The tokens of the colon and the result type. -/
def resultTokens : List Token := h.result.elim [] fun r => r.1.1 :: r.2.tokens

/-- The tokens behind `fun`. -/
def behind : List Token :=
  h.genericTokens ++ h.nameToken.1 :: (h.list.tokens ++ h.resultTokens)

/-- All tokens of a heading. -/
def tokens : List Token := h.fn.1 :: h.behind

/-- What a function with these parameters says. -/
def signature (parameters : List Parameter) : Signature where
  name := h.name
  result := h.result.elim "" fun r => Token.render r.2.tokens
  parameters := parameters

end Heading

/-- A function from its `fun` up to its body. -/
structure Function extends Heading where
  declared : List Declared
  listed : Separated .comma list.inside (declared.map Declared.tokens)

namespace Function

variable (f : Function)

/-- What a function says. Without a result type it says nothing that is of use. -/
def signature : Signature := f.toHeading.signature (f.declared.map Declared.parameter)

/-- What is wrong with a function that has no result type. -/
def violation : Violation := .missingResultType f.name f.fn.1.line

end Function

/-- No name with a parameter list behind it stands at the front, and no type parameters either. -/
inductive Unnamed : List Token → Prop where
  | other {t : Token} {rest : List Token} : t.kind.isIdentifier = false → t.kind ≠ .opening .angle →
      Unnamed (t :: rest)
  | word {t u : Token} {rest : List Token} : t.kind.isIdentifier = true → u.kind ≠ .opening .paren →
      Unnamed (t :: u :: rest)

/-- Tokens whose braces come in pairs, and in which no `fun` outside braces is that of a function with a name
of its own: perhaps behind type parameters, what follows it is `Unnamed`. -/
inductive Quiet : List Token → Prop where
  | nil : Quiet []
  | other {t : Token} {rest : List Token} : t.kind ≠ .opening .brace → t.kind ≠ .closing .brace →
      t.isWord "fun" = false → Quiet rest → Quiet (t :: rest)
  | block (g : Group .brace) {rest : List Token} : Quiet rest → Quiet (g.tokens ++ rest)
  | unnamed (fn : Of (.identifier "fun")) (generics : Option (Group .angle)) {rest : List Token} :
      Unnamed rest → Quiet (generics.elim [] Group.tokens ++ rest) →
      Quiet (fn.1 :: (generics.elim [] Group.tokens ++ rest))

/-- Tokens without braces and without a `fun` are quiet. -/
theorem Quiet.append {tokens rest : List Token} (h : ∀ t ∈ tokens, t.kind ≠ .opening .brace ∧
    t.kind ≠ .closing .brace ∧ t.isWord "fun" = false) (hrest : Quiet rest) : Quiet (tokens ++ rest) := by
  induction tokens with
  | nil => exact hrest
  | cons t tail ih =>
    obtain ⟨ho, hc, hfun⟩ := h t (by simp)
    exact .other ho hc hfun (ih fun u hu => h u (by simp [hu]))

/-- The body of a function: a block, or an expression behind an equals sign. -/
inductive Body : List Token → Prop where
  | block (g : Group .brace) : Body g.tokens
  | expression (equals : Of .equals) {tokens : List Token} : Quiet tokens → Body (equals.1 :: tokens)

/-- What a file consists of, with the functions that it exports in order. -/
inductive Items : List Token → List Function → Prop where
  | nil : Items [] []
  | function (f : Function) {body rest : List Token} {functions : List Function} : Body body →
      Items rest functions → Items (f.tokens ++ (body ++ rest)) (f :: functions)
  | other {tokens rest : List Token} {functions : List Function} : Quiet tokens →
      Items rest functions → Items (tokens ++ rest) functions

/-! ## Reading types and parameters -/

section Types

variable {tokens rest : List Token} {P : Token → Prop}

theorem Qualified.outer (h : Qualified tokens) (hword : ∀ t s, t.kind = .identifier s → P t)
    (hdot : ∀ t, t.kind = .dot → P t) : Outer P tokens := by
  induction h with
  | name t _ => exact .other (by simp [t.2, Kind.nesting]) (hword _ _ t.2) .nil
  | member t dot _ _ ih =>
    exact .other (by simp [t.2, Kind.nesting]) (hword _ _ t.2)
      (.other (by simp [dot.2, Kind.nesting]) (hdot _ dot.2) ih)

/-- A qualified name starts with a word. -/
theorem Qualified.exists_word (h : Qualified tokens) :
    ∃ t s rest, tokens = t :: rest ∧ t.kind = .identifier s ∧ s ≠ "" := by
  cases h with
  | name t hs => exact ⟨t.1, _, _, rfl, t.2, hs⟩
  | member t _ hs _ => exact ⟨t.1, _, _, rfl, t.2, hs⟩

/-- Outside brackets, a type has neither commas nor equals signs. -/
theorem NamedType.outer (type : NamedType) (hnested : ∀ g ∈ type.arguments, Nested g.inside) :
    Outer (fun t => t.kind ≠ .comma ∧ t.kind ≠ .equals) type.tokens := by
  have hname : Outer (fun t => t.kind ≠ .comma ∧ t.kind ≠ .equals) type.name :=
    type.qualified.outer (fun t s ht => by simp [ht]) fun t ht => by simp [ht]
  have hmark : Outer (fun t => t.kind ≠ .comma ∧ t.kind ≠ .equals) (type.mark.map (·.1)).toList := by
    cases type.mark with
    | none => exact .nil
    | some m => exact .other (by simp [m.2, Kind.nesting]) (by simp [m.2]) .nil
  refine hname.append ?_
  unfold NamedType.behind
  cases harguments : type.arguments with
  | none => exact hmark
  | some g =>
    have hgroup := Outer.group g.first.2 g.last.2 (by simp [g.first.2])
      (hnested g (by simp [harguments])) hmark
    simpa [Group.tokens] using hgroup

/-- A qualified name ends where no dot follows. -/
theorem qualifiedName_append (h : Qualified tokens) (hr : ∀ u, rest.head? = some u → u.kind ≠ .dot) :
    qualifiedName (tokens ++ rest) = tokens := by
  induction h with
  | @name s t _ =>
    have hword : t.1.kind.isIdentifier = true := by simp [t.2, Kind.isIdentifier]
    match rest, hr with
    | [], _ => simp [qualifiedName, hword]
    | [u], _ => simp [qualifiedName, hword]
    | u :: v :: more, hr => simp [qualifiedName, hword, hr u rfl]
  | @member s t dot rest' _ hrest ih =>
    have hword : t.1.kind.isIdentifier = true := by simp [t.2, Kind.isIdentifier]
    obtain ⟨u, next, more, rfl, hu, -⟩ := hrest.exists_word
    have hnext : u.kind.isIdentifier = true := by simp [hu, Kind.isIdentifier]
    simp only [List.cons_append] at ih ⊢
    rw [qualifiedName, ih]
    simp [hword, dot.2, hnext]

/-- What stands here is not taken for more of a function's heading. -/
def EndsHeading (rest : List Token) : Prop := ∀ u, rest.head? = some u →
  u.kind ∉ [.dot, .opening .angle, .question, .colon]

/-- A type ends before what follows its function's heading. -/
theorem typeTokens_append (type : NamedType) (hr : EndsHeading rest) :
    typeTokens (type.tokens ++ rest) = type.tokens := by
  have hstop : ∀ u k, rest.head? = some u → u.kind = k →
      k ∉ [.dot, .opening .angle, .question, .colon] := by
    rintro u k hu rfl
    exact hr u hu
  have hname : qualifiedName (type.name ++ (type.behind ++ rest)) = type.name := by
    refine qualifiedName_append type.qualified fun u hu hdot => ?_
    unfold NamedType.behind at hu
    cases harguments : type.arguments with
    | some g =>
      obtain rfl : g.first.1 = u := by simpa [harguments, Group.tokens] using hu
      simp [g.first.2] at hdot
    | none =>
      cases hmark : type.mark with
      | some m =>
        obtain rfl : m.1 = u := by simpa [harguments, hmark] using hu
        simp [m.2] at hdot
      | none => simpa using hstop u .dot (by simpa [harguments, hmark] using hu) hdot
  have hne : type.name.isEmpty = false := by
    obtain ⟨t, s, more, hname, -⟩ := type.qualified.exists_word
    simp [hname]
  -- The mark is found behind the arguments, and nothing is taken for one if there is none.
  have hfound : ((type.mark.map (·.1)).toList ++ rest).head?.filter (·.kind == .question)
      = type.mark.map (·.1) := by
    cases hmark : type.mark with
    | some m => simp [m.2]
    | none =>
      cases rest with
      | nil => rfl
      | cons u tail =>
        have hquestion : u.kind ≠ .question := by
          intro hu
          simpa using hstop u _ rfl hu
        simp [hquestion]
  unfold typeTokens
  simp only [NamedType.tokens, List.append_assoc, hname, hne, Bool.false_eq_true, if_false,
    List.drop_left]
  unfold NamedType.behind
  cases harguments : type.arguments with
  | some g =>
    have htake : (g.tokens ++ ((type.mark.map (·.1)).toList ++ rest)).take (g.inside.length + 2)
        = g.tokens := by
      rw [← Group.length_tokens, List.take_left]
    simp only [Option.elim_some, List.append_assoc, Group.group?_tokens, htake, List.drop_left,
      hfound]
  | none =>
    have hgroup : group? .angle ((type.mark.map (·.1)).toList ++ rest) = none := by
      refine group?_eq_none fun u hu hangle => ?_
      cases hmark : type.mark with
      | some m =>
        obtain rfl : m.1 = u := by simpa [hmark] using hu
        simp [m.2] at hangle
      | none => simpa using hstop u _ (by simpa [hmark] using hu) hangle
    simp only [Option.elim_none, List.nil_append, hgroup, List.length_nil, List.drop_zero, hfound]

/-- The text of a type is not empty. -/
theorem isEmpty_render (type : NamedType) : (Token.render type.tokens).isEmpty = false := by
  obtain ⟨t, s, rest, hname, ht, hs⟩ := type.qualified.exists_word
  rw [NamedType.tokens, hname, ← Bool.not_eq_true, String.isEmpty_iff, List.cons_append]
  cases rest ++ type.behind with
  | nil => simpa [Token.render, Kind.render, ht, Kind.text] using hs
  | cons u more => simp [Token.render, Kind.render, ht, Kind.text, hs]

/-- Outside brackets, a parameter has no comma. -/
theorem Declared.outer (p : Declared) : Outer (·.kind ≠ .comma) p.tokens := by
  have hname : Outer (·.kind ≠ .comma) [p.nameToken.1] :=
    .other (by simp [p.nameToken.2, Kind.nesting]) (by simp [p.nameToken.2]) .nil
  have htype : Outer (·.kind ≠ .comma) (p.colon.1 :: p.type.tokens) :=
    .other (by simp [p.colon.2, Kind.nesting]) (by simp [p.colon.2])
      ((p.type.outer p.nested).imp fun t ht => ht.1)
  exact ((p.modified.imp fun t ht => ht.2).append hname).append htype

theorem parameter_declared (p : Declared) : parameter p.tokens = p.parameter := by
  have hcolon : p.colon.1.kind = .colon := p.colon.2
  have hpattern : Outer (·.kind ≠ .colon) p.pattern :=
    (p.modified.imp fun t ht => ht.1).append
      (.other (by simp [p.nameToken.2, Kind.nesting]) (by simp [p.nameToken.2]) .nil)
  have hequals : breakTopLevel? .equals 0 p.type.tokens = none :=
    breakTopLevel?_eq_none ((p.type.outer p.nested).imp fun t ht => ht.2)
  have hname : p.pattern.reverse.findSome? Token.identifier? = some p.name := by
    simp [Declared.pattern, Token.identifier?, p.nameToken.2, Kind.identifier?]
  rw [parameter, Declared.tokens, breakTopLevel?_append hpattern hcolon]
  simp only [hname, Option.getD_some, hequals]
  rfl

end Types

/-! ## Reading a function -/

section Reading

variable {tokens rest : List Token} {line depth : Nat}

/-- What follows the name and the parameter list of a function. -/
theorem nameAndList?_heading (h : Heading) : nameAndList? (h.behind ++ rest)
    = some (h.name, h.list.inside, h.resultTokens ++ rest,
        h.genericTokens.length + h.list.inside.length + 3) := by
  have hname : h.nameToken.1.identifier? = some h.name := by
    simp [Token.identifier?, h.nameToken.2, Kind.identifier?]
  have hgenerics : typeParameters? (h.genericTokens ++ h.nameToken.1 ::
      (h.list.tokens ++ (h.resultTokens ++ rest))) = some h.genericTokens.length := by
    refine length_optionalGroup h.generics fun t ht => ?_
    obtain rfl : h.nameToken.1 = t := by simpa using ht
    simp [h.nameToken.2]
  have hsplit : h.behind ++ rest = h.genericTokens ++ h.nameToken.1 ::
      (h.list.tokens ++ (h.resultTokens ++ rest)) := by
    simp [Heading.behind]
  rw [hsplit, nameAndList?, hgenerics]
  simp only [Option.bind_eq_bind, Option.bind_some, List.drop_left, List.head?_cons, List.tail_cons,
    hname, Group.group?_tokens]
  rfl

/-- A function is read with the parameters of its list, unless it has no result type. -/
theorem function?_heading (line : Nat) (h : Heading) (hr : EndsHeading rest) :
    function? line (h.behind ++ rest) =
      if h.result.isSome then
        .ok (some (h.signature (Parameter.list parameter h.list.inside), h.behind.length))
      else .error (.missingResultType h.name line) := by
  unfold function?
  simp only [nameAndList?_heading]
  cases hresult : h.result with
  | none =>
    have hcolon : rest.head?.any (·.kind == .colon) = false := by
      cases rest with
      | nil => rfl
      | cons u tail =>
        have hu := hr u rfl
        simp only [List.mem_cons, not_or] at hu
        simp [hu]
    have hempty : (Token.render []).isEmpty = true := rfl
    simp only [Heading.resultTokens, hresult, Option.elim_none, List.nil_append, hcolon,
      Bool.false_eq_true, if_false, hempty, if_true, Option.isSome_none]
  | some r =>
    have hcolon : r.1.1.kind = .colon := r.1.2
    simp only [Heading.resultTokens, hresult, Option.elim_some, List.cons_append, List.head?_cons,
      Option.any_some, hcolon, beq_self_eq_true, if_true, List.tail_cons, typeTokens_append r.2 hr,
      isEmpty_render, Bool.false_eq_true, if_false, Option.isSome_some]
    simp [Heading.signature, Heading.behind, Heading.resultTokens, hresult]
    omega

/-- The parameters of a list are read as they are declared. -/
theorem list_declared (f : Function) :
    Parameter.list parameter f.list.inside = f.declared.map Declared.parameter := by
  rw [Parameter.list, f.listed.splitTopLevel rfl, f.listed.filter_isEmpty, List.map_map]
  exact List.map_congr_left fun p _ => parameter_declared p

/-- Where no name with a parameter list follows `fun`, no function is found. -/
theorem function?_unnamed (line : Nat) (generics : Option (Group .angle)) (h : Unnamed rest) :
    function? line (generics.elim [] Group.tokens ++ rest) = .ok none := by
  have hgenerics : typeParameters? (generics.elim [] Group.tokens ++ rest)
      = some (generics.elim [] Group.tokens).length := by
    refine length_optionalGroup generics fun t ht => ?_
    cases h with
    | other _ hangle =>
      obtain rfl := Option.some.inj ht
      exact hangle
    | word hword _ =>
      obtain rfl := Option.some.inj ht
      rintro hk
      simp [hk, Kind.isIdentifier] at hword
  have hnone : nameAndList? (generics.elim [] Group.tokens ++ rest) = none := by
    rw [nameAndList?, hgenerics]
    simp only [Option.bind_eq_bind, Option.bind_some, List.drop_left]
    cases h with
    | @other t tail hword _ =>
      have ht : t.identifier? = none := by
        cases hk : t.kind <;> simp_all [Token.identifier?, Kind.identifier?, Kind.isIdentifier]
      simp [ht]
    | @word t u tail _ hparen =>
      have hgroup : group? .paren (u :: tail) = none := by
        refine group?_eq_none fun v hv => ?_
        obtain rfl := Option.some.inj hv
        exact hparen
      cases t.identifier? <;> simp [hgroup]
  rw [function?, hnone]

/-! ## Reading a file -/

/-- Tokens that belong to the function before are passed over. -/
theorem functions_append (tokens rest : List Token) :
    functions depth tokens.length (tokens ++ rest) = functions depth 0 rest := by
  induction tokens with
  | nil => rfl
  | cons t tail ih => exact ih

/-- Inside braces nothing is found, whatever stands there. -/
theorem functions_hidden (h : Balanced .brace tokens) :
    functions (depth + 1) 0 (tokens ++ rest) = functions (depth + 1) 0 rest := by
  induction h generalizing depth rest with
  | nil => rfl
  | @other t tail ho hc _ ih =>
    have hopen : t.kind.opens .brace = false := by simpa [← Bool.not_eq_true] using ho
    have hclose : t.kind.closes .brace = false := by simpa [← Bool.not_eq_true] using hc
    rw [List.cons_append, functions]
    simp [hopen, hclose, ih]
  | @group first last inside tail ho hc _ _ ihi iht =>
    -- The pair inside opens one more brace and closes it again.
    rw [List.cons_append, List.append_assoc, List.cons_append, functions]
    simp only [ho, Kind.opens, beq_self_eq_true, if_true, Nat.add_eq_zero_iff, Nat.succ_ne_self,
      and_false, false_and, if_false]
    rw [ihi, functions]
    simp [hc, Kind.opens, Kind.closes, iht]

theorem functions_block (g : Group .brace) :
    functions 0 0 (g.tokens ++ rest) = functions 0 0 rest := by
  have hopen : g.first.1.kind.opens .brace = true := by simp [g.first.2]
  have hinside : functions 1 0 (g.inside ++ g.last.1 :: rest) = functions 0 0 rest := by
    rw [functions_hidden g.balanced, functions]
    simp [g.last.2, Kind.opens, Kind.closes, isWord]
  simp only [Group.tokens, List.cons_append, List.append_assoc, List.nil_append]
  rw [functions]
  simp [hopen, hinside]

/-- In quiet tokens nothing is found. -/
theorem functions_quiet (h : Quiet tokens) :
    functions 0 0 (tokens ++ rest) = functions 0 0 rest := by
  induction h with
  | nil => rfl
  | @other t tail ho hc hfun _ ih =>
    have hopen : t.kind.opens .brace = false := by simpa [← Bool.not_eq_true] using ho
    have hclose : t.kind.closes .brace = false := by simpa [← Bool.not_eq_true] using hc
    rw [List.cons_append, functions]
    simp [hopen, hclose, hfun, ih]
  | block g _ ih => rw [List.append_assoc, functions_block, ih]
  | @unnamed fn generics tail hunnamed _ ih =>
    have hword : fn.1.isWord "fun" = true := by simp [isWord, fn.2]
    have hopen : fn.1.kind.opens .brace = false := by simp [fn.2, Kind.opens]
    have hclose : fn.1.kind.closes .brace = false := by simp [fn.2, Kind.closes]
    have hafter : Unnamed (tail ++ rest) := by
      cases hunnamed with
      | other hk hangle => exact .other hk hangle
      | word hk hparen => exact .word hk hparen
    have hnone := function?_unnamed fn.1.line generics hafter
    rw [List.append_assoc] at ih
    rw [List.cons_append, List.append_assoc, functions]
    simp [hword, hopen, hclose, hnone, ih]

theorem Body.head (h : Body tokens) : EndsHeading (tokens ++ rest) := by
  intro u hu
  cases h with
  | block g =>
    obtain rfl : g.first.1 = u := by simpa [Group.tokens] using hu
    simp [g.first.2]
  | expression equals _ =>
    obtain rfl : equals.1 = u := by simpa using hu
    simp [equals.2]

theorem Body.quiet (h : Body tokens) : Quiet tokens := by
  cases h with
  | block g => simpa using Quiet.block g .nil
  | expression equals hquiet =>
    exact .other (by simp [equals.2]) (by simp [equals.2]) (by simp [isWord, equals.2]) hquiet

/-- A function is found where it stands, or ends the search. -/
theorem functions_heading (h : Heading) (hr : EndsHeading rest) :
    functions 0 0 (h.tokens ++ rest) =
      if h.result.isSome then
        (functions 0 0 rest).map (h.signature (Parameter.list parameter h.list.inside) :: ·)
      else .error (.missingResultType h.name h.fn.1.line) := by
  have hword : h.fn.1.isWord "fun" = true := by simp [isWord, h.fn.2]
  have hopen : h.fn.1.kind.opens .brace = false := by simp [h.fn.2, Kind.opens]
  have hclose : h.fn.1.kind.closes .brace = false := by simp [h.fn.2, Kind.closes]
  have hread := function?_heading h.fn.1.line h hr
  rw [Heading.tokens, List.cons_append, functions]
  simp only [hopen, hclose, Bool.false_eq_true, if_false, hword, and_self, if_true, hread]
  cases hresult : h.result with
  | none => simp
  | some r => simp [functions_append]

theorem functions_function (f : Function) (hr : EndsHeading rest) :
    functions 0 0 (f.tokens ++ rest) =
      if f.result.isSome then (functions 0 0 rest).map (f.signature :: ·)
      else .error f.violation := by
  have hsignature : f.toHeading.signature (Parameter.list parameter f.list.inside) = f.signature := by
    rw [list_declared]
    rfl
  rw [← hsignature]
  exact functions_heading f.toHeading hr

/-- The scan finds exactly the functions of a file, up to the first that has no result type. -/
theorem functions_of_items {fs : List Function} (h : Items tokens fs) :
    functions 0 0 tokens = match fs.find? (·.result.isNone) with
      | some f => .error f.violation
      | none => .ok (fs.map Function.signature) := by
  induction h with
  | nil => rfl
  | @function f body rest fs hbody _ ih =>
    rw [functions_function f hbody.head, functions_quiet hbody.quiet, ih]
    cases hresult : f.result with
    | none => simp [hresult]
    | some r =>
      simp only [Option.isSome_some, if_true, List.find?_cons, hresult, Option.isNone_some]
      cases fs.find? (·.result.isNone) <;> rfl
  | other hquiet _ ih => rw [functions_quiet hquiet, ih]

end Reading

end KotlinFunction

/-- From a file of items exactly the signatures of its functions are read, in order and with repetitions. If one
of them has no result type, then the first such function is named with its line instead. -/
theorem ofKotlin_of_items {source : String} {tokens : List Token}
    {functions : List KotlinFunction.Function} (htokens : tokenize .kotlin source = .ok tokens)
    (h : KotlinFunction.Items tokens functions) :
    ofKotlin source = match functions.find? (·.result.isNone) with
      | some f => .error (.missingResultType f.name f.fn.1.line)
      | none => .ok (functions.map KotlinFunction.Function.signature) := by
  simp only [ofKotlin, htokens, KotlinFunction.functions_of_items h]
  rfl

/-! ### Functions that are exported and others -/

namespace KotlinFunction

open Token

/-- A class with a member function, an extension function, an anonymous function, and one that is exported. -/
def mixedSource : String :=
  "class A \x7b fun m(x: Int) \x7d\nfun String.shout(): String = this\nval g = fun(y: Int) = y\n" ++
    "inline fun <T> f(vararg xs: List<T>, n: kotlin.Int): Map<T, Int>? \x7b go(n) \x7d"

/-- The same, and behind it a function without a result type. -/
def untypedSource : String := mixedSource ++ "\nfun h() = 0\n"

/-- The body of the class. -/
def classBody : Group .brace where
  first := ⟨⟨.opening .brace, ⟨⟨8, 1, 9⟩, 9⟩, false⟩, rfl⟩
  inside := [⟨.identifier "fun", ⟨⟨10, 1, 11⟩, 13⟩, false⟩, ⟨.identifier "m", ⟨⟨14, 1, 15⟩, 15⟩, false⟩,
    ⟨.opening .paren, ⟨⟨15, 1, 16⟩, 16⟩, false⟩, ⟨.identifier "x", ⟨⟨16, 1, 17⟩, 17⟩, false⟩,
    ⟨.colon, ⟨⟨17, 1, 18⟩, 18⟩, false⟩, ⟨.identifier "Int", ⟨⟨19, 1, 20⟩, 22⟩, false⟩,
    ⟨.closing .paren, ⟨⟨22, 1, 23⟩, 23⟩, false⟩]
  last := ⟨⟨.closing .brace, ⟨⟨24, 1, 25⟩, 25⟩, false⟩, rfl⟩
  balanced := .of_forall (by decide)

/-- What stands behind the `fun` of the extension function, up to the next one. -/
def extensionTokens : List Token :=
  [⟨.identifier "String", ⟨⟨30, 2, 5⟩, 36⟩, false⟩, ⟨.dot, ⟨⟨36, 2, 11⟩, 37⟩, false⟩,
    ⟨.identifier "shout", ⟨⟨37, 2, 12⟩, 42⟩, false⟩, ⟨.opening .paren, ⟨⟨42, 2, 17⟩, 43⟩, false⟩,
    ⟨.closing .paren, ⟨⟨43, 2, 18⟩, 44⟩, false⟩, ⟨.colon, ⟨⟨44, 2, 19⟩, 45⟩, false⟩,
    ⟨.identifier "String", ⟨⟨46, 2, 21⟩, 52⟩, false⟩, ⟨.equals, ⟨⟨53, 2, 28⟩, 54⟩, false⟩,
    ⟨.identifier "this", ⟨⟨55, 2, 30⟩, 59⟩, false⟩, ⟨.identifier "val", ⟨⟨60, 3, 1⟩, 63⟩, true⟩,
    ⟨.identifier "g", ⟨⟨64, 3, 5⟩, 65⟩, false⟩, ⟨.equals, ⟨⟨66, 3, 7⟩, 67⟩, false⟩]

/-- What stands behind the `fun` of the anonymous function, up to the next one. -/
def anonymousTokens : List Token :=
  [⟨.opening .paren, ⟨⟨71, 3, 12⟩, 72⟩, false⟩, ⟨.identifier "y", ⟨⟨72, 3, 13⟩, 73⟩, false⟩,
    ⟨.colon, ⟨⟨73, 3, 14⟩, 74⟩, false⟩, ⟨.identifier "Int", ⟨⟨75, 3, 16⟩, 78⟩, false⟩,
    ⟨.closing .paren, ⟨⟨78, 3, 19⟩, 79⟩, false⟩, ⟨.equals, ⟨⟨80, 3, 21⟩, 81⟩, false⟩,
    ⟨.identifier "y", ⟨⟨82, 3, 23⟩, 83⟩, false⟩, ⟨.identifier "inline", ⟨⟨84, 4, 1⟩, 90⟩, true⟩]

/-- The tokens before the function that is exported. -/
def otherTokens : List Token :=
  ⟨.identifier "class", ⟨⟨0, 1, 1⟩, 5⟩, true⟩ :: ⟨.identifier "A", ⟨⟨6, 1, 7⟩, 7⟩, false⟩ ::
    (classBody.tokens ++ ⟨.identifier "fun", ⟨⟨26, 2, 1⟩, 29⟩, true⟩ :: (extensionTokens ++
      ⟨.identifier "fun", ⟨⟨68, 3, 9⟩, 71⟩, false⟩ :: anonymousTokens))

/-- Its first parameter. -/
def listParameter : Declared where
  modifiers := [⟨.identifier "vararg", ⟨⟨101, 4, 18⟩, 107⟩, false⟩]
  name := "xs"
  nameToken := ⟨⟨.identifier "xs", ⟨⟨108, 4, 25⟩, 110⟩, false⟩, rfl⟩
  colon := ⟨⟨.colon, ⟨⟨110, 4, 27⟩, 111⟩, false⟩, rfl⟩
  type :=
    { name := [⟨.identifier "List", ⟨⟨112, 4, 29⟩, 116⟩, false⟩]
      arguments := some
        { first := ⟨⟨.opening .angle, ⟨⟨116, 4, 33⟩, 117⟩, false⟩, rfl⟩
          inside := [⟨.identifier "T", ⟨⟨117, 4, 34⟩, 118⟩, false⟩]
          last := ⟨⟨.closing .angle, ⟨⟨118, 4, 35⟩, 119⟩, false⟩, rfl⟩
          balanced := .of_forall (by decide) }
      mark := none
      qualified := .name ⟨_, rfl⟩ (by decide) }
  modified := .of_forall (by decide)
  nested := by
    intro g hg
    injection hg with hg
    exact hg ▸ .of_forall (by decide)

/-- Its second parameter. -/
def numberParameter : Declared where
  modifiers := []
  name := "n"
  nameToken := ⟨⟨.identifier "n", ⟨⟨121, 4, 38⟩, 122⟩, false⟩, rfl⟩
  colon := ⟨⟨.colon, ⟨⟨122, 4, 39⟩, 123⟩, false⟩, rfl⟩
  type :=
    { name := [⟨.identifier "kotlin", ⟨⟨124, 4, 41⟩, 130⟩, false⟩, ⟨.dot, ⟨⟨130, 4, 47⟩, 131⟩, false⟩,
        ⟨.identifier "Int", ⟨⟨131, 4, 48⟩, 134⟩, false⟩]
      arguments := none
      mark := none
      qualified := .member ⟨_, rfl⟩ ⟨_, rfl⟩ (by decide) (.name ⟨_, rfl⟩ (by decide)) }
  modified := .nil
  nested := nofun

/-- Between its parentheses. -/
theorem listed_parameters : Separated .comma
    (listParameter.tokens ++ ⟨.comma, ⟨⟨119, 4, 36⟩, 120⟩, false⟩ :: numberParameter.tokens)
    ([listParameter, numberParameter].map Declared.tokens) :=
  .cons (by simp [Declared.tokens]) listParameter.outer rfl
    (.single (by simp [Declared.tokens]) numberParameter.outer)

/-- The function that is exported. -/
def exportedFunction : Function where
  fn := ⟨⟨.identifier "fun", ⟨⟨91, 4, 8⟩, 94⟩, false⟩, rfl⟩
  generics := some
    { first := ⟨⟨.opening .angle, ⟨⟨95, 4, 12⟩, 96⟩, false⟩, rfl⟩
      inside := [⟨.identifier "T", ⟨⟨96, 4, 13⟩, 97⟩, false⟩]
      last := ⟨⟨.closing .angle, ⟨⟨97, 4, 14⟩, 98⟩, false⟩, rfl⟩
      balanced := .of_forall (by decide) }
  name := "f"
  nameToken := ⟨⟨.identifier "f", ⟨⟨99, 4, 16⟩, 100⟩, false⟩, rfl⟩
  list :=
    { first := ⟨⟨.opening .paren, ⟨⟨100, 4, 17⟩, 101⟩, false⟩, rfl⟩
      inside :=
        listParameter.tokens ++ ⟨.comma, ⟨⟨119, 4, 36⟩, 120⟩, false⟩ :: numberParameter.tokens
      last := ⟨⟨.closing .paren, ⟨⟨134, 4, 51⟩, 135⟩, false⟩, rfl⟩
      balanced := (listed_parameters.nested rfl).balanced .paren }
  declared := [listParameter, numberParameter]
  result := some (⟨⟨.colon, ⟨⟨135, 4, 52⟩, 136⟩, false⟩, rfl⟩,
    { name := [⟨.identifier "Map", ⟨⟨137, 4, 54⟩, 140⟩, false⟩]
      arguments := some
        { first := ⟨⟨.opening .angle, ⟨⟨140, 4, 57⟩, 141⟩, false⟩, rfl⟩
          inside := [⟨.identifier "T", ⟨⟨141, 4, 58⟩, 142⟩, false⟩, ⟨.comma, ⟨⟨142, 4, 59⟩, 143⟩, false⟩,
            ⟨.identifier "Int", ⟨⟨144, 4, 61⟩, 147⟩, false⟩]
          last := ⟨⟨.closing .angle, ⟨⟨147, 4, 64⟩, 148⟩, false⟩, rfl⟩
          balanced := .of_forall (by decide) }
      mark := some ⟨⟨.question, ⟨⟨148, 4, 65⟩, 149⟩, false⟩, rfl⟩
      qualified := .name ⟨_, rfl⟩ (by decide) })
  listed := listed_parameters

/-- Its body. -/
def exportedBody : Group .brace where
  first := ⟨⟨.opening .brace, ⟨⟨150, 4, 67⟩, 151⟩, false⟩, rfl⟩
  inside := [⟨.identifier "go", ⟨⟨152, 4, 69⟩, 154⟩, false⟩, ⟨.opening .paren, ⟨⟨154, 4, 71⟩, 155⟩, false⟩,
    ⟨.identifier "n", ⟨⟨155, 4, 72⟩, 156⟩, false⟩, ⟨.closing .paren, ⟨⟨156, 4, 73⟩, 157⟩, false⟩]
  last := ⟨⟨.closing .brace, ⟨⟨158, 4, 75⟩, 159⟩, false⟩, rfl⟩
  balanced := .of_forall (by decide)

/-- The function without a result type. -/
def untypedFunction : Function where
  fn := ⟨⟨.identifier "fun", ⟨⟨160, 5, 1⟩, 163⟩, true⟩, rfl⟩
  generics := none
  name := "h"
  nameToken := ⟨⟨.identifier "h", ⟨⟨164, 5, 5⟩, 165⟩, false⟩, rfl⟩
  list :=
    { first := ⟨⟨.opening .paren, ⟨⟨165, 5, 6⟩, 166⟩, false⟩, rfl⟩
      inside := []
      last := ⟨⟨.closing .paren, ⟨⟨166, 5, 7⟩, 167⟩, false⟩, rfl⟩
      balanced := .nil }
  declared := []
  result := none
  listed := .nil

/-- Its body. -/
def untypedBody : List Token :=
  [⟨.equals, ⟨⟨168, 5, 9⟩, 169⟩, false⟩, ⟨.number "0", ⟨⟨170, 5, 11⟩, 171⟩, false⟩]

theorem quiet_otherTokens : Quiet otherTokens := by
  have hanonymous : Quiet (anonymousTokens ++ []) := .append (by decide) .nil
  have hextension : Quiet (extensionTokens ++ _) := .append (by decide)
    (.unnamed ⟨⟨.identifier "fun", ⟨⟨68, 3, 9⟩, 71⟩, false⟩, rfl⟩ none (.other rfl (by decide)) hanonymous)
  have hclass : Quiet ([⟨.identifier "class", ⟨⟨0, 1, 1⟩, 5⟩, true⟩, ⟨.identifier "A", ⟨⟨6, 1, 7⟩, 7⟩, false⟩]
      ++ _) := .append (by decide)
    (.block classBody (.unnamed ⟨⟨.identifier "fun", ⟨⟨26, 2, 1⟩, 29⟩, true⟩, rfl⟩ none
      (.word rfl (by decide)) hextension))
  exact hclass

theorem items_mixedTokens {rest : List Token} {functions : List Function} (h : Items rest functions) :
    Items (otherTokens ++ (exportedFunction.tokens ++ (exportedBody.tokens ++ rest)))
      (exportedFunction :: functions) :=
  .other quiet_otherTokens (.function exportedFunction (.block exportedBody) h)

theorem items_untypedTokens : Items (untypedFunction.tokens ++ (untypedBody ++ [])) [untypedFunction] :=
  .function untypedFunction
    (.expression ⟨_, rfl⟩ (.other (by decide) (by decide) (by decide) .nil)) .nil

end KotlinFunction

/-- Neither members, extension functions nor anonymous functions are exported, and a function that is exported
needs a result type. -/
theorem ofKotlin_mixedSource :
    ofKotlin KotlinFunction.mixedSource = .ok
      [{ name := "f", result := "Map<T, Int>?", parameters := [⟨"xs", "List<T>"⟩, ⟨"n", "kotlin.Int"⟩] }] ∧
    ofKotlin KotlinFunction.untypedSource = .error (.missingResultType "h" 5) := by
  constructor
  · rw [ofKotlin_of_items (Token.tokenize_eq_ok (by decide +kernel))
      (KotlinFunction.items_mixedTokens .nil)]
    exact congrArg Except.ok (by decide +kernel)
  · rw [ofKotlin_of_items (Token.tokenize_eq_ok (by decide +kernel))
      (KotlinFunction.items_mixedTokens KotlinFunction.items_untypedTokens)]
    rfl

/-! ### A property named like the word for functions -/

namespace KotlinFunction

/-- A property with the name `fun`, and how its value is read. -/
def escapedSource : String := "val \x60fun\x60 get() = 3\n"

end KotlinFunction

/-- The property is taken for a function without a result type. -/
theorem ofKotlin_escapedName :
    (tokenize .kotlin KotlinFunction.escapedSource).toOption.map (·.map Token.kind) = some
      [.identifier "val", .identifier "fun", .identifier "get", .opening .paren, .closing .paren, .equals,
        .number "3"] ∧
    ofKotlin KotlinFunction.escapedSource = .error (.missingResultType "get" 1) := by
  constructor
  · decide +kernel
  · have herror : (match ofKotlin KotlinFunction.escapedSource with
        | .error violation => some violation
        | .ok _ => none) = some (.missingResultType "get" 1) := by decide +kernel
    cases hread : ofKotlin KotlinFunction.escapedSource with
    | error violation => simpa [hread] using herror
    | ok signatures => simp [hread] at herror

end ForeignModule.Signature
