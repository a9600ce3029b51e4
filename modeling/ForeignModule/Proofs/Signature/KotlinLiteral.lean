import ForeignModule.Proofs.Token.KotlinLiteral
import ForeignModule.Proofs.Token.Nesting
import ForeignModule.Signature.KotlinFunction

/-!
# What string literals hide

The grammar of Kotlin asks neither what a string literal holds nor where a token stands. So of tokens
that have lost both (`Token.veiled`) it finds the same functions (`headers_veiled`), and whatever a
literal holds makes no difference to them (`ofKotlin_literal`).
-/

namespace ForeignModule

open Source Token

namespace Token

/-- The kind without what a string literal holds. -/
def Kind.veiled : Kind → Kind
  | .string _ => .string ""
  | k => k

/-- The token without what a string literal holds, and without its place. -/
def veiled (t : Token) : Token := ⟨t.kind.veiled, default, false⟩

section

variable {k : Kind} {b : Bracket} {t : Token} {tokens tokens' : List Token}

@[simp] theorem Kind.opens_veiled : k.veiled.opens b = k.opens b := by cases k <;> rfl

@[simp] theorem Kind.closes_veiled : k.veiled.closes b = k.closes b := by cases k <;> rfl

@[simp] theorem Kind.nesting_veiled : k.veiled.nesting = k.nesting := by cases k <;> rfl

@[simp] theorem Kind.identifier?_veiled : k.veiled.identifier? = k.identifier? := by cases k <;> rfl

@[simp] theorem Kind.isIdentifier_veiled : k.veiled.isIdentifier = k.isIdentifier := by cases k <;> rfl

@[simp] theorem Kind.isWordlike_veiled : k.veiled.isWordlike = k.isWordlike := by cases k <;> rfl

@[simp] theorem Kind.veiled_eq_dot : k.veiled = .dot ↔ k = .dot := by cases k <;> simp [veiled]

@[simp] theorem Kind.veiled_eq_comma : k.veiled = .comma ↔ k = .comma := by cases k <;> simp [veiled]

@[simp] theorem Kind.veiled_beq_colon : (k.veiled == .colon) = (k == .colon) := by cases k <;> rfl

@[simp] theorem Kind.veiled_beq_question : (k.veiled == .question) = (k == .question) := by
  cases k <;> rfl

theorem Kind.spaced_veiled (left right : Kind) : left.veiled.spaced right.veiled = left.spaced right := by
  cases left <;> cases right <;> rfl

/-- A literal is written with quotes, whatever it holds. -/
theorem Kind.text_veiled_eq_empty : k.veiled.text = "" ↔ k.text = "" := by
  cases k with
  | string s => simp [veiled, Kind.text, String.append_eq_empty_iff]
  | _ => rfl

@[simp] theorem kind_veiled : t.veiled.kind = t.kind.veiled := rfl

@[simp] theorem identifier?_veiled : t.veiled.identifier? = t.identifier? := Kind.identifier?_veiled

@[simp] theorem isWord_veiled (s : String) : t.veiled.isWord s = t.isWord s := by
  obtain ⟨kind, span, startsLine⟩ := t
  cases kind <;> rfl

@[simp] theorem group?_veiled (tokens : List Token) : group? b (tokens.map veiled)
    = (group? b tokens).map fun group => (group.1.map veiled, group.2.map veiled) :=
  group?_map (f := veiled) (fun _ => Kind.opens_veiled) (fun _ => Kind.closes_veiled) tokens

theorem Kind.render_veiled_eq_empty (kinds : List Kind) :
    render (kinds.map veiled) = "" ↔ render kinds = "" := by
  induction kinds with
  | nil => rfl
  | cons left kinds ih =>
    cases kinds with
    | nil => exact text_veiled_eq_empty
    | cons right kinds =>
      simp only [List.map_cons] at ih
      simp only [List.map_cons, render, spaced_veiled, String.append_eq_empty_iff,
        text_veiled_eq_empty, ih]

theorem render_veiled_eq_empty (tokens : List Token) :
    render (tokens.map veiled) = "" ↔ render tokens = "" := by
  have hkinds := Kind.render_veiled_eq_empty (tokens.map kind)
  rw [List.map_map] at hkinds
  rw [render, List.map_map]
  exact hkinds

end

end Token

namespace Signature

/-- What the function is called, and how many parameters it has. -/
def header (s : Signature) : String × Nat := (s.name, s.arity)

namespace KotlinFunction

theorem qualifiedName_veiled (tokens : List Token) :
    qualifiedName (tokens.map veiled) = (qualifiedName tokens).map veiled := by
  -- The cases of `qualifiedName`: the name goes on behind a dot, it ends, or there is none.
  induction tokens using qualifiedName.induct with
  | case1 name dot next rest hname hdot ih =>
    simp only [List.map_cons] at ih
    simp [qualifiedName, hname, hdot, ih]
  | case2 name dot next rest hname hdot => simp [qualifiedName, hname, hdot]
  | case3 name dot next rest hname => simp [qualifiedName, hname]
  | case4 name tail hshort hname | case5 name tail hshort hname =>
    match tail with
    | [] | [_] => simp [qualifiedName, hname]
    | dot :: next :: rest => exact (hshort dot next rest rfl).elim
  | case6 => rfl

theorem typeTokens_veiled (tokens : List Token) :
    typeTokens (tokens.map veiled) = (typeTokens tokens).map veiled := by
  unfold typeTokens
  simp only [qualifiedName_veiled, List.isEmpty_map, List.length_map, ← List.map_drop, group?_veiled]
  split
  · rfl
  · cases group? .angle (tokens.drop (qualifiedName tokens).length) <;>
      simp [Option.filter_map, Option.toList_map, Function.comp_def]

theorem typeParameters?_veiled (tokens : List Token) :
    typeParameters? (tokens.map veiled) = typeParameters? tokens := by
  unfold typeParameters?
  simp [Function.comp_def, Option.any_map]

theorem nameAndList?_veiled (tokens : List Token) : nameAndList? (tokens.map veiled)
    = (nameAndList? tokens).map fun (name, inside, after, taken) =>
      (name, inside.map veiled, after.map veiled, taken) := by
  unfold nameAndList?
  rw [typeParameters?_veiled]
  cases typeParameters? tokens with
  | none => rfl
  | some before =>
    simp only [Option.bind_eq_bind, Option.bind_some, ← List.map_drop, ← List.map_tail, List.head?_map,
      group?_veiled]
    cases (tokens.drop before).head? with
    | none => rfl
    | some t =>
      cases hname : t.identifier? with
      | none => simp [hname]
      | some name => cases group? .paren (tokens.drop before).tail <;> simp [hname]

theorem length_list_veiled (inside : List Token) :
    (Parameter.list parameter (inside.map veiled)).length
      = (Parameter.list parameter inside).length := by
  have hsplit : splitTopLevel .comma 0 (inside.map veiled)
      = (splitTopLevel .comma 0 inside).map (List.map veiled) :=
    splitTopLevel_map (fun _ => Kind.nesting_veiled) (fun _ => Kind.veiled_eq_comma) 0 inside
  simp [Parameter.list, hsplit, List.filter_map, Function.comp_def]

/-- What a function is called, how many parameters it has and how far it reaches. -/
def reached (found : Except Violation (Option (Signature × Nat))) :
    Option (Option ((String × Nat) × Nat)) :=
  found.toOption.map (Option.map fun (s, taken) => (s.header, taken))

theorem reached_veiled (line line' : Nat) (rest : List Token) :
    reached (function? line (rest.map veiled)) = reached (function? line' rest) := by
  unfold function?
  rw [nameAndList?_veiled]
  cases nameAndList? rest with
  | none => rfl
  | some found =>
    obtain ⟨name, inside, after, taken⟩ := found
    have htype : (if (after.map veiled).head?.any (·.kind == .colon) then typeTokens (after.map veiled).tail
        else []) = (if after.head?.any (·.kind == .colon) then typeTokens after.tail else []).map veiled := by
      rw [← List.map_tail, typeTokens_veiled, List.head?_map, Option.any_map]
      simp only [kind_veiled, Kind.veiled_beq_colon]
      split <;> rfl
    simp only [Option.map_some, htype, List.length_map]
    generalize (if after.head?.any (·.kind == .colon) then typeTokens after.tail else []) = type
    have hempty : (render (type.map veiled)).isEmpty = (render type).isEmpty := by
      rw [Bool.eq_iff_iff, String.isEmpty_iff, String.isEmpty_iff, render_veiled_eq_empty]
    rw [hempty]
    cases (render type).isEmpty with
    | true => rfl
    | false => simp [reached, header, arity, length_list_veiled, Except.toOption]

/-- Of tokens with all literals empty the same functions are found. -/
theorem headers_veiled (depth skip : Nat) (tokens : List Token) :
    (functions depth skip (tokens.map veiled)).toOption.map (List.map header)
      = (functions depth skip tokens).toOption.map (List.map header) := by
  have hcons : ∀ (s : Signature) (rest : Except Violation (List Signature)),
      (rest.map (s :: ·)).toOption.map (List.map header)
        = (rest.toOption.map (List.map header)).map (s.header :: ·) := by
    intro s rest
    cases rest <;> rfl
  induction tokens generalizing depth skip with
  | nil => rfl
  | cons t rest ih =>
    cases skip with
    | succ skip => exact ih depth skip
    | zero =>
      simp only [List.map_cons, functions, kind_veiled, Kind.opens_veiled, Kind.closes_veiled,
        isWord_veiled]
      generalize (if t.kind.opens .brace then depth + 1
        else if t.kind.closes .brace then depth - 1 else depth) = depth'
      have hsame : reached (if depth' = 0 ∧ t.isWord "fun" then function? t.veiled.line (rest.map veiled)
          else .ok none) = reached (if depth' = 0 ∧ t.isWord "fun" then function? t.line rest
          else .ok none) := by
        split
        · exact reached_veiled _ _ rest
        · rfl
      generalize (if depth' = 0 ∧ t.isWord "fun" then function? t.veiled.line (rest.map veiled)
        else .ok none) = found at hsame ⊢
      generalize (if depth' = 0 ∧ t.isWord "fun" then function? t.line rest
        else .ok none) = found' at hsame ⊢
      -- Both fail, both find nothing, or both find a function of the same reach.
      rcases found with e | _ | ⟨s, taken⟩ <;> rcases found' with e' | _ | ⟨s', taken'⟩ <;>
        simp only [reached, Except.toOption, Option.map_some, Option.map_none, Option.some.injEq,
          Prod.mk.injEq, reduceCtorEq] at hsame
      · rfl
      · exact ih depth' 0
      · obtain ⟨hheader, rfl⟩ := hsame
        rw [hcons, hcons, ih, hheader]

end KotlinFunction

/-- Sources whose tokens differ in what literals hold export functions of the same names with as many
parameters, or neither of them has a list of signatures. -/
theorem headers_ofKotlin {source source' : String}
    (h : (outline .kotlin source).toOption.map (List.map (·.kind.veiled))
      = (outline .kotlin source').toOption.map (List.map (·.kind.veiled))) :
    (ofKotlin source).toOption.map (List.map header)
      = (ofKotlin source').toOption.map (List.map header) := by
  have hveiled : ∀ ts : List Token, ts.map veiled
      = ((ts.map Token.outline).map (·.kind.veiled)).map fun kind => ⟨kind, default, false⟩ := by
    intro ts
    rw [List.map_map, List.map_map]
    rfl
  unfold outline at h
  unfold ofKotlin
  cases hleft : tokenize .kotlin source with
  | error e =>
    cases hright : tokenize .kotlin source' with
    | error e' => rfl
    | ok tokens' => simp [hleft, hright, Except.toOption] at h
  | ok tokens =>
    cases hright : tokenize .kotlin source' with
    | error e => simp [hleft, hright, Except.toOption] at h
    | ok tokens' =>
      rw [hleft, hright] at h
      have hsame : tokens.map veiled = tokens'.map veiled := by
        rw [hveiled, hveiled]
        exact congrArg _ (Option.some.inj h)
      have hheaders := KotlinFunction.headers_veiled 0 0 tokens
      rw [hsame, KotlinFunction.headers_veiled] at hheaders
      exact hheaders.symm

/-- Where a quote opens a literal, a flat one is a token with its content, and what stands behind it
is read as it is; any other literal is not. So whatever a flat one holds, the functions of the source
are called the same and have as many parameters, or none are read for any of them. -/
theorem ofKotlin_literal {front : List Char} (hfront : OpensLiteral front) :
    ∃ before fresh, ∀ (l : KotlinString) (back : List Char), back.head? ≠ some '"' →
      (l.Flat → outline .kotlin (.ofList (front ++ l.written ++ back))
        = (before ++ ⟨.string (.ofList l.content), fresh || l.written.any endsLine⟩ :: ·)
          <$> outlineFrom .kotlin false back) ∧
      (l.Flat → ∀ l' : KotlinString, l'.Flat →
        (ofKotlin (.ofList (front ++ l.written ++ back))).toOption.map (List.map header)
          = (ofKotlin (.ofList (front ++ l'.written ++ back))).toOption.map (List.map header)) ∧
      (¬ l.Flat → ∀ outlines, outline .kotlin (.ofList (front ++ l.written ++ back)) = .ok outlines →
        outlines[before.length]?.map Outline.kind ≠ some (.string (.ofList l.content))) := by
  obtain ⟨before, fresh, hread⟩ := outline_literal hfront
  refine ⟨before, fresh, fun l back hback => ⟨(hread l back hback).1, ?_, (hread l back hback).2⟩⟩
  intro hflat l' hflat'
  refine headers_ofKotlin ?_
  rw [(hread l back hback).1 hflat, (hread l' back hback).1 hflat']
  cases outlineFrom .kotlin false back with
  | error what => rfl
  | ok behind => simp [Except.toOption, Kind.veiled]

/-- An escaped quote, a template and a declaration. -/
theorem inside_escaped (nests : Prop) :
    Inside nests [.literal] "\\\"$\x7bx\x7dfun g() = 1".toList := by
  have htext : Inside nests [.literal] ("fun g() = 1".toList ++ []) := .append_plain rfl .nil
  exact .escape _ (.template (.code (by decide) (.closeBrace htext)))

/-- With a declaration in it, and with nothing. -/
theorem ofKotlin_literal_escaped :
    (ofKotlin (.ofList ("val s = ".toList ++ (KotlinString.quoted _ (inside_escaped True)).written
        ++ "\nfun f(n: Int): Int = n".toList))).toOption.map (List.map header)
      = (ofKotlin "val s = \"\"\nfun f(n: Int): Int = n").toOption.map (List.map header) := by
  have hfront : OpensLiteral "val s = ".toList := by
    unfold OpensLiteral
    decide +kernel
  have hflat : (KotlinString.quoted _ (inside_escaped True)).Flat := inside_escaped False
  have hempty : (KotlinString.quoted [] .nil).Flat := Inside.nil
  obtain ⟨before, fresh, hread⟩ := ofKotlin_literal hfront
  exact (hread _ _ (by decide)).2.1 hflat _ hempty

/-- A template with a further literal. -/
theorem inside_nested : Inside True [.literal] "$\x7bg(\"fun leaked(): Int = 1\")\x7d".toList := by
  have hbehind : Inside True [.literal, .braces, .literal] "\")\x7d".toList :=
    .closeLiteral trivial (.code (by decide) (.closeBrace .nil))
  have htext : Inside True [.literal, .braces, .literal]
      ("fun leaked(): Int = 1".toList ++ "\")\x7d".toList) := .append_plain rfl hbehind
  exact .template (.code (by decide) (.code (by decide) (.openLiteral trivial htext)))

/-- A content that ends in a quote. -/
theorem absent_quotes : ¬ ['"', '"', '"'] <:+: "a\"".toList := by decide

/-- A literal in a template is read as source, and of a quote before the closing ones another literal is
opened. -/
theorem ofKotlin_literal_leaks :
    (ofKotlin (.ofList ("val s = ".toList ++ (KotlinString.quoted _ inside_nested).written
        ++ "\n".toList))).toOption = some [⟨"leaked", "Int", []⟩] ∧
      (ofKotlin (.ofList ("val s = ".toList ++ (KotlinString.triple _ absent_quotes).written
        ++ "\n".toList))).toOption = none ∧
      (ofKotlin "val s = \"\"\n").toOption = some [] :=
  ⟨by decide +kernel, by decide +kernel, by decide +kernel⟩

end Signature

end ForeignModule
