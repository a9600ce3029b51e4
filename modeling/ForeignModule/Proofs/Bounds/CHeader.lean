import ForeignModule.Proofs.Bounds.Cursor
import ForeignModule.Proofs.Signature.CHeader
import ForeignModule.Proofs.Token.Rendering
import Mathlib.Data.List.TakeWhile

/-!
# C headers by index

The search for headers in C as loops over the indices of a token list. `headers_eq`: it brings what
`Signature.CHeader.headers` says, if all tokens are spelled as their kinds are. Only of such tokens a type has a
text.
-/

namespace ForeignModule.Bounds.CHeader

open Token
open Signature.CHeader (isTypePart otherStarts)

/-! ## The search -/

/-- The last index at which an element is such. -/
def lastIndex? {α : Type} (p : α → Bool) : List α → Option Nat
  | [] => none
  | x :: rest =>
    match lastIndex? p rest with
    | some i => some (i + 1)
    | none => if p x then some 0 else none

/-- A parameter. -/
def parameter (tokens : List Token) : Run Parameter :=
  match lastIndex? (·.kind.isIdentifier) tokens with
  | some i => do
    let name ← item tokens i
    let before ← part tokens 0 i
    let behind ← part tokens (i + 1) tokens.length
    pure { name := name.identifier?.getD "", type := Token.render before ++ Token.render behind }
  | none => pure { name := Token.render tokens, type := "" }

/-- The parameters in a list. -/
def parameters (tokens : List Token) : Run (List Parameter) := do
  if tokens.isEmpty then pure []
  else if tokens.length = 1 ∧ (← item tokens 0).isWord "void" then pure []
  else parameterList parameter tokens

def openingRound (tokens : List Token) (i : Nat) : Run (Nat ⊕ Option Nat) :=
  match tokens[i]? with
  | none => pure (.inr none)
  | some t =>
    pure (if isTypePart t then .inl (i + 1) else if t.kind.opens .paren then .inr (some i) else .inr none)

/-- The parenthesis behind words and stars. -/
def opening? (tokens : List Token) (start : Nat) : Run (Option Nat) := loop (openingRound tokens) start

/-- The name before the parenthesis at an index, and the type before that. -/
def nameAndType? (tokens : List Token) (start opening : Nat) : Run (Option (String × String)) := do
  if opening < start + 2 then pure none
  else
    let last ← minus opening 1
    match (← item tokens last).identifier? with
    | none => pure none
    | some name =>
      let type ← part tokens start last
      if (Token.render type).isEmpty ∨ type.all (!·.kind.isIdentifier) then pure none
      else pure (some (name, Token.render type))

/-- The header that starts at an index, and the index behind its parameter list. -/
def header? (tokens : List Token) (start : Nat) : Run (Option (Signature × Nat)) := do
  match (← item tokens start).identifier? with
  | none => pure none
  | some word =>
    if word ∈ otherStarts then pure none
    else
      match ← opening? tokens start with
      | none => pure none
      | some opening =>
        match ← nameAndType? tokens start opening with
        | none => pure none
        | some (name, type) =>
          match ← groupAt? tokens .paren opening with
          | none => pure none
          | some (inside, close) =>
            let parameters ← parameters inside
            pure (some (⟨name, type, parameters⟩, close + 1))

/-- How far the search has come, with the scopes of the open blocks and the headers found. -/
structure Search where
  index : Nat := 0
  scopes : List Bool := []
  found : List Signature := []

/-- The header that starts with the token `t`, if that starts a line at file scope. -/
def outerHeader? (tokens : List Token) (s : Search) (t : Token) : Run (Option (Signature × Nat)) :=
  if t.startsLine && s.scopes.all id then header? tokens s.index else pure none

/-- One token of the search, or one header. -/
def round (tokens : List Token) (s : Search) : Run (Search ⊕ List Signature) := do
  if s.index < tokens.length then
    let t ← item tokens s.index
    if t.kind.opens .brace then
      let before ← part tokens 0 s.index
      let fileScope := Signature.CHeader.opensFileScope before.reverse
      pure (.inl { s with index := s.index + 1, scopes := fileScope :: s.scopes })
    else if t.kind.closes .brace then pure (.inl { s with index := s.index + 1, scopes := s.scopes.tail })
    else
      match ← outerHeader? tokens s t with
      | some (signature, next) => pure (.inl { s with index := next, found := s.found ++ [signature] })
      | none => pure (.inl { s with index := s.index + 1 })
  else pure (.inr s.found)

/-- The headers in a token list. -/
def headers (tokens : List Token) : Run (List Signature) := loop (round tokens) {}

/-! ## Parameters -/

variable {tokens rest : List Token} {t : Token} {i : Nat}

theorem lastIndex?_eq_none {α : Type} {p : α → Bool} {xs : List α} (h : lastIndex? p xs = none) :
    ∀ x ∈ xs, p x = false := by
  induction xs with
  | nil => nofun
  | cons x rest ih =>
    rw [lastIndex?] at h
    split at h
    · cases h
    · next hrest =>
      split at h
      · cases h
      · next hx =>
        intro y hy
        rcases List.mem_cons.1 hy with rfl | hy
        · exact eq_false_of_ne_true hx
        · exact ih hrest y hy

theorem exists_of_lastIndex? {α : Type} {p : α → Bool} {xs : List α} (h : lastIndex? p xs = some i) :
    ∃ before x behind, xs = before ++ x :: behind ∧ i = before.length ∧ p x = true ∧ ∀ y ∈ behind, p y = false := by
  induction xs generalizing i with
  | nil => cases h
  | cons x rest ih =>
    rw [lastIndex?] at h
    split at h
    · next j hj =>
      cases h
      obtain ⟨before, y, behind, rfl, rfl, hy, hbehind⟩ := ih hj
      exact ⟨x :: before, y, behind, rfl, rfl, hy, hbehind⟩
    · next hrest =>
      split at h
      · next hx =>
        cases h
        exact ⟨[], x, rest, rfl, rfl, hx, lastIndex?_eq_none hrest⟩
      · cases h

theorem parameter_eq (tokens : List Token) : parameter tokens = pure (Signature.CHeader.parameter tokens) := by
  unfold parameter Signature.CHeader.parameter
  cases hlast : lastIndex? (·.kind.isIdentifier) tokens with
  | none =>
    have hbehind : tokens.reverse.takeWhile (!·.kind.isIdentifier) = tokens.reverse := by
      rw [List.takeWhile_eq_self_iff]
      intro t ht
      simp [lastIndex?_eq_none hlast t (List.mem_reverse.1 ht)]
    have hdrop : tokens.reverse.drop tokens.length = [] := List.drop_eq_nil_of_le (by simp)
    simp only [hbehind, List.reverse_reverse, hdrop]
  | some i =>
    obtain ⟨before, name, behind, rfl, rfl, hname, hothers⟩ := exists_of_lastIndex? hlast
    have hreverse : (before ++ name :: behind).reverse = behind.reverse ++ name :: before.reverse := by simp
    have hbehind : (before ++ name :: behind).reverse.takeWhile (!·.kind.isIdentifier) = behind.reverse := by
      rw [hreverse, List.takeWhile_append_of_pos]
      · simp [hname]
      · intro t ht
        simp [hothers t (List.mem_reverse.1 ht)]
    have hdrop : (before ++ name :: behind).reverse.drop behind.length = name :: before.reverse := by
      rw [hreverse, ← List.length_reverse, List.drop_left]
    have hat : Ahead (before ++ name :: behind) (name :: behind) before.length := ⟨before, rfl, rfl⟩
    have hbefore : part (before ++ name :: behind) 0 before.length = pure before := by
      simpa using (Ahead.start (before ++ name :: behind)).part
    have htext : name.identifier?.getD "" = name.kind.text := by
      rw [Token.identifier?]
      cases hkind : name.kind <;> simp [hkind, Kind.isIdentifier] at hname
      rfl
    simp only [hat.item, hbefore, hat.next.part_end, pure_bind, htext, hbehind, List.reverse_reverse, hdrop]

theorem parameters_eq (tokens : List Token) :
    parameters tokens = pure (Signature.CHeader.parameters tokens) := by
  have hlist : parameterList parameter tokens = pure (Parameter.list Signature.CHeader.parameter tokens) :=
    parameterList_eq parameter_eq tokens
  unfold parameters Signature.CHeader.parameters
  match tokens with
  | [] => rfl
  | [t] =>
    have hitem : item [t] 0 = pure t := rfl
    by_cases hvoid : t.isWord "void" = true <;> simp [hitem, hlist, hvoid]
  | t :: u :: rest =>
    have hitem : item (t :: u :: rest) 0 = pure t := rfl
    simp [hitem, hlist]

/-! ## Headers -/

theorem opening?_eq (h : Ahead tokens rest i) :
    opening? tokens i = pure (if (rest.drop (rest.takeWhile isTypePart).length).head?.any (·.kind.opens .paren) then
      some (i + (rest.takeWhile isTypePart).length) else none) := by
  unfold opening?
  induction rest generalizing i with
  | nil => exact loop_done (by simp [openingRound, h.get])
  | cons t rest ih =>
    by_cases ht : isTypePart t = true
    · rw [loop_next (t := i + 1) (by simp [openingRound, h.get, ht]), ih h.next, List.takeWhile_cons_of_pos ht]
      simp only [List.length_cons, List.drop_succ_cons, Nat.add_assoc, Nat.add_comm 1]
    · rw [List.takeWhile_cons_of_neg ht]
      refine loop_done ?_
      by_cases hopen : t.kind.opens .paren = true <;> simp [openingRound, h.get, ht, hopen]

/-- A type that starts with a token has a text. -/
theorem isEmpty_render {first : Token} (h : first.kind.Lexical) (more : List Token) :
    (Token.render (first :: more)).isEmpty = false := by
  have hhead : (Kind.render (first.kind :: more.map Token.kind)).toList.head? = first.kind.text.toList.head? :=
    Kind.head?_render h _
  cases hempty : (Token.render (first :: more)).isEmpty with
  | false => rfl
  | true =>
    have hrender : Kind.render (first.kind :: more.map Token.kind) = "" := String.isEmpty_iff.1 hempty
    rw [hrender] at hhead
    exact absurd (List.head?_eq_none_iff.1 hhead.symm) (Kind.text_ne_nil h)

theorem nameAndType?_eq {first : Token} {more after : List Token} (h : Ahead tokens (first :: (more ++ after)) i)
    (hfirst : first.kind.isIdentifier = true) (hlexical : first.kind.Lexical) :
    nameAndType? tokens i (i + (more.length + 1))
      = pure ((more.getLast?.bind Token.identifier?).map fun name => (name, Token.render (first :: more.dropLast))) := by
  rcases List.eq_nil_or_concat more with rfl | ⟨type, name, rfl⟩
  · simp [nameAndType?]
  · rw [List.concat_eq_append] at h ⊢
    have hat : Ahead tokens ((first :: type) ++ (name :: after)) i := by simpa using h
    have hsum : i + ((type ++ [name]).length + 1) = i + (first :: type).length + 1 := by
      simp only [List.length_append, List.length_cons, List.length_nil]
      omega
    have hlast : minus (i + ((type ++ [name]).length + 1)) 1 = pure (i + (first :: type).length) := by
      rw [hsum, minus_add]
    have hfar : ¬i + ((type ++ [name]).length + 1) < i + 2 := by
      rw [hsum, List.length_cons]
      omega
    have htyped : ¬((Token.render (first :: type)).isEmpty ∨ (first :: type).all (!·.kind.isIdentifier)) := by
      simp [isEmpty_render hlexical, hfirst]
    rw [nameAndType?, if_neg hfar, hlast, pure_bind, hat.pass.item, pure_bind, List.getLast?_concat,
      List.dropLast_concat, Option.bind_some]
    cases name.identifier? with
    | none => rfl
    | some word =>
      dsimp only
      rw [hat.part, pure_bind, if_neg htyped]
      rfl

theorem header?_eq {first : Token} (h : Ahead tokens (first :: rest) i) (hlexical : first.kind.Lexical) :
    header? tokens i = pure ((Signature.CHeader.header? first rest).map fun (signature, taken) =>
      (signature, i + 1 + taken)) := by
  unfold header? Signature.CHeader.header?
  rw [h.item, pure_bind]
  cases hword : first.identifier? with
  | none => rfl
  | some word =>
    dsimp only
    by_cases hother : word ∈ otherStarts
    · have hguard : (guard (word ∉ otherStarts) : Option Unit) = none := if_neg (not_not_intro hother)
      rw [if_pos hother]
      simp only [hguard, Option.bind_eq_bind, Option.bind_some, Option.bind_none]
      rfl
    have hguard : (guard (word ∉ otherStarts) : Option Unit) = some () := if_pos hother
    have hfirst : first.kind.isIdentifier = true := by
      rw [Token.identifier?] at hword
      cases hkind : first.kind <;> simp [hkind, Kind.identifier?] at hword
      rfl
    have hopening := opening?_eq h
    rw [List.takeWhile_cons_of_pos (by simp [isTypePart, hfirst]), List.length_cons, List.drop_succ_cons] at hopening
    have htake := List.prefix_iff_eq_take.1 (List.takeWhile_prefix isTypePart (l := rest))
    have hsplit := (congrArg (· ++ rest.drop (rest.takeWhile isTypePart).length) htake).trans (List.take_append_drop _ _)
    simp only [if_neg hother, hopening, hguard, Option.bind_eq_bind, Option.bind_some]
    generalize rest.takeWhile isTypePart = more at hsplit
    generalize rest.drop more.length = after at hsplit
    subst hsplit
    have hat : Ahead tokens after (i + (more.length + 1)) := by
      have hinside : Ahead tokens ((first :: more) ++ after) i := h
      exact hinside.pass
    by_cases hopen : after.head?.any (·.kind.opens .paren) = true
    · rw [if_pos hopen, pure_bind]
      dsimp only
      rw [nameAndType?_eq h hfirst hlexical, pure_bind, ← Option.bind_assoc]
      cases more.getLast?.bind Token.identifier? with
      | none => rfl
      | some name =>
        dsimp only [Option.map_some, Option.bind_some]
        rw [groupAt?_eq .paren hat, pure_bind]
        cases group? .paren after with
        | none => rfl
        | some found =>
          have hend : i + (more.length + 1) + 1 + found.1.length + 1 = i + 1 + (more.length + found.1.length + 2) := by
            omega
          dsimp only [Option.map_some, Option.bind_some]
          rw [parameters_eq, pure_bind, hend]
          rfl
    · have hgroup : group? .paren after = none :=
        group?_eq_none fun t ht hkind => hopen (by simp [ht, hkind, Kind.opens])
      rw [if_neg hopen, pure_bind]
      simp only [hgroup, Option.bind_none, Option.bind_fun_none]
      rfl

theorem taken_le_length {first : Token} {signature : Signature} {taken : Nat}
    (h : Signature.CHeader.header? first rest = some (signature, taken)) : taken ≤ rest.length := by
  unfold Signature.CHeader.header? at h
  simp only [Option.bind_eq_bind, Option.bind_eq_some_iff] at h
  obtain ⟨word, -, -, -, last, -, name, -, ⟨inside, after⟩, hgroup, h⟩ := h
  cases h
  obtain ⟨opening, closing, hrest⟩ := exists_of_group? hgroup
  have hlength := congrArg List.length hrest
  simp only [List.length_drop, List.length_cons, List.length_append] at hlength
  dsimp only
  omega

/-! ## The whole list -/

section

variable {before : List Token} {s : Search}

theorem round_opening (h : Ahead tokens (t :: rest) s.index) (hopen : t.kind.opens .brace = true) :
    ∃ before, tokens = before ++ t :: rest ∧ round tokens s = pure (.inl { s with
      index := s.index + 1, scopes := Signature.CHeader.opensFileScope before.reverse :: s.scopes }) := by
  obtain ⟨before, hbefore, hpart⟩ := h.part_start
  have hlt : s.index < tokens.length := by simp [h.lt_length_iff]
  refine ⟨before, hbefore, ?_⟩
  rw [round, if_pos hlt, h.item, pure_bind, if_pos hopen, hpart, pure_bind]

theorem round_closing (h : Ahead tokens (t :: rest) s.index) (hopen : ¬t.kind.opens .brace = true)
    (hclose : t.kind.closes .brace = true) :
    round tokens s = pure (.inl { s with index := s.index + 1, scopes := s.scopes.tail }) := by
  have hlt : s.index < tokens.length := by simp [h.lt_length_iff]
  rw [round, if_pos hlt, h.item, pure_bind, if_neg hopen, if_pos hclose]

theorem round_other (h : Ahead tokens (t :: rest) s.index) (hlexical : t.kind.Lexical)
    (hopen : ¬t.kind.opens .brace = true) (hclose : ¬t.kind.closes .brace = true) :
    round tokens s = pure (.inl
      (match if t.startsLine && s.scopes.all id then Signature.CHeader.header? t rest else none with
      | some (signature, taken) => { s with index := s.index + 1 + taken, found := s.found ++ [signature] }
      | none => { s with index := s.index + 1 })) := by
  have hlt : s.index < tokens.length := by simp [h.lt_length_iff]
  rw [round, if_pos hlt, h.item, pure_bind, if_neg hopen, if_neg hclose, outerHeader?]
  by_cases houter : (t.startsLine && s.scopes.all id) = true
  · rw [if_pos houter, if_pos houter, header?_eq h hlexical, pure_bind]
    cases Signature.CHeader.header? t rest <;> rfl
  · rw [if_neg houter, if_neg houter]
    rfl

/-- The tokens that a header takes are passed over. -/
theorem headers_taken {scopes : List Bool} {taken : Nat} (h : taken ≤ rest.length) :
    Signature.CHeader.headers scopes before taken rest
      = Signature.CHeader.headers scopes ((rest.take taken).reverse ++ before) 0 (rest.drop taken) := by
  rw [← Signature.CHeader.headers_skip, List.length_take, Nat.min_eq_left h, List.take_append_drop]

theorem header_loop (hlexical : ∀ t ∈ tokens, t.kind.Lexical) (h : tokens = before.reverse ++ rest)
    (hi : s.index = before.length) :
    loop (round tokens) s = pure (s.found ++ Signature.CHeader.headers s.scopes before 0 rest) := by
  induction hn : rest.length using Nat.strongRecOn generalizing rest before s with
  | ind _ ih =>
    subst hn
    have hat : Ahead tokens rest s.index := ⟨before.reverse, h, by simpa using hi⟩
    cases rest with
    | nil =>
      have hend : ¬s.index < tokens.length := by simp [hat.lt_length_iff]
      rw [loop_done (a := s.found) (by simp [round, hend]), Signature.CHeader.headers, List.append_nil]
    | cons t rest =>
      have hnext : tokens = (t :: before).reverse ++ rest := by simpa using h
      have hmore : ∀ u : Search, u.index = s.index + 1 →
          loop (round tokens) u = pure (u.found ++ Signature.CHeader.headers u.scopes (t :: before) 0 rest) := by
        intro u hu
        exact ih _ (by simp) hnext (by rw [hu, hi]; rfl) rfl
      rw [Signature.CHeader.headers]
      by_cases hopen : t.kind.opens .brace = true
      · obtain ⟨front, hfront, hround⟩ := round_opening hat hopen
        have hbefore : front.reverse = before := by
          rw [List.append_cancel_right (hfront.symm.trans h), List.reverse_reverse]
        rw [if_pos hopen, loop_next hround, hmore _ rfl, hbefore]
      rw [if_neg hopen]
      by_cases hclose : t.kind.closes .brace = true
      · rw [if_pos hclose, loop_next (round_closing hat hopen hclose), hmore _ rfl]
      rw [if_neg hclose, loop_next (round_other hat (hlexical t (by simp [h])) hopen hclose)]
      cases hheader : (if t.startsLine && s.scopes.all id then Signature.CHeader.header? t rest else none) with
      | none => exact hmore _ rfl
      | some found =>
        obtain ⟨signature, taken⟩ := found
        have hle : taken ≤ rest.length := by
          split at hheader
          · exact taken_le_length hheader
          · cases hheader
        have hbehind : tokens = ((rest.take taken).reverse ++ t :: before).reverse ++ rest.drop taken := by
          rw [hnext]
          simp
        have hindex : s.index + 1 + taken = ((rest.take taken).reverse ++ t :: before).length := by
          simp only [List.length_append, List.length_reverse, List.length_take, List.length_cons]
          omega
        have hlength : (rest.drop taken).length < (t :: rest).length := by
          rw [List.length_drop, List.length_cons]
          omega
        dsimp only
        rw [ih _ hlength hbehind hindex rfl, headers_taken hle, List.append_assoc]
        rfl

end

/-- The search by index finds the headers in a token list. -/
theorem headers_eq (hlexical : ∀ t ∈ tokens, t.kind.Lexical) :
    headers tokens = pure (Signature.CHeader.headers [] [] 0 tokens) := by
  have hempty : tokens = [].reverse ++ tokens := rfl
  exact header_loop hlexical hempty rfl

end ForeignModule.Bounds.CHeader
