import ForeignModule.Proofs.Bounds.Cursor
import ForeignModule.Proofs.Signature.KotlinFile

/-!
# Kotlin functions by index

The search for functions in Kotlin as loops over the indices of a token list. `functions_eq`: it brings what
`Signature.KotlinFunction.functions` says, also where that is a violation.
-/

namespace ForeignModule.Bounds.KotlinFunction

open Token
open Signature.KotlinFunction (qualifiedName typeTokens typeParameters? nameAndList?)

/-! ## The search -/

/-- A parameter. -/
def parameter (tokens : List Token) : Run Parameter := do
  match ← findTopLevel tokens .colon with
  | none => pure { name := Token.render tokens, type := "" }
  | some colon =>
    let before ← part tokens 0 colon
    let after ← part tokens (colon + 1) tokens.length
    let default? ← findTopLevel after .equals
    let type ← part after 0 (default?.getD after.length)
    pure { name := (before.reverse.findSome? Token.identifier?).getD "", type := Token.render type }

def nameRound (tokens : List Token) (i : Nat) : Run (Nat ⊕ Nat) :=
  pure <|
    if tokens[i]?.any (·.kind.isIdentifier) then
      if tokens[i + 1]?.any (·.kind == .dot) ∧ tokens[i + 2]?.any (·.kind.isIdentifier) then .inl (i + 2)
      else .inr (i + 1)
    else .inr i

/-- The index behind the type arguments at an index. -/
def behindArguments (tokens : List Token) (i : Nat) : Run Nat :=
  if tokens[i]?.any (·.kind.opens .angle) then (·.elim i (· + 1)) <$> matchingClose tokens i else pure i

/-- The index behind a question mark at an index. -/
def behindMark (tokens : List Token) (i : Nat) : Nat := if tokens[i]?.any (·.kind == .question) then i + 1 else i

/-- The type at an index, and the index behind it. -/
def readType (tokens : List Token) (start : Nat) : Run (String × Nat) := do
  let last ← loop (nameRound tokens) start
  if last = start then pure ("", start)
  else
    let last ← behindArguments tokens last
    let type ← part tokens start (behindMark tokens last)
    pure (Token.render type, behindMark tokens last)

/-- The name of a function with its `fun` at an index, what is between the parentheses behind it, and the index of
the closing one. -/
def nameAndList (tokens : List Token) (start : Nat) : Run (Option (String × List Token × Nat)) := do
  match ← behindAngles? tokens (start + 1) with
  | none => pure none
  | some i =>
    match tokens[i]?.bind Token.identifier? with
    | none => pure none
    | some name =>
      match ← groupAt? tokens .paren (i + 1) with
      | none => pure none
      | some (inside, close) => pure (some (name, inside, close))

/-- The function with its `fun` at an index, and the index behind its result type. -/
def function? (tokens : List Token) (start : Nat) : Run (Except Violation (Option (Signature × Nat))) := do
  match ← nameAndList tokens start with
  | none => pure (.ok none)
  | some (name, inside, close) =>
    let parameters ← parameterList parameter inside
    let keyword ← item tokens start
    if tokens[close + 1]?.any (·.kind == .colon) then
      let (result, next) ← readType tokens (close + 2)
      if result.isEmpty then pure (.error (.missingResultType name keyword.line))
      else pure (.ok (some (⟨name, result, parameters⟩, next)))
    else pure (.error (.missingResultType name keyword.line))

/-- How far the search has come, with the count of open braces and the functions found. -/
structure Search where
  index : Nat := 0
  depth : Nat := 0
  found : List Signature := []

/-- The count of open braces behind a token. A closing brace too many counts for nothing. -/
def bracesBehind (depth : Nat) (t : Token) : Nat :=
  if t.kind.opens .brace then depth + 1
  else if t.kind.closes .brace then depth - 1
  else depth

/-- One token of the search, or one function. -/
def round (tokens : List Token) (s : Search) : Run (Search ⊕ Except Violation (List Signature)) := do
  if s.index < tokens.length then
    let t ← item tokens s.index
    let depth := bracesBehind s.depth t
    if depth = 0 ∧ t.isWord "fun" then
      match ← function? tokens s.index with
      | .error e => pure (.inr (.error e))
      | .ok (some (signature, next)) => pure (.inl { index := next, depth, found := s.found ++ [signature] })
      | .ok none => pure (.inl { s with index := s.index + 1, depth })
    else pure (.inl { s with index := s.index + 1, depth })
  else pure (.inr (.ok s.found))

/-- The functions in a token list. -/
def functions (tokens : List Token) : Run (Except Violation (List Signature)) := loop (round tokens) {}

variable {tokens rest : List Token} {t : Token} {i : Nat}

/-! ## Parameters and types -/

theorem parameter_eq (tokens : List Token) : parameter tokens = pure (Signature.KotlinFunction.parameter tokens) := by
  unfold parameter Signature.KotlinFunction.parameter
  cases hcolon : breakTopLevel? .colon 0 tokens with
  | none =>
    rw [findTopLevel_eq, hcolon]
    rfl
  | some found =>
    obtain ⟨before, after⟩ := found
    obtain ⟨hfind, hbefore, hafter⟩ := part_of_breakTopLevel? hcolon
    rw [hfind, pure_bind]
    dsimp only
    rw [hbefore, pure_bind, hafter, pure_bind]
    cases hequals : breakTopLevel? .equals 0 after with
    | none =>
      rw [findTopLevel_eq, hequals, pure_bind, Option.map_none, Option.getD_none, (Ahead.start after).part_end]
      rfl
    | some found =>
      obtain ⟨type, value⟩ := found
      obtain ⟨hfind, htype, -⟩ := part_of_breakTopLevel? hequals
      rw [hfind, pure_bind, Option.getD_some, htype]
      rfl

/-- A qualified name is what the list starts with. -/
theorem qualifiedName_prefix (rest : List Token) : qualifiedName rest <+: rest := by
  fun_induction qualifiedName rest with
  | case1 name dot next rest hname hmore ih => exact List.prefix_cons_inj _ |>.2 ((List.prefix_cons_inj _).2 ih)
  | _ => simp

theorem name_loop (h : Ahead tokens rest i) :
    loop (nameRound tokens) i = pure (i + (qualifiedName rest).length) := by
  fun_induction qualifiedName rest generalizing i with
  | case1 name dot next rest hname hmore ih =>
    have hround : nameRound tokens i = pure (.inl (i + 2)) := by
      simp [nameRound, h.get, h.next.get, h.next.next.get, hname, hmore]
    have hlength : i + 2 + (qualifiedName (next :: rest)).length
        = i + (name :: dot :: qualifiedName (next :: rest)).length := by
      simp only [List.length_cons]
      omega
    rw [loop_next hround, ih h.next.next, ← hlength]
  | case2 name dot next rest hname hmore =>
    exact loop_done (by simp [nameRound, h.get, h.next.get, h.next.next.get, hname, hmore])
  | case3 name dot next rest hname => exact loop_done (by simp [nameRound, h.get, hname])
  | case4 name rest hshort hname =>
    refine loop_done ?_
    match rest with
    | [] => simp [nameRound, h.get, h.next.get, hname]
    | [dot] => simp [nameRound, h.get, h.next.get, h.next.next.get, hname]
    | dot :: next :: more => exact absurd rfl (hshort dot next more)
  | case5 name rest hshort hname => exact loop_done (by simp [nameRound, h.get, hname])
  | case6 => exact loop_done (by simp [nameRound, h.get])

/-- The type arguments at the front. -/
def argumentTokens (rest : List Token) : List Token :=
  ((group? .angle rest).map fun found => rest.take (found.1.length + 2)).getD []

theorem typeTokens_eq (rest : List Token) : typeTokens rest =
    if (qualifiedName rest).isEmpty then []
    else
      let rest' := rest.drop (qualifiedName rest).length
      qualifiedName rest ++ argumentTokens rest'
        ++ ((rest'.drop (argumentTokens rest').length).head?.filter (·.kind == .question)).toList := by
  unfold typeTokens argumentTokens
  dsimp only
  cases group? .angle (rest.drop (qualifiedName rest).length) <;> rfl

/-- Type arguments are what the list starts with. -/
theorem behindArguments_eq (h : Ahead tokens rest i) : ∃ arguments behind, rest = arguments ++ behind ∧
    argumentTokens rest = arguments ∧ behindArguments tokens i = pure (i + arguments.length) := by
  unfold behindArguments argumentTokens
  rw [h.get]
  by_cases hopen : rest.head?.any (·.kind.opens .angle) = true
  · rw [if_pos hopen, matchingClose_eq h hopen]
    cases hgroup : group? .angle rest with
    | none => exact ⟨[], rest, rfl, rfl, rfl⟩
    | some found =>
      obtain ⟨inside, after⟩ := found
      obtain ⟨first, last, rfl⟩ := exists_of_group? hgroup
      have hlength : (first :: (inside ++ [last])).length = inside.length + 2 := by simp
      have happend : first :: (inside ++ last :: after) = first :: (inside ++ [last]) ++ after := by simp
      have htake : (first :: (inside ++ last :: after)).take (inside.length + 2) = first :: (inside ++ [last]) := by
        rw [happend, ← hlength]
        exact List.take_left
      refine ⟨first :: (inside ++ [last]), after, happend, htake, ?_⟩
      have hsum : i + (inside.length + 2) = i + 1 + inside.length + 1 := by omega
      rw [hlength, hsum]
      rfl
  · have hgroup : group? .angle rest = none :=
      group?_eq_none fun t ht hkind => hopen (by simp [ht, hkind, Kind.opens])
    rw [if_neg hopen, hgroup]
    exact ⟨[], rest, rfl, rfl, rfl⟩

/-- A question mark is what the list starts with. -/
theorem behindMark_eq (h : Ahead tokens rest i) : ∃ mark behind, rest = mark ++ behind ∧
    behindMark tokens i = i + mark.length ∧ (rest.head?.filter (·.kind == .question)).toList = mark := by
  unfold behindMark
  rw [h.get]
  cases rest with
  | nil => exact ⟨[], [], rfl, rfl, rfl⟩
  | cons t rest =>
    by_cases ht : (t.kind == .question) = true
    · exact ⟨[t], rest, rfl, if_pos ht, by simp [ht]⟩
    · exact ⟨[], t :: rest, rfl, if_neg ht, by simpa using ht⟩

theorem readType_eq (h : Ahead tokens rest i) :
    readType tokens i = pure (Token.render (typeTokens rest), i + (typeTokens rest).length) := by
  rw [readType, name_loop h, pure_bind, typeTokens_eq]
  obtain ⟨more, hmore⟩ := qualifiedName_prefix rest
  generalize qualifiedName rest = name at hmore
  subst hmore
  by_cases hname : name = []
  · subst hname
    exact if_pos rfl
  · have hne : i + name.length ≠ i := by
      have := List.length_pos_iff.2 hname
      omega
    obtain ⟨arguments, behind, rfl, harguments, hbehind⟩ := behindArguments_eq h.pass
    obtain ⟨mark, after, rfl, hlast, hmark⟩ := behindMark_eq h.pass.pass
    have hat : Ahead tokens ((name ++ arguments ++ mark) ++ after) i := by simpa using h
    have hlength : i + name.length + arguments.length + mark.length = i + (name ++ arguments ++ mark).length := by
      simp only [List.length_append, Nat.add_assoc]
    rw [if_neg hne, if_neg (by simpa using hname), hbehind, pure_bind, List.drop_left]
    dsimp only
    rw [harguments, List.drop_left, hmark, hlast, hlength, hat.part, pure_bind]

/-! ## Functions -/

theorem nameAndList_eq (h : Ahead tokens (t :: rest) i) :
    nameAndList tokens i = pure ((nameAndList? rest).map fun (name, inside, _, taken) => (name, inside, i + taken)) := by
  unfold nameAndList nameAndList?
  have htypes : typeParameters? rest = anglesLength? rest := rfl
  obtain ⟨hbehind, hdrop⟩ := behindAngles?_eq h.next
  rw [hbehind, pure_bind, htypes]
  cases hbefore : anglesLength? rest with
  | none => rfl
  | some before =>
    have hat := hdrop before hbefore
    dsimp only [Option.map_some, Option.bind_eq_bind, Option.bind_some]
    rw [hat.get]
    cases hrest : rest.drop before with
    | nil => rfl
    | cons name rest' =>
      rw [hrest] at hat
      rw [List.head?_cons, Option.bind_some, Option.bind_some, List.tail_cons]
      cases name.identifier? with
      | none => rfl
      | some name =>
        rw [Option.bind_some]
        dsimp only
        rw [groupAt?_eq .paren hat.next, pure_bind]
        cases group? .paren rest' with
        | none => rfl
        | some found =>
          have hclose : i + 1 + before + 1 + 1 + found.1.length = i + (before + found.1.length + 3) := by omega
          dsimp only [Option.map_some]
          rw [hclose]
          rfl

/-- What follows a parameter list is behind its tokens. -/
theorem ahead_of_nameAndList? {name : String} {inside after : List Token} {taken : Nat}
    (h : Ahead tokens rest i) (hlist : nameAndList? rest = some (name, inside, after, taken)) :
    Ahead tokens after (i + taken) := by
  unfold nameAndList? at hlist
  simp only [Option.bind_eq_bind, Option.bind_eq_some_iff] at hlist
  obtain ⟨before, hbefore, first, hfirst, word, -, ⟨inside', after'⟩, hgroup, hlist⟩ := hlist
  cases hlist
  obtain ⟨more, hdrop⟩ := List.head?_eq_some_iff.1 hfirst
  have hat := (behindAngles?_eq h).2 before hbefore
  rw [hdrop] at hat hgroup
  have hafter := hat.next.group hgroup
  have hsum : i + before + 1 + 1 + inside'.length + 1 = i + (before + inside'.length + 3) := by omega
  rwa [hsum] at hafter

theorem function?_eq (h : Ahead tokens (t :: rest) i) :
    function? tokens i = pure ((Signature.KotlinFunction.function? t.line rest).map
      (Option.map fun (signature, taken) => (signature, i + 1 + taken))) := by
  unfold function? Signature.KotlinFunction.function?
  rw [nameAndList_eq h, pure_bind]
  cases hlist : nameAndList? rest with
  | none => rfl
  | some found =>
    obtain ⟨name, inside, after, taken⟩ := found
    have hat : Ahead tokens after (i + taken + 1) := by
      rw [Nat.add_right_comm]
      exact ahead_of_nameAndList? h.next hlist
    dsimp only [Option.map_some]
    rw [parameterList_eq parameter_eq, pure_bind, h.item, pure_bind, hat.get]
    by_cases hcolon : after.head?.any (·.kind == .colon) = true
    · rw [if_pos hcolon, if_pos hcolon]
      cases after with
      | nil => cases hcolon
      | cons colon after =>
        have hend : i + taken + 1 + 1 + (typeTokens after).length
            = i + 1 + (taken + 1 + (typeTokens after).length) := by omega
        rw [readType_eq hat.next, pure_bind, List.tail_cons]
        dsimp only
        by_cases hempty : (Token.render (typeTokens after)).isEmpty = true
        · rw [if_pos hempty, if_pos hempty]
          rfl
        · rw [if_neg hempty, if_neg hempty, hend]
          rfl
    · rw [if_neg hcolon, if_neg hcolon]
      rfl

/-! ## The whole list -/

theorem functions_drop (depth n : Nat) (rest : List Token) :
    Signature.KotlinFunction.functions depth n rest = Signature.KotlinFunction.functions depth 0 (rest.drop n) := by
  induction rest generalizing n with
  | nil => rw [List.drop_nil]; rfl
  | cons t rest ih =>
    cases n with
    | zero => rfl
    | succ n => exact ih n

/-- The function that starts with the token `t`, if that is a `fun` outside braces. -/
def outerFunction? (depth : Nat) (t : Token) (rest : List Token) : Except Violation (Option (Signature × Nat)) :=
  if bracesBehind depth t = 0 ∧ t.isWord "fun" then Signature.KotlinFunction.function? t.line rest else .ok none

theorem round_eq {s : Search} (h : Ahead tokens (t :: rest) s.index) :
    round tokens s = pure (match outerFunction? s.depth t rest with
      | .error e => .inr (.error e)
      | .ok (some (signature, taken)) =>
        .inl ⟨s.index + 1 + taken, bracesBehind s.depth t, s.found ++ [signature]⟩
      | .ok none => .inl { s with index := s.index + 1, depth := bracesBehind s.depth t }) := by
  have hlt : s.index < tokens.length := by simp [h.lt_length_iff]
  rw [round, if_pos hlt, h.item, pure_bind, outerFunction?]
  dsimp only
  by_cases houter : bracesBehind s.depth t = 0 ∧ t.isWord "fun" = true
  · rw [if_pos houter, if_pos houter, function?_eq h, pure_bind]
    cases Signature.KotlinFunction.function? t.line rest with
    | error e => rfl
    | ok found? => cases found? <;> rfl
  · rw [if_neg houter, if_neg houter]

theorem functions_cons (depth : Nat) (t : Token) (rest : List Token) :
    Signature.KotlinFunction.functions depth 0 (t :: rest) = match outerFunction? depth t rest with
      | .error e => .error e
      | .ok none => Signature.KotlinFunction.functions (bracesBehind depth t) 0 rest
      | .ok (some (signature, taken)) =>
        (Signature.KotlinFunction.functions (bracesBehind depth t) taken rest).map (signature :: ·) :=
  rfl

theorem function_loop (s : Search) : loop (round tokens) s
    = pure ((Signature.KotlinFunction.functions s.depth 0 (tokens.drop s.index)).map (s.found ++ ·)) := by
  refine loop_ahead Search.index
    (fun s rest => (Signature.KotlinFunction.functions s.depth 0 rest).map (s.found ++ ·)) ?_ ?_ s
  · intro s hend
    rw [round, if_neg (Nat.not_lt.2 hend), Signature.KotlinFunction.functions, Except.map, List.append_nil]
  · intro s t rest hat hmore
    have hround := round_eq hat
    rw [functions_cons]
    rcases houter : outerFunction? s.depth t rest with e | _ | ⟨signature, taken⟩
    · rw [houter] at hround
      exact loop_done hround
    · rw [houter] at hround
      rw [loop_next hround, hmore _ (Nat.lt_succ_self _)]
      dsimp only
      rw [hat.next.drop_eq 0, List.drop_zero]
    · rw [houter] at hround
      rw [loop_next hround, hmore _ (by dsimp only; omega)]
      dsimp only
      rw [hat.next.drop_eq taken, functions_drop _ taken rest]
      cases Signature.KotlinFunction.functions (bracesBehind s.depth t) 0 (rest.drop taken) <;> simp [Except.map]

theorem functions_eq (tokens : List Token) :
    functions tokens = pure (Signature.KotlinFunction.functions 0 0 tokens) := by
  rw [functions, function_loop]
  cases hfunctions : Signature.KotlinFunction.functions 0 0 tokens <;> simp [hfunctions, Except.map]

end ForeignModule.Bounds.KotlinFunction
