import ForeignModule.Proofs.Bounds.Cursor
import ForeignModule.Proofs.Signature.RustExport

/-!
# Rust exports by index

The search for exported functions in Rust as loops over the indices of a token list. `functions_eq`: it brings
what `Signature.RustExport.functions` says.
-/

namespace ForeignModule.Bounds.RustExport

open Token
open Signature.RustExport (unitType endsSearch afterFn? resultTokens generics?)

/-! ## The search -/

/-- A parameter. -/
def parameter (tokens : List Token) : Run Parameter := do
  match ← findTopLevel tokens .colon with
  | none => pure { name := Token.render tokens, type := "" }
  | some colon =>
    let before ← part tokens 0 colon
    let after ← part tokens (colon + 1) tokens.length
    pure { name := Token.render (before.filter (!·.isWord "mut")), type := Token.render after }

def fnRound (tokens : List Token) (i : Nat) : Run (Nat ⊕ Option Nat) :=
  match tokens[i]? with
  | none => pure (.inr none)
  | some t => pure (if t.isWord "fn" then .inr (some i) else if endsSearch t.kind then .inr none else .inl (i + 1))

/-- The index of the next `fn`. -/
def nextFn? (tokens : List Token) (i : Nat) : Run (Option Nat) := loop (fnRound tokens) i

def resultRound (tokens : List Token) : Nat × Int → Run (Nat × Int ⊕ Nat)
  | (i, depth) =>
    match tokens[i]? with
    | none => pure (.inr i)
    | some t =>
      let stops := t.kind.opens .brace || t.kind == .semicolon || t.isWord "where"
      let depth' := if t.kind.opens .brace || t.kind.closes .brace then depth else depth + t.kind.nesting
      pure (if stops && depth ≤ 0 then .inr i else .inl (i + 1, depth'))

/-- The result type at an index, and the index behind it. -/
def readResult (tokens : List Token) (start : Nat) : Run (String × Nat) := do
  let last ← loop (resultRound tokens) (start, 0)
  let type ← part tokens start last
  pure (Token.render type, last)

/-- The result type behind the arrow at an index, and the index behind it. -/
def resultAt (tokens : List Token) (i : Nat) : Run (String × Nat) :=
  if tokens[i]?.any (·.kind == .arrow) then readResult tokens (i + 1) else pure (unitType, i)

/-- The function behind the mark that ends before an index, and the index behind its header. -/
def function? (tokens : List Token) (start : Nat) : Run (Option (Signature × Nat)) := do
  match ← nextFn? tokens start with
  | none => pure none
  | some keyword =>
    match tokens[keyword + 1]?.bind Token.identifier? with
    | none => pure none
    | some name =>
      match ← behindAngles? tokens (keyword + 2) with
      | none => pure none
      | some opening =>
        match ← groupAt? tokens .paren opening with
        | none => pure none
        | some (inside, close) =>
          let parameters ← parameterList parameter inside
          let (result, next) ← resultAt tokens (close + 1)
          pure (some (⟨name, result, parameters⟩, next))

/-- Is the token at an index followed by an `extern "C"` mark from it on? -/
def isMarked (tokens : List Token) (i : Nat) : Run Bool := do
  let t ← item tokens i
  pure (t.isWord "extern" && tokens[i + 1]?.any (·.kind == .string "C"))

/-- How far the search has come, with the functions found. -/
structure Search where
  index : Nat := 0
  found : List Signature := []

/-- One token of the search, or one function. -/
def round (tokens : List Token) (s : Search) : Run (Search ⊕ List Signature) := do
  if s.index < tokens.length then
    if ← isMarked tokens s.index then
      match ← function? tokens (s.index + 2) with
      | some (signature, next) => pure (.inl { index := next, found := s.found ++ [signature] })
      | none => pure (.inl { s with index := s.index + 1 })
    else pure (.inl { s with index := s.index + 1 })
  else pure (.inr s.found)

/-- The functions in a token list. -/
def functions (tokens : List Token) : Run (List Signature) := loop (round tokens) {}

variable {tokens rest : List Token} {t : Token} {i : Nat}

/-! ## Parameters and types -/

theorem parameter_eq (tokens : List Token) : parameter tokens = pure (Signature.RustExport.parameter tokens) := by
  unfold parameter Signature.RustExport.parameter
  cases hcolon : breakTopLevel? .colon 0 tokens with
  | none =>
    rw [findTopLevel_eq, hcolon]
    rfl
  | some found =>
    obtain ⟨before, after⟩ := found
    obtain ⟨hfind, hbefore, hafter⟩ := part_of_breakTopLevel? hcolon
    rw [hfind, pure_bind]
    dsimp only
    rw [hbefore, pure_bind, hafter, pure_bind]

theorem result_loop (h : Ahead tokens rest i) (depth : Int) :
    loop (resultRound tokens) (i, depth) = pure (i + (resultTokens depth rest).length) ∧
      resultTokens depth rest <+: rest := by
  induction rest generalizing i depth with
  | nil => exact ⟨loop_done (by simp [resultRound, h.get, resultTokens]), List.prefix_refl _⟩
  | cons t rest ih =>
    rw [resultTokens]
    dsimp only
    generalize hdepth : (if (t.kind.opens .brace || t.kind.closes .brace) = true then depth
      else depth + t.kind.nesting) = depth'
    by_cases hstop : ((t.kind.opens .brace || t.kind == .semicolon || t.isWord "where") && decide (depth ≤ 0)) = true
    · rw [if_pos hstop]
      refine ⟨loop_done ?_, List.nil_prefix⟩
      simp only [resultRound, h.get, List.head?_cons, if_pos hstop]
      rfl
    · have hround : resultRound tokens (i, depth) = pure (.inl (i + 1, depth')) := by
        simp only [resultRound, h.get, List.head?_cons, if_neg hstop, hdepth]
      obtain ⟨hloop, hprefix⟩ := ih h.next depth'
      rw [if_neg hstop, loop_next hround, hloop, List.length_cons]
      refine ⟨?_, (List.prefix_cons_inj t).2 hprefix⟩
      rw [Nat.add_assoc, Nat.add_comm 1]

theorem readResult_eq (h : Ahead tokens rest i) :
    readResult tokens i = pure (Token.render (resultTokens 0 rest), i + (resultTokens 0 rest).length) := by
  obtain ⟨hloop, behind, hrest⟩ := result_loop h 0
  rw [← hrest] at h
  rw [readResult, hloop, pure_bind, h.part, pure_bind]

/-! ## Functions -/

theorem fn_loop (h : Ahead tokens rest i) (taken : Nat) :
    match afterFn? taken rest with
    | none => nextFn? tokens i = pure none
    | some (rest', n) => ∃ k, n = taken + k + 1 ∧ nextFn? tokens i = pure (some (i + k)) ∧ Ahead tokens rest' (i + k + 1) := by
  unfold nextFn?
  induction rest generalizing i taken with
  | nil => exact loop_done (by simp [fnRound, h.get])
  | cons t rest ih =>
    rw [afterFn?]
    by_cases hfn : t.isWord "fn" = true
    · rw [if_pos hfn]
      exact ⟨0, rfl, loop_done (by simp [fnRound, h.get, hfn]), h.next⟩
    · rw [if_neg hfn]
      by_cases hends : endsSearch t.kind = true
      · rw [if_pos hends]
        exact loop_done (by simp [fnRound, h.get, hfn, hends])
      · have hround : fnRound tokens i = pure (.inl (i + 1)) := by simp [fnRound, h.get, hfn, hends]
        have hnext := ih h.next (taken + 1)
        rw [if_neg hends, loop_next hround]
        cases hafter : afterFn? (taken + 1) rest with
        | none =>
          rw [hafter] at hnext
          exact hnext
        | some found =>
          rw [hafter] at hnext
          obtain ⟨k, hn, hloop, hat⟩ := hnext
          have hsum : i + 1 + k = i + (k + 1) := by omega
          rw [hsum] at hloop hat
          exact ⟨k + 1, by omega, hloop, hat⟩

theorem function?_eq (h : Ahead tokens rest i) :
    function? tokens i = pure ((Signature.RustExport.function? rest).map fun (signature, taken) =>
      (signature, i + taken)) := by
  unfold function? Signature.RustExport.function?
  have hfn := fn_loop h 0
  cases hafter : afterFn? 0 rest with
  | none =>
    rw [hafter] at hfn
    rw [hfn]
    rfl
  | some found =>
    obtain ⟨rest', n⟩ := found
    rw [hafter] at hfn
    obtain ⟨k, rfl, hloop, hat⟩ := hfn
    rw [hloop, pure_bind]
    dsimp only [Option.bind_eq_bind, Option.bind_some]
    rw [hat.get]
    cases rest' with
    | nil => rfl
    | cons name rest' =>
      rw [List.head?_cons, Option.bind_some, Option.bind_some, List.tail_cons]
      cases name.identifier? with
      | none => rfl
      | some name =>
        have hgenerics : generics? rest' = anglesLength? rest' := rfl
        obtain ⟨hbehind, hdrop⟩ := behindAngles?_eq hat.next
        dsimp only [Option.bind_some]
        rw [hbehind, pure_bind, hgenerics]
        cases hlength : anglesLength? rest' with
        | none => rfl
        | some generics =>
          have hlist := hdrop generics hlength
          dsimp only [Option.map_some, Option.bind_some]
          rw [groupAt?_eq .paren hlist, pure_bind]
          cases hgroup : group? .paren (rest'.drop generics) with
          | none => rfl
          | some found =>
            obtain ⟨inside, after⟩ := found
            have hafter := hlist.group hgroup
            dsimp only [Option.map_some, Option.bind_some]
            have hclose : i + k + 1 + 1 + generics + 1 + inside.length + 1
                = i + (0 + k + 1 + generics + inside.length + 3) := by omega
            rw [parameterList_eq parameter_eq, pure_bind, resultAt, hafter.get]
            by_cases harrow : after.head?.any (·.kind == .arrow) = true
            · rw [if_pos harrow, if_pos harrow]
              cases after with
              | nil => cases harrow
              | cons arrow after =>
                rw [readResult_eq hafter.next, pure_bind, List.tail_cons, hclose, Nat.add_assoc i, Nat.add_assoc i]
                rfl
            · rw [if_neg harrow, if_neg harrow, pure_bind, hclose]
              rfl

/-! ## The whole list -/

theorem functions_drop (n : Nat) (rest : List Token) :
    Signature.RustExport.functions n rest = Signature.RustExport.functions 0 (rest.drop n) := by
  induction rest generalizing n with
  | nil => rw [List.drop_nil]; rfl
  | cons t rest ih =>
    cases n with
    | zero => rfl
    | succ n => exact ih n

/-- The function that is marked by a token and the one behind it. -/
def markedFunction? (t : Token) (rest : List Token) : Option (Signature × Nat) :=
  if t.isWord "extern" && rest.head?.any (·.kind == .string "C") then Signature.RustExport.function? rest.tail
  else none

theorem round_eq {s : Search} (h : Ahead tokens (t :: rest) s.index) :
    round tokens s = pure (.inl (match markedFunction? t rest with
      | some (signature, taken) => { index := s.index + 2 + taken, found := s.found ++ [signature] }
      | none => { s with index := s.index + 1 })) := by
  have hlt : s.index < tokens.length := by simp [h.lt_length_iff]
  rw [round, if_pos hlt, isMarked, h.item, pure_bind, pure_bind, h.next.get, markedFunction?]
  by_cases hmarked : (t.isWord "extern" && rest.head?.any (·.kind == .string "C")) = true
  · rw [if_pos hmarked, if_pos hmarked]
    cases rest with
    | nil => simp at hmarked
    | cons abi rest =>
      rw [function?_eq h.next.next, pure_bind, List.tail_cons]
      cases Signature.RustExport.function? rest <;> rfl
  · rw [if_neg hmarked, if_neg hmarked]

theorem functions_cons (t : Token) (rest : List Token) :
    Signature.RustExport.functions 0 (t :: rest) = match markedFunction? t rest with
      | some (signature, taken) => signature :: Signature.RustExport.functions (taken + 1) rest
      | none => Signature.RustExport.functions 0 rest := rfl

theorem function_loop (s : Search) : loop (round tokens) s
    = pure (s.found ++ Signature.RustExport.functions 0 (tokens.drop s.index)) := by
  refine loop_ahead Search.index
    (fun s rest => s.found ++ Signature.RustExport.functions 0 rest) ?_ ?_ s
  · intro s hend
    rw [round, if_neg (Nat.not_lt.2 hend), Signature.RustExport.functions, List.append_nil]
  · intro s t rest hat hmore
    have hround := round_eq hat
    rw [functions_cons]
    cases hmarked : markedFunction? t rest with
    | none =>
      rw [hmarked] at hround
      rw [loop_next hround, hmore _ (Nat.lt_succ_self _)]
      dsimp only
      rw [hat.next.drop_eq 0, List.drop_zero]
    | some found =>
      obtain ⟨signature, taken⟩ := found
      have hdrop : tokens.drop (s.index + 2 + taken) = rest.drop (taken + 1) := by
        rw [← hat.next.drop_eq (taken + 1)]
        congr 1
        omega
      rw [hmarked] at hround
      rw [loop_next hround, hmore _ (by dsimp only; omega)]
      dsimp only
      rw [hdrop, functions_drop (taken + 1), List.append_assoc]
      rfl

/-- The search by index finds the functions in a token list. -/
theorem functions_eq (tokens : List Token) : functions tokens = pure (Signature.RustExport.functions 0 tokens) :=
  function_loop {}

end ForeignModule.Bounds.RustExport
