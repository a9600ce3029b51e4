import ForeignModule.Proofs.Bounds.Run
import ForeignModule.Proofs.Token.Nesting
import ForeignModule.Signature

/-!
# Searching token lists by index

The searches for a closing bracket, for separators and for a target outside brackets, as loops over indices. The
parts that they find are taken from the list by index, and the count of open brackets must not fall below zero.

`Ahead xs rest i` says that `rest` is what a list holds from the index `i` on. Each loop finds what the recursion
over `rest` finds: `matchingClose_eq`, `split_eq`, `findTopLevel_eq`.
-/

namespace ForeignModule.Bounds

/-! ## Indices -/

/-- From the index `i` on, the list is `rest`. -/
def Ahead {α : Type} (xs rest : List α) (i : Nat) : Prop := ∃ front, xs = front ++ rest ∧ i = front.length

namespace Ahead

variable {α : Type} {xs inside rest : List α} {x : α} {i j : Nat}

theorem start (xs : List α) : Ahead xs xs 0 := ⟨[], rfl, rfl⟩

theorem of_drop (h : xs.drop i = x :: rest) : Ahead xs (x :: rest) i := by
  have hlength := congrArg List.length h
  refine ⟨xs.take i, by rw [← h, List.take_append_drop], ?_⟩
  rw [List.length_drop, List.length_cons] at hlength
  rw [List.length_take]
  omega

theorem pass (h : Ahead xs (inside ++ rest) i) : Ahead xs rest (i + inside.length) := by
  obtain ⟨front, rfl, rfl⟩ := h
  exact ⟨front ++ inside, (List.append_assoc front inside rest).symm, List.length_append.symm⟩

theorem next (h : Ahead xs (x :: rest) i) : Ahead xs rest (i + 1) := by
  have hpass : Ahead xs ([x] ++ rest) i := h
  exact hpass.pass

theorem get (h : Ahead xs rest i) : xs[i]? = rest.head? := by
  obtain ⟨front, rfl, rfl⟩ := h
  cases rest <;> simp

theorem item (h : Ahead xs (x :: rest) i) : item xs i = pure x := by
  obtain ⟨front, rfl, rfl⟩ := h
  exact item_append front rest x

theorem part (h : Ahead xs (inside ++ rest) i) : part xs i (i + inside.length) = pure inside := by
  obtain ⟨front, rfl, rfl⟩ := h
  exact part_append front inside rest

theorem part_end (h : Ahead xs rest i) : Bounds.part xs i xs.length = pure rest := by
  obtain ⟨front, rfl, rfl⟩ := h
  rw [part_drop (by simp), List.drop_left]

theorem part_start (h : Ahead xs rest i) : ∃ front, xs = front ++ rest ∧ Bounds.part xs 0 i = pure front := by
  obtain ⟨front, rfl, rfl⟩ := h
  have hfront := part (start (front ++ rest))
  rw [Nat.zero_add] at hfront
  exact ⟨front, rfl, hfront⟩

theorem drop (h : Ahead xs rest i) (hj : j ≤ rest.length) : Ahead xs (rest.drop j) (i + j) := by
  have hsplit : Ahead xs (rest.take j ++ rest.drop j) i := by rwa [List.take_append_drop]
  have hpass := hsplit.pass
  rwa [List.length_take, Nat.min_eq_left hj] at hpass

theorem drop_eq (h : Ahead xs rest i) (n : Nat) : xs.drop (i + n) = rest.drop n := by
  obtain ⟨front, rfl, rfl⟩ := h
  rw [← List.drop_drop, List.drop_left]

theorem lt_length_iff (h : Ahead xs rest i) : i < xs.length ↔ rest ≠ [] := by
  obtain ⟨front, rfl, rfl⟩ := h
  cases rest <;> simp

end Ahead

/-- A loop over an index that grows with each round, up to the end of the list. -/
theorem loop_ahead {α β σ : Type} {xs : List α} {round : σ → Run (σ ⊕ β)} (index : σ → Nat)
    (result : σ → List α → β) (hend : ∀ s, xs.length ≤ index s → round s = pure (.inr (result s [])))
    (hround : ∀ s x rest, Ahead xs (x :: rest) (index s) →
      (∀ u, index s < index u → loop round u = pure (result u (xs.drop (index u)))) →
      loop round s = pure (result s (x :: rest))) (s : σ) :
    loop round s = pure (result s (xs.drop (index s))) := by
  -- By what is left of the list.
  induction hn : xs.length - index s using Nat.strongRecOn generalizing s with
  | ind _ ih =>
    subst hn
    cases hrest : xs.drop (index s) with
    | nil => exact loop_done (hend s (List.drop_eq_nil_iff.1 hrest))
    | cons x rest =>
      have hat := Ahead.of_drop hrest
      have hlt : index s < xs.length := by simp [hat.lt_length_iff]
      refine hround s x rest hat fun u hu => ih _ ?_ u rfl
      omega

open Token

variable {tokens front inside rest : List Token} {b : Bracket} {i : Nat}

/-! ## Closing brackets -/

/-- One token of the search for a closing bracket, at an index and with a count of open brackets. -/
def closeRound (tokens : List Token) (b : Bracket) : Nat × Nat → Run (Nat × Nat ⊕ Option Nat)
  | (i, depth) =>
    match tokens[i]? with
    | none => pure (.inr none)
    | some t =>
      if t.kind.opens b then pure (.inl (i + 1, depth + 1))
      else if t.kind.closes b then do
        let depth ← minus depth 1
        pure (if depth = 0 then .inr (some i) else .inl (i + 1, depth))
      else pure (.inl (i + 1, depth))

/-- The index of the partner of the opening bracket at an index. -/
def matchingClose (tokens : List Token) (i : Nat) : Run (Option Nat) :=
  match tokens[i]?.map Token.kind with
  | some (.opening b) => loop (closeRound tokens b) (i, 0)
  | _ => pure none

/-- What a partner closes. -/
theorem exists_of_partner? {depth passed count : Nat} (h : partner? b depth passed rest = some count) :
    ∃ inside last after, rest = inside ++ last :: after ∧ count = passed + inside.length := by
  induction rest generalizing depth passed with
  | nil => cases h
  | cons t rest ih =>
    unfold partner? at h
    have hmore : ∀ {depth}, partner? b depth (passed + 1) rest = some count →
        ∃ inside last after, t :: rest = inside ++ last :: after ∧ count = passed + inside.length := by
      intro depth h
      obtain ⟨inside, last, after, rfl, rfl⟩ := ih h
      refine ⟨t :: inside, last, after, rfl, ?_⟩
      rw [List.length_cons]
      omega
    split at h
    · cases depth with
      | zero =>
        cases h
        exact ⟨[], t, rest, rfl, rfl⟩
      | succ depth => exact hmore h
    · exact hmore h

/-- The count of open brackets stays above zero until the partner is found. -/
theorem close_loop {base passed : Nat} (h : Ahead tokens rest i) (hi : i = base + passed) (depth : Nat) :
    loop (closeRound tokens b) (i, depth + 1) = pure ((partner? b depth passed rest).map (base + ·)) := by
  induction rest generalizing i passed depth with
  | nil => exact loop_done (by simp [closeRound, h.get, partner?])
  | cons t rest ih =>
    have hbase : i + 1 = base + (passed + 1) := by omega
    have hnext := ih h.next hbase
    have hclosed : t.kind.closes b = true → t.kind.opens b = false := by
      intro hc
      rw [closes_eq_true] at hc
      simp [hc, Kind.opens]
    unfold partner?
    by_cases hc : t.kind.closes b = true
    · rw [if_pos hc]
      cases depth with
      | zero =>
        rw [loop_done (a := some i) (by simp [closeRound, h.get, hc, hclosed hc, minus]), hi]
        rfl
      | succ depth =>
        rw [loop_next (t := (i + 1, depth + 1)) (by simp [closeRound, h.get, hc, hclosed hc, minus]), hnext]
    · rw [if_neg hc]
      by_cases ho : t.kind.opens b = true
      · rw [if_pos ho, loop_next (t := (i + 1, depth + 1 + 1)) (by simp [closeRound, h.get, ho]), hnext]
      · rw [if_neg ho, loop_next (t := (i + 1, depth + 1)) (by simp [closeRound, h.get, hc, ho]), hnext]

/-- The partner of an opening bracket is found where the bracketed group ends. -/
theorem matchingClose_eq (h : Ahead tokens rest i) (hopen : rest.head?.any (·.kind.opens b) = true) :
    matchingClose tokens i = pure ((group? b rest).map fun found => i + 1 + found.1.length) := by
  cases rest with
  | nil => cases hopen
  | cons t rest =>
    have ho : t.kind.opens b = true := hopen
    have hkind : tokens[i]?.map Token.kind = some (.opening b) := by
      rw [h.get, List.head?_cons, Option.map_some, opens_eq_true.1 ho]
    rw [matchingClose, hkind]
    dsimp only
    have hclose : loop (closeRound tokens b) (i + 1, 0 + 1) = pure ((partner? b 0 0 rest).map (i + 1 + ·)) :=
      close_loop h.next (Nat.add_zero (i + 1)).symm 0
    rw [loop_next (t := (i + 1, 0 + 1)) (by simp [closeRound, h.get, ho]), hclose, group?, if_pos ho]
    cases hp : partner? b 0 0 rest with
    | none => rfl
    | some count =>
      obtain ⟨inside, last, after, rfl, rfl⟩ := exists_of_partner? hp
      simp

/-- A group is its brackets and what is between them. -/
theorem exists_of_group? {after : List Token} (h : group? b rest = some (inside, after)) :
    ∃ first last, rest = first :: (inside ++ last :: after) := by
  cases rest with
  | nil => cases h
  | cons t rest =>
    rw [group?] at h
    split at h
    · rw [Option.map_eq_some_iff] at h
      obtain ⟨count, hcount, h⟩ := h
      obtain ⟨inside', last, after', rfl, rfl⟩ := exists_of_partner? hcount
      refine ⟨t, last, ?_⟩
      simp only [Nat.zero_add, List.take_left, ← List.drop_drop, List.drop_left, List.drop_succ_cons, List.drop_zero,
        Prod.mk.injEq] at h
      rw [h.1, h.2]
    · cases h

/-- What is inside a bracketed group at an index, and the index of its closing bracket. -/
def groupAt? (tokens : List Token) (b : Bracket) (i : Nat) : Run (Option (List Token × Nat)) := do
  if tokens[i]?.any (·.kind.opens b) then
    match ← matchingClose tokens i with
    | none => pure none
    | some close =>
      let inside ← part tokens (i + 1) close
      pure (some (inside, close))
  else pure none

theorem groupAt?_eq (b : Bracket) (h : Ahead tokens rest i) :
    groupAt? tokens b i = pure ((group? b rest).map fun found => (found.1, i + 1 + found.1.length)) := by
  rw [groupAt?, h.get]
  by_cases hopen : rest.head?.any (·.kind.opens b) = true
  · rw [if_pos hopen, matchingClose_eq h hopen, pure_bind]
    cases hgroup : group? b rest with
    | none => rfl
    | some found =>
      obtain ⟨inside, after⟩ := found
      obtain ⟨first, last, rfl⟩ := exists_of_group? hgroup
      dsimp only [Option.map_some]
      rw [h.next.part, pure_bind]
  · have hgroup : group? b rest = none := group?_eq_none fun t ht hkind => hopen (by simp [ht, hkind, Kind.opens])
    rw [if_neg hopen, hgroup]
    rfl

/-- What follows a group is behind its closing bracket. -/
theorem Ahead.group {after : List Token} (h : Ahead tokens rest i) (hgroup : group? b rest = some (inside, after)) :
    Ahead tokens after (i + 1 + inside.length + 1) := by
  obtain ⟨first, last, rfl⟩ := exists_of_group? hgroup
  exact h.next.pass.next

/-- The index behind a group in angle brackets at an index, or that index itself without one. A bracket that is not
closed has none. -/
def behindAngles? (tokens : List Token) (i : Nat) : Run (Option Nat) :=
  if tokens[i]?.any (·.kind.opens .angle) then (·.map (· + 1)) <$> matchingClose tokens i else pure (some i)

/-- How many tokens a group in angle brackets takes up at the front. -/
def anglesLength? (rest : List Token) : Option Nat :=
  if rest.head?.any (·.kind.opens .angle) then (group? .angle rest).map fun found => found.1.length + 2 else some 0

theorem behindAngles?_eq (h : Ahead tokens rest i) :
    behindAngles? tokens i = pure ((anglesLength? rest).map (i + ·)) ∧
      ∀ n, anglesLength? rest = some n → Ahead tokens (rest.drop n) (i + n) := by
  unfold behindAngles? anglesLength?
  rw [h.get]
  by_cases hopen : rest.head?.any (·.kind.opens .angle) = true
  · rw [if_pos hopen, if_pos hopen, matchingClose_eq h hopen]
    cases hgroup : group? .angle rest with
    | none => exact ⟨rfl, nofun⟩
    | some found =>
      obtain ⟨inside, after⟩ := found
      obtain ⟨first, last, rfl⟩ := exists_of_group? hgroup
      constructor
      · have hsum : i + 1 + inside.length + 1 = i + (inside.length + 2) := by omega
        rw [Option.map_some, Option.map_some, Option.map_some, ← hsum]
        rfl
      · intro n hn
        cases hn
        apply h.drop
        simp only [List.length_cons, List.length_append]
        omega
  · rw [if_neg hopen, if_neg hopen]
    refine ⟨rfl, fun n hn => ?_⟩
    cases hn
    exact h

/-! ## Parts and targets outside brackets -/

/-- How far a list has been split: up to `index`, with a part that has begun at `start`. -/
structure Splitting where
  index : Nat := 0
  start : Nat := 0
  depth : Int := 0
  parts : List (List Token) := []

/-- One token of the search for separators. -/
def splitRound (tokens : List Token) (separator : Kind) (s : Splitting) :
    Run (Splitting ⊕ List (List Token)) :=
  match tokens[s.index]? with
  | none =>
    if s.start < tokens.length then do
      let last ← part tokens s.start tokens.length
      pure (.inr (s.parts ++ [last]))
    else pure (.inr s.parts)
  | some t =>
    let depth := s.depth + t.kind.nesting
    if depth = 0 ∧ t.kind = separator then do
      let next ← part tokens s.start s.index
      pure (.inl ⟨s.index + 1, s.index + 1, depth, s.parts ++ [next]⟩)
    else pure (.inl { s with index := s.index + 1, depth })

/-- The parts of a list between the separators outside brackets. -/
def split (tokens : List Token) (separator : Kind) : Run (List (List Token)) :=
  loop (splitRound tokens separator) {}

/-- One token of the search for a target, at an index and with a count of open brackets. -/
def findRound (tokens : List Token) (target : Kind) : Nat × Int → Run (Nat × Int ⊕ Option Nat)
  | (i, depth) =>
    match tokens[i]? with
    | none => pure (.inr none)
    | some t =>
      pure (if depth = 0 ∧ t.kind = target then .inr (some i) else .inl (i + 1, depth + t.kind.nesting))

/-- The index of the first target outside brackets. -/
def findTopLevel (tokens : List Token) (target : Kind) : Run (Option Nat) := loop (findRound tokens target) (0, 0)

variable {separator target : Kind}

/-- The tokens since the last separator go to the first of the parts that are still to come. -/
theorem split_loop {current : List Token} {s : Splitting} (h : Ahead tokens (current ++ rest) s.start)
    (hi : s.index = s.start + current.length) :
    loop (splitRound tokens separator) s
      = pure (s.parts ++ extendFirst current (splitTopLevel separator s.depth rest)) := by
  induction rest generalizing s current with
  | nil =>
    have hend : tokens[s.index]? = none := by
      rw [hi]
      exact h.pass.get
    rw [List.append_nil] at h
    have hlt := h.lt_length_iff
    by_cases hcurrent : current = []
    · rw [loop_done (a := s.parts) (by simp [splitRound, hend, hlt, hcurrent])]
      simp [splitTopLevel, extendFirst, hcurrent]
    · rw [loop_done (a := s.parts ++ [current]) (by simp [splitRound, hend, hlt, hcurrent, h.part_end])]
      simp [splitTopLevel, extendFirst, hcurrent]
  | cons t rest ih =>
    have hget : tokens[s.index]? = some t := by
      rw [hi]
      exact h.pass.get
    by_cases hsep : s.depth + t.kind.nesting = 0 ∧ t.kind = separator
    · have hpart : part tokens s.start s.index = pure current := by
        rw [hi]
        exact h.part
      have hnext : Ahead tokens ([] ++ rest) (s.index + 1) := by
        rw [hi]
        exact h.pass.next
      have hround : splitRound tokens separator s = pure (.inl ⟨s.index + 1, s.index + 1,
          s.depth + t.kind.nesting, s.parts ++ [current]⟩) := by
        simp only [splitRound, hget, if_pos hsep, hpart, pure_bind]
      rw [loop_next hround, ih hnext rfl, extendFirst_nil, splitTopLevel, if_pos hsep]
      simp [extendFirst]
    · have hround : splitRound tokens separator s
          = pure (.inl { s with index := s.index + 1, depth := s.depth + t.kind.nesting }) := by
        simp only [splitRound, hget, if_neg hsep]
      have hcurrent : Ahead tokens ((current ++ [t]) ++ rest) s.start := by simpa using h
      have hindex : s.index + 1 = s.start + (current ++ [t]).length := by
        rw [hi, List.length_append, Nat.add_assoc]
        rfl
      have hnext := ih (s := { s with index := s.index + 1, depth := s.depth + t.kind.nesting }) hcurrent hindex
      rw [loop_next hround, hnext, splitTopLevel_cons (Decidable.not_and_iff_or_not.1 hsep), extendFirst_append]

theorem split_eq (tokens : List Token) (separator : Kind) :
    split tokens separator = pure (splitTopLevel separator 0 tokens) := by
  have hstart : Ahead tokens ([] ++ tokens) 0 := .start tokens
  rw [split, split_loop hstart rfl]
  simp

theorem find_loop (h : Ahead tokens rest i) (depth : Int) :
    loop (findRound tokens target) (i, depth)
      = pure ((breakTopLevel? target depth rest).map fun found => i + found.1.length) := by
  induction rest generalizing i depth with
  | nil => exact loop_done (by simp [findRound, h.get, breakTopLevel?])
  | cons t rest ih =>
    rw [breakTopLevel?]
    by_cases htarget : depth = 0 ∧ t.kind = target
    · rw [if_pos htarget, loop_done (a := some i) (by simp [findRound, h.get, htarget])]
      rfl
    · rw [if_neg htarget, loop_next (t := (i + 1, depth + t.kind.nesting)) (by simp [findRound, h.get, htarget]),
        ih h.next]
      cases breakTopLevel? target (depth + t.kind.nesting) rest with
      | none => rfl
      | some found =>
        simp only [Option.map_some, List.length_cons]
        rw [Nat.add_right_comm, Nat.add_assoc]

theorem findTopLevel_eq (tokens : List Token) (target : Kind) :
    findTopLevel tokens target = pure ((breakTopLevel? target 0 tokens).map (·.1.length)) := by
  rw [findTopLevel, find_loop (.start tokens)]
  simp

/-- A list is broken at a target. -/
theorem exists_of_breakTopLevel? {before after : List Token} {depth : Int}
    (h : breakTopLevel? target depth tokens = some (before, after)) : ∃ t, tokens = before ++ t :: after := by
  induction tokens generalizing before depth with
  | nil => cases h
  | cons t rest ih =>
    rw [breakTopLevel?] at h
    split at h
    · cases h
      exact ⟨t, rfl⟩
    · rw [Option.map_eq_some_iff] at h
      obtain ⟨⟨before', after'⟩, hrest, h⟩ := h
      cases h
      obtain ⟨u, rfl⟩ := ih hrest
      exact ⟨u, rfl⟩

/-- What is before and behind a target is taken by its index. -/
theorem part_of_breakTopLevel? {before after : List Token} (h : breakTopLevel? target 0 tokens = some (before, after)) :
    findTopLevel tokens target = pure (some before.length) ∧ part tokens 0 before.length = pure before ∧
      part tokens (before.length + 1) tokens.length = pure after := by
  have hfound : findTopLevel tokens target = pure (some before.length) := by
    rw [findTopLevel_eq, h]
    rfl
  obtain ⟨t, rfl⟩ := exists_of_breakTopLevel? h
  have hstart := Ahead.start (before ++ t :: after)
  have hbefore := hstart.part
  have hafter := hstart.pass.next.part_end
  rw [Nat.zero_add] at hbefore hafter
  exact ⟨hfound, hbefore, hafter⟩

/-! ## Parameters -/

/-- The parameters in a list, each read by a program. -/
def parameterList (read : List Token → Run Parameter) (tokens : List Token) : Run (List Parameter) := do
  let parts ← split tokens .comma
  (parts.filter (!·.isEmpty)).mapM read

theorem parameterList_eq {read : List Token → Run Parameter} {f : List Token → Parameter}
    (h : ∀ tokens, read tokens = pure (f tokens)) (tokens : List Token) :
    parameterList read tokens = pure (Parameter.list f tokens) := by
  have hread : read = fun tokens => pure (f tokens) := funext h
  rw [parameterList, split_eq, pure_bind, hread, List.mapM_pure]
  rfl

end ForeignModule.Bounds
