import ForeignModule.Proofs.Token.Nesting
import Mathlib.Order.Bounds.Basic

/-!
# The partner of a bracket

The search for a partner counts the brackets of one kind only. On any tokens at all it finds the
first place at which as many of them have been closed as opened, and where brackets nest this is the
bracket that belongs to the opening one.

* `Settles` is what the search looks for behind an opening bracket, and `partner?_eq_some_iff` says
  that it finds just that;
* `ClosesAt` says it of places in a list, by the brackets from the one place to the other;
* `group?_of_nested`: in nested tokens every bracket that opens has a partner, and what stands between
  the two nests;
* `group?_closesAt` puts these together.
-/

namespace ForeignModule.Token

/-! ## The search -/

/-- How many brackets of a kind open among the tokens. -/
def opened (b : Bracket) (tokens : List Token) : Nat := tokens.countP (·.kind.opens b)

/-- How many brackets of a kind close among the tokens. -/
def closed (b : Bracket) (tokens : List Token) : Nat := tokens.countP (·.kind.closes b)

/-- The first token up to which one bracket more than the `depth` further ones that are open closes:
so many tokens stand before it. -/
def Settles (b : Bracket) (depth : Nat) (tokens : List Token) (count : Nat) : Prop :=
  IsLeast {k | k < tokens.length ∧
    closed b (tokens.take (k + 1)) = opened b (tokens.take (k + 1)) + depth + 1} count

section Search

variable {b : Bracket} {t : Token} {rest tokens : List Token} {depth deeper count passed n : Nat}

@[simp] theorem opened_nil : opened b [] = 0 := rfl

@[simp] theorem closed_nil : closed b [] = 0 := rfl

theorem opened_cons :
    opened b (t :: tokens) = opened b tokens + if t.kind.opens b then 1 else 0 := by
  simp [opened, List.countP_cons]

theorem closed_cons :
    closed b (t :: tokens) = closed b tokens + if t.kind.closes b then 1 else 0 := by
  simp [closed, List.countP_cons]

theorem not_opens_of_closes (h : t.kind.closes b = true) : t.kind.opens b = false := by
  rw [closes_eq_true] at h
  simp [h, Kind.opens]

/-- A closing bracket settles the count where nothing else is open. -/
theorem settles_closing (hc : t.kind.closes b = true) : Settles b 0 (t :: rest) count ↔ count = 0 := by
  have hfirst : Settles b 0 (t :: rest) 0 := by
    constructor
    · simp [opened_cons, closed_cons, hc, not_opens_of_closes hc]
    · intro k _
      exact Nat.zero_le k
  constructor
  · intro h
    exact h.unique hfirst
  · rintro rfl
    exact hfirst

/-- Any other token is passed, and changes how much there is to be closed. -/
theorem settles_cons
    (h : ∀ l, closed b (t :: l) = opened b (t :: l) + depth + 1 ↔
      closed b l = opened b l + deeper + 1) :
    Settles b depth (t :: rest) count ↔ ∃ k, count = k + 1 ∧ Settles b deeper rest k := by
  -- Behind the first token the same places are looked at, one token further on.
  have hplaces : {k | k < (t :: rest).length ∧
      closed b ((t :: rest).take (k + 1)) = opened b ((t :: rest).take (k + 1)) + depth + 1}
      = Nat.succ '' {k | k < rest.length ∧
          closed b (rest.take (k + 1)) = opened b (rest.take (k + 1)) + deeper + 1} := by
    ext k
    constructor
    · rintro ⟨hlt, heven⟩
      rw [List.take_succ_cons, h] at heven
      cases k with
      | zero => simp at heven
      | succ k => exact ⟨k, ⟨by simpa using hlt, heven⟩, rfl⟩
    · rintro ⟨k, ⟨hlt, heven⟩, rfl⟩
      refine ⟨by simpa using hlt, ?_⟩
      rw [List.take_succ_cons, h]
      exact heven
  unfold Settles
  rw [hplaces]
  constructor
  · rintro ⟨⟨k, hk, rfl⟩, hleast⟩
    refine ⟨k, rfl, hk, fun j hj => ?_⟩
    exact Nat.le_of_succ_le_succ (hleast ⟨j, hj, rfl⟩)
  · rintro ⟨k, rfl, hk, hleast⟩
    refine ⟨⟨k, hk, rfl⟩, ?_⟩
    rintro _ ⟨j, hj, rfl⟩
    exact Nat.succ_le_succ (hleast hj)

/-- The search finds the first place where the brackets of the kind are even, and nothing else. -/
theorem partner?_eq_some_iff :
    partner? b depth passed tokens = some n ↔
      ∃ count, n = passed + count ∧ Settles b depth tokens count := by
  induction tokens generalizing depth passed with
  | nil =>
    constructor
    · intro h
      cases h
    · rintro ⟨count, -, hcount, -⟩
      exact absurd hcount.1 (by simp)
  | cons t rest ih =>
    -- What is passed counts as one token, and the search goes on behind it.
    have hpass : ∀ deeper, (∀ l, closed b (t :: l) = opened b (t :: l) + depth + 1 ↔
        closed b l = opened b l + deeper + 1) →
        (partner? b deeper (passed + 1) rest = some n ↔
          ∃ count, n = passed + count ∧ Settles b depth (t :: rest) count) := by
      intro deeper hdeeper
      rw [ih]
      constructor
      · rintro ⟨k, rfl, hk⟩
        exact ⟨k + 1, by omega, (settles_cons hdeeper).2 ⟨k, rfl, hk⟩⟩
      · rintro ⟨count, rfl, hcount⟩
        rcases (settles_cons hdeeper).1 hcount with ⟨k, rfl, hk⟩
        exact ⟨k, by omega, hk⟩
    by_cases hc : t.kind.closes b = true
    · have ho := not_opens_of_closes hc
      cases depth with
      | zero =>
        simp only [partner?, hc, if_true, Option.some.injEq, settles_closing hc]
        constructor
        · rintro rfl
          exact ⟨0, rfl, rfl⟩
        · rintro ⟨count, rfl, rfl⟩
          rfl
      | succ depth =>
        simp only [partner?, hc, if_true]
        apply hpass
        intro l
        simp only [closed_cons, opened_cons, hc, ho, if_true, Bool.false_eq_true, if_false]
        omega
    · by_cases ho : t.kind.opens b = true
      · simp only [partner?, hc, ho, if_true, if_false, Bool.false_eq_true]
        apply hpass
        intro l
        simp only [closed_cons, opened_cons, hc, ho, if_true, if_false, Bool.false_eq_true]
        omega
      · simp only [partner?, hc, ho, if_false, Bool.false_eq_true]
        apply hpass
        intro l
        simp only [closed_cons, opened_cons, hc, ho, if_false, Bool.false_eq_true]
        omega

end Search

/-! ## Places in a list -/

/-- The tokens from one place to another one, both included. -/
def stretch (tokens : List Token) (first last : Nat) : List Token :=
  (tokens.take (last + 1)).drop first

/-- The tokens strictly between two places. -/
def between (tokens : List Token) (first last : Nat) : List Token :=
  (tokens.take last).drop (first + 1)

/-- A bracket of this kind opens at the one place, and the other one is the first behind it up to
which as many of them close as open. -/
structure ClosesAt (b : Bracket) (tokens : List Token) (first last : Nat) : Prop where
  opens : ∃ t, tokens[first]? = some t ∧ t.kind = .opening b
  closes : IsLeast {c | first < c ∧ c < tokens.length ∧
    closed b (stretch tokens first c) = opened b (stretch tokens first c)} last

section Places

variable {b : Bracket} {tokens inside rest more : List Token} {t : Token} {i c : Nat}

theorem stretch_eq (hi : tokens.drop i = t :: rest) (k : Nat) :
    stretch tokens i (i + 1 + k) = t :: rest.take (k + 1) := by
  rw [stretch, List.drop_take, hi, show i + 1 + k + 1 - i = k + 1 + 1 by omega, List.take_succ_cons]

theorem between_eq (hi : tokens.drop i = t :: rest) (k : Nat) :
    between tokens i (i + 1 + k) = rest.take k := by
  have hbehind : tokens.drop (i + 1) = rest := by
    rw [← List.drop_drop, hi, List.drop_one, List.tail_cons]
  rw [between, List.drop_take, hbehind, Nat.add_sub_cancel_left]

/-- What settles the count behind a bracket closes it. -/
theorem closesAt_iff (hi : tokens.drop i = t :: rest) :
    ClosesAt b tokens i c ↔ t.kind = .opening b ∧ ∃ k, c = i + 1 + k ∧ Settles b 0 rest k := by
  have hget : tokens[i]? = some t := by
    rw [← List.head?_drop, hi, List.head?_cons]
  have hlength : tokens.length = i + 1 + rest.length := by
    have hdrop := congrArg List.length hi
    simp only [List.length_drop, List.length_cons] at hdrop
    omega
  have heven : t.kind = .opening b → ∀ k,
      (closed b (stretch tokens i (i + 1 + k)) = opened b (stretch tokens i (i + 1 + k)) ↔
        closed b (rest.take (k + 1)) = opened b (rest.take (k + 1)) + 0 + 1) := by
    intro ht k
    have hcloses : t.kind.closes b = false := by simp [ht, Kind.closes]
    have hopens : t.kind.opens b = true := by simp [ht]
    simp [stretch_eq hi, closed_cons, opened_cons, hcloses, hopens]
  constructor
  · rintro ⟨⟨u, hu, ht⟩, ⟨hlt, hlast, hsame⟩, hleast⟩
    obtain rfl : u = t := Option.some.inj (hu.symm.trans hget)
    obtain ⟨k, rfl⟩ : ∃ k, c = i + 1 + k := ⟨c - (i + 1), by omega⟩
    refine ⟨ht, k, rfl, ⟨by omega, (heven ht k).1 hsame⟩, fun j hj => ?_⟩
    have hle : i + 1 + k ≤ i + 1 + j :=
      hleast ⟨by omega, by have := hj.1; omega, (heven ht j).2 hj.2⟩
    omega
  · rintro ⟨ht, k, rfl, ⟨hlt, hsame⟩, hleast⟩
    refine ⟨⟨t, hget, ht⟩, ⟨by omega, by omega, (heven ht k).2 hsame⟩, ?_⟩
    rintro c ⟨hc, hlast, hclosed⟩
    obtain ⟨j, rfl⟩ : ∃ j, c = i + 1 + j := ⟨c - (i + 1), by omega⟩
    have hle : k ≤ j := hleast ⟨by omega, (heven ht j).1 hclosed⟩
    omega

/-- A group is taken off where the bracket in front closes. -/
theorem group?_drop_eq_some_iff :
    group? b (tokens.drop i) = some (inside, rest) ↔
      ∃ c, ClosesAt b tokens i c ∧ inside = between tokens i c ∧ rest = tokens.drop (c + 1) := by
  cases hi : tokens.drop i with
  | nil =>
    have hend : tokens[i]? = none := by rw [← List.head?_drop, hi, List.head?_nil]
    constructor
    · intro h
      cases h
    · rintro ⟨c, ⟨⟨t, ht, -⟩, -⟩, -⟩
      rw [hend] at ht
      cases ht
  | cons t behind =>
    have hbehind : ∀ k, tokens.drop (i + 1 + k + 1) = behind.drop (k + 1) := by
      intro k
      rw [show i + 1 + k + 1 = i + (k + 2) by omega, ← List.drop_drop, hi, List.drop_succ_cons]
    constructor
    · intro h
      by_cases ho : t.kind.opens b = true
      · simp only [group?, ho, if_true, Option.map_eq_some_iff] at h
        rcases h with ⟨count, hcount, htaken⟩
        rcases partner?_eq_some_iff.1 hcount with ⟨k, rfl, hk⟩
        cases htaken
        refine ⟨i + 1 + k, (closesAt_iff hi).2 ⟨opens_eq_true.1 ho, k, rfl, hk⟩, ?_, ?_⟩
        · rw [between_eq hi, Nat.zero_add]
        · rw [hbehind, Nat.zero_add]
      · simp [group?, ho] at h
    · rintro ⟨c, hc, rfl, rfl⟩
      rcases (closesAt_iff hi).1 hc with ⟨ht, k, rfl, hk⟩
      have hpartner : partner? b 0 0 behind = some k :=
        partner?_eq_some_iff.2 ⟨k, by omega, hk⟩
      simp [group?, ht, hpartner, between_eq hi, hbehind]

/-! ## Nested tokens -/

/-- A group that has been found is found as well where more follows. -/
theorem group?_append (h : group? b tokens = some (inside, rest)) :
    group? b (tokens ++ more) = some (inside, rest ++ more) := by
  cases tokens with
  | nil => cases h
  | cons t behind =>
    by_cases ho : t.kind.opens b = true
    · simp only [group?, ho, if_true, Option.map_eq_some_iff] at h
      rcases h with ⟨count, hcount, htaken⟩
      rcases partner?_eq_some_iff.1 hcount with ⟨k, hk, ⟨hlt, heven⟩, hleast⟩
      obtain rfl : count = k := by omega
      cases htaken
      have htake : ∀ j, j < behind.length → (behind ++ more).take (j + 1) = behind.take (j + 1) :=
        fun j hj => List.take_append_of_le_length hj
      have hsettles : Settles b 0 (behind ++ more) count := by
        refine ⟨⟨?_, ?_⟩, fun j hj => ?_⟩
        · rw [List.length_append]
          omega
        · rw [htake count hlt]
          exact heven
        · by_cases hj' : j < behind.length
          · rcases hj with ⟨-, hsame⟩
            rw [htake j hj'] at hsame
            exact hleast ⟨hj', hsame⟩
          · omega
      have hpartner : partner? b 0 0 (behind ++ more) = some count :=
        partner?_eq_some_iff.2 ⟨count, by omega, hsettles⟩
      simp only [List.cons_append, group?, ho, if_true, hpartner, Option.map_some]
      rw [List.take_append_of_le_length (by omega), List.drop_append_of_le_length (by omega)]
    · simp [group?, ho] at h

/-- In nested tokens every bracket that opens has its partner, and what stands between them nests. -/
theorem group?_of_nested (h : Nested tokens) (hi : tokens[i]? = some t)
    (ht : t.kind = .opening b) :
    ∃ inside rest, group? b (tokens.drop i) = some (inside, rest) ∧ Nested inside := by
  induction h generalizing i with
  | nil => simp at hi
  | @other u tail hu _ ih =>
    cases i with
    | zero =>
      obtain rfl : u = t := by simpa using hi
      rw [ht] at hu
      cases hu
    | succ i => exact ih (by simpa using hi)
  | @group kind first last mid tail hfirst hlast hmid _ ihm iht =>
    cases i with
    | zero =>
      obtain rfl : first = t := by simpa using hi
      obtain rfl : kind = b := by simpa [hfirst] using ht
      exact ⟨mid, tail, group?_of_balanced hfirst hlast (hmid.balanced kind), hmid⟩
    | succ i =>
      rw [List.getElem?_cons_succ] at hi
      rw [List.drop_succ_cons]
      -- The bracket stands inside the group or behind it, or it is the one that closes the group.
      rcases Nat.lt_trichotomy i mid.length with hlt | rfl | hgt
      · rw [List.getElem?_append_left hlt] at hi
        rcases ihm hi with ⟨inside, rest, hgroup, hinside⟩
        refine ⟨inside, rest ++ last :: tail, ?_, hinside⟩
        rw [List.drop_append_of_le_length (by omega)]
        exact group?_append hgroup
      · simp only [List.getElem?_append_right (Nat.le_refl _), Nat.sub_self, List.getElem?_cons_zero,
          Option.some.injEq] at hi
        rw [hi, ht] at hlast
        cases hlast
      · obtain ⟨j, rfl⟩ : ∃ j, i = mid.length + (j + 1) := ⟨i - mid.length - 1, by omega⟩
        rw [List.getElem?_append_right (by omega), Nat.add_sub_cancel_left,
          List.getElem?_cons_succ] at hi
        rw [← List.drop_drop, List.drop_left, List.drop_succ_cons]
        exact iht hi

end Places

/-- The group at a place is found exactly if a bracket of the kind opens there and closes somewhere: it
ends at the first place up to which as many brackets of the kind close as open, and otherwise there is
none. Wherever the brackets of a stretch nest, the partners of those that open in it are found in it, and
what stands between the two nests. -/
theorem group?_closesAt (b : Bracket) (tokens : List Token) (i : Nat) :
    (∀ inside rest, group? b (tokens.drop i) = some (inside, rest) ↔
      ∃ c, ClosesAt b tokens i c ∧ inside = between tokens i c ∧ rest = tokens.drop (c + 1)) ∧
    (group? b (tokens.drop i) = none ↔ ∀ c, ¬ClosesAt b tokens i c) ∧
    (∀ front slice behind t, tokens = front ++ (slice ++ behind) → Nested slice →
      front.length ≤ i → i < front.length + slice.length →
      tokens[i]? = some t → t.kind = .opening b →
        ∃ c, ClosesAt b tokens i c ∧ c < front.length + slice.length ∧
          Nested (between tokens i c)) := by
  refine ⟨fun inside rest => group?_drop_eq_some_iff, ?_, ?_⟩
  · constructor
    · intro hnone c hc
      have hsome := group?_drop_eq_some_iff.2 ⟨c, hc, rfl, rfl⟩
      rw [hnone] at hsome
      cases hsome
    · intro hnever
      cases hgroup : group? b (tokens.drop i) with
      | none => rfl
      | some group =>
        rcases group?_drop_eq_some_iff.1 hgroup with ⟨c, hc, -⟩
        exact absurd hc (hnever c)
  · rintro front slice behind t rfl hnested hfirst hlast ht hopens
    have hslice : slice[i - front.length]? = some t := by
      rwa [List.getElem?_append_right hfirst, List.getElem?_append_left (by omega)] at ht
    rcases group?_of_nested hnested hslice hopens with ⟨inside, rest, hgroup, hinside⟩
    have hdrop : (front ++ (slice ++ behind)).drop i = slice.drop (i - front.length) ++ behind := by
      rw [List.drop_append, List.drop_eq_nil_of_le hfirst, List.nil_append,
        List.drop_append_of_le_length (by omega)]
    have hmore : group? b ((front ++ (slice ++ behind)).drop i) = some (inside, rest ++ behind) := by
      rw [hdrop]
      exact group?_append hgroup
    rcases group?_drop_eq_some_iff.1 hmore with ⟨c, hc, rfl, hrest⟩
    refine ⟨c, hc, ?_, hinside⟩
    -- Behind the partner there is at least all that follows the stretch.
    have hbehind := congrArg List.length hrest
    have hend := hc.closes.1.2.1
    simp only [List.length_append, List.length_drop] at hbehind hend
    omega

/-- A token of this kind, wherever it stands. -/
def ofKind (k : Kind) : Token := ⟨k, default, false⟩

/-- Tokens between two brackets. -/
def wrapped (b : Bracket) (inside : List Token) : List Token :=
  ofKind (.opening b) :: (inside ++ [ofKind (.closing b)])

theorem nested_wrapped {b : Bracket} {inside : List Token} (h : Nested inside) :
    Nested (wrapped b inside) :=
  .group rfl rfl h .nil

/-- The tokens `( < [ ( ) -> ] > )`. -/
def arrowGroup : List Token :=
  wrapped .paren (wrapped .angle (wrapped .square (wrapped .paren [] ++ [ofKind .arrow])))

/-- In `) ( < [ ( ) -> ] > ) < }` the partner of the first bracket that opens is found behind a group
of its own kind. -/
theorem group?_closesAt_arrow :
    Nested arrowGroup ∧
      ∃ c, ClosesAt .paren ([ofKind (.closing .paren)] ++
          (arrowGroup ++ [ofKind (.opening .angle), ofKind (.closing .brace)])) 1 c ∧
        c < 10 ∧
        Nested (between ([ofKind (.closing .paren)] ++
          (arrowGroup ++ [ofKind (.opening .angle), ofKind (.closing .brace)])) 1 c) := by
  have harrow : Nested [ofKind .arrow] := .other rfl .nil
  have hgroup : Nested arrowGroup :=
    nested_wrapped (nested_wrapped (nested_wrapped ((nested_wrapped .nil).append harrow)))
  exact ⟨hgroup, (group?_closesAt .paren _ 1).2.2 _ _ _ _ rfl hgroup (by decide) (by decide) rfl rfl⟩

end ForeignModule.Token
