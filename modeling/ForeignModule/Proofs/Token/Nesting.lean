import ForeignModule.Token.Nesting

/-!
# Token lists whose brackets nest

* `Balanced b` says that the brackets of one kind come in pairs, whatever the others do;
* `Nested` says that the brackets of all kinds come in pairs that do not cross;
* `Outer P` says moreover that what stands outside all brackets satisfies `P`.

Balance is what the search for a partner needs (`group?_of_balanced`), and nesting implies it for
each kind. Splitting and breaking look outside all brackets, so their lemmas take a list apart with
`Outer` (`Separated.splitTopLevel`, `breakTopLevel?_append`).
-/

namespace ForeignModule.Token

/-! ## Brackets of one kind -/

/-- The brackets of one kind come in pairs. -/
inductive Balanced (b : Bracket) : List Token → Prop where
  | nil : Balanced b []
  | other {t : Token} {rest : List Token} :
      t.kind ≠ .opening b → t.kind ≠ .closing b → Balanced b rest → Balanced b (t :: rest)
  | group {first last : Token} {inside rest : List Token} :
      first.kind = .opening b → last.kind = .closing b →
      Balanced b inside → Balanced b rest → Balanced b (first :: (inside ++ last :: rest))

@[simp] theorem opens_eq_true {b : Bracket} {k : Kind} : k.opens b = true ↔ k = .opening b := by
  cases k <;> simp [Kind.opens]

@[simp] theorem closes_eq_true {b : Bracket} {k : Kind} : k.closes b = true ↔ k = .closing b := by
  cases k <;> simp [Kind.closes]

namespace Balanced

variable {b : Bracket} {left right : List Token}

theorem append (hl : Balanced b left) (hr : Balanced b right) : Balanced b (left ++ right) := by
  induction hl with
  | nil => exact hr
  | other ho hc _ ih => exact .other ho hc ih
  | group ho hc hi _ _ ih =>
    rw [List.cons_append, List.append_assoc, List.cons_append]
    exact .group ho hc hi ih

/-- Tokens that are no brackets of this kind are balanced. -/
theorem of_forall {tokens : List Token}
    (h : ∀ t ∈ tokens, t.kind ≠ .opening b ∧ t.kind ≠ .closing b) : Balanced b tokens := by
  induction tokens with
  | nil => exact .nil
  | cons t rest ih =>
    have ht := h t (by simp)
    exact .other ht.1 ht.2 (ih fun u hu => h u (by simp [hu]))

end Balanced

section Partner

variable {b : Bracket} {inside rest : List Token} {first last : Token}

/-- The search for a partner passes over balanced tokens without a change of depth. -/
theorem partner?_append (h : Balanced b inside) (depth passed : Nat) :
    partner? b depth passed (inside ++ rest) = partner? b depth (passed + inside.length) rest := by
  induction h generalizing depth passed rest with
  | nil => rfl
  | @other t tail ho hc _ ih =>
    have hstep : partner? b depth passed (t :: (tail ++ rest))
        = partner? b depth (passed + 1) (tail ++ rest) := by
      simp [partner?, ho, hc]
    rw [List.cons_append, hstep, ih, List.length_cons]
    congr 1
    omega
  | @group first last mid tail ho hc _ _ ihm iht =>
    -- The opening bracket raises the depth, and its partner lowers it again.
    have hopen : partner? b depth passed (first :: (mid ++ last :: tail ++ rest))
        = partner? b (depth + 1) (passed + 1) (mid ++ last :: (tail ++ rest)) := by
      simp [partner?, ho]
    have hclose : partner? b (depth + 1) (passed + 1 + mid.length) (last :: (tail ++ rest))
        = partner? b depth (passed + 1 + mid.length + 1) (tail ++ rest) := by
      simp [partner?, hc]
    rw [List.cons_append, hopen, ihm, hclose, iht]
    simp only [List.length_cons, List.length_append]
    congr 1
    omega

/-- A balanced group is taken off the front as a whole. -/
theorem group?_of_balanced (ho : first.kind = .opening b) (hc : last.kind = .closing b)
    (hi : Balanced b inside) :
    group? b (first :: (inside ++ last :: rest)) = some (inside, rest) := by
  have hpartner : partner? b 0 0 (inside ++ last :: rest) = some inside.length := by
    rw [partner?_append hi]
    simp [partner?, hc]
  simp [group?, ho, hpartner]

/-- A token of a given kind, wherever it stands. -/
abbrev Of (k : Kind) : Type := { t : Token // t.kind = k }

/-- Balanced tokens between two brackets. -/
structure Group (b : Bracket) where
  first : Of (.opening b)
  inside : List Token
  last : Of (.closing b)
  balanced : Balanced b inside

/-- The tokens of a group, its brackets included. -/
def Group.tokens (g : Group b) : List Token := g.first.1 :: (g.inside ++ [g.last.1])

@[simp] theorem Group.length_tokens (g : Group b) : g.tokens.length = g.inside.length + 2 := by
  simp [Group.tokens]

@[simp] theorem Group.group?_tokens (g : Group b) :
    group? b (g.tokens ++ rest) = some (g.inside, rest) := by
  have h : group? b (g.first.1 :: (g.inside ++ g.last.1 :: rest)) = some (g.inside, rest) :=
    group?_of_balanced g.first.2 g.last.2 g.balanced
  simpa [Group.tokens] using h

/-- The length of a group that may be missing is found by looking at the front. -/
theorem length_optionalGroup (g : Option (Group b)) (h : ∀ t, rest.head? = some t → t.kind ≠ .opening b) :
    (if (g.elim [] Group.tokens ++ rest).head?.any (·.kind.opens b) then
        (group? b (g.elim [] Group.tokens ++ rest)).map fun found => found.1.length + 2
      else some 0)
      = some (g.elim [] Group.tokens).length := by
  cases g with
  | none =>
    have hclosed : rest.head?.any (·.kind.opens b) = false := by
      cases rest with
      | nil => rfl
      | cons t tail =>
        have ht : t.kind.opens b = false := by
          rw [← Bool.not_eq_true, opens_eq_true]
          exact h t rfl
        simp [ht]
    simp [hclosed]
  | some g =>
    have hhead : (g.tokens ++ rest).head? = some g.first.1 := by simp [Group.tokens]
    have hopen : g.first.1.kind.opens b = true := by simp [g.first.2]
    simp only [Option.elim_some, hhead, Option.any_some, hopen, if_true, Group.group?_tokens,
      Option.map_some, Group.length_tokens]

/-- A group starts with an opening bracket. -/
theorem group?_eq_none (h : ∀ t, rest.head? = some t → t.kind ≠ .opening b) :
    group? b rest = none := by
  cases rest with
  | nil => rfl
  | cons t tail => simp [group?, h t rfl]

end Partner

/-! ## Brackets of all kinds -/

/-- The brackets of all kinds come in pairs, and no two pairs cross. -/
inductive Nested : List Token → Prop where
  | nil : Nested []
  | other {t : Token} {rest : List Token} : t.kind.nesting = 0 → Nested rest → Nested (t :: rest)
  | group {b : Bracket} {first last : Token} {inside rest : List Token} :
      first.kind = .opening b → last.kind = .closing b →
      Nested inside → Nested rest → Nested (first :: (inside ++ last :: rest))

theorem nesting_eq_zero {k : Kind} :
    k.nesting = 0 ↔ ∀ b, k ≠ .opening b ∧ k ≠ .closing b := by
  cases k <;> simp [Kind.nesting]

namespace Nested

variable {left right tokens : List Token}

theorem append (hl : Nested left) (hr : Nested right) : Nested (left ++ right) := by
  induction hl with
  | nil => exact hr
  | other h _ ih => exact .other h ih
  | group ho hc hi _ _ ih =>
    rw [List.cons_append, List.append_assoc, List.cons_append]
    exact .group ho hc hi ih

/-- Where pairs do not cross, the brackets of each kind come in pairs. -/
theorem balanced (h : Nested tokens) (b : Bracket) : Balanced b tokens := by
  induction h with
  | nil => exact .nil
  | other h0 _ ih => exact .other (nesting_eq_zero.1 h0 b).1 (nesting_eq_zero.1 h0 b).2 ih
  | @group c first last inside rest ho hc _ _ ihi ihr =>
    by_cases hb : c = b
    · subst hb
      exact .group ho hc ihi ihr
    · have hfirst : first.kind ≠ .opening b ∧ first.kind ≠ .closing b := by simp [ho, hb]
      have hlast : last.kind ≠ .opening b ∧ last.kind ≠ .closing b := by simp [hc, hb]
      exact .other hfirst.1 hfirst.2 (ihi.append (.other hlast.1 hlast.2 ihr))

/-- Tokens that are no brackets nest. -/
theorem of_forall (h : ∀ t ∈ tokens, t.kind.nesting = 0) : Nested tokens := by
  induction tokens with
  | nil => exact .nil
  | cons t rest ih => exact .other (h t (by simp)) (ih fun u hu => h u (by simp [hu]))

end Nested

/-- The brackets nest, and whatever stands outside all of them satisfies `P`, a bracket that opens
there included. -/
inductive Outer (P : Token → Prop) : List Token → Prop where
  | nil : Outer P []
  | other {t : Token} {rest : List Token} :
      t.kind.nesting = 0 → P t → Outer P rest → Outer P (t :: rest)
  | group {b : Bracket} {first last : Token} {inside rest : List Token} :
      first.kind = .opening b → last.kind = .closing b → P first →
      Nested inside → Outer P rest → Outer P (first :: (inside ++ last :: rest))

namespace Outer

variable {P Q : Token → Prop} {left right tokens : List Token}

theorem nested (h : Outer P tokens) : Nested tokens := by
  induction h with
  | nil => exact .nil
  | other h0 _ _ ih => exact .other h0 ih
  | group ho hc _ hi _ ih => exact .group ho hc hi ih

theorem append (hl : Outer P left) (hr : Outer P right) : Outer P (left ++ right) := by
  induction hl with
  | nil => exact hr
  | other h0 hp _ ih => exact .other h0 hp ih
  | group ho hc hp hi _ ih =>
    rw [List.cons_append, List.append_assoc, List.cons_append]
    exact .group ho hc hp hi ih

theorem imp (h : Outer P tokens) (himp : ∀ t, P t → Q t) : Outer Q tokens := by
  induction h with
  | nil => exact .nil
  | other h0 hp _ ih => exact .other h0 (himp _ hp) ih
  | group ho hc hp hi _ ih => exact .group ho hc (himp _ hp) hi ih

/-- Tokens that are no brackets nest, whatever they are. -/
theorem of_forall (h : ∀ t ∈ tokens, t.kind.nesting = 0 ∧ P t) : Outer P tokens := by
  induction tokens with
  | nil => exact .nil
  | cons t rest ih =>
    have ht := h t (by simp)
    exact .other ht.1 ht.2 (ih fun u hu => h u (by simp [hu]))

/-- A token that is no bracket, with another such behind it at the end, stands outside brackets. -/
theorem of_concat {t last : Token} (h : Outer P tokens) (htokens : tokens = left ++ [t, last])
    (ht : t.kind.nesting = 0) (hlast : last.kind.nesting = 0) : P t := by
  induction h generalizing left with
  | nil => simp at htokens
  | @other u rest _ hp _ ih =>
    cases left with
    | nil =>
      simp only [List.nil_append, List.cons.injEq] at htokens
      exact htokens.1 ▸ hp
    | cons a left =>
      simp only [List.cons_append, List.cons.injEq] at htokens
      exact ih htokens.2
  | @group b first close inside rest _ hc _ _ _ ih =>
    -- The closing bracket is neither of the two, so both stand behind it.
    have hclose : close ≠ t ∧ close ≠ last := by
      constructor <;> rintro rfl <;> simp [hc, Kind.nesting] at ht hlast
    have hsplit : (first :: inside) ++ close :: rest = left ++ [t, last] := by
      simpa using htokens
    rcases List.append_eq_append_iff.1 hsplit with ⟨extra, hl, hr⟩ | ⟨extra, _, hr⟩
    · cases extra with
      | nil => simp [hclose.1] at hr
      | cons a extra =>
        simp only [List.cons_append, List.cons.injEq] at hr
        exact ih hr.2
    · match extra, hr with
      | [], hr =>
        simp only [List.nil_append, List.cons.injEq] at hr
        exact absurd hr.1.symm hclose.1
      | [_], hr =>
        simp only [List.cons_append, List.nil_append, List.cons.injEq] at hr
        exact absurd hr.2.1.symm hclose.2
      | _ :: _ :: _, hr => simp at hr

end Outer

/-! ## Splitting and breaking -/

/-- Puts tokens in front of the first part. -/
def extendFirst (tokens : List Token) : List (List Token) → List (List Token)
  | [] => if tokens = [] then [] else [tokens]
  | part :: parts => (tokens ++ part) :: parts

@[simp] theorem extendFirst_nil (parts : List (List Token)) : extendFirst [] parts = parts := by
  cases parts <;> rfl

theorem extendFirst_append (left right : List Token) (parts : List (List Token)) :
    extendFirst (left ++ right) parts = extendFirst left (extendFirst right parts) := by
  cases parts with
  | cons part parts => simp [extendFirst]
  | nil =>
    by_cases hr : right = []
    · simp [hr, extendFirst]
    · simp [hr, extendFirst]

section Splitting

variable {separator target : Kind} {tokens inside rest : List Token} {t : Token} {depth : Int}

/-- A token that is not a separator outside brackets goes to the first part. -/
theorem splitTopLevel_cons (h : depth + t.kind.nesting ≠ 0 ∨ t.kind ≠ separator) :
    splitTopLevel separator depth (t :: rest)
      = extendFirst [t] (splitTopLevel separator (depth + t.kind.nesting) rest) := by
  have hnot : ¬(depth + t.kind.nesting = 0 ∧ t.kind = separator) := by
    rintro ⟨h0, hs⟩
    exact h.elim (absurd h0) (absurd hs)
  rw [splitTopLevel]
  simp only [hnot, if_false]
  cases splitTopLevel separator (depth + t.kind.nesting) rest <;> simp [extendFirst]

/-- A separator outside brackets is cut at, and what follows is split from the start. -/
theorem splitTopLevel_cut (hsep : separator.nesting = 0) (ht : t.kind = separator) :
    splitTopLevel separator 0 (t :: rest) = [] :: splitTopLevel separator 0 rest := by
  rw [splitTopLevel]
  simp [ht, hsep]

/-- Any other token is passed. As no separator is a bracket, it does not matter whether the token
itself is counted. -/
theorem splitTopLevel_pass (hsep : separator.nesting = 0) (ht : ¬(depth = 0 ∧ t.kind = separator)) :
    splitTopLevel separator depth (t :: rest)
      = extendFirst [t] (splitTopLevel separator (depth + t.kind.nesting) rest) := by
  apply splitTopLevel_cons
  by_cases hkind : t.kind = separator
  · left
    intro h0
    rw [hkind, hsep, Int.add_zero] at h0
    exact ht ⟨h0, hkind⟩
  · exact .inr hkind

/-- Inside a bracket nothing is split. -/
theorem splitTopLevel_inside (h : Nested inside) (hd : 1 ≤ depth) :
    splitTopLevel separator depth (inside ++ rest)
      = extendFirst inside (splitTopLevel separator depth rest) := by
  induction h generalizing depth rest with
  | nil => simp
  | @other t tail h0 _ ih =>
    have hstep : splitTopLevel separator depth (t :: (tail ++ rest))
        = extendFirst [t] (splitTopLevel separator (depth + t.kind.nesting) (tail ++ rest)) :=
      splitTopLevel_cons (.inl (by omega))
    rw [List.cons_append, hstep, h0, Int.add_zero, ih hd, ← extendFirst_append]
    rfl
  | @group b first last mid tail ho hc _ _ ihm iht =>
    have hfirst : splitTopLevel separator depth (first :: (mid ++ last :: (tail ++ rest)))
        = extendFirst [first] (splitTopLevel separator (depth + first.kind.nesting)
          (mid ++ last :: (tail ++ rest))) :=
      splitTopLevel_cons (.inl (by simp [ho, Kind.nesting]; omega))
    have hlast : splitTopLevel separator (depth + 1) (last :: (tail ++ rest))
        = extendFirst [last] (splitTopLevel separator (depth + 1 + last.kind.nesting)
          (tail ++ rest)) :=
      splitTopLevel_cons (.inl (by simp [hc, Kind.nesting]; omega))
    simp only [ho, hc, Kind.nesting] at hfirst hlast
    rw [show depth + 1 + -1 = depth by omega, iht hd] at hlast
    rw [List.cons_append, List.append_assoc, List.cons_append, hfirst, ihm (by omega), hlast]
    simp only [← extendFirst_append]
    simp

/-- A stretch without a separator outside brackets goes to the first part as a whole. -/
theorem splitTopLevel_append (h : Outer (·.kind ≠ separator) tokens)
    (hsep : separator.nesting = 0) :
    splitTopLevel separator 0 (tokens ++ rest)
      = extendFirst tokens (splitTopLevel separator 0 rest) := by
  induction h with
  | nil => simp
  | @other t tail h0 hp _ ih =>
    rw [List.cons_append, splitTopLevel_cons (.inr hp), h0, Int.add_zero, ih, ← extendFirst_append]
    rfl
  | @group b first last mid tail ho hc hp hi _ ih =>
    have hlast : splitTopLevel separator (0 + 1) (last :: (tail ++ rest))
        = extendFirst [last] (splitTopLevel separator (0 + 1 + last.kind.nesting) (tail ++ rest)) :=
      splitTopLevel_cons (.inr (by rintro rfl; simp [hc, Kind.nesting] at hsep))
    rw [hc, Kind.nesting, show (0 : Int) + 1 + -1 = 0 by omega] at hlast
    rw [List.cons_append, List.append_assoc, List.cons_append, splitTopLevel_cons (.inr hp), ho,
      Kind.nesting, splitTopLevel_inside hi (by omega), hlast, ih]
    simp only [← extendFirst_append]
    simp

/-- A stretch without a separator outside brackets, up to the separator behind it, is one part. -/
theorem splitTopLevel_append_cons (h : Outer (·.kind ≠ separator) tokens)
    (hsep : separator.nesting = 0) (ht : t.kind = separator) :
    splitTopLevel separator 0 (tokens ++ t :: rest)
      = tokens :: splitTopLevel separator 0 rest := by
  rw [splitTopLevel_append h hsep, splitTopLevel_cut hsep ht]
  simp [extendFirst]

/-- A stretch without a separator outside brackets is one part, unless it is empty. -/
theorem splitTopLevel_single (h : Outer (·.kind ≠ separator) tokens)
    (hsep : separator.nesting = 0) (hne : tokens ≠ []) :
    splitTopLevel separator 0 tokens = [tokens] := by
  have happend : splitTopLevel separator 0 (tokens ++ [])
      = extendFirst tokens (splitTopLevel separator 0 []) := splitTopLevel_append h hsep
  simpa [splitTopLevel, extendFirst, hne] using happend

/-- Parts with a separator behind each but the last, where it may stand as well. -/
inductive Separated (separator : Kind) : List Token → List (List Token) → Prop where
  | nil : Separated separator [] []
  | single {part : List Token} : part ≠ [] → Outer (·.kind ≠ separator) part →
      Separated separator part [part]
  | cons {part rest : List Token} {t : Token} {parts : List (List Token)} : part ≠ [] →
      Outer (·.kind ≠ separator) part → t.kind = separator → Separated separator rest parts →
      Separated separator (part ++ t :: rest) (part :: parts)

namespace Separated

variable {parts : List (List Token)}

theorem nested (h : Separated separator tokens parts) (hsep : separator.nesting = 0) :
    Nested tokens := by
  induction h with
  | nil => exact .nil
  | single _ ho => exact ho.nested
  | cons _ ho ht _ ih => exact ho.nested.append (.other (ht ▸ hsep) ih)

theorem ne_nil (h : Separated separator tokens parts) : ∀ part ∈ parts, part ≠ [] := by
  induction h with
  | nil => simp
  | single hne _ => simpa using hne
  | cons hne _ _ _ ih => simpa using ⟨hne, ih⟩

theorem subset (h : Separated separator tokens parts) :
    ∀ part ∈ parts, ∀ t ∈ part, t ∈ tokens := by
  induction h with
  | nil => simp
  | single _ _ =>
    intro part hpart t ht
    rw [List.mem_singleton.1 hpart] at ht
    exact ht
  | cons _ _ _ _ ih =>
    intro part hpart t ht
    rcases List.mem_cons.1 hpart with rfl | hpart
    · exact List.mem_append_left _ ht
    · exact List.mem_append_right _ (List.mem_cons_of_mem _ (ih part hpart t ht))

/-- No part is left out for being empty. -/
theorem filter_isEmpty (h : Separated separator tokens parts) :
    parts.filter (!·.isEmpty) = parts := by
  refine List.filter_eq_self.2 fun part hpart => ?_
  simpa using h.ne_nil part hpart

/-- Splitting finds the parts again. -/
theorem splitTopLevel (h : Separated separator tokens parts) (hsep : separator.nesting = 0) :
    splitTopLevel separator 0 tokens = parts := by
  induction h with
  | nil => rfl
  | single hne ho => exact splitTopLevel_single ho hsep hne
  | cons _ ho ht _ ih => rw [splitTopLevel_append_cons ho hsep ht, ih]

end Separated

/-- Inside a bracket no target is found. -/
theorem breakTopLevel?_inside (h : Nested inside) (hd : 1 ≤ depth) :
    breakTopLevel? target depth (inside ++ rest)
      = (breakTopLevel? target depth rest).map fun (before, after) => (inside ++ before, after) := by
  induction h generalizing depth rest with
  | nil => simp
  | @other t tail h0 _ ih =>
    have hpass : ¬(depth = 0 ∧ t.kind = target) := by omega
    rw [List.cons_append, breakTopLevel?, if_neg hpass, h0, Int.add_zero, ih hd, Option.map_map]
    rfl
  | @group b first last mid tail ho hc _ _ ihm iht =>
    have hfirst : ¬(depth = 0 ∧ first.kind = target) := by omega
    have hlast : ¬(depth + 1 = 0 ∧ last.kind = target) := by omega
    rw [List.cons_append, List.append_assoc, List.cons_append, breakTopLevel?, if_neg hfirst, ho,
      Kind.nesting, ihm (by omega), breakTopLevel?, if_neg hlast, hc, Kind.nesting,
      show depth + 1 + -1 = depth by omega, iht hd]
    cases breakTopLevel? target depth rest <;> simp

/-- The first target outside brackets ends the stretch before it. -/
theorem breakTopLevel?_append (h : Outer (·.kind ≠ target) tokens) (ht : t.kind = target) :
    breakTopLevel? target 0 (tokens ++ t :: rest) = some (tokens, rest) := by
  induction h with
  | nil => simp [breakTopLevel?, ht]
  | @other u tail h0 hp _ ih =>
    have hpass : ¬((0 : Int) = 0 ∧ u.kind = target) := by simp [hp]
    rw [List.cons_append, breakTopLevel?, if_neg hpass, h0, Int.add_zero, ih]
    rfl
  | @group b first last mid tail ho hc hp hi _ ih =>
    have hfirst : ¬((0 : Int) = 0 ∧ first.kind = target) := by simp [hp]
    have hlast : ¬((0 : Int) + 1 = 0 ∧ last.kind = target) := by omega
    rw [List.cons_append, List.append_assoc, List.cons_append, breakTopLevel?, if_neg hfirst, ho,
      Kind.nesting, breakTopLevel?_inside hi (by omega), breakTopLevel?, if_neg hlast, hc,
      Kind.nesting, show (0 : Int) + 1 + -1 = 0 by omega, ih]
    simp

/-- Where no target stands outside brackets, none is found. -/
theorem breakTopLevel?_eq_none (h : Outer (·.kind ≠ target) tokens) :
    breakTopLevel? target 0 tokens = none := by
  induction h with
  | nil => rfl
  | @other u tail h0 hp _ ih =>
    have hpass : ¬((0 : Int) = 0 ∧ u.kind = target) := by simp [hp]
    rw [breakTopLevel?, if_neg hpass, h0, Int.add_zero, ih]
    rfl
  | @group b first last mid tail ho hclose hp hi _ ih =>
    have hfirst : ¬((0 : Int) = 0 ∧ first.kind = target) := by simp [hp]
    have hlast : ¬((0 : Int) + 1 = 0 ∧ last.kind = target) := by omega
    rw [breakTopLevel?, if_neg hfirst, ho, Kind.nesting, breakTopLevel?_inside hi (by omega),
      breakTopLevel?, if_neg hlast, hclose, Kind.nesting, show (0 : Int) + 1 + -1 = 0 by omega, ih]
    rfl

end Splitting

/-! ## Other tokens in their place

Tokens that are the same brackets and the same separators are taken apart in the same places. -/

section Mapped

variable {f : Token → Token} {b : Bracket} {separator : Kind}

theorem partner?_map (hopens : ∀ t, (f t).kind.opens b = t.kind.opens b)
    (hcloses : ∀ t, (f t).kind.closes b = t.kind.closes b) (depth passed : Nat)
    (tokens : List Token) :
    partner? b depth passed (tokens.map f) = partner? b depth passed tokens := by
  induction tokens generalizing depth passed with
  | nil => rfl
  | cons t rest ih => cases depth <;> simp only [List.map_cons, partner?, hopens, hcloses, ih]

theorem group?_map (hopens : ∀ t, (f t).kind.opens b = t.kind.opens b)
    (hcloses : ∀ t, (f t).kind.closes b = t.kind.closes b) (tokens : List Token) :
    group? b (tokens.map f)
      = (group? b tokens).map fun group => (group.1.map f, group.2.map f) := by
  cases tokens with
  | nil => rfl
  | cons t rest =>
    simp only [List.map_cons, group?, hopens, partner?_map hopens hcloses]
    split
    · rw [Option.map_map]
      simp [Function.comp_def, List.map_take, List.map_drop]
    · rfl

theorem splitTopLevel_map (hnesting : ∀ t, (f t).kind.nesting = t.kind.nesting)
    (hseparator : ∀ t, (f t).kind = separator ↔ t.kind = separator) (depth : Int)
    (tokens : List Token) : splitTopLevel separator depth (tokens.map f)
      = (splitTopLevel separator depth tokens).map (List.map f) := by
  induction tokens generalizing depth with
  | nil => rfl
  | cons t rest ih =>
    simp only [List.map_cons, splitTopLevel, hnesting, hseparator, ih]
    split
    · rfl
    · cases splitTopLevel separator (depth + t.kind.nesting) rest <;> rfl

end Mapped

end ForeignModule.Token
