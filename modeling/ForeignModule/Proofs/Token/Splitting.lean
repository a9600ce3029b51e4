import ForeignModule.Proofs.Token.Partner

/-!
# What splitting takes out

Splitting cuts a list at the separators outside brackets, whether its brackets nest or not. Only
separators are lost, each from its place, and the parts need no further cut.

* `nestings` counts brackets of all kinds together, and by this count alone `Hidden` says that no
  separator stands outside them; the search for one fails exactly then (`breakTopLevel?_eq_none_iff`);
* `Rejoins` says that parts and the tokens taken out between them are the whole list, and which tokens
  these are; splitting one more token keeps this (`Rejoins.cut`, `Rejoins.pass`), so every list can be
  put together again (`exists_rejoins`);
* `hidden_of_mem_splitTopLevel` and `Nested.of_mem_splitTopLevel` are about the parts themselves;
* `splitTopLevel_rejoins` puts these together.
-/

namespace ForeignModule.Token

/-! ## Counting brackets -/

/-- How tokens change the number of open brackets, those of all kinds together. -/
def nestings : List Token → Int
  | [] => 0
  | t :: rest => t.kind.nesting + nestings rest

section Counting

variable {separator : Kind} {depth : Int} {t : Token} {tokens rest : List Token}

@[simp] theorem nestings_nil : nestings [] = 0 := rfl

@[simp] theorem nestings_cons : nestings (t :: tokens) = t.kind.nesting + nestings tokens := rfl

/-- Behind brackets of which `depth` are open, no separator stands where the count is zero. -/
def Hidden (separator : Kind) (depth : Int) (tokens : List Token) : Prop :=
  ∀ before t after, tokens = before ++ t :: after → t.kind = separator →
    depth + nestings before ≠ 0

theorem hidden_nil : Hidden separator depth [] := by
  intro before t after hsplit
  simp at hsplit

theorem hidden_cons : Hidden separator depth (t :: tokens) ↔
    (t.kind = separator → depth ≠ 0) ∧ Hidden separator (depth + t.kind.nesting) tokens := by
  constructor
  · intro h
    refine ⟨fun ht => by simpa using h [] t tokens rfl ht, fun before u after hsplit hu hzero => ?_⟩
    refine h (t :: before) u after (by rw [hsplit]; rfl) hu ?_
    rw [nestings_cons, ← Int.add_assoc, hzero]
  · rintro ⟨hfirst, hrest⟩ before u after hsplit hu
    cases before with
    | nil =>
      obtain ⟨rfl, rfl⟩ := List.cons.inj hsplit
      simpa using hfirst hu
    | cons v before =>
      obtain ⟨rfl, rfl⟩ := List.cons.inj hsplit
      rw [nestings_cons, ← Int.add_assoc]
      exact hrest before u after rfl hu

instance decidableHidden (separator : Kind) :
    ∀ (depth : Int) (tokens : List Token), Decidable (Hidden separator depth tokens)
  | _, [] => .isTrue hidden_nil
  | depth, t :: tokens =>
    have := decidableHidden separator (depth + t.kind.nesting) tokens
    decidable_of_iff _ hidden_cons.symm

/-- Tokens in which no separator is found go to the first part as a whole. -/
theorem splitTopLevel_hidden (h : Hidden separator depth tokens) (hsep : separator.nesting = 0) :
    splitTopLevel separator depth (tokens ++ rest)
      = extendFirst tokens (splitTopLevel separator (depth + nestings tokens) rest) := by
  induction tokens generalizing depth with
  | nil => simp
  | cons t tokens ih =>
    obtain ⟨hfirst, hrest⟩ := hidden_cons.1 h
    have hpass : ¬(depth = 0 ∧ t.kind = separator) := by
      rintro ⟨hzero, ht⟩
      exact hfirst ht hzero
    rw [List.cons_append, splitTopLevel_pass hsep hpass, ih hrest, ← extendFirst_append, nestings_cons,
      Int.add_assoc]
    rfl

/-- The search for the first separator outside brackets fails exactly if there is none. -/
theorem breakTopLevel?_eq_none_iff :
    breakTopLevel? separator depth tokens = none ↔ Hidden separator depth tokens := by
  induction tokens generalizing depth with
  | nil => exact ⟨fun _ => hidden_nil, fun _ => rfl⟩
  | cons t rest ih =>
    rw [hidden_cons, ← ih]
    by_cases ht : depth = 0 ∧ t.kind = separator
    · simp [breakTopLevel?, ht]
    · rw [breakTopLevel?, if_neg ht, Option.map_eq_none_iff]
      constructor
      · intro hrest
        exact ⟨fun hkind hzero => ht ⟨hzero, hkind⟩, hrest⟩
      · rintro ⟨-, hrest⟩
        exact hrest

end Counting

/-! ## Parts put together -/

/-- Parts one behind the other, with a token behind each of them as long as there are some. -/
def laidOut : List (List Token) → List Token → List Token
  | [], removed => removed
  | part :: parts, [] => part ++ laidOut parts []
  | part :: parts, t :: removed => part ++ t :: laidOut parts removed

/-- The places where the tokens behind the parts stand, when both are laid out. -/
def gaps : List (List Token) → List Token → List Nat
  | part :: parts, _ :: removed => part.length :: (gaps parts removed).map (part.length + 1 + ·)
  | _, _ => []

/-- The parts with the tokens taken out between them are the tokens again. Behind the last part one
stands as well, unless that part has tokens of its own. -/
structure Rejoins (separator : Kind) (depth : Int) (tokens : List Token)
    (parts : List (List Token)) (removed : List Token) : Prop where
  joined : laidOut parts removed = tokens
  separators : ∀ t ∈ removed, t.kind = separator
  fits : removed.length = parts.length ∨
    removed.length + 1 = parts.length ∧ ∀ part ∈ parts.getLast?, part ≠ []
  /-- A token is taken out exactly if it is a separator and the count before it is zero. -/
  places : ∀ before t after, tokens = before ++ t :: after →
    (before.length ∈ gaps parts removed ↔ t.kind = separator ∧ depth + nestings before = 0)

section Parts

variable {separator : Kind} {depth : Int} {t : Token} {part rest tokens removed : List Token}
  {parts : List (List Token)}

theorem laidOut_extendFirst (h : parts = [] → removed = []) :
    laidOut (extendFirst [t] parts) removed = t :: laidOut parts removed := by
  cases parts with
  | nil => simp [h rfl, extendFirst, laidOut]
  | cons part parts => cases removed <;> simp [extendFirst, laidOut]

theorem gaps_extendFirst (h : parts = [] → removed = []) :
    gaps (extendFirst [t] parts) removed = (gaps parts removed).map (· + 1) := by
  cases parts with
  | nil => simp [h rfl, extendFirst, gaps]
  | cons part parts =>
    cases removed with
    | nil => rfl
    | cons s removed =>
      simp only [extendFirst, gaps, List.cons_append, List.nil_append, List.length_cons,
        List.map_cons, List.map_map, List.cons.injEq, true_and]
      apply List.map_congr_left
      intro i _
      simp only [Function.comp_apply]
      omega

theorem rejoins_nil : Rejoins separator depth [] [] [] where
  joined := rfl
  separators := by simp
  fits := .inl rfl
  places before t after hsplit := by simp at hsplit

/-- A separator outside brackets ends a part and is taken out. -/
theorem Rejoins.cut (h : Rejoins separator 0 rest parts removed) (hsep : separator.nesting = 0)
    (ht : t.kind = separator) : Rejoins separator 0 (t :: rest) ([] :: parts) (t :: removed) where
  joined := by rw [laidOut, h.joined, List.nil_append]
  separators := by simpa [ht] using h.separators
  fits := by
    rcases h.fits with hsame | ⟨hless, hlast⟩
    · exact .inl (by simp [hsame])
    · -- The last part is not the empty one in front, as there are more parts than separators.
      have hparts : parts ≠ [] := by
        rintro rfl
        simp at hless
      rcases List.exists_cons_of_ne_nil hparts with ⟨part, more, rfl⟩
      exact .inr ⟨by simpa using hless, by simpa [List.getLast?_cons_cons] using hlast⟩
  places before u after hsplit := by
    cases before with
    | nil =>
      rcases List.cons.inj hsplit with ⟨rfl, rfl⟩
      simp [gaps, ht]
    | cons v before =>
      rcases List.cons.inj hsplit with ⟨rfl, hrest⟩
      have hbehind := h.places before u after hrest
      rw [nestings_cons, ht, hsep, Int.zero_add (nestings before), ← hbehind]
      simp [gaps, Nat.add_comm 1]

/-- Any other token stays, in the first part. -/
theorem Rejoins.pass (h : Rejoins separator (depth + t.kind.nesting) rest parts removed)
    (ht : ¬(depth = 0 ∧ t.kind = separator)) :
    Rejoins separator depth (t :: rest) (extendFirst [t] parts) removed := by
  have hempty : parts = [] → removed = [] := by
    rintro rfl
    rcases h.fits with hsame | ⟨hless, -⟩
    · exact List.length_eq_zero_iff.1 hsame
    · simp at hless
  refine ⟨?_, h.separators, ?_, ?_⟩
  · rw [laidOut_extendFirst hempty, h.joined]
  · cases parts with
    | nil => exact .inr (by simp [hempty rfl, extendFirst])
    | cons part parts =>
      rcases h.fits with hsame | ⟨hless, hlast⟩
      · exact .inl (by simpa [extendFirst] using hsame)
      · refine .inr ⟨by simpa [extendFirst] using hless, ?_⟩
        cases parts with
        | nil => simp [extendFirst]
        | cons next more => simpa [extendFirst, List.getLast?_cons_cons] using hlast
  · intro before u after hsplit
    rw [gaps_extendFirst hempty]
    cases before with
    | nil =>
      rcases List.cons.inj hsplit with ⟨rfl, rfl⟩
      rw [nestings_nil, Int.add_zero, and_comm]
      simp [ht]
    | cons v before =>
      rcases List.cons.inj hsplit with ⟨rfl, hrest⟩
      rw [nestings_cons, ← Int.add_assoc, ← h.places before u after hrest]
      simp

/-- Whatever the brackets do, splitting takes out the separators outside them and nothing else. -/
theorem exists_rejoins (hsep : separator.nesting = 0) (depth : Int) (tokens : List Token) :
    ∃ removed, Rejoins separator depth tokens (splitTopLevel separator depth tokens) removed := by
  induction tokens generalizing depth with
  | nil => exact ⟨[], rejoins_nil⟩
  | cons t rest ih =>
    rcases ih (depth + t.kind.nesting) with ⟨removed, hrest⟩
    by_cases ht : depth = 0 ∧ t.kind = separator
    · rcases ht with ⟨rfl, hkind⟩
      rw [hkind, hsep, Int.add_zero] at hrest
      refine ⟨t :: removed, ?_⟩
      rw [splitTopLevel_cut hsep hkind]
      exact hrest.cut hsep hkind
    · refine ⟨removed, ?_⟩
      rw [splitTopLevel_pass hsep ht]
      exact hrest.pass ht

/-! ## The parts themselves -/

/-- No part has a separator outside brackets. The first one starts at the depth at which the list does,
every other one behind a separator and so outside brackets. -/
theorem hidden_splitTopLevel (hsep : separator.nesting = 0) (depth : Int) (tokens : List Token) :
    (∀ part ∈ (splitTopLevel separator depth tokens).head?, Hidden separator depth part) ∧
    ∀ part ∈ (splitTopLevel separator depth tokens).tail, Hidden separator 0 part := by
  induction tokens generalizing depth with
  | nil => simp [splitTopLevel]
  | cons t rest ih =>
    by_cases ht : depth = 0 ∧ t.kind = separator
    · rcases ht with ⟨rfl, hkind⟩
      rcases ih 0 with ⟨hfirst, hothers⟩
      rw [splitTopLevel_cut hsep hkind]
      refine ⟨by simpa using hidden_nil, ?_⟩
      cases hrest : splitTopLevel separator 0 rest with
      | nil => simp
      | cons part parts =>
        rw [hrest] at hfirst hothers
        simpa using ⟨hfirst part rfl, hothers⟩
    · rcases ih (depth + t.kind.nesting) with ⟨hfirst, hothers⟩
      have hstays : t.kind = separator → depth ≠ 0 := by
        intro hkind hzero
        exact ht ⟨hzero, hkind⟩
      rw [splitTopLevel_pass hsep ht]
      cases hrest : splitTopLevel separator (depth + t.kind.nesting) rest with
      | nil => simpa [extendFirst, hidden_cons, hidden_nil] using hstays
      | cons part parts =>
        rw [hrest] at hfirst hothers
        refine ⟨?_, hothers⟩
        simpa [extendFirst, hidden_cons] using ⟨hstays, hfirst part rfl⟩

theorem hidden_of_mem_splitTopLevel (hsep : separator.nesting = 0)
    (h : part ∈ splitTopLevel separator 0 tokens) : Hidden separator 0 part := by
  rcases hidden_splitTopLevel hsep 0 tokens with ⟨hfirst, hothers⟩
  cases hparts : splitTopLevel separator 0 tokens with
  | nil => simp [hparts] at h
  | cons first others =>
    rw [hparts] at h hfirst hothers
    rcases List.mem_cons.1 h with rfl | hmem
    · exact hfirst _ rfl
    · exact hothers _ hmem

/-- What nests may stand in front of parts that nest. -/
theorem Nested.of_mem_extendFirst (h : Nested tokens) (hparts : ∀ part ∈ parts, Nested part) :
    ∀ part ∈ extendFirst tokens parts, Nested part := by
  cases parts with
  | nil =>
    by_cases hempty : tokens = []
    · simp [extendFirst, hempty]
    · simpa [extendFirst, hempty] using h
  | cons first others =>
    rcases List.forall_mem_cons.1 hparts with ⟨hfirst, hothers⟩
    exact List.forall_mem_cons.2 ⟨h.append hfirst, hothers⟩

/-- Parts of nested tokens nest. -/
theorem Nested.of_mem_splitTopLevel (h : Nested tokens) (hsep : separator.nesting = 0) :
    ∀ part ∈ splitTopLevel separator 0 tokens, Nested part := by
  induction h with
  | nil => simp [splitTopLevel]
  | @other t rest h0 _ ih =>
    by_cases ht : t.kind = separator
    · rw [splitTopLevel_cut hsep ht]
      exact List.forall_mem_cons.2 ⟨.nil, ih⟩
    · rw [splitTopLevel_cons (.inr ht), h0, Int.add_zero]
      exact (Nested.other h0 .nil).of_mem_extendFirst ih
  | @group b first last inside rest hopen hclose hinside _ _ ih =>
    -- The group is a stretch of its own, and its brackets are no separators.
    have hfirst : first.kind ≠ separator := by
      rintro rfl
      simp [hopen, Kind.nesting] at hsep
    have hgroup : Outer (·.kind ≠ separator) (first :: (inside ++ [last])) :=
      .group hopen hclose hfirst hinside .nil
    have hsplit : splitTopLevel separator 0 (first :: (inside ++ [last]) ++ rest)
        = extendFirst (first :: (inside ++ [last])) (splitTopLevel separator 0 rest) :=
      splitTopLevel_append hgroup hsep
    rw [List.cons_append, List.append_assoc, List.singleton_append] at hsplit
    rw [hsplit]
    exact hgroup.nested.of_mem_extendFirst ih

end Parts

/-- Splitting at a token that is no bracket loses nothing but separators, whether brackets nest or
not: the parts and the separators taken out are the whole list, with one separator between each two
parts and at most one behind the last, and those taken out are exactly the ones before which as many
brackets close as open. No part has such a separator in it, so none is found there, and the parts of
nested tokens nest. -/
theorem splitTopLevel_rejoins (separator : Kind) (hsep : separator.nesting = 0)
    (tokens : List Token) :
    (∃ removed, Rejoins separator 0 tokens (splitTopLevel separator 0 tokens) removed) ∧
    (∀ part ∈ splitTopLevel separator 0 tokens,
      Hidden separator 0 part ∧ breakTopLevel? separator 0 part = none) ∧
    (Nested tokens → ∀ part ∈ splitTopLevel separator 0 tokens, Nested part) := by
  refine ⟨exists_rejoins hsep 0 tokens, ?_, ?_⟩
  · intro part hpart
    have hhidden := hidden_of_mem_splitTopLevel hsep hpart
    exact ⟨hhidden, breakTopLevel?_eq_none_iff.2 hhidden⟩
  · intro hnested
    exact hnested.of_mem_splitTopLevel hsep

/-- The count of open brackets may fall below zero: in `) , ( ,` the first comma stays. -/
example : (splitTopLevel .comma 0
    ([Kind.closing .paren, .comma, .opening .paren, .comma].map ofKind)).map (·.map kind)
      = [[.closing .paren, .comma, .opening .paren]] := by
  decide

/-- The tokens `< , > , , ( , ) ,`. -/
def commaGroups : List Token :=
  wrapped .angle [ofKind .comma] ++ [ofKind .comma, ofKind .comma]
    ++ wrapped .paren [ofKind .comma] ++ [ofKind .comma]

/-- Of the five commas in `< , > , , ( , ) ,` the three outside brackets are taken out, and of the
parts only the one between two of them is empty. -/
theorem splitTopLevel_rejoins_groups :
    Kind.comma.nesting = 0 ∧ Nested commaGroups ∧
      splitTopLevel .comma 0 commaGroups
        = [wrapped .angle [ofKind .comma], [], wrapped .paren [ofKind .comma]] ∧
      (∃ removed, Rejoins .comma 0 commaGroups (splitTopLevel .comma 0 commaGroups) removed) ∧
      ∀ part ∈ splitTopLevel .comma 0 commaGroups,
        breakTopLevel? .comma 0 part = none ∧ Nested part := by
  have hcommas : ∀ n, Nested (List.replicate n (ofKind .comma)) := by
    intro n
    apply Nested.of_forall
    intro t ht
    rw [List.eq_of_mem_replicate ht]
    rfl
  have hnested : Nested commaGroups :=
    (((nested_wrapped (hcommas 1)).append (hcommas 2)).append (nested_wrapped (hcommas 1))).append
      (hcommas 1)
  rcases splitTopLevel_rejoins .comma rfl commaGroups with ⟨hrejoins, hparts, hnests⟩
  refine ⟨rfl, hnested, rfl, hrejoins, ?_⟩
  intro part hpart
  exact ⟨(hparts part hpart).2, hnests hnested part hpart⟩

end ForeignModule.Token
