import ForeignModule.Token.Listing

/-!
# How tokens are spelled

`Kind.Lexical` says with which characters a kind of token can be written. Outside Kotlin, where a
name in backticks may be any text, every token of a source text is written so
(`lexical_of_tokenize`).
-/

namespace ForeignModule

namespace Token

/-- The token is written as tokens of its kind are. Literals hold any text. -/
def Kind.Lexical : Kind → Prop
  | identifier s | lifetime s => s.toList ≠ [] ∧ ∀ c ∈ s.toList, Source.isWordPart c = true
  | number s =>
    (∃ c ∈ s.toList.head?, c.isDigit = true) ∧
      ∀ c ∈ s.toList, Source.isWordPart c = true ∨ c = '.' ∨ c = '\''
  | punctuation c => Source.isWordPart c = false ∧ c ≠ ':'
  | _ => True

end Token

namespace Source

open Token

/-- If this gives a token, its spelling fits its kind. -/
def GivesLexical (scanned : Except Unclosed Reach) : Prop :=
  ∀ kind length, scanned = .ok (.token kind, length) → kind.Lexical

variable {d : Dialect} {c : Char} {rest : List Char} {k : Kind}

theorem isWordPart_of_isWordStart (h : isWordStart c = true) : isWordPart c = true := by
  simp only [isWordStart, Bool.or_eq_true] at h
  simp only [isWordPart, Char.isAlphanum, Bool.or_eq_true]
  rcases h with (h | h) | h
  · exact .inl (.inl (.inl h))
  · exact .inl (.inr h)
  · exact .inr h

theorem isWordPart_of_isDigit (h : c.isDigit = true) : isWordPart c = true := by
  simp [isWordPart, Char.isAlphanum, h]

theorem isWordPart_eq_false (hs : ¬isWordStart c = true) (hd : ¬c.isDigit = true) :
    isWordPart c = false := by
  simp only [isWordStart, Bool.or_eq_true, not_or, Bool.not_eq_true] at hs hd
  simp [isWordPart, Char.isAlphanum, hs.1.1, hs.1.2, hs.2, hd]

theorem single_givesLexical (h : k.Lexical) : GivesLexical (single k) := by
  intro kind length hs
  simp only [single, Except.ok.injEq, Prod.mk.injEq, Role.token.injEq] at hs
  exact hs.1 ▸ h

theorem scanQuoted_givesLexical {quote : Char} {what : Unclosed} (make : String → Kind)
    (h : ∀ s, (make s).Lexical) : GivesLexical (scanQuoted quote what make rest) := by
  intro kind length hs
  unfold scanQuoted at hs
  split at hs
  · simp only [Except.ok.injEq, Prod.mk.injEq, Role.token.injEq] at hs
    exact hs.1 ▸ h _
  · cases hs

theorem scanString_givesLexical : GivesLexical (scanString d rest) := by
  intro kind length hs
  unfold scanString at hs
  split at hs
  · split at hs
    · simp only [Except.ok.injEq, Prod.mk.injEq, Role.token.injEq] at hs
      exact hs.1 ▸ trivial
    · cases hs
  · exact scanQuoted_givesLexical .string (fun _ => trivial) kind length hs

theorem scanRaw_givesLexical {hashes : Nat} : GivesLexical (scanRaw hashes rest) := by
  intro kind length hs
  unfold scanRaw at hs
  split at hs
  · simp only [Except.ok.injEq, Prod.mk.injEq, Role.token.injEq] at hs
    exact hs.1 ▸ trivial
  · cases hs

theorem scanQuote_givesLexical : GivesLexical (scanQuote d rest) := by
  intro kind length hs
  unfold scanQuote at hs
  split at hs
  · rename_i hword
    simp only [Bool.and_eq_true] at hword
    simp only [Except.ok.injEq, Prod.mk.injEq, Role.token.injEq] at hs
    rw [← hs.1]
    -- The letter behind the quote is the first of the name.
    cases rest with
    | nil => simp at hword
    | cons a tail =>
      have ha : isWordPart a = true := isWordPart_of_isWordStart (by simpa using hword.1.2)
      refine ⟨by simp [ha], fun c hc => ?_⟩
      exact List.all_eq_true.1 List.all_takeWhile c (by simpa using hc)
  · exact scanQuoted_givesLexical .character (fun _ => trivial) kind length hs

theorem scanWord_givesLexical (h : isWordStart c = true) : GivesLexical (scanWord c rest) := by
  intro kind length hs
  simp only [scanWord, Except.ok.injEq, Prod.mk.injEq, Role.token.injEq] at hs
  rw [← hs.1]
  refine ⟨by simp, fun a ha => ?_⟩
  simp only [String.toList_ofList, List.mem_cons] at ha
  rcases ha with rfl | ha
  · exact isWordPart_of_isWordStart h
  · exact List.all_eq_true.1 List.all_takeWhile a ha

theorem mem_take_numberLength (h : c ∈ rest.take (numberLength d rest)) :
    isWordPart c = true ∨ c = '.' ∨ c = '\'' := by
  induction rest with
  | nil => simp [numberLength] at h
  | cons a tail ih =>
    unfold numberLength at h
    split at h
    · rename_i ha
      rw [List.take_succ_cons, List.mem_cons] at h
      rcases h with rfl | h
      · simp only [Bool.or_eq_true, Bool.and_eq_true, beq_iff_eq] at ha
        rcases ha with (ha | ha) | ha
        · exact .inl ha
        · exact .inr (.inl ha.1)
        · exact .inr (.inr ha.1.1)
      · exact ih h
    · simp at h

theorem scanNumber_givesLexical (h : c.isDigit = true) : GivesLexical (scanNumber d c rest) := by
  intro kind length hs
  simp only [scanNumber, Except.ok.injEq, Prod.mk.injEq, Role.token.injEq] at hs
  rw [← hs.1]
  refine ⟨⟨c, by simp, h⟩, fun a ha => ?_⟩
  simp only [String.toList_ofList, List.mem_cons] at ha
  rcases ha with rfl | ha
  · exact .inl (isWordPart_of_isDigit h)
  · exact mem_take_numberLength ha

theorem scanLetter_givesLexical (h : isWordStart c = true) :
    GivesLexical (scanLetter d c rest) := by
  intro kind length hs
  unfold scanLetter at hs
  split at hs
  · split at hs
    · exact scanRaw_givesLexical kind length hs
    · exact scanWord_givesLexical h kind length hs
  · rename_i inner
    split at hs
    · rename_i hashes _
      cases hraw : scanRaw hashes inner with
      | error what => simp [hraw, Except.map] at hs
      | ok reach =>
        obtain ⟨role, reached⟩ := reach
        simp only [hraw, Except.map, Except.ok.injEq, Prod.mk.injEq] at hs
        exact scanRaw_givesLexical kind reached (by rw [hraw, hs.1])
    · exact scanWord_givesLexical h kind length hs
  · simp at hs
  · exact scanWord_givesLexical h kind length hs

theorem scanToken_givesLexical (hd : d ≠ .kotlin) : GivesLexical (scanToken d c rest) := by
  unfold scanToken
  split
  case h_17 =>
    split
    · intro kind length hs
      simp only [Except.ok.injEq, Prod.mk.injEq, Role.token.injEq] at hs
      exact hs.1 ▸ trivial
    · exact single_givesLexical trivial
  case h_18 =>
    split
    · intro kind length hs
      simp only [Except.ok.injEq, Prod.mk.injEq, Role.token.injEq] at hs
      exact hs.1 ▸ trivial
    · exact single_givesLexical ⟨by decide, by decide⟩
  case h_19 => exact scanString_givesLexical
  case h_20 => exact scanQuote_givesLexical
  case h_21 =>
    have hquote : (d == .kotlin && c == '\x60') = false := by simp [hd]
    simp only [hquote, Bool.false_eq_true, if_false]
    split
    · rename_i hstart
      exact scanLetter_givesLexical hstart
    · rename_i hstart
      split
      · rename_i hdigit
        exact scanNumber_givesLexical hdigit
      · -- Neither a letter nor a digit: no word goes on with it.
        rename_i hdigit
        refine single_givesLexical ⟨isWordPart_eq_false hstart hdigit, ?_⟩
        assumption
  all_goals exact single_givesLexical trivial

theorem scan_givesLexical (hd : d ≠ .kotlin) {fresh : Bool} :
    GivesLexical (scan d fresh c rest) := by
  intro kind length hs
  unfold scan at hs
  split at hs
  · simp at hs
  · split at hs
    · simp at hs
    · split at hs
      · split at hs <;> simp at hs
      · split at hs
        · simp at hs
        · exact scanToken_givesLexical hd kind length hs

end Source

namespace Token

variable {d : Dialect}

theorem lexical_of_cut (hd : d ≠ .kotlin) (text : List Char) (fresh : Bool) (skip : Nat) :
    ∀ s ∈ (Cut.go d fresh skip text).segments, ∀ kind, s.role = .token kind → kind.Lexical := by
  induction text generalizing fresh skip with
  | nil =>
    intro s hs
    simp [Cut.go] at hs
  | cons c rest ih =>
    intro s hs kind hkind
    cases skip with
    | succ skip => exact ih fresh skip s hs kind hkind
    | zero =>
      unfold Cut.go at hs
      cases hscan : Source.scan d fresh c rest with
      | error what => simp [hscan] at hs
      | ok reach =>
        obtain ⟨role, length⟩ := reach
        simp only [hscan, List.mem_cons] at hs
        rcases hs with rfl | hs
        · exact Source.scan_givesLexical hd kind length (by rw [hscan, ← hkind])
        · exact ih _ _ s hs kind hkind

theorem exists_segment {segments : List Segment} {p : Position} {fresh : Bool} {t : Token}
    (h : t ∈ ofSegments p fresh segments) : ∃ s ∈ segments, s.role = .token t.kind := by
  induction segments generalizing p fresh with
  | nil => simp [ofSegments] at h
  | cons s rest ih =>
    unfold ofSegments at h
    split at h
    · rename_i kind hkind
      rcases List.mem_cons.1 h with rfl | h
      · exact ⟨s, by simp, hkind⟩
      · obtain ⟨u, hu, hrole⟩ := ih h
        exact ⟨u, by simp [hu], hrole⟩
    · obtain ⟨u, hu, hrole⟩ := ih h
      exact ⟨u, by simp [hu], hrole⟩

/-- Outside Kotlin, the tokens of a text are spelled as their kinds are. -/
theorem lexical_of_tokenize (hd : d ≠ .kotlin) {source : String} {tokens : List Token}
    (h : tokenize d source = .ok tokens) : ∀ t ∈ tokens, t.kind.Lexical := by
  intro t ht
  simp only [tokenize] at h
  split at h
  · injection h with h
    rw [← h] at ht
    obtain ⟨s, hs, hrole⟩ := exists_segment ht
    exact lexical_of_cut hd _ _ _ s hs t.kind hrole
  · cases h

theorem tokenize_eq_ok {d : Dialect} {source : String} {tokens : List Token}
    (h : (tokenize d source).toOption = some tokens) : tokenize d source = .ok tokens := by
  cases hs : tokenize d source with
  | error e => simp [hs, Except.toOption] at h
  | ok found => simpa [hs, Except.toOption] using h

end Token

end ForeignModule
