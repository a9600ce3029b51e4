import ForeignModule.Proofs.Source.Segment
import ForeignModule.Proofs.Token.Reading

/-!
# What may stand behind a segment

A segment is told by its own text and by what stands right behind it: a word ends before what is no
part of a word, a row of blanks before what is none, a literal wherever its closing stands.
`Segment.EndsBefore` says it for every role.

* `scan_bounded`: what has been found in front of one rest is found in front of every other rest
  that may stand behind it, and of no other;
* `scan_cases`: the role of a segment tells its first characters.

There is a lemma of the first kind for each function that looks for something.
-/

namespace ForeignModule

open Source Token

/-! ## Where segments end -/

/-- A name ends here. In Rust the letters of raw and byte strings make no name before the quote. -/
def Source.EndsName (d : Dialect) (text rest : List Char) : Prop :=
  EndsWord rest ∧ (d = .rust →
    (text = ['r'] ∨ text = ['b', 'r'] → rawHashes? rest = none) ∧
    (text = ['b'] → rest.head? ≠ some '"'))

/-- What may stand behind a token with this text. -/
def Token.Kind.EndsBefore (d : Dialect) (text rest : List Char) : Token.Kind → Prop
  | .identifier _ => text.head? = some '\x60' ∨ EndsName d text rest
  | .number _ => numberLength d rest = 0
  -- In Kotlin two quotes open a string if there is a third one.
  | .string _ => d = .kotlin → text = ['"', '"'] → rest.head? ≠ some '"'
  -- In Rust a quote behind a single letter makes a character of it.
  | .lifetime _ => EndsWord rest ∧ (text.length = 2 → rest.head? ≠ some '\'')
  | .colon => rest.head? ≠ some ':'
  | .punctuation c => (c = '-' → rest.head? ≠ some '>') ∧
      (c = '/' → rest.head? ≠ some '/' ∧ rest.head? ≠ some '*')
  | _ => True

/-- What may stand behind a segment. -/
def Segment.EndsBefore (d : Dialect) (s : Segment) (rest : List Char) : Prop :=
  match s.role with
  | .blank => EndsBlank rest
  | .lineComment => ∀ c ∈ rest.head?, endsLine c = true
  | .blockComment => True
  | .directive => DirectiveLine rest s.text.tail
  | .bytePrefix => rest.head? = some '"'
  | .token kind => kind.EndsBefore d s.text rest

namespace Source

/-- What is found behind `c` is told by its text and by what may stand behind that. -/
def Bounded (d : Dialect) (c : Char) (found : List Char → Except Unclosed Reach) : Prop :=
  ∀ role tail rest, found (tail ++ rest) = .ok (role, tail.length) →
    Segment.EndsBefore d ⟨role, c :: tail⟩ rest ∧
    ∀ rest', Segment.EndsBefore d ⟨role, c :: tail⟩ rest' →
      found (tail ++ rest') = .ok (role, tail.length)

variable {d : Dialect} {c quote : Char} {role : Role} {kind : Kind} {hashes : Nat}
  {tail rest rest' content closing : List Char}

/-! ## Single characters -/

theorem ne_of_test {p : Char → Bool} {a : Char} (ha : p a = true) (hc : p c = false) : a ≠ c := by
  rintro rfl
  rw [ha] at hc
  cases hc

theorem head?_eq_some_iff_any : rest.head? = some c ↔ rest.head?.any (· == c) = true := by
  cases rest <;> simp

/-! ## Words and numbers -/

theorem length_takeWhile_eq_iff {p : Char → Bool} :
    ((tail ++ rest).takeWhile p).length = tail.length ↔
      (∀ a ∈ tail, p a = true) ∧ ∀ a ∈ rest.head?, p a = false := by
  induction tail with
  | nil =>
    cases rest with
    | nil => simp
    | cons a more => cases ha : p a <;> simp [ha]
  | cons a tail ih => cases ha : p a <;> simp [ha, ih]

theorem scanWord_eq_ok_iff : scanWord c (tail ++ rest) = .ok (role, tail.length) ↔
    role = .token (.identifier (.ofList (c :: tail))) ∧ (∀ a ∈ tail, isWordPart a = true) ∧
      EndsWord rest := by
  constructor
  · intro h
    simp only [scanWord, Except.ok.injEq, Prod.mk.injEq] at h
    obtain ⟨hrole, hlength⟩ := h
    obtain ⟨hall, hrest⟩ := length_takeWhile_eq_iff.1 hlength
    rw [takeWhile_isWordPart hall hrest] at hrole
    exact ⟨hrole.symm, hall, hrest⟩
  · rintro ⟨rfl, hall, hrest⟩
    rw [scanWord, takeWhile_isWordPart hall hrest]

theorem isWordPart_of_isHexDigit (h : isHexDigit c = true) : isWordPart c = true := by
  have hword : c.isAlpha = true → isWordPart c = true := fun halpha =>
    isWordPart_of_isWordStart (by simp [isWordStart, halpha])
  simp only [isHexDigit, Bool.or_eq_true, Bool.and_eq_true, decide_eq_true_eq] at h
  rcases h with (hdigit | ⟨hge, hle⟩) | ⟨hge, hle⟩
  · exact isWordPart_of_isDigit hdigit
  · have hle' : c ≤ 'z' := Char.le_trans hle (by decide)
    have hlower : c.isLower = true := Bool.and_eq_true_iff.2 ⟨decide_eq_true hge, decide_eq_true hle'⟩
    exact hword (Bool.or_eq_true_iff.2 (.inr hlower))
  · have hle' : c ≤ 'Z' := Char.le_trans hle (by decide)
    have hupper : c.isUpper = true := decide_eq_true ⟨hge, hle'⟩
    exact hword (Bool.or_eq_true_iff.2 (.inl hupper))

/-- Does a number go on with this character? -/
def inNumber (d : Dialect) (c : Char) (rest : List Char) : Bool :=
  isWordPart c || (c == '.' && rest.head?.any Char.isDigit) ||
    (c == '\'' && d == .c && rest.head?.any isHexDigit)

theorem numberLength_cons :
    numberLength d (c :: rest) = if inNumber d c rest then numberLength d rest + 1 else 0 := rfl

/-- A number goes on with what is no part of a word only before a digit. -/
theorem isWordPart_of_inNumber (h : inNumber d c rest = true) (hrest : numberLength d rest = 0) :
    isWordPart c = true := by
  -- A digit behind a point or a quote would be the start of a number in the rest.
  have hnone : ∀ p : Char → Bool, (∀ a, p a = true → isWordPart a = true) →
      rest.head?.any p = false := by
    intro p hp
    cases rest with
    | nil => rfl
    | cons a more =>
      cases ha : p a with
      | false => simpa using ha
      | true => simp [numberLength_cons, inNumber, hp a ha] at hrest
  rw [inNumber, hnone Char.isDigit fun a => isWordPart_of_isDigit,
    hnone isHexDigit fun a => isWordPart_of_isHexDigit] at h
  simpa using h

theorem numberLength_bounded (h : numberLength d (tail ++ rest) = tail.length) :
    numberLength d rest = 0 ∧
      ∀ rest', numberLength d rest' = 0 → numberLength d (tail ++ rest') = tail.length := by
  induction tail with
  | nil => exact ⟨h, fun _ h' => h'⟩
  | cons a tail ih =>
    rw [List.cons_append, numberLength_cons] at h
    split at h
    · rename_i hgoes
      obtain ⟨hrest, hlength⟩ := ih (Nat.succ.inj h)
      refine ⟨hrest, fun rest' hrest' => ?_⟩
      -- Only the last character looks at the rest.
      have hgoes' : inNumber d a (tail ++ rest') = true := by
        cases tail with
        | nil => simp [inNumber, isWordPart_of_inNumber hgoes hrest]
        | cons b tail => exact hgoes
      rw [List.cons_append, numberLength_cons, if_pos hgoes', hlength rest' hrest']
      rfl
    · cases h

theorem scanNumber_bounded : Bounded d c (scanNumber d c) := by
  intro role tail rest h
  simp only [scanNumber, Except.ok.injEq, Prod.mk.injEq] at h
  obtain ⟨rfl, hlength⟩ := h
  obtain ⟨hrest, hlength'⟩ := numberLength_bounded hlength
  refine ⟨hrest, fun rest' hrest' => ?_⟩
  rw [scanNumber, hlength' rest' hrest', hlength, List.take_left, List.take_left]

/-! ## Literals -/

/-- A literal in quotes is found in front of any rest. -/
theorem quoted?_bounded (hquote : quote ≠ '\\') (h : quoted? quote (tail ++ rest) = some content)
    (hlength : content.length + 1 = tail.length) :
    tail = content ++ [quote] ∧ ∀ rest', quoted? quote (tail ++ rest') = some content := by
  obtain ⟨hquoted, more, hsplit⟩ := quoted?_eq_some h
  obtain ⟨rfl, rfl⟩ := List.append_inj hsplit (by simpa using hlength.symm)
  exact ⟨rfl, quoted?_append hquote hquoted⟩

/-- So is a text up to its closing. -/
theorem before?_bounded (hne : closing ≠ []) (h : Text.before? closing (tail ++ rest) = some content)
    (hlength : content.length + closing.length = tail.length) :
    tail = content ++ closing ∧ ∀ rest', Text.before? closing (tail ++ rest') = some content := by
  obtain ⟨hunbroken, more, hsplit⟩ := before?_eq_some h
  obtain ⟨rfl, rfl⟩ := List.append_inj hsplit (by simpa using hlength.symm)
  exact ⟨rfl, before?_append hne hunbroken⟩

theorem closes_iff {nests : Bool} {depth : Nat} {text : List Char} :
    Closes nests depth text ↔ commentLength? nests depth text = some text.length := by
  constructor
  · intro h
    simpa using commentLength?_append h []
  · intro h
    obtain ⟨word, more, rfl, hlength, hcloses⟩ := commentLength?_eq_some h
    obtain rfl : more = [] := by simpa using hlength
    simpa using hcloses

theorem exists_of_scanQuoted {what : Unclosed} {make : String → Kind} (hquote : quote ≠ '\\')
    (h : scanQuoted quote what make (tail ++ rest) = .ok (role, tail.length)) :
    ∃ content, role = .token (make (.ofList content)) ∧ Quoted quote content ∧
      tail = content ++ [quote] ∧
      ∀ rest', scanQuoted quote what make (tail ++ rest') = .ok (role, tail.length) := by
  unfold scanQuoted at h
  split at h
  · rename_i content hcontent
    simp only [Except.ok.injEq, Prod.mk.injEq] at h
    obtain ⟨rfl, hlength⟩ := h
    obtain ⟨htail, hcontent'⟩ := quoted?_bounded hquote hcontent hlength
    refine ⟨content, rfl, (quoted?_eq_some hcontent).1, htail, fun rest' => ?_⟩
    rw [scanQuoted, hcontent' rest', ← hlength]
  · cases h

/-- A raw string is found behind its letters in front of any rest. -/
theorem exists_of_scanRaw (h : scanRaw hashes (tail ++ rest) = .ok (role, tail.length)) :
    ∃ content, role = .token (.string content) ∧ hashes < tail.length ∧
      ∀ rest', scanRaw hashes (tail ++ rest') = .ok (role, tail.length) := by
  unfold scanRaw at h
  split at h
  · rename_i content hcontent
    simp only [Except.ok.injEq, Prod.mk.injEq] at h
    obtain ⟨rfl, hlength⟩ := h
    -- So the marks and the quote in front belong to what has been found.
    have hle : hashes + 1 ≤ tail.length := by omega
    rw [raw?, List.drop_append_of_le_length hle] at hcontent
    obtain ⟨-, hcontent'⟩ := before?_bounded (by simp) hcontent (by simp; omega)
    refine ⟨_, rfl, hle, fun rest' => ?_⟩
    rw [scanRaw, raw?, List.drop_append_of_le_length hle, hcontent' rest', ← hlength]
  · cases h

theorem rawHashes?_cons : rawHashes? (c :: rest) =
    if c = '#' then (rawHashes? rest).map (· + 1) else if c = '"' then some 0 else none := by
  unfold rawHashes?
  by_cases hhash : c = '#'
  · subst hhash
    rw [List.takeWhile_cons_of_pos (by decide), if_pos rfl]
    simp only [List.length_cons, List.drop_succ_cons]
    split <;> rfl
  · rw [List.takeWhile_cons_of_neg (by simpa using hhash), if_neg hhash]
    simp

theorem rawHashes?_bounded (h : rawHashes? (tail ++ rest) = some hashes)
    (hlt : hashes < tail.length) (rest' : List Char) :
    rawHashes? (tail ++ rest') = some hashes := by
  induction tail generalizing hashes with
  | nil => cases hlt
  | cons a tail ih =>
    rw [List.cons_append, rawHashes?_cons] at h ⊢
    split at h
    · rename_i hhash
      obtain ⟨n, hn, rfl⟩ := Option.map_eq_some_iff.1 h
      rw [if_pos hhash, ih hn (Nat.succ_lt_succ_iff.1 hlt)]
      rfl
    · rename_i hhash
      rw [if_neg hhash, h]

theorem rawHashes?_of_isWordPart (h : isWordPart c = true) : rawHashes? (c :: rest) = none := by
  rw [rawHashes?_cons, if_neg (ne_of_test h rfl), if_neg (ne_of_test h rfl)]

/-! ## Names -/

/-- A raw string behind these letters, or a name that starts with them. -/
def rawOrName (c : Char) (more rest : List Char) : Except Unclosed Reach :=
  match rawHashes? rest with
  | some hashes => (scanRaw hashes rest).map fun reach => (reach.1, reach.2 + more.length)
  | none => scanWord c (more ++ rest)

theorem scanLetter_r (rest : List Char) : scanLetter .rust 'r' rest = rawOrName 'r' [] rest := by
  show (match rawHashes? rest with
    | some hashes => scanRaw hashes rest
    | none => scanWord 'r' rest) = _
  unfold rawOrName
  cases rawHashes? rest with
  | none => rfl
  | some hashes => cases h : scanRaw hashes rest <;> simp [h, Except.map]

theorem scanLetter_br (rest : List Char) :
    scanLetter .rust 'b' ('r' :: rest) = rawOrName 'b' ['r'] rest := rfl

theorem rawOrName_bounded {more : List Char} (hletters : c :: more = ['r'] ∨ c :: more = ['b', 'r'])
    (h : rawOrName c more (tail ++ rest) = .ok (role, (more ++ tail).length)) :
    Segment.EndsBefore .rust ⟨role, c :: (more ++ tail)⟩ rest ∧
    ∀ rest', Segment.EndsBefore .rust ⟨role, c :: (more ++ tail)⟩ rest' →
      rawOrName c more (tail ++ rest') = .ok (role, (more ++ tail).length) := by
  cases hraw : rawHashes? (tail ++ rest) with
  | some hashes =>
    simp only [rawOrName, hraw, Except.map] at h
    cases hscan : scanRaw hashes (tail ++ rest) with
    | error what => simp [hscan] at h
    | ok reach =>
      obtain ⟨role', n⟩ := reach
      simp only [hscan, List.length_append, Except.ok.injEq, Prod.mk.injEq] at h
      obtain ⟨rfl, hlength⟩ := h
      obtain rfl : n = tail.length := by omega
      obtain ⟨content, rfl, hlt, hscan'⟩ := exists_of_scanRaw hscan
      refine ⟨fun hkotlin => absurd hkotlin (by decide), fun rest' _ => ?_⟩
      simp only [rawOrName, rawHashes?_bounded hraw hlt rest', hscan' rest', Except.map,
        List.length_append, Nat.add_comm]
  | none =>
    simp only [rawOrName, hraw, ← List.append_assoc] at h
    obtain ⟨rfl, hall, hrest⟩ := scanWord_eq_ok_iff.1 h
    have hb : c :: (more ++ tail) ≠ ['b'] := by
      rintro hb
      rcases hletters with h' | h' <;> cases h' <;> cases hb
    -- Behind further letters no raw string is looked for.
    have hname : c :: (more ++ tail) = ['r'] ∨ c :: (more ++ tail) = ['b', 'r'] ↔ tail = [] := by
      rcases hletters with h' | h' <;> cases h' <;> simp
    refine ⟨.inr ⟨hrest, fun _ => ⟨fun htext => ?_, fun htext => absurd htext hb⟩⟩,
      fun rest' hends => ?_⟩
    · simpa [hname.1 htext] using hraw
    · have hends' : EndsName .rust (c :: (more ++ tail)) rest' := by
        refine hends.resolve_left ?_
        rcases hletters with h' | h' <;> cases h' <;> simp
      have hnone : rawHashes? (tail ++ rest') = none := by
        cases tail with
        | nil => exact (hends'.2 rfl).1 (hname.2 rfl)
        | cons a tail => exact rawHashes?_of_isWordPart (hall a (by simp))
      simp only [rawOrName, hnone, ← List.append_assoc]
      exact scanWord_eq_ok_iff.2 ⟨rfl, hall, hends'.1⟩

theorem scanWord_bounded (hc : c ≠ '\x60')
    (hrust : d = .rust → c ≠ 'r' ∧ c ≠ 'b') : Bounded d c (scanWord c) := by
  intro role tail rest h
  obtain ⟨rfl, hall, hrest⟩ := scanWord_eq_ok_iff.1 h
  refine ⟨.inr ⟨hrest, fun hd => ⟨?_, ?_⟩⟩, fun rest' hends => ?_⟩
  · rintro (htext | htext) <;> cases htext
    · exact absurd rfl (hrust hd).1
    · exact absurd rfl (hrust hd).2
  · rintro htext
    cases htext
    exact absurd rfl (hrust hd).2
  · have hends' : EndsName d (c :: tail) rest' := hends.resolve_left (by simpa using hc)
    exact scanWord_eq_ok_iff.2 ⟨rfl, hall, hends'.1⟩

/-- A name that starts with a `b`, if neither the `r` of a raw string nor a quote comes next. -/
theorem scanLetter_b (hr : rest.head? ≠ some 'r') (hquote : rest.head? ≠ some '"') :
    scanLetter .rust 'b' rest = scanWord 'b' rest := by
  refine Bounds.Scanner.scanLetter_eq_scanWord ?_
  rintro ⟨-, h | ⟨-, h | h⟩⟩
  · cases h
  · exact hr h
  · exact hquote h

theorem scanLetter_b_bounded : Bounded .rust 'b' (scanLetter .rust 'b') := by
  intro role tail rest h
  by_cases hquote : (tail ++ rest).head? = some '"'
  · -- The letter of a byte string is a segment of its own.
    obtain ⟨inner, hinner⟩ := List.head?_eq_some_iff.1 hquote
    rw [hinner] at h
    obtain ⟨rfl, hlength⟩ := Prod.mk.inj (Except.ok.inj h)
    obtain rfl : tail = [] := List.length_eq_zero_iff.1 hlength.symm
    refine ⟨hquote, fun rest' hends => ?_⟩
    obtain ⟨inner', rfl⟩ := List.head?_eq_some_iff.1 hends
    rfl
  by_cases hr : (tail ++ rest).head? = some 'r'
  · cases tail with
    | nil =>
      obtain ⟨inner, rfl⟩ := List.head?_eq_some_iff.1 hr
      rw [List.nil_append, scanLetter_br] at h
      cases hraw : rawHashes? inner with
      | some hashes => cases hscan : scanRaw hashes inner <;> simp [rawOrName, hraw, hscan, Except.map] at h
      | none => simp [rawOrName, hraw, scanWord, isWordPart, Char.isAlphanum] at h
    | cons a tail =>
      obtain rfl : a = 'r' := Option.some.inj hr
      exact rawOrName_bounded (.inr rfl) h
  · rw [scanLetter_b hr hquote] at h
    obtain ⟨rfl, hall, hrest⟩ := scanWord_eq_ok_iff.1 h
    refine ⟨.inr ⟨hrest, fun _ => ⟨?_, ?_⟩⟩, fun rest' hends => ?_⟩
    · rintro (htext | htext) <;> cases htext
      exact absurd rfl hr
    · rintro htext
      cases htext
      exact hquote
    · have hends' : EndsName .rust ('b' :: tail) rest' := hends.resolve_left (by simp)
      have hhead : (tail ++ rest').head? ≠ some 'r' ∧ (tail ++ rest').head? ≠ some '"' := by
        cases tail with
        | nil => exact ⟨fun h' => absurd (hends'.1 'r' h') (by decide), (hends'.2 rfl).2 rfl⟩
        | cons a tail => exact ⟨hr, hquote⟩
      rw [scanLetter_b hhead.1 hhead.2]
      exact scanWord_eq_ok_iff.2 ⟨rfl, hall, hends'.1⟩

/-- No raw or byte string starts with another letter. -/
theorem scanLetter_plain (h : ¬(d = .rust ∧ (c = 'r' ∨ c = 'b'))) : scanLetter d c = scanWord c := by
  funext rest
  refine Bounds.Scanner.scanLetter_eq_scanWord ?_
  rintro ⟨hd, hc | ⟨hc, -⟩⟩
  · exact h ⟨hd, .inl hc⟩
  · exact h ⟨hd, .inr hc⟩

theorem scanLetter_bounded (hc : isWordStart c = true) : Bounded d c (scanLetter d c) := by
  by_cases hrust : d = .rust ∧ (c = 'r' ∨ c = 'b')
  · obtain ⟨rfl, rfl | rfl⟩ := hrust
    · intro role tail rest h
      simp only [scanLetter_r] at h ⊢
      exact rawOrName_bounded (.inl rfl) h
    · exact scanLetter_b_bounded
  · rw [scanLetter_plain hrust]
    refine scanWord_bounded ?_ fun hd => ⟨fun h => hrust ⟨hd, .inl h⟩, fun h => hrust ⟨hd, .inr h⟩⟩
    rintro rfl
    cases hc

/-! ## Quotes and strings -/

/-- Does a lifetime start behind the quote? -/
def startsLifetime (d : Dialect) (rest : List Char) : Bool :=
  d == .rust && rest.head?.any isWordStart && rest.tail.head? != some '\''

theorem scanQuote_lifetime (h : startsLifetime d rest = true) : scanQuote d rest =
    .ok (.token (.lifetime (.ofList (rest.takeWhile isWordPart))),
      (rest.takeWhile isWordPart).length) := if_pos h

theorem scanQuote_character (h : startsLifetime d rest = false) :
    scanQuote d rest = scanQuoted '\'' .character .character rest :=
  if_neg (ne_true_of_eq_false h)

theorem startsLifetime_cons : startsLifetime d (c :: rest) =
    (d == .rust && isWordStart c && rest.head? != some '\'') := rfl

theorem scanQuote_bounded : Bounded d '\'' (scanQuote d) := by
  intro role tail rest h
  cases hword : startsLifetime d (tail ++ rest) with
  | true =>
    rw [scanQuote_lifetime hword] at h
    obtain ⟨rfl, hlength⟩ := Prod.mk.inj (Except.ok.inj h)
    obtain ⟨hall, hrest⟩ := length_takeWhile_eq_iff.1 hlength
    rw [takeWhile_isWordPart hall hrest]
    cases tail with
    | nil =>
      -- The letter behind the quote would have been taken.
      cases rest with
      | nil => simp [startsLifetime] at hword
      | cons a more =>
        simp only [List.nil_append, startsLifetime_cons, Bool.and_eq_true] at hword
        have ha := hrest a rfl
        rw [isWordPart_of_isWordStart hword.1.2] at ha
        cases ha
    | cons a name =>
      simp only [List.cons_append, startsLifetime_cons, Bool.and_eq_true, bne_iff_ne] at hword
      refine ⟨⟨hrest, fun htext => ?_⟩, fun rest' hends => ?_⟩
      · obtain rfl : name = [] := by simpa using htext
        exact hword.2
      · -- Behind a single letter it is the rest that must not start with a quote.
        have hsecond : (name ++ rest').head? ≠ some '\'' := by
          cases name with
          | nil => exact hends.2 rfl
          | cons b name => exact hword.2
        have hword' : startsLifetime d (a :: name ++ rest') = true := by
          simp only [List.cons_append, startsLifetime_cons, Bool.and_eq_true, bne_iff_ne]
          exact ⟨hword.1, hsecond⟩
        rw [scanQuote_lifetime hword', takeWhile_isWordPart hall hends.1]
  | false =>
    rw [scanQuote_character hword] at h
    obtain ⟨content, rfl, -, rfl, hother⟩ := exists_of_scanQuoted (by decide) h
    refine ⟨trivial, fun rest' _ => ?_⟩
    -- The closing quote is among the characters that are asked for, or lies behind them.
    have hword' : startsLifetime d (content ++ ['\''] ++ rest') = false := by
      cases content with
      | nil =>
        have hstart : isWordStart '\'' = false := rfl
        simp [startsLifetime_cons, hstart]
      | cons a content =>
        cases content <;> exact hword
    rw [scanQuote_character hword', hother rest']

theorem scanString_single (h : ¬(d = .kotlin ∧ ∃ inner, rest = '"' :: '"' :: inner)) :
    scanString d rest = scanQuoted '"' .string .string rest := by
  unfold scanString
  split
  · exact absurd ⟨rfl, _, rfl⟩ h
  · rfl

/-- A string behind its three quotes. -/
def scanTriple (inner : List Char) : Except Unclosed Reach :=
  match Text.before? ['"', '"', '"'] inner with
  | some content => .ok (.token (.string (.ofList content)), content.length + 5)
  | none => .error .string

theorem scanString_triple (inner : List Char) :
    scanString .kotlin ('"' :: '"' :: inner) = scanTriple inner := rfl

theorem exists_of_scanTriple {inner : List Char} {n : Nat} (h : scanTriple inner = .ok (role, n)) :
    ∃ content, role = .token (.string content) ∧ 5 ≤ n ∧
      ∀ tail rest, inner = tail ++ rest → n = tail.length + 2 →
        ∀ rest', scanTriple (tail ++ rest') = .ok (role, n) := by
  unfold scanTriple at h
  split at h
  · rename_i content hcontent
    obtain ⟨rfl, rfl⟩ := Prod.mk.inj (Except.ok.inj h)
    refine ⟨_, rfl, Nat.le_add_left 5 _, fun tail rest hinner hlength rest' => ?_⟩
    subst hinner
    have hlength' : content.length + ['"', '"', '"'].length = tail.length := by
      simp only [List.length_cons, List.length_nil]
      omega
    obtain ⟨-, hcontent'⟩ := before?_bounded (by simp) hcontent hlength'
    rw [scanTriple, hcontent' rest']
  · cases h

theorem scanString_bounded : Bounded d '"' (scanString d) := by
  intro role tail rest h
  by_cases htriple : d = .kotlin ∧ ∃ inner, tail ++ rest = '"' :: '"' :: inner
  · obtain ⟨rfl, inner, hinner⟩ := htriple
    rw [hinner, scanString_triple] at h
    obtain ⟨content, rfl, hle, hother⟩ := exists_of_scanTriple h
    -- The two quotes belong to the literal, as its closing stands behind them.
    have hquotes : ['"', '"'] <+: tail :=
      List.prefix_of_prefix_length_le ⟨inner, hinner.symm⟩ (List.prefix_append tail rest)
        (Nat.le_trans (by decide) hle)
    obtain ⟨more, rfl⟩ := hquotes
    obtain rfl : more ++ rest = inner := by simpa using hinner
    exact ⟨fun _ htext => by simp at htext, fun rest' _ => hother more rest rfl rfl rest'⟩
  · rw [scanString_single htriple] at h
    obtain ⟨content, rfl, hquoted, rfl, hother⟩ := exists_of_scanQuoted (by decide) h
    -- A content does not start with the quote, so a second one is the closing.
    have hnil : ∀ rest', (content ++ ['"'] ++ rest').head? = some '"' → content = [] := by
      intro rest' hhead
      cases hquoted with
      | nil => rfl
      | escape => cases hhead
      | plain _ hne => exact absurd (Option.some.inj hhead) hne
    refine ⟨?_, fun rest' hends => ?_⟩
    · rintro rfl htext hhead
      obtain ⟨inner, rfl⟩ := List.head?_eq_some_iff.1 hhead
      obtain rfl : content = [] := hnil [] (by simp [(List.cons.inj htext).2])
      exact htriple ⟨rfl, inner, rfl⟩
    · have htriple' : ¬(d = .kotlin ∧ ∃ inner, content ++ ['"'] ++ rest' = '"' :: '"' :: inner) := by
        rintro ⟨rfl, inner, hinner⟩
        obtain rfl : content = [] := hnil rest' (by rw [hinner]; rfl)
        exact hends rfl rfl (by simpa using congrArg List.head? (List.cons.inj hinner).2)
      rw [scanString_single htriple', hother rest']

/-! ## Tokens -/

/-- The signs of one character that are told by it alone. -/
def signs : List (Char × Kind) :=
  [('(', .opening .paren), (')', .closing .paren), ('\x7b', .opening .brace), ('\x7d', .closing .brace),
    ('[', .opening .square), (']', .closing .square), ('<', .opening .angle), ('>', .closing .angle),
    (',', .comma), (';', .semicolon), ('*', .star), ('&', .ampersand), ('=', .equals),
    ('?', .question), ('.', .dot), ('#', .hash)]

/-- What looks for a token that starts with `c`. -/
inductive TokenScanner (d : Dialect) (c : Char) : (List Char → Except Unclosed Reach) → Prop where
  | sign {kind : Kind} (h : (c, kind) ∈ signs) : TokenScanner d c fun _ => single kind
  | colon (hc : c = ':') : TokenScanner d c fun rest =>
      if rest.head? = some ':' then .ok (.token .pathSeparator, 1) else single .colon
  | minus (hc : c = '-') : TokenScanner d c fun rest =>
      if rest.head? = some '>' then .ok (.token .arrow, 1) else single (.punctuation '-')
  | string (hc : c = '"') : TokenScanner d c (scanString d)
  | quote (hc : c = '\'') : TokenScanner d c (scanQuote d)
  | name (hd : d = .kotlin) (hc : c = '\x60') :
      TokenScanner d c (scanQuoted '\x60' .string .identifier)
  | letter (hc : isWordStart c = true) : TokenScanner d c (scanLetter d c)
  | number (hc : c.isDigit = true) : TokenScanner d c (scanNumber d c)
  | other (hc : isWordPart c = false) (hminus : c ≠ '-') :
      TokenScanner d c fun _ => single (.punctuation c)

theorem scanToken_of_mem_signs : ∀ p ∈ signs, scanToken d p.1 = fun _ => single p.2 := by
  simp only [signs, List.forall_mem_cons]
  and_intros <;> first | rfl | exact List.forall_mem_nil _

theorem scanToken_scanner (d : Dialect) (c : Char) : TokenScanner d c (scanToken d c) := by
  by_cases hsign : ∃ kind, (c, kind) ∈ signs
  · obtain ⟨kind, h⟩ := hsign
    exact scanToken_of_mem_signs _ h ▸ .sign h
  by_cases hcolon : c = ':'
  · subst hcolon
    exact .colon rfl
  by_cases hminus : c = '-'
  · subst hminus
    exact .minus rfl
  by_cases hstring : c = '"'
  · subst hstring
    exact .string rfl
  by_cases hquote : c = '\''
  · subst hquote
    exact .quote rfl
  -- All other characters come to the last arm of the match.
  have hsame : scanToken d c = fun rest =>
      if d == .kotlin && c == '\x60' then scanQuoted '\x60' .string .identifier rest
      else if isWordStart c then scanLetter d c rest
      else if c.isDigit then scanNumber d c rest
      else single (.punctuation c) := by
    funext rest
    unfold scanToken
    split
    case h_21 => rfl
    all_goals first | contradiction | exact absurd ⟨_, by simp [signs]; rfl⟩ hsign
  rw [hsame]
  by_cases hname : d = .kotlin ∧ c = '\x60'
  · obtain ⟨rfl, rfl⟩ := hname
    exact .name rfl rfl
  have hname' : (d == .kotlin && c == '\x60') = false := by simpa using hname
  simp only [hname', Bool.false_eq_true, if_false]
  by_cases hstart : isWordStart c = true
  · simp only [hstart, if_true]
    exact .letter hstart
  by_cases hdigit : c.isDigit = true
  · simp only [hstart, hdigit, if_true]
    exact .number hdigit
  · simp only [hstart, hdigit]
    exact .other (isWordPart_eq_false hstart hdigit) hminus

/-- A token of one character that may stand in front of any rest. -/
theorem single_bounded (h : ∀ rest, kind.EndsBefore d [c] rest) :
    Bounded d c fun _ => single kind := by
  intro role tail rest hsingle
  obtain ⟨rfl, hlength⟩ := Prod.mk.inj (Except.ok.inj hsingle)
  obtain rfl : tail = [] := List.length_eq_zero_iff.1 hlength.symm
  exact ⟨h rest, fun _ _ => rfl⟩

/-- A sign that is another one together with the next character. -/
theorem pair_bounded {second : Char} {double : Kind} (hdouble : ∀ text rest, double.EndsBefore d text rest)
    (hsingle : ∀ rest, kind.EndsBefore d [c] rest ↔ rest.head? ≠ some second) :
    Bounded d c fun rest =>
      if rest.head? = some second then .ok (.token double, 1) else single kind := by
  intro role tail rest h
  dsimp only at h
  split at h
  · rename_i hsecond
    obtain ⟨rfl, hlength⟩ := Prod.mk.inj (Except.ok.inj h)
    obtain ⟨a, rfl⟩ := List.length_eq_one_iff.1 hlength.symm
    exact ⟨hdouble _ _, fun rest' _ => if_pos hsecond⟩
  · rename_i hsecond
    obtain ⟨rfl, hlength⟩ := Prod.mk.inj (Except.ok.inj h)
    obtain rfl : tail = [] := List.length_eq_zero_iff.1 hlength.symm
    exact ⟨(hsingle rest).2 hsecond, fun rest' hends => if_neg ((hsingle rest').1 hends)⟩

theorem endsBefore_of_mem_signs : ∀ p ∈ signs, ∀ text rest, p.2.EndsBefore d text rest := by
  simp only [signs, List.forall_mem_cons]
  and_intros <;> first | exact fun _ _ => trivial | exact List.forall_mem_nil _

theorem TokenScanner.bounded {found : List Char → Except Unclosed Reach}
    (h : TokenScanner d c found) (hc : c ≠ '/') : Bounded d c found := by
  cases h with
  | sign h => exact single_bounded fun rest => endsBefore_of_mem_signs _ h _ rest
  | colon hcolon =>
    subst hcolon
    exact pair_bounded (fun _ _ => trivial) fun _ => Iff.rfl
  | minus hminus =>
    subst hminus
    exact pair_bounded (fun _ _ => trivial) fun rest => by simp [Kind.EndsBefore]
  | string hquote => exact hquote ▸ scanString_bounded
  | quote hquote => exact hquote ▸ scanQuote_bounded
  | name hd hquote =>
    subst hquote
    intro role tail rest h
    obtain ⟨content, rfl, -, rfl, hother⟩ := exists_of_scanQuoted (by decide) h
    exact ⟨.inl rfl, fun rest' _ => hother rest'⟩
  | letter hstart => exact scanLetter_bounded hstart
  | number hdigit => exact scanNumber_bounded
  | other hpart hminus =>
    exact single_bounded fun rest => ⟨fun h => absurd h hminus, fun h => absurd h hc⟩

/-! ## Segments -/

theorem directiveLength_of_line (h : DirectiveLine rest tail) :
    directiveLength (tail ++ rest) = tail.length := by
  -- The line follows the same three ways to go on as the search.
  induction h with
  | nil hend =>
    cases rest with
    | nil => rfl
    | cons a more =>
      have ha : endsLine a = true := hend a rfl
      rw [List.nil_append, Bounds.Scanner.directiveLength_cons, if_pos ha]
      · rfl
      · rintro rfl
        cases ha
  | continued hc hu h ih =>
    rw [List.cons_append, List.append_assoc, Bounds.Scanner.directiveLength_continued hc hu, ih]
    simp
    omega
  | @plain a text hc hback h ih =>
    have hnot : a = '\\' → (text ++ rest).head?.any endsLine = false := by
      intro ha
      cases hhead : (text ++ rest).head? with
      | none => rfl
      | some b => exact hback ha b hhead
    rw [List.cons_append, Bounds.Scanner.directiveLength_cons hnot, if_neg (by simp [hc]), ih]
    rfl

theorem line_of_directiveLength (h : directiveLength (tail ++ rest) = tail.length) :
    DirectiveLine rest tail := by
  obtain ⟨text, more, hsplit, hlength, hline⟩ := exists_directiveLine (tail ++ rest)
  obtain ⟨rfl, rfl⟩ := List.append_inj hsplit (by rw [hlength, h])
  exact hline

section

variable {fresh : Bool}

theorem scan_of_isBlank (hc : isBlank c = true) :
    scan d fresh c rest = .ok (.blank, (rest.takeWhile isBlank).length) := if_pos hc

theorem scan_lineComment (rest : List Char) : scan d fresh '/' ('/' :: rest)
    = .ok (.lineComment, (('/' :: rest).takeWhile (!endsLine ·)).length) := rfl

theorem scan_blockComment (rest : List Char) : scan d fresh '/' ('*' :: rest)
    = match commentLength? (d != .c) 0 rest with
      | some length => .ok (.blockComment, length + 1)
      | none => .error .comment := rfl

theorem scan_slash (hslash : rest.head? ≠ some '/') (hstar : rest.head? ≠ some '*') :
    scan d fresh '/' rest = single (.punctuation '/') := by
  have htoken : scanToken d '/' rest = single (.punctuation '/') := by cases d <;> rfl
  simp [scan, isBlank, hslash, hstar, htoken]

theorem scan_directive (rest : List Char) :
    scan .c true '#' rest = .ok (.directive, directiveLength rest) := rfl

theorem scan_of_token (hblank : isBlank c = false) (hslash : c ≠ '/')
    (hdirective : ¬(d = .c ∧ fresh = true ∧ c = '#')) :
    scan d fresh c rest = scanToken d c rest := by
  have hdirective' : (c == '#' && d == .c && fresh) = false := by
    rw [Bool.eq_false_iff]
    simp only [ne_eq, Bool.and_eq_true, beq_iff_eq, not_and]
    exact fun hc hfresh => hdirective ⟨hc.2, hfresh, hc.1⟩
  simp [scan, hblank, hslash, hdirective']

/-- A slash is by itself, or it opens a comment together with the next character. -/
theorem slash_bounded : Bounded d '/' (scan d fresh '/') := by
  intro role tail rest h
  cases tail with
  | nil =>
    have hhead : rest.head? ≠ some '/' ∧ rest.head? ≠ some '*' := by
      constructor
      · intro hslash
        obtain ⟨more, rfl⟩ := List.head?_eq_some_iff.1 hslash
        rw [List.nil_append, scan_lineComment, List.takeWhile_cons_of_pos (by decide)] at h
        cases h
      · intro hstar
        obtain ⟨more, rfl⟩ := List.head?_eq_some_iff.1 hstar
        rw [List.nil_append, scan_blockComment] at h
        split at h <;> cases h
    rw [List.nil_append, scan_slash hhead.1 hhead.2] at h
    cases h
    exact ⟨⟨fun h => absurd h (by decide), fun _ => hhead⟩,
      fun rest' hends => scan_slash (hends.2 rfl).1 (hends.2 rfl).2⟩
  | cons a tail =>
    by_cases hslash : a = '/'
    · subst hslash
      rw [List.cons_append, scan_lineComment, ← List.cons_append] at h
      obtain ⟨rfl, hlength⟩ := Prod.mk.inj (Except.ok.inj h)
      obtain ⟨hall, hrest⟩ := length_takeWhile_eq_iff.1 hlength
      refine ⟨fun a ha => by simpa using hrest a ha, fun rest' hends => ?_⟩
      have hlength' := length_takeWhile_eq_iff.2 ⟨hall, fun a ha => by simpa using hends a ha⟩
      rw [List.cons_append, scan_lineComment, ← List.cons_append, hlength']
    · by_cases hstar : a = '*'
      · subst hstar
        rw [List.cons_append, scan_blockComment] at h
        split at h
        · rename_i n hn
          obtain ⟨rfl, hlength⟩ := Prod.mk.inj (Except.ok.inj h)
          obtain ⟨text, more, hsplit, htext, hcloses⟩ := commentLength?_eq_some hn
          obtain ⟨rfl, rfl⟩ := List.append_inj hsplit (by simp at hlength; omega)
          refine ⟨trivial, fun rest' _ => ?_⟩
          rw [List.cons_append, scan_blockComment, commentLength?_append hcloses]
          rfl
        · cases h
      · rw [List.cons_append, scan_slash (by simpa using hslash) (by simpa using hstar)] at h
        cases h

/-- A segment that has been found is found in front of whatever may stand behind it. -/
theorem scan_bounded : Bounded d c (scan d fresh c) := by
  by_cases hslash : c = '/'
  · exact hslash ▸ slash_bounded
  intro role tail rest h
  cases hblank : isBlank c with
  | true =>
    rw [scan_of_isBlank hblank] at h
    obtain ⟨rfl, hlength⟩ := Prod.mk.inj (Except.ok.inj h)
    obtain ⟨hall, hrest⟩ := length_takeWhile_eq_iff.1 hlength
    refine ⟨hrest, fun rest' hends => ?_⟩
    rw [scan_of_isBlank hblank, length_takeWhile_eq_iff.2 ⟨hall, hends⟩]
  | false =>
    by_cases hdirective : d = .c ∧ fresh = true ∧ c = '#'
    · obtain ⟨rfl, rfl, rfl⟩ := hdirective
      rw [scan_directive] at h
      obtain ⟨rfl, hlength⟩ := Prod.mk.inj (Except.ok.inj h)
      refine ⟨line_of_directiveLength hlength, fun rest' hends => ?_⟩
      have hline : DirectiveLine rest' tail := hends
      rw [scan_directive, directiveLength_of_line hline]
    · have hscan : ∀ rest, scan d fresh c rest = scanToken d c rest := fun _ =>
        scan_of_token hblank hslash hdirective
      simp only [hscan] at h ⊢
      exact (scanToken_scanner d c).bounded hslash _ _ _ h

/-! ## What has been found

A segment is found at its first characters, and tells them by its role if no token comes from it. -/

/-- A token, or the letter of a byte string. -/
def GivesToken (scanned : Except Unclosed Reach) : Prop :=
  ∀ role n, scanned = .ok (role, n) → role = .bytePrefix ∨ ∃ kind, role = .token kind

theorem givesToken_ok {n : Nat} : GivesToken (.ok (.token kind, n)) := by
  intro role m h
  cases h
  exact .inr ⟨kind, rfl⟩

theorem scanQuoted_givesToken {what : Unclosed} {make : String → Kind} :
    GivesToken (scanQuoted quote what make rest) := by
  unfold scanQuoted
  split
  · exact givesToken_ok
  · exact nofun

theorem scanRaw_givesToken : GivesToken (scanRaw hashes rest) := by
  unfold scanRaw
  split
  · exact givesToken_ok
  · exact nofun

theorem scanLetter_givesToken : GivesToken (scanLetter d c rest) := by
  unfold scanLetter
  split
  · split
    · exact scanRaw_givesToken
    · exact givesToken_ok
  · split
    · rename_i inner _ hashes _
      cases hscan : scanRaw hashes inner with
      | error what => exact nofun
      | ok reach =>
        intro role n h
        cases h
        exact scanRaw_givesToken _ _ hscan
    · exact givesToken_ok
  · intro role n h
    cases h
    exact .inl rfl
  · exact givesToken_ok

theorem TokenScanner.givesToken {found : List Char → Except Unclosed Reach}
    (h : TokenScanner d c found) : GivesToken (found rest) := by
  cases h with
  | sign | other => exact givesToken_ok
  | colon | minus =>
    dsimp only
    split <;> exact givesToken_ok
  | string =>
    unfold scanString
    split
    · split
      · exact givesToken_ok
      · exact nofun
    · exact scanQuoted_givesToken
  | quote =>
    unfold scanQuote
    split
    · exact givesToken_ok
    · exact scanQuoted_givesToken
  | name => exact scanQuoted_givesToken
  | letter => exact scanLetter_givesToken
  | number => exact givesToken_ok

/-- The role of a segment tells its first characters, unless a token comes from it. -/
theorem scan_cases {n : Nat} (h : scan d fresh c rest = .ok (role, n)) :
    role = .blank ∧ isBlank c = true ∨
    role = .lineComment ∧ c = '/' ∧ rest.head? = some '/' ∨
    role = .blockComment ∧ c = '/' ∧ rest.head? = some '*' ∨
    role = .directive ∧ d = .c ∧ fresh = true ∧ c = '#' ∨
    role = .bytePrefix ∨ ∃ kind, role = .token kind := by
  by_cases hslash : c = '/'
  · subst hslash
    by_cases hline : rest.head? = some '/'
    · obtain ⟨more, rfl⟩ := List.head?_eq_some_iff.1 hline
      cases h
      exact .inr (.inl ⟨rfl, rfl, rfl⟩)
    by_cases hblock : rest.head? = some '*'
    · obtain ⟨more, rfl⟩ := List.head?_eq_some_iff.1 hblock
      rw [scan_blockComment] at h
      split at h
      · cases h
        exact .inr (.inr (.inl ⟨rfl, rfl, rfl⟩))
      · cases h
    · rw [scan_slash hline hblock] at h
      exact .inr (.inr (.inr (.inr (givesToken_ok _ _ h))))
  cases hblank : isBlank c with
  | true =>
    rw [scan_of_isBlank hblank] at h
    cases h
    exact .inl ⟨rfl, rfl⟩
  | false =>
    by_cases hdirective : d = .c ∧ fresh = true ∧ c = '#'
    · obtain ⟨rfl, rfl, rfl⟩ := hdirective
      cases h
      exact .inr (.inr (.inr (.inl ⟨rfl, rfl, rfl, rfl⟩)))
    · rw [scan_of_token hblank hslash hdirective] at h
      exact .inr (.inr (.inr (.inr ((scanToken_scanner d c).givesToken _ _ h))))

theorem isBlank_of_scan (h : scan d fresh c (tail ++ rest) = .ok (.blank, tail.length)) :
    ∀ a ∈ c :: tail, isBlank a = true := by
  rcases scan_cases h with ⟨-, hc⟩ | ⟨h', -⟩ | ⟨h', -⟩ | ⟨h', -⟩ | h' | ⟨kind, h'⟩
  case inl =>
    rw [scan_of_isBlank hc] at h
    obtain ⟨-, hlength⟩ := Prod.mk.inj (Except.ok.inj h)
    exact List.forall_mem_cons.2 ⟨hc, (length_takeWhile_eq_iff.1 hlength).1⟩
  all_goals cases h'

theorem lineComment_of_scan {n : Nat} (h : scan d fresh c rest = .ok (.lineComment, n)) :
    c = '/' ∧ rest.head? = some '/' := by
  rcases scan_cases h with ⟨h', -⟩ | ⟨-, hopening⟩ | ⟨h', -⟩ | ⟨h', -⟩ | h' | ⟨kind, h'⟩
  case inr.inl => exact hopening
  all_goals cases h'

theorem directive_of_scan {n : Nat} (h : scan d fresh c rest = .ok (.directive, n)) :
    d = .c ∧ fresh = true ∧ c = '#' := by
  rcases scan_cases h with ⟨h', -⟩ | ⟨h', -⟩ | ⟨h', -⟩ | ⟨-, hopening⟩ | h' | ⟨kind, h'⟩
  case inr.inr.inr.inl => exact hopening
  all_goals cases h'

end

end Source

end ForeignModule
