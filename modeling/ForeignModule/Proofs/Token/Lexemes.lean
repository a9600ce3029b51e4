import ForeignModule.Proofs.Token.Outline

/-!
# Words and literals of Rust

A quote opens a lifetime or a character, the letters `r` and `b` start a word, a byte string or a raw
string, and a raw string goes on to a quote with as many marks as stand in front. Which of them it
is shows in the first characters, and where it ends in its own text (`Lexeme.outlineFrom_written`).
So lexemes with single blanks between them are read as these lexemes (`tokenize_lexemes`).
-/

namespace ForeignModule

open Source Token

/-- A word or a literal of Rust, which nothing but its own delimiters sets off. -/
inductive Lexeme where
  | identifier (name : List Char) (h : IsWord name)
  /-- A lifetime, or the label of a loop. -/
  | lifetime (name : List Char) (h : IsWord name)
  | character (c : Char) (hquote : c ≠ '\'') (hback : c ≠ '\\')
  /-- A backslash, the character it takes with it, and what more belongs to the escape. -/
  | escape (c : Char) (more : List Char) (h : ∀ a ∈ more, a ≠ '\'' ∧ a ≠ '\\')
  | string (byte : Bool) (content : List Char) (h : Quoted '"' content)
  | raw (byte : Bool) (hashes : Nat) (content : List Char)
      (h : ¬ '"' :: List.replicate hashes '#' <:+: content)

namespace Lexeme

/-- A raw string behind its letters. -/
def marked (hashes : Nat) (content : List Char) : List Char :=
  List.replicate hashes '#' ++ '"' :: content ++ '"' :: List.replicate hashes '#'

/-- The lexeme as it is written. -/
def written : Lexeme → List Char
  | identifier name _ => name
  | lifetime name _ => '\'' :: name
  | character c _ _ => ['\'', c, '\'']
  | escape c more _ => '\'' :: '\\' :: c :: more ++ ['\'']
  | string byte content _ => (if byte then ['b'] else []) ++ '"' :: content ++ ['"']
  | raw byte hashes content _ =>
    (if byte then ['b'] else []) ++ 'r' :: marked hashes content

/-- The kind of the token, with the content of the literal as it is written. -/
def kind : Lexeme → Kind
  | identifier name _ => .identifier (.ofList name)
  | lifetime name _ => .lifetime (.ofList name)
  | character c _ _ => .character (.ofList [c])
  | escape c more _ => .character (.ofList ('\\' :: c :: more))
  | string _ content _ | raw _ _ content _ => .string (.ofList content)

/-- Lexemes with single blanks between them. -/
def text (lexemes : List Lexeme) : List Char := [' '].intercalate (lexemes.map written)

end Lexeme

section

variable {fresh : Bool} {c : Char} {tail rest content : List Char} {hashes : Nat}

/-- Nothing but a blank stands behind. -/
def EndsLexeme (rest : List Char) : Prop := ∀ c ∈ rest.head?, c = ' '

theorem EndsLexeme.endsWord (h : EndsLexeme rest) : EndsWord rest := by
  intro c hc
  rw [h c hc]
  decide

/-! ## Words -/

/-- Neither a mark nor a quote goes on with a word. -/
theorem rawHashes?_of_word (hall : ∀ a ∈ tail, isWordPart a = true) (hrest : EndsLexeme rest) :
    rawHashes? (tail ++ rest) = none := by
  cases tail with
  | nil =>
    cases rest with
    | nil => rfl
    | cons a more =>
      obtain rfl := hrest a rfl
      rfl
  | cons a tail => exact rawHashes?_of_isWordPart (hall a List.mem_cons_self)

theorem scanLetter_word (hall : ∀ a ∈ tail, isWordPart a = true) (hrest : EndsLexeme rest) :
    scanLetter .rust c (tail ++ rest) = scanWord c (tail ++ rest) := by
  by_cases hr : c = 'r'
  · subst hr
    rw [scanLetter_r, rawOrName, rawHashes?_of_word hall hrest]
    rfl
  by_cases hb : c = 'b'
  case neg => rw [scanLetter_plain fun h => h.2.elim hr hb]
  subst hb
  cases tail with
  | nil =>
    refine scanLetter_b ?_ ?_ <;>
    · intro h
      exact absurd (hrest _ h) (by decide)
  | cons a tail =>
    obtain ⟨ha, htail⟩ := List.forall_mem_cons.1 hall
    by_cases hr : a = 'r'
    · subst hr
      rw [List.cons_append, scanLetter_br, rawOrName, rawHashes?_of_word htail hrest]
      rfl
    · have hquote : a ≠ '"' := ne_of_test ha rfl
      exact scanLetter_b (by simpa using hr) (by simpa using hquote)

theorem scan_word (hc : isWordStart c = true) (hall : ∀ a ∈ tail, isWordPart a = true)
    (hrest : EndsLexeme rest) : scan .rust fresh c (tail ++ rest)
      = .ok (.token (.identifier (.ofList (c :: tail))), tail.length) := by
  have hpart : isWordPart c = true := isWordPart_of_isWordStart hc
  rw [scan_of_isWordPart hpart, scanToken_of_isWordPart hpart, if_pos hc, scanLetter_word hall hrest]
  exact scanWord_eq_ok_iff.2 ⟨rfl, hall, hrest.endsWord⟩

/-! ## Behind a quote -/

theorem scan_lifetime (hc : isWordStart c = true) (hall : ∀ a ∈ tail, isWordPart a = true)
    (hrest : EndsLexeme rest) : scan .rust fresh '\'' (c :: tail ++ rest)
      = .ok (.token (.lifetime (.ofList (c :: tail))), (c :: tail).length) := by
  have hsecond : (tail ++ rest).head? ≠ some '\'' := by
    cases tail with
    | nil =>
      intro h
      exact absurd (hrest _ h) (by decide)
    | cons a tail =>
      have ha : a ≠ '\'' := ne_of_test (hall a List.mem_cons_self) rfl
      simpa using ha
  have hword : startsLifetime .rust (c :: tail ++ rest) = true := by
    rw [List.cons_append, startsLifetime_cons, hc, bne_iff_ne.2 hsecond]
    rfl
  have hname : (c :: tail ++ rest).takeWhile isWordPart = c :: tail :=
    takeWhile_isWordPart (List.forall_mem_cons.2 ⟨isWordPart_of_isWordStart hc, hall⟩) hrest.endsWord
  show scanQuote .rust (c :: tail ++ rest) = _
  rw [scanQuote_lifetime hword, hname]

/-- What does not start like a lifetime is a character. -/
theorem scan_character (hquoted : Quoted '\'' content)
    (hword : startsLifetime .rust (content ++ ['\''] ++ rest) = false) :
    scan .rust fresh '\'' (content ++ ['\''] ++ rest)
      = .ok (.token (.character (.ofList content)), (content ++ ['\'']).length) := by
  show scanQuote .rust (content ++ ['\''] ++ rest) = _
  rw [scanQuote_character hword, scanQuoted, quoted?_append (by decide) hquoted, List.length_append]
  rfl

theorem quoted_of_forall {quote : Char} (h : ∀ a ∈ content, a ≠ quote ∧ a ≠ '\\') :
    Quoted quote content := by
  induction content with
  | nil => exact .nil
  | cons a content ih =>
    obtain ⟨⟨hquote, hback⟩, hall⟩ := List.forall_mem_cons.1 h
    exact .plain hback hquote (ih hall)

/-! ## Strings -/

theorem scan_string (hquoted : Quoted '"' content) :
    scan .rust fresh '"' (content ++ ['"'] ++ rest)
      = .ok (.token (.string (.ofList content)), (content ++ ['"']).length) := by
  show scanString .rust (content ++ ['"'] ++ rest) = _
  rw [scanString_single (by simp), scanQuoted, quoted?_append (by decide) hquoted,
    List.length_append]
  rfl

/-- Marks that stand where a quote comes do so before it. -/
theorem replicate_prefix_of_append_eq {text more back : List Char}
    (h : text ++ '"' :: more = List.replicate hashes '#' ++ back) :
    List.replicate hashes '#' <+: text := by
  induction hashes generalizing text with
  | zero => exact List.nil_prefix
  | succ hashes ih =>
    cases text with
    | nil => cases (List.cons.inj h).1
    | cons a text =>
      obtain ⟨rfl, htext⟩ := List.cons.inj h
      exact (List.prefix_cons_inj '#').2 (ih htext)

/-- The closing of a raw string starts with its only quote, so that it cannot stand half in the
content. -/
theorem unbroken_of_absent (h : ¬ '"' :: List.replicate hashes '#' <:+: content) :
    Unbroken ('"' :: List.replicate hashes '#') content := by
  induction content with
  | nil => exact .nil _
  | cons a content ih =>
    intro front back hsplit
    cases front with
    | cons b front =>
      exact ih (fun hinfix => h (List.infix_cons hinfix)) front back (List.cons.inj hsplit).2
    | nil =>
      obtain ⟨rfl, hmarks⟩ := List.cons.inj hsplit
      have hprefix := replicate_prefix_of_append_eq hmarks
      exact absurd ((List.prefix_cons_inj '"').2 hprefix).isInfix h

theorem rawHashes?_replicate (hashes : Nat) (rest : List Char) :
    rawHashes? (List.replicate hashes '#' ++ '"' :: rest) = some hashes := by
  induction hashes with
  | zero => rfl
  | succ hashes ih =>
    rw [List.replicate_succ, List.cons_append, rawHashes?_cons, if_pos rfl, ih]
    rfl

theorem Lexeme.rawOrName_marked (h : ¬ '"' :: List.replicate hashes '#' <:+: content) (c : Char)
    (more : List Char) : rawOrName c more (marked hashes content ++ rest)
      = .ok (.token (.string (.ofList content)), (more ++ marked hashes content).length) := by
  have hsplit : marked hashes content ++ rest = List.replicate hashes '#' ++ ['"']
      ++ (content ++ '"' :: List.replicate hashes '#' ++ rest) := by simp [marked]
  have hhashes : rawHashes? (marked hashes content ++ rest) = some hashes := by
    rw [hsplit, List.append_assoc]
    exact rawHashes?_replicate hashes _
  have hcontent : raw? hashes (marked hashes content ++ rest) = some content := by
    rw [hsplit, raw?_append]
    exact before?_append (by simp) (unbroken_of_absent h) rest
  have hlength : content.length + 2 * hashes + 2 = (marked hashes content).length := by
    simp [marked]
    omega
  simp only [rawOrName, hhashes, scanRaw, hcontent, Except.map, hlength, List.length_append,
    Nat.add_comm]

/-! ## Lexemes in a row -/

/-- A lexeme is one token, with what stands behind the blank left to be read. -/
theorem Lexeme.outlineFrom_written (l : Lexeme) (fresh : Bool) (hrest : EndsLexeme rest) :
    ∃ startsLine, outlineFrom .rust fresh (l.written ++ rest)
      = (⟨l.kind, startsLine⟩ :: ·) <$> outlineFrom .rust false rest := by
  -- It is enough that one segment is found, perhaps behind the letter of a byte string.
  have hone : ∀ {kind : Kind} {fresh : Bool} {c : Char} {tail rest : List Char},
      scan .rust fresh c (tail ++ rest) = .ok (.token kind, tail.length) →
      ∃ startsLine, outlineFrom .rust fresh (c :: tail ++ rest)
        = (⟨kind, startsLine⟩ :: ·) <$> outlineFrom .rust false rest := fun hscan =>
    ⟨_, outlineFrom_of_scan hscan⟩
  cases l with
  | identifier name h =>
    obtain ⟨c, tail, rfl, hc, hall⟩ := h
    exact hone (scan_word hc hall hrest)
  | lifetime name h =>
    obtain ⟨c, tail, rfl, hc, hall⟩ := h
    exact hone (scan_lifetime hc hall hrest)
  | character c hquote hback =>
    have hword : startsLifetime .rust ([c] ++ ['\''] ++ rest) = false := by
      simp [startsLifetime_cons]
    exact hone (scan_character (.plain hback hquote .nil) hword)
  | escape c more h =>
    have hword : startsLifetime .rust ('\\' :: c :: more ++ ['\''] ++ rest) = false := rfl
    exact hone (scan_character (.escape c (quoted_of_forall h)) hword)
  | string byte content h =>
    cases byte with
    | false => exact hone (scan_string h)
    | true =>
      have hletter : scan .rust fresh 'b' ([] ++ ('"' :: content ++ ['"'] ++ rest))
          = .ok (.bytePrefix, 0) := rfl
      have hskip := outlineFrom_of_skipped (by simp) hletter
      obtain ⟨startsLine, hstring⟩ := hone (scan_string h)
      exact ⟨startsLine, hskip.trans hstring⟩
  | raw byte hashes content h =>
    cases byte with
    | false => exact hone ((scanLetter_r _).trans (rawOrName_marked h 'r' []))
    | true => exact hone (rawOrName_marked h 'b' ['r'])

theorem Lexeme.outlineFrom_text (fresh : Bool) (lexemes : List Lexeme) :
    ∃ outlines, outlineFrom .rust fresh (text lexemes) = .ok outlines ∧
      outlines.map Outline.kind = lexemes.map kind := by
  induction lexemes generalizing fresh with
  | nil => exact ⟨[], rfl, rfl⟩
  | cons l lexemes ih =>
    -- Behind the lexeme the text ends, or a blank stands before the next one.
    obtain ⟨rest, htext, hrest, hsame⟩ : ∃ rest, text (l :: lexemes) = l.written ++ rest ∧
        EndsLexeme rest ∧ outlineFrom .rust false rest = outlineFrom .rust false (text lexemes) := by
      cases lexemes with
      | nil => exact ⟨[], by simp [text], nofun, rfl⟩
      | cons next lexemes =>
        refine ⟨' ' :: text (next :: lexemes), by simp [text], ?_, outlineFrom_blank rfl⟩
        intro c hc
        exact (Option.some.inj hc).symm
    obtain ⟨startsLine, hfirst⟩ := l.outlineFrom_written fresh hrest
    obtain ⟨outlines, hread, hkinds⟩ := ih false
    refine ⟨⟨l.kind, startsLine⟩ :: outlines, ?_, congrArg (l.kind :: ·) hkinds⟩
    rw [htext, hfirst, hsame, hread]
    rfl

end

/-- Lexemes with single blanks between them are read as these lexemes, each with its content. -/
theorem tokenize_lexemes (lexemes : List Lexeme) :
    ∃ tokens, tokenize .rust (.ofList (Lexeme.text lexemes)) = .ok tokens ∧
      tokens.map Token.kind = lexemes.map Lexeme.kind := by
  obtain ⟨outlines, hread, hkinds⟩ := Lexeme.outlineFrom_text true lexemes
  obtain ⟨tokens, htokens, rfl⟩ := exists_of_outline
    (show outline .rust (.ofList (Lexeme.text lexemes)) = .ok outlines by
      rw [outline_eq, String.toList_ofList, hread])
  rw [List.map_map] at hkinds
  exact ⟨tokens, htokens, hkinds⟩

end ForeignModule
