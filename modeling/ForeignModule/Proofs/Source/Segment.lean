import ForeignModule.Proofs.Bounds.ScannerTokens
import ForeignModule.Proofs.Source.Grammar

/-!
# Every segment is in the grammar

What is found at a character is a token in its spelling, a text that no token comes from, or
something that is never closed (`scan_scanned`). There is one lemma for each function that finds
something, and `Scanned` is what all of them say.
-/

namespace ForeignModule.Source

open Token

/-- What has been found at the start of the text is in the grammar. -/
inductive Scanned (first : Prop) (d : Dialect) (text : List Char) :
    Except Unclosed Reach → Prop where
  | token {kind : Kind} {word more : List Char} {n : Nat} (split : text = word ++ more)
      (length : word.length = n + 1) (h : Spelling d kind word) :
      Scanned first d text (.ok (.token kind, n))
  | skipped {role : Role} {word more : List Char} {n : Nat} (hrole : ∀ kind, role ≠ .token kind)
      (split : text = word ++ more) (length : word.length = n + 1)
      (h : Skipped first d word more) : Scanned first d text (.ok (role, n))
  | unclosed {what : Unclosed} (h : LeftOpen d what text) : Scanned first d text (.error what)

section

variable {first : Prop} {d : Dialect} {c quote : Char} {n : Nat}
  {rest inner content opening closing : List Char}

/-! ## Literals -/

/-- A literal in quotes, of whatever kind. -/
theorem scanQuoted_scanned {delimited : Delimited} {kind : String → Kind}
    (form : Form d delimited [quote] (Quoted quote) [quote]) (hquote : quote ≠ '\\')
    (hspell : ∀ content, Quoted quote content →
      Spelling d (kind (.ofList content)) ([quote] ++ content ++ [quote])) :
    Scanned first d (quote :: rest) (scanQuoted quote delimited.unclosed kind rest) := by
  unfold scanQuoted
  cases h : quoted? quote rest with
  | some content =>
    obtain ⟨hquoted, more, rfl⟩ := quoted?_eq_some h
    have hsplit : quote :: (content ++ [quote] ++ more)
        = [quote] ++ content ++ [quote] ++ more := by simp
    exact .token hsplit (by simp) (hspell content hquoted)
  | none =>
    refine .unclosed ⟨delimited, [quote], _, [quote], rest, form, rfl, rfl, ?_⟩
    rintro content more hcontent rfl
    rw [quoted?_append hquote hcontent] at h
    cases h

theorem scanned_of_before? (form : Form d .string opening (Unbroken closing) closing)
    (h : Text.before? closing inner = some content)
    (hn : opening.length + content.length + closing.length = n + 1) :
    Scanned first d (opening ++ inner) (.ok (.token (.string (.ofList content)), n)) := by
  obtain ⟨hunbroken, more, rfl⟩ := before?_eq_some h
  have hsplit : opening ++ (content ++ closing ++ more)
      = opening ++ content ++ closing ++ more := by simp
  exact .token hsplit (by simpa [Nat.add_assoc] using hn) (.string form hunbroken)

theorem scanned_of_before?_eq_none (form : Form d .string opening (Unbroken closing) closing)
    (hne : closing ≠ []) (h : Text.before? closing inner = none) :
    Scanned first d (opening ++ inner) (.error .string) := by
  refine .unclosed ⟨.string, opening, _, closing, inner, form, rfl, rfl, ?_⟩
  rintro content more hcontent rfl
  rw [before?_append hne hcontent] at h
  cases h

theorem scanString_scanned : Scanned first d ('"' :: rest) (scanString d rest) := by
  unfold scanString
  split
  · rename_i inner
    cases h : Text.before? ['"', '"', '"'] inner with
    | some content => exact scanned_of_before? .triple h (by simp; omega)
    | none => exact scanned_of_before?_eq_none .triple (by simp) h
  · exact scanQuoted_scanned (.string d) (by decide) fun content h => .string (.string d) h

/-- The marks of a raw string stand between its letters and its quote. -/
theorem eq_of_rawHashes? {hashes : Nat} (h : rawHashes? rest = some hashes) :
    ∃ inner, rest = List.replicate hashes '#' ++ ['"'] ++ inner := by
  simp only [rawHashes?] at h
  split at h
  · rename_i hquote
    cases h
    obtain ⟨inner, hinner⟩ := List.head?_eq_some_iff.1 hquote
    refine ⟨inner, ?_⟩
    rw [List.append_assoc, List.singleton_append, ← hinner]
    exact Bounds.Scanner.hashes_eq rest
  · cases h

/-- The content of a raw string starts behind the marks and the quote. -/
theorem raw?_append (hashes : Nat) (inner : List Char) :
    raw? hashes (List.replicate hashes '#' ++ ['"'] ++ inner)
      = Text.before? ('"' :: List.replicate hashes '#') inner := by
  rw [raw?, List.drop_left' (by simp)]

/-- A raw string, which perhaps starts with the letter of a byte string. -/
theorem raw_scanned {letters : List Char} {hashes : Nat}
    (hletters : letters = ['r'] ∨ letters = ['b', 'r']) (h : rawHashes? rest = some hashes) :
    Scanned first .rust (letters ++ rest)
      ((scanRaw hashes rest).map fun (role, n) => (role, n + (letters.length - 1))) := by
  obtain ⟨inner, rfl⟩ := eq_of_rawHashes? h
  have hpos : 1 ≤ letters.length := by
    rcases hletters with rfl | rfl <;> simp
  have hsplit : letters ++ (List.replicate hashes '#' ++ ['"'] ++ inner)
      = letters ++ List.replicate hashes '#' ++ ['"'] ++ inner := by simp
  unfold scanRaw
  rw [raw?_append, hsplit]
  cases hfound : Text.before? ('"' :: List.replicate hashes '#') inner with
  | some content =>
    refine scanned_of_before? (.raw hletters hashes) hfound ?_
    simp
    omega
  | none => exact scanned_of_before?_eq_none (.raw hletters hashes) (by simp) hfound

/-! ## Words, numbers and signs -/

theorem isWord_cons (hc : isWordStart c = true) : IsWord (c :: rest.takeWhile isWordPart) :=
  ⟨c, _, rfl, hc, fun a ha => List.all_eq_true.1 List.all_takeWhile a ha⟩

theorem scanWord_scanned (hc : isWordStart c = true) :
    Scanned first d (c :: rest) (scanWord c rest) :=
  .token (by rw [List.cons_append, List.takeWhile_append_dropWhile]) (by simp)
    (.word (isWord_cons hc))

theorem scanQuote_scanned : Scanned first d ('\'' :: rest) (scanQuote d rest) := by
  unfold scanQuote
  split
  · rename_i hword
    simp only [Bool.and_eq_true, beq_iff_eq] at hword
    obtain ⟨⟨rfl, hstart⟩, -⟩ := hword
    obtain ⟨a, tail, rfl, ha⟩ : ∃ a tail, rest = a :: tail ∧ isWordStart a = true := by
      cases rest with
      | nil => cases hstart
      | cons a tail => exact ⟨a, tail, rfl, hstart⟩
    have hname : (a :: tail).takeWhile isWordPart = a :: tail.takeWhile isWordPart :=
      List.takeWhile_cons_of_pos (isWordPart_of_isWordStart ha)
    rw [hname]
    exact .token (by rw [List.cons_append, List.cons_append, List.takeWhile_append_dropWhile])
      (by simp) (.lifetime (isWord_cons ha))
  · exact scanQuoted_scanned (.character d) (by decide) fun content h =>
      .character (.character d) h

theorem length_numberLength (d : Dialect) (rest : List Char) :
    (rest.take (numberLength d rest)).length = numberLength d rest := by
  rw [List.length_take, Nat.min_eq_left]
  induction rest with
  | nil => exact Nat.le_refl 0
  | cons c rest ih =>
    unfold numberLength
    split
    · exact Nat.succ_le_succ ih
    · exact Nat.zero_le _

theorem scanNumber_scanned (hc : c.isDigit = true) :
    Scanned first d (c :: rest) (scanNumber d c rest) :=
  .token (by rw [List.cons_append, List.take_append_drop])
    (by rw [List.length_cons, length_numberLength])
    (.number (scanNumber_givesLexical hc _ _ rfl))

theorem sign_scanned {kind : Kind} (word : List Char) (hkind : IsSign kind)
    (htext : kind.text.toList = word) (hn : word.length = n + 1) :
    Scanned first d (word ++ rest) (.ok (.token kind, n)) := by
  subst htext
  exact .token rfl hn (.sign hkind)

theorem single_scanned {kind : Kind} (hkind : IsSign kind) (htext : kind.text.toList = [c]) :
    Scanned first d (c :: rest) (single kind) :=
  sign_scanned [c] hkind htext rfl

theorem scanLetter_scanned (hc : isWordStart c = true) :
    Scanned first d (c :: rest) (scanLetter d c rest) := by
  unfold scanLetter
  split
  · split
    · rename_i hashes hfound
      have hsame : (scanRaw hashes rest).map (fun (role, n) => (role, n + 0))
          = scanRaw hashes rest := by
        cases scanRaw hashes rest <;> rfl
      exact hsame ▸ raw_scanned (.inl rfl) hfound
    · exact scanWord_scanned hc
  · split
    · rename_i hashes hfound
      exact raw_scanned (.inr rfl) hfound
    · exact scanWord_scanned hc
  · exact .skipped nofun rfl rfl .bytePrefix
  · exact scanWord_scanned hc

theorem scanToken_scanned : Scanned first d (c :: rest) (scanToken d c rest) := by
  unfold scanToken
  split
  -- A colon and a minus are signs by themselves or with the next character. Behind them come the
  -- quotes and everything that is told by a class of characters; what is left are single signs.
  case h_17 =>
    split
    · rename_i h
      obtain ⟨more, rfl⟩ := List.head?_eq_some_iff.1 h
      exact sign_scanned [':', ':'] trivial (by decide) rfl
    · exact single_scanned trivial (by decide)
  case h_18 =>
    split
    · rename_i h
      obtain ⟨more, rfl⟩ := List.head?_eq_some_iff.1 h
      exact sign_scanned ['-', '>'] trivial (by decide) rfl
    · exact single_scanned trivial (by decide)
  case h_19 => exact scanString_scanned
  case h_20 => exact scanQuote_scanned
  case h_21 =>
    split
    · rename_i h
      simp only [Bool.and_eq_true, beq_iff_eq] at h
      obtain ⟨rfl, rfl⟩ := h
      exact scanQuoted_scanned .name (by decide) fun name h => .name .name h
    · split
      · rename_i hstart
        exact scanLetter_scanned hstart
      · split
        · rename_i hdigit
          exact scanNumber_scanned hdigit
        · exact single_scanned trivial (String.toList_singleton c)
  all_goals exact single_scanned trivial (by decide)

/-! ## Segments -/

theorem blank_scanned (hc : isBlank c = true) :
    Scanned first d (c :: rest) (.ok (.blank, (rest.takeWhile isBlank).length)) := by
  have hsplit : c :: rest = (c :: rest.takeWhile isBlank) ++ rest.dropWhile isBlank := by
    rw [List.cons_append, List.takeWhile_append_dropWhile]
  refine .skipped nofun hsplit rfl (.blank fun a ha => ?_)
  rcases List.mem_cons.1 ha with rfl | ha
  · exact hc
  · exact List.all_eq_true.1 List.all_takeWhile a ha

theorem lineComment_scanned : Scanned first d ('/' :: '/' :: rest)
    (.ok (.lineComment, (('/' :: rest).takeWhile (!endsLine ·)).length)) := by
  have hslash : ('/' :: rest).takeWhile (!endsLine ·) = '/' :: rest.takeWhile (!endsLine ·) :=
    List.takeWhile_cons_of_pos (by decide)
  have hsplit : '/' :: '/' :: rest
      = ('/' :: '/' :: rest.takeWhile (!endsLine ·)) ++ rest.dropWhile (!endsLine ·) := by
    rw [List.cons_append, List.cons_append, List.takeWhile_append_dropWhile]
  rw [hslash]
  refine .skipped nofun hsplit rfl (.lineComment (fun a ha => ?_) fun a ha => ?_)
  · simpa using List.all_eq_true.1 List.all_takeWhile a ha
  · have hnot := List.head?_dropWhile_not (!endsLine ·) rest
    rw [Option.mem_def.1 ha] at hnot
    simpa using hnot

theorem blockComment_scanned : Scanned first d ('/' :: '*' :: rest)
    (match commentLength? (d != .c) 0 rest with
      | some length => .ok (.blockComment, length + 1)
      | none => .error .comment) := by
  cases h : commentLength? (d != .c) 0 rest with
  | some n =>
    obtain ⟨text, more, rfl, rfl, hcloses⟩ := commentLength?_eq_some h
    obtain ⟨content, rfl⟩ := hcloses.exists_content
    have hsplit : '/' :: '*' :: (content ++ ['*', '/'] ++ more)
        = ['/', '*'] ++ content ++ ['*', '/'] ++ more := by simp
    exact .skipped nofun hsplit (by simp) (.blockComment (.comment d) hcloses)
  | none =>
    refine .unclosed ⟨.comment, ['/', '*'], _, ['*', '/'], rest, .comment d, rfl, rfl, ?_⟩
    rintro content more hcontent rfl
    rw [commentLength?_append hcontent] at h
    cases h

theorem directive_scanned (hfirst : first) :
    Scanned first .c ('#' :: rest) (.ok (.directive, directiveLength rest)) := by
  obtain ⟨text, more, rfl, hlength, hline⟩ := exists_directiveLine rest
  rw [← hlength]
  exact .skipped nofun rfl rfl (.directive hfirst hline)

/-- Whatever is found at a character is in the grammar. -/
theorem scan_scanned (d : Dialect) (fresh : Bool) (c : Char) (rest : List Char) :
    Scanned (fresh = true) d (c :: rest) (scan d fresh c rest) := by
  unfold scan
  split
  · rename_i hblank
    exact blank_scanned hblank
  · split
    · rename_i h
      simp only [Bool.and_eq_true, beq_iff_eq] at h
      obtain ⟨rfl, hhead⟩ := h
      obtain ⟨more, rfl⟩ := List.head?_eq_some_iff.1 hhead
      exact lineComment_scanned
    · split
      · rename_i h
        simp only [Bool.and_eq_true, beq_iff_eq] at h
        obtain ⟨rfl, hhead⟩ := h
        obtain ⟨more, rfl⟩ := List.head?_eq_some_iff.1 hhead
        exact blockComment_scanned
      · split
        · rename_i h
          simp only [Bool.and_eq_true, beq_iff_eq] at h
          obtain ⟨⟨rfl, rfl⟩, hfresh⟩ := h
          exact directive_scanned hfresh
        · exact scanToken_scanned

end

end ForeignModule.Source
