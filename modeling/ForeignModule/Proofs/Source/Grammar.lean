import ForeignModule.Proofs.Bounds.ScannerLoops
import ForeignModule.Proofs.Token.Listing

/-!
# What a source text is made of

The spelling of every kind of token, and what may lie between tokens, as a grammar of its own: it
does without the functions that cut a text.

* `Form`: what literals and block comments open and close with, and what may stand between that;
* `Spelling`: the texts that spell a token;
* `Skipped`: the texts that no token comes from;
* `LeftOpen`: a text that opens a literal or a comment which nothing closes.
-/

namespace ForeignModule.Source

/-! ## Literals and comments -/

/-- The content of a literal in quotes: a backslash takes the next character with it, and no
further quote stands in it. -/
inductive Quoted (quote : Char) : List Char → Prop where
  | nil : Quoted quote []
  | escape (c : Char) {content : List Char} (h : Quoted quote content) :
      Quoted quote ('\\' :: c :: content)
  | plain {c : Char} {content : List Char} (hc : c ≠ '\\') (hquote : c ≠ quote)
      (h : Quoted quote content) : Quoted quote (c :: content)

/-- Behind this content, and nowhere before, stands the closing. -/
def Unbroken (closing content : List Char) : Prop :=
  ∀ front back, content ++ closing = front ++ closing ++ back → back = []

/-- The text closes a comment inside of which `depth` comments are open. Where comments do not
nest, none is opened inside. -/
inductive Closes (nests : Bool) : Nat → List Char → Prop where
  | last : Closes nests 0 ['*', '/']
  | close {depth : Nat} {text : List Char} (h : Closes nests depth text) :
      Closes nests (depth + 1) ('*' :: '/' :: text)
  | opening {depth : Nat} {text : List Char} (hn : nests = true)
      (h : Closes nests (depth + 1) text) : Closes nests depth ('/' :: '*' :: text)
  | other {depth : Nat} {c : Char} {text : List Char} (hc : ¬(c = '*' ∧ text.head? = some '/'))
      (ho : ¬(nests = true ∧ c = '/' ∧ text.head? = some '*')) (h : Closes nests depth text) :
      Closes nests depth (c :: text)

/-- What has an opening and a closing. -/
inductive Delimited where
  | string
  /-- A name between backticks. -/
  | name
  | character
  | comment

/-- What is missing when the closing is. -/
def Delimited.unclosed : Delimited → Unclosed
  | string | name => .string
  | character => .character
  | comment => .comment

/-- The opening, the content and the closing of what is delimited. -/
inductive Form : Dialect → Delimited → List Char → (List Char → Prop) → List Char → Prop where
  | string (d : Dialect) : Form d .string ['"'] (Quoted '"') ['"']
  | triple : Form .kotlin .string ['"', '"', '"'] (Unbroken ['"', '"', '"']) ['"', '"', '"']
  | raw {letters : List Char} (hletters : letters = ['r'] ∨ letters = ['b', 'r']) (hashes : Nat) :
      Form .rust .string (letters ++ List.replicate hashes '#' ++ ['"'])
        (Unbroken ('"' :: List.replicate hashes '#')) ('"' :: List.replicate hashes '#')
  | name : Form .kotlin .name ['\x60'] (Quoted '\x60') ['\x60']
  | character (d : Dialect) : Form d .character ['\''] (Quoted '\'') ['\'']
  | comment (d : Dialect) : Form d .comment ['/', '*']
      (fun content => Closes (d != .c) 0 (content ++ ['*', '/'])) ['*', '/']

/-- The text opens something that nothing closes. -/
def LeftOpen (d : Dialect) (what : Unclosed) (text : List Char) : Prop :=
  ∃ delimited opening Content closing rest, Form d delimited opening Content closing ∧
    delimited.unclosed = what ∧ text = opening ++ rest ∧
    ∀ content more, Content content → rest ≠ content ++ closing ++ more

/-! ## Tokens -/

/-- A letter, and then letters and digits. -/
def IsWord (text : List Char) : Prop :=
  ∃ c rest, text = c :: rest ∧ isWordStart c = true ∧ ∀ a ∈ rest, isWordPart a = true

/-- The kinds that fix their spelling. -/
def IsSign : Token.Kind → Prop
  | .identifier _ | .number _ | .string _ | .character _ | .lifetime _ => False
  | _ => True

/-- The texts that spell a token. What the token holds is the text itself, without the quote of a
lifetime and without what delimits a literal. -/
inductive Spelling : Dialect → Token.Kind → List Char → Prop where
  | word {d : Dialect} {name : List Char} (h : IsWord name) :
      Spelling d (.identifier (.ofList name)) name
  | name {d : Dialect} {opening name closing : List Char} {Content : List Char → Prop}
      (form : Form d .name opening Content closing) (h : Content name) :
      Spelling d (.identifier (.ofList name)) (opening ++ name ++ closing)
  | number {d : Dialect} {text : List Char} (h : (Token.Kind.number (.ofList text)).Lexical) :
      Spelling d (.number (.ofList text)) text
  | lifetime {name : List Char} (h : IsWord name) :
      Spelling .rust (.lifetime (.ofList name)) ('\'' :: name)
  | string {d : Dialect} {opening content closing : List Char} {Content : List Char → Prop}
      (form : Form d .string opening Content closing) (h : Content content) :
      Spelling d (.string (.ofList content)) (opening ++ content ++ closing)
  | character {d : Dialect} {opening content closing : List Char} {Content : List Char → Prop}
      (form : Form d .character opening Content closing) (h : Content content) :
      Spelling d (.character (.ofList content)) (opening ++ content ++ closing)
  | sign {d : Dialect} {kind : Token.Kind} (h : IsSign kind) : Spelling d kind kind.text.toList

/-! ## Between tokens -/

/-- The rest of a preprocessor line that ends before `rest`. A backslash before a line end, which
may be one of two characters, carries it on. -/
inductive DirectiveLine (rest : List Char) : List Char → Prop where
  | nil (hend : ∀ c ∈ rest.head?, endsLine c = true) : DirectiveLine rest []
  | continued {c : Char} {stride text : List Char} (hc : endsLine c = true)
      (hu : Bounds.Stride (c :: stride) (text ++ rest)) (h : DirectiveLine rest text) :
      DirectiveLine rest ('\\' :: (c :: stride ++ text))
  | plain {c : Char} {text : List Char} (hc : endsLine c = false)
      (hback : c = '\\' → ∀ a ∈ (text ++ rest).head?, endsLine a = false)
      (h : DirectiveLine rest text) : DirectiveLine rest (c :: text)

/-- The texts that no token comes from, with what follows. A preprocessor line has to be the first
on its line. -/
inductive Skipped (first : Prop) : Dialect → List Char → List Char → Prop where
  | blank {d : Dialect} {text rest : List Char} (h : ∀ c ∈ text, isBlank c = true) :
      Skipped first d text rest
  | lineComment {d : Dialect} {text rest : List Char} (h : ∀ c ∈ text, endsLine c = false)
      (hend : ∀ c ∈ rest.head?, endsLine c = true) : Skipped first d ('/' :: '/' :: text) rest
  | blockComment {d : Dialect} {opening content closing rest : List Char}
      {Content : List Char → Prop} (form : Form d .comment opening Content closing)
      (h : Content content) : Skipped first d (opening ++ content ++ closing) rest
  | directive {text rest : List Char} (hfirst : first) (h : DirectiveLine rest text) :
      Skipped first .c ('#' :: text) rest
  | bytePrefix {rest : List Char} : Skipped first .rust ['b'] ('"' :: rest)

theorem Skipped.mono {first first' : Prop} {d : Dialect} {text rest : List Char}
    (himp : first → first') (h : Skipped first d text rest) : Skipped first' d text rest := by
  cases h with
  | blank h => exact .blank h
  | lineComment h hend => exact .lineComment h hend
  | blockComment form h => exact .blockComment form h
  | directive hfirst h => exact .directive (himp hfirst) h
  | bytePrefix => exact .bytePrefix

/-! ## Reading the grammar -/

section Literals

variable {quote : Char} {content rest more closing : List Char}

theorem quoted?_cons_of_ne {c : Char} (hc : c ≠ '\\') :
    quoted? quote (c :: rest)
      = if c = quote then some [] else (quoted? quote rest).map (c :: ·) := by
  rw [quoted?]
  · rintro rfl
    exact absurd rfl hc
  · rintro _ _ rfl
    exact absurd rfl hc

/-- A literal in quotes ends at its first closing quote. -/
theorem quoted?_eq_some (h : quoted? quote rest = some content) :
    Quoted quote content ∧ ∃ more, rest = content ++ [quote] ++ more := by
  -- The cases of `quoted?`: nothing is left, a backslash ends the text, an escape, the closing
  -- quote, any other character.
  induction rest using quoted?.induct quote generalizing content with
  | case1 => cases h
  | case2 => cases h
  | case3 c rest ih =>
    rw [quoted?, Option.map_eq_some_iff] at h
    obtain ⟨inner, hinner, rfl⟩ := h
    obtain ⟨hquoted, more, rfl⟩ := ih hinner
    exact ⟨.escape c hquoted, more, rfl⟩
  | case4 rest hsingle hescape =>
    have hq : quote ≠ '\\' := by
      rintro rfl
      cases rest with
      | nil => exact hsingle rfl rfl
      | cons a more => exact hescape a more rfl rfl
    rw [quoted?_cons_of_ne hq, if_pos rfl] at h
    cases h
    exact ⟨.nil, rest, rfl⟩
  | case5 c rest hsingle hescape hquote ih =>
    have hc : c ≠ '\\' := by
      rintro rfl
      cases rest with
      | nil => exact hsingle rfl rfl
      | cons a more => exact hescape a more rfl rfl
    rw [quoted?_cons_of_ne hc, if_neg hquote, Option.map_eq_some_iff] at h
    obtain ⟨inner, hinner, rfl⟩ := h
    obtain ⟨hquoted, more, rfl⟩ := ih hinner
    exact ⟨.plain hc hquote hquoted, more, rfl⟩

theorem quoted?_append (hq : quote ≠ '\\') (h : Quoted quote content) (more : List Char) :
    quoted? quote (content ++ [quote] ++ more) = some content := by
  induction h with
  | nil => rw [List.nil_append, List.singleton_append, quoted?_cons_of_ne hq, if_pos rfl]
  | escape c h ih =>
    rw [List.cons_append, List.cons_append, List.cons_append, List.cons_append, quoted?, ih]
    rfl
  | plain hc hquote h ih =>
    rw [List.cons_append, List.cons_append, quoted?_cons_of_ne hc, if_neg hquote, ih]
    rfl

theorem Unbroken.nil (closing : List Char) : Unbroken closing [] := by
  intro front back h
  have hlength := congrArg List.length h
  rw [List.nil_append, List.length_append, List.length_append] at hlength
  exact List.length_eq_zero_iff.1 (by omega)

theorem Unbroken.tail {c : Char} (h : Unbroken closing (c :: content)) :
    Unbroken closing content := by
  intro front back hsplit
  exact h (c :: front) back (by rw [List.cons_append, hsplit]; rfl)

/-- The first closing is the one that counts. -/
theorem before?_eq_some (h : Text.before? closing rest = some content) :
    Unbroken closing content ∧ ∃ more, rest = content ++ closing ++ more := by
  induction rest generalizing content with
  | nil => cases h
  | cons c rest ih =>
    rw [Text.before?] at h
    split at h
    · rename_i hprefix
      cases h
      obtain ⟨more, hmore⟩ := List.isPrefixOf_iff_prefix.1 hprefix
      exact ⟨.nil closing, more, hmore.symm⟩
    · rename_i hprefix
      rw [Option.map_eq_some_iff] at h
      obtain ⟨inner, hinner, rfl⟩ := h
      obtain ⟨hunbroken, more, rfl⟩ := ih hinner
      refine ⟨?_, more, rfl⟩
      intro front back hsplit
      cases front with
      | nil =>
        -- The closing would stand at the start already.
        refine absurd (List.isPrefixOf_iff_prefix.2 ⟨back ++ more, ?_⟩) hprefix
        rw [← List.append_assoc, ← List.nil_append closing, ← hsplit]
        rfl
      | cons a front => exact hunbroken front back (List.cons.inj hsplit).2

theorem before?_append (hne : closing ≠ []) (h : Unbroken closing content) (more : List Char) :
    Text.before? closing (content ++ closing ++ more) = some content := by
  induction content with
  | nil =>
    obtain ⟨c, tail, rfl⟩ := List.exists_cons_of_ne_nil hne
    have hprefix : (c :: tail).isPrefixOf (c :: (tail ++ more)) = true :=
      List.isPrefixOf_iff_prefix.2 ⟨more, rfl⟩
    rw [List.nil_append, List.cons_append, Text.before?, if_pos hprefix]
  | cons c content ih =>
    -- A closing that stands here already would break the content.
    have hprefix : ¬ closing.isPrefixOf (c :: (content ++ closing ++ more)) = true := by
      intro hp
      have hshort : closing <+: c :: (content ++ closing) := by
        refine List.prefix_of_prefix_length_le (List.isPrefixOf_iff_prefix.1 hp)
          ⟨more, rfl⟩ ?_
        rw [List.length_cons, List.length_append]
        omega
      obtain ⟨back, hback⟩ := hshort
      obtain rfl : back = [] := h [] back hback.symm
      have hlength := congrArg List.length hback
      rw [List.append_nil, List.length_cons, List.length_append] at hlength
      omega
    rw [List.cons_append, List.cons_append, Text.before?, if_neg hprefix, ih h.tail]
    rfl

end Literals

section Comments

variable {nests : Bool} {depth n : Nat} {text rest : List Char}

/-- The end of a comment is the end of what closes it. -/
theorem Closes.exists_content (h : Closes nests depth text) :
    ∃ content, text = content ++ ['*', '/'] := by
  induction h with
  | last => exact ⟨[], rfl⟩
  | close _ ih =>
    obtain ⟨content, rfl⟩ := ih
    exact ⟨'*' :: '/' :: content, rfl⟩
  | opening _ _ ih =>
    obtain ⟨content, rfl⟩ := ih
    exact ⟨'/' :: '*' :: content, rfl⟩
  | @other _ c _ _ _ _ ih =>
    obtain ⟨content, rfl⟩ := ih
    exact ⟨c :: content, rfl⟩

theorem commentLength?_cons_cons {a b : Char} : commentLength? nests depth (a :: b :: rest) =
    if nests && a == '/' && b == '*' then (commentLength? nests (depth + 1) rest).map (· + 2)
    else if a == '*' && b == '/' then
      match depth with
      | 0 => some 2
      | depth + 1 => (commentLength? nests depth rest).map (· + 2)
    else (commentLength? nests depth (b :: rest)).map (· + 1) := by
  cases depth <;> simp [commentLength?]

/-- A comment ends where the last comment that is open in it is closed. -/
theorem commentLength?_eq_some (h : commentLength? nests depth rest = some n) :
    ∃ text more, rest = text ++ more ∧ text.length = n ∧ Closes nests depth text := by
  -- The cases of `commentLength?`: less than two characters are left, an opening, the closing of the
  -- comment itself, the closing of one inside, any other character.
  induction depth, rest using commentLength?.induct nests generalizing n with
  | case1 => cases h
  | case2 => cases h
  | case3 depth a b rest hopen ih =>
    rw [commentLength?_cons_cons, if_pos hopen, Option.map_eq_some_iff] at h
    obtain ⟨m, hm, rfl⟩ := h
    obtain ⟨text, more, rfl, rfl, hclose⟩ := ih hm
    simp only [Bool.and_eq_true, beq_iff_eq] at hopen
    obtain ⟨⟨hn, rfl⟩, rfl⟩ := hopen
    exact ⟨'/' :: '*' :: text, more, rfl, rfl, .opening hn hclose⟩
  | case4 a b rest hopen hstop =>
    rw [commentLength?_cons_cons, if_neg hopen, if_pos hstop] at h
    cases h
    simp only [Bool.and_eq_true, beq_iff_eq] at hstop
    obtain ⟨rfl, rfl⟩ := hstop
    exact ⟨['*', '/'], rest, rfl, rfl, .last⟩
  | case5 a b rest hopen hstop depth ih =>
    rw [commentLength?_cons_cons, if_neg hopen, if_pos hstop] at h
    simp only [Option.map_eq_some_iff] at h
    obtain ⟨m, hm, rfl⟩ := h
    obtain ⟨text, more, rfl, rfl, hclose⟩ := ih hm
    simp only [Bool.and_eq_true, beq_iff_eq] at hstop
    obtain ⟨rfl, rfl⟩ := hstop
    exact ⟨'*' :: '/' :: text, more, rfl, rfl, .close hclose⟩
  | case6 depth a b rest hopen hstop ih =>
    rw [commentLength?_cons_cons, if_neg hopen, if_neg hstop, Option.map_eq_some_iff] at h
    obtain ⟨m, hm, rfl⟩ := h
    obtain ⟨text, more, hsplit, rfl, hclose⟩ := ih hm
    -- The rest of the comment is not empty, so that it starts with the second character.
    obtain ⟨c, text, rfl⟩ : ∃ c tail, text = c :: tail := by
      obtain ⟨content, rfl⟩ := hclose.exists_content
      exact List.exists_cons_of_ne_nil (by simp)
    obtain ⟨rfl, rfl⟩ := List.cons.inj hsplit
    refine ⟨a :: b :: text, more, rfl, rfl, .other ?_ ?_ hclose⟩
    · simpa using hstop
    · simpa [and_assoc] using hopen

theorem commentLength?_append (h : Closes nests depth text) (more : List Char) :
    commentLength? nests depth (text ++ more) = some text.length := by
  induction h with
  | last => simp [commentLength?]
  | close h ih => simp [commentLength?, ih]
  | opening hn h ih =>
    subst hn
    simp [commentLength?, ih]
  | @other depth c text hc ho h ih =>
    obtain ⟨b, tail, rfl⟩ : ∃ b tail, text = b :: tail := by
      obtain ⟨content, rfl⟩ := h.exists_content
      exact List.exists_cons_of_ne_nil (by simp)
    have hc' : ¬(c == '*' && b == '/') = true := by simpa using hc
    have ho' : ¬(nests && c == '/' && b == '*') = true := by simpa [and_assoc] using ho
    rw [List.cons_append, List.cons_append, commentLength?_cons_cons, if_neg ho', if_neg hc',
      ← List.cons_append, ih]
    rfl

end Comments

section Directives

open Bounds.Scanner

/-- A preprocessor line ends where no backslash carries it on. -/
theorem exists_directiveLine (rest : List Char) :
    ∃ text more, rest = text ++ more ∧ text.length = directiveLength rest ∧
      DirectiveLine more text := by
  -- By the length, as a line that is carried on goes on behind a whole line end.
  induction hn : rest.length using Nat.strongRecOn generalizing rest with
  | ind _ ih =>
    subst hn
    cases rest with
    | nil => exact ⟨[], [], rfl, rfl, .nil (by simp)⟩
    | cons c rest =>
      by_cases hback : c = '\\' ∧ rest.head?.any endsLine = true
      · -- The line goes on behind the line end, be it of one character or of two.
        obtain ⟨rfl, hany⟩ := hback
        obtain ⟨a, after, rfl, ha⟩ : ∃ a after, rest = a :: after ∧ endsLine a = true := by
          cases rest with
          | nil => cases hany
          | cons a after => exact ⟨a, after, rfl, hany⟩
        obtain ⟨stride, inner, rfl, hu⟩ := Bounds.exists_stride a after
        obtain ⟨text, more, rfl, hlength, hline⟩ := ih inner.length (by simp; omega) inner rfl
        have hwhole := directiveLength_continued ha hu
        rw [List.cons_append, ← hlength] at hwhole
        refine ⟨'\\' :: (a :: stride ++ text), more, by simp, ?_, .continued ha hu hline⟩
        rw [hwhole]
        simp
        omega
      · have hsame : c = '\\' → rest.head?.any endsLine = false := fun h =>
          eq_false_of_ne_true fun hany => hback ⟨h, hany⟩
        have hlength := directiveLength_cons hsame
        cases hend : endsLine c with
        | true =>
          rw [if_pos hend] at hlength
          exact ⟨[], c :: rest, rfl, hlength.symm, .nil (by simpa using hend)⟩
        | false =>
          rw [hend] at hlength
          obtain ⟨text, more, rfl, htext, hline⟩ := ih rest.length (by simp) rest rfl
          refine ⟨c :: text, more, rfl, by simp [hlength, htext], .plain hend ?_ hline⟩
          intro hc a ha
          have hnone := hsame hc
          rw [Option.mem_def.1 ha] at hnone
          exact hnone

end Directives

end ForeignModule.Source
