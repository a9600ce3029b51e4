import ForeignModule.Proofs.Source.Boundary

/-!
# Other line endings

A text with CR LF, or CR, in place of each line feed. No search in a source text tells them apart,
as none looks for a line feed itself: each finds in the new text what it finds in the old one, in
its new form (`scan_write`). There is one lemma for each function that looks for something.
-/

namespace ForeignModule

open Bounds (Stride)
open Bounds.Scanner (quoted?_escape quoted?_stride quoted?_cons before?_stride commentLength?_stride
  newline_ne)
open Source Token

/-- The line endings other than a line feed. -/
inductive LineEnding where
  | crLf
  | cr

namespace LineEnding

/-- What follows the carriage return. -/
def more : LineEnding → List Char
  | crLf => ['\n']
  | cr => []

/-- The text with this ending in place of each line feed. -/
def write (e : LineEnding) (text : List Char) : List Char :=
  text.flatMap fun c => if c = '\n' then '\r' :: e.more else [c]

/-- The same for a string. -/
def rewrite (e : LineEnding) (s : String) : String := .ofList (e.write s.toList)

/-- The same for what a token holds. -/
def kind (e : LineEnding) : Kind → Kind
  | .identifier name => .identifier (e.rewrite name)
  | .number text => .number (e.rewrite text)
  | .string content => .string (e.rewrite content)
  | .character content => .character (e.rewrite content)
  | .lifetime name => .lifetime (e.rewrite name)
  | k => k

/-- The same for the role of a segment. -/
def role (e : LineEnding) : Role → Role
  | .token kind => .token (e.kind kind)
  | role => role

/-- The same for what is found in front of the end of a text. -/
def reach (e : LineEnding) (rest : List Char) (found : Reach) : Reach :=
  (e.role found.1, (e.write (rest.take found.2)).length)

section

variable {e : LineEnding} {d : Dialect} {c quote : Char} {p : Char → Bool} {hashes : Nat}
  {text rest closing : List Char}

@[simp] theorem write_nil : e.write [] = [] := rfl

theorem write_newline (rest : List Char) : e.write ('\n' :: rest) = '\r' :: e.more ++ e.write rest := rfl

theorem write_cons (hc : c ≠ '\n') (rest : List Char) : e.write (c :: rest) = c :: e.write rest := by
  simp [write, hc]

@[simp] theorem write_append (front back : List Char) :
    e.write (front ++ back) = e.write front ++ e.write back := List.flatMap_append

theorem write_of_notMem (h : '\n' ∉ text) : e.write text = text := by
  induction text with
  | nil => rfl
  | cons c text ih =>
    rw [List.mem_cons, not_or] at h
    rw [write_cons (Ne.symm h.1), ih h.2]

/-- The new line end is read at once. -/
theorem stride (e : LineEnding) (rest : List Char) : Stride ('\r' :: e.more) (e.write rest) := by
  cases e with
  | crLf => exact .crlf _
  | cr =>
    refine .char fun _ hhead => ?_
    have hnone : ∀ text, '\n' ∉ cr.write text := by
      intro text hmem
      obtain ⟨c, -, hc⟩ := List.mem_flatMap.1 hmem
      split at hc
      · simp [more] at hc
      · next hne => exact hne (List.mem_singleton.1 hc).symm
    exact hnone rest (List.mem_of_mem_head? hhead)

/-- What does not tell the line ends apart. -/
theorem head?_write_any (hp : p '\r' = p '\n') (rest : List Char) :
    (e.write rest).head?.any p = rest.head?.any p := by
  cases rest with
  | nil => rfl
  | cons c rest =>
    by_cases hc : c = '\n'
    · subst hc
      exact hp
    · rw [write_cons hc]
      rfl

theorem forall_head?_write {answer : Bool} (hp : p '\r' = p '\n') (rest : List Char) :
    (∀ a ∈ (e.write rest).head?, p a = answer) ↔ ∀ a ∈ rest.head?, p a = answer := by
  cases rest with
  | nil => rfl
  | cons c rest =>
    by_cases hc : c = '\n'
    · subst hc
      simp [write_newline, hp]
    · simp [write_cons hc]

theorem head?_write_eq (hc : endsLine c = false) (rest : List Char) :
    (e.write rest).head? = some c ↔ rest.head? = some c := by
  have hne : ∀ a, endsLine a = true → (a == c) = false := fun a ha =>
    beq_eq_false_iff_ne.2 (ne_of_test ha hc)
  have hsame : ('\r' == c) = ('\n' == c) := by rw [hne '\r' rfl, hne '\n' rfl]
  rw [head?_eq_some_iff_any, head?_eq_some_iff_any, head?_write_any hsame]

theorem any_write (hp : p '\r' = p '\n') (text : List Char) : (e.write text).any p = text.any p := by
  induction text with
  | nil => rfl
  | cons c text ih =>
    by_cases hc : c = '\n'
    · subst hc
      rw [write_newline]
      cases e <;> simp [more, hp, ih]
    · rw [write_cons hc, List.any_cons, List.any_cons, ih]

theorem takeWhile_write (hp : p '\r' = p '\n') (rest : List Char) :
    (e.write rest).takeWhile p = e.write (rest.takeWhile p) := by
  induction rest with
  | nil => rfl
  | cons c rest ih =>
    by_cases hc : c = '\n'
    · subst hc
      rw [write_newline]
      cases hnewline : p '\n' <;> cases e <;> simp [more, hp, hnewline, ih, write_newline]
    · rw [write_cons hc]
      cases hpc : p c <;> simp [hpc, ih, write_cons hc]

/-- No line end of two starts with another character. -/
theorem between_of_ne (hc : c ≠ '\r') (rest : List Char) : Bounds.Between [c] rest := fun hlast =>
  absurd (Option.some.inj hlast) hc

/-- A character is written as what is read at once. -/
theorem exists_write (e : LineEnding) (hc : c ≠ '\r') : ∃ a stride,
    (∀ rest, e.write (c :: rest) = a :: stride ++ e.write rest) ∧
      (∀ rest, Stride (a :: stride) (e.write rest)) ∧ (a = c ∧ stride = [] ∨ c = '\n' ∧ a = '\r') := by
  by_cases hline : c = '\n'
  · subst hline
    exact ⟨'\r', e.more, write_newline, e.stride, .inr ⟨rfl, rfl⟩⟩
  · exact ⟨c, [], write_cons hline, fun _ => .char (between_of_ne hc _), .inl ⟨rfl, rfl⟩⟩

/-- What stands in front is written by itself. -/
theorem take_write (n : Nat) (rest : List Char) :
    (e.write rest).take (e.write (rest.take n)).length = e.write (rest.take n) := by
  have hsplit : e.write rest = e.write (rest.take n) ++ e.write (rest.drop n) := by
    rw [← write_append, List.take_append_drop]
  rw [hsplit, List.take_left]

/-! ## Literals and comments -/

theorem quoted?_write (hquote : endsLine quote = false) (hback : quote ≠ '\\') (h : '\r' ∉ rest) :
    quoted? quote (e.write rest) = (quoted? quote rest).map e.write := by
  have hne : ∀ a, endsLine a = true → a ≠ quote := fun a ha => ne_of_test ha hquote
  -- The cases of `quoted?`, as when it is read.
  induction rest using quoted?.induct quote with
  | case1 => rfl
  | case2 => rfl
  | case3 c rest ih =>
    simp only [List.mem_cons, not_or] at h
    obtain ⟨a, stride, hwrite, hstride, -⟩ := e.exists_write (Ne.symm h.2.1)
    rw [write_cons (by decide), hwrite, quoted?_escape (hstride rest) hquote, ih h.2.2, quoted?,
      Option.map_map, Option.map_map]
    congr 1
    funext content
    simp [write_cons (c := '\\') (by decide), hwrite]
  | case4 rest hsingle hescape =>
    rw [write_cons (Ne.symm (hne _ rfl)), quoted?_cons_of_ne hback, quoted?_cons_of_ne hback,
      if_pos rfl, if_pos rfl]
    rfl
  | case5 c rest hsingle hescape hclose ih =>
    -- A backslash would have been one of the cases before.
    have hc : c ≠ '\\' := by
      rintro rfl
      cases rest with
      | nil => exact hsingle rfl rfl
      | cons a more => exact hescape a more rfl rfl
    simp only [List.mem_cons, not_or] at h
    obtain ⟨a, stride, hwrite, hstride, ha⟩ := e.exists_write (Ne.symm h.1)
    have ha' : a ≠ '\\' ∧ a ≠ quote := by
      rcases ha with ⟨rfl, -⟩ | ⟨-, rfl⟩
      · exact ⟨hc, hclose⟩
      · exact ⟨by decide, hne _ rfl⟩
    rw [hwrite, quoted?_stride (hstride rest) hquote ha'.1 ha'.2, ih h.2, quoted?_cons hc hclose,
      Option.map_map, Option.map_map]
    congr 1
    funext content
    simp [hwrite]

theorem isPrefixOf_write (hclosing : ∀ c ∈ closing, endsLine c = false) (rest : List Char) :
    closing.isPrefixOf (e.write rest) = closing.isPrefixOf rest := by
  induction closing generalizing rest with
  | nil => rw [List.isPrefixOf_nil_left, List.isPrefixOf_nil_left]
  | cons a closing ih =>
    obtain ⟨ha, hclosing⟩ := List.forall_mem_cons.1 hclosing
    cases rest with
    | nil => rfl
    | cons c rest =>
      by_cases hc : c = '\n'
      · subst hc
        have hne : (a == '\r') = false ∧ (a == '\n') = false := by
          simpa [endsLine, and_comm] using ha
        rw [write_newline, List.cons_append, List.isPrefixOf, List.isPrefixOf, hne.1, hne.2]
        rfl
      · rw [write_cons hc, List.isPrefixOf, List.isPrefixOf, ih hclosing]

theorem before?_write (hclosing : ∀ c ∈ closing, endsLine c = false) (hne : closing ≠ [])
    (h : '\r' ∉ rest) :
    Text.before? closing (e.write rest) = (Text.before? closing rest).map e.write := by
  induction rest with
  | nil => rfl
  | cons c rest ih =>
    simp only [List.mem_cons, not_or] at h
    obtain ⟨a, stride, hwrite, hstride, -⟩ := e.exists_write (Ne.symm h.1)
    have hstart := isPrefixOf_write (e := e) hclosing (c :: rest)
    rw [hwrite] at hstart
    rw [hwrite]
    cases hfound : closing.isPrefixOf (c :: rest) with
    | true =>
      rw [hfound] at hstart
      rw [List.cons_append] at hstart ⊢
      rw [Text.before?, Text.before?, if_pos hstart, if_pos hfound]
      rfl
    | false =>
      rw [hfound] at hstart
      have hhead : ∀ b ∈ closing.head?, endsLine b = false := fun b hb =>
        hclosing b (List.mem_of_mem_head? hb)
      rw [before?_stride (hstride rest) hhead hne hstart, ih h.2, Text.before?,
        if_neg (ne_true_of_eq_false hfound), Option.map_map, Option.map_map]
      congr 1
      funext content
      simp [hwrite]

/-- At a character where no comment opens or closes, none does in the new text. -/
theorem unmarked_write {nests : Bool} {a : Char} {stride : List Char}
    (ha : a = c ∧ stride = [] ∨ c = '\n' ∧ a = '\r')
    (hrest : ∀ b ∈ rest.head?, ¬(nests = true ∧ c = '/' ∧ b = '*') ∧ ¬(c = '*' ∧ b = '/')) :
    ∀ b ∈ (stride ++ e.write rest).head?,
      ¬(nests = true ∧ a = '/' ∧ b = '*') ∧ ¬(a = '*' ∧ b = '/') := by
  intro b hb
  rcases ha with ⟨rfl, rfl⟩ | ⟨-, rfl⟩
  · -- A second character that matters is no line end, so it has been there before.
    have hbefore : endsLine b = false → b ∈ rest.head? := fun hline => (head?_write_eq hline rest).1 hb
    constructor
    · rintro ⟨hn, rfl, rfl⟩
      exact (hrest '*' (hbefore rfl)).1 ⟨hn, rfl, rfl⟩
    · rintro ⟨rfl, rfl⟩
      exact (hrest '/' (hbefore rfl)).2 ⟨rfl, rfl⟩
  · simp

theorem commentLength?_write (nests : Bool) (depth : Nat) (h : '\r' ∉ rest) :
    commentLength? nests depth (e.write rest)
      = (commentLength? nests depth rest).map fun n => (e.write (rest.take n)).length := by
  have hpair : ∀ {a b : Char}, a ≠ '\n' → b ≠ '\n' → ∀ text,
      e.write (a :: b :: text) = a :: b :: e.write text := by
    intro a b ha hb text
    rw [write_cons ha, write_cons hb]
  -- The cases of `commentLength?`, as when it is read.
  induction depth, rest using commentLength?.induct nests with
  | case1 => rfl
  | case2 depth c =>
    simp only [List.mem_cons, List.not_mem_nil, or_false] at h
    obtain ⟨a, stride, hwrite, hstride, ha⟩ := e.exists_write (Ne.symm h)
    rw [hwrite, commentLength?_stride (hstride []) (unmarked_write ha (by simp))]
    rfl
  | case3 depth a b rest hopen ih =>
    obtain ⟨⟨hn, rfl⟩, rfl⟩ : (nests = true ∧ a = '/') ∧ b = '*' := by simpa using hopen
    simp only [List.mem_cons, not_or] at h
    rw [hpair (by decide) (by decide), commentLength?_cons_cons, if_pos hopen,
      commentLength?_cons_cons, if_pos hopen, ih h.2.2, Option.map_map, Option.map_map]
    rfl
  | case4 a b rest hopen hstop =>
    obtain ⟨rfl, rfl⟩ : a = '*' ∧ b = '/' := by simpa using hstop
    rw [hpair (by decide) (by decide), commentLength?_cons_cons, if_neg hopen, if_pos hstop,
      commentLength?_cons_cons, if_neg hopen, if_pos hstop]
    simp [hpair]
  | case5 a b rest hopen hstop depth ih =>
    obtain ⟨rfl, rfl⟩ : a = '*' ∧ b = '/' := by simpa using hstop
    simp only [List.mem_cons, not_or] at h
    rw [hpair (by decide) (by decide), commentLength?_cons_cons, if_neg hopen, if_pos hstop,
      commentLength?_cons_cons, if_neg hopen, if_pos hstop]
    simp only [ih h.2.2, Option.map_map]
    rfl
  | case6 depth a b rest hopen hstop ih =>
    rw [List.mem_cons, not_or] at h
    obtain ⟨a', stride, hwrite, hstride, ha⟩ := e.exists_write (Ne.symm h.1)
    have hrest : ∀ b' ∈ (b :: rest).head?,
        ¬(nests = true ∧ a = '/' ∧ b' = '*') ∧ ¬(a = '*' ∧ b' = '/') := by
      intro b' hb'
      obtain rfl := Option.some.inj hb'
      exact ⟨fun h' => hopen (by simp [h']), fun h' => hstop (by simp [h'])⟩
    rw [hwrite, commentLength?_stride (hstride (b :: rest)) (unmarked_write ha hrest), ih h.2,
      commentLength?_cons_cons, if_neg hopen, if_neg hstop, Option.map_map, Option.map_map]
    congr 1
    funext n
    rw [Function.comp_apply, Function.comp_apply, List.take_succ_cons, hwrite, List.length_append,
      Nat.add_comm]

/-! ## Words, numbers and lines -/

/-- What is as long as the first characters that all satisfy a test. -/
theorem length_takeWhile_write (hp : p '\r' = p '\n') (rest : List Char) :
    ((e.write rest).takeWhile p).length = (e.write (rest.take (rest.takeWhile p).length)).length := by
  rw [takeWhile_write hp, ← List.prefix_iff_eq_take.1 (List.takeWhile_prefix p)]

theorem numberLength_write (d : Dialect) (rest : List Char) :
    numberLength d (e.write rest) = (e.write (rest.take (numberLength d rest))).length := by
  induction rest with
  | nil => rfl
  | cons c rest ih =>
    by_cases hc : c = '\n'
    · subst hc
      rw [write_newline, List.cons_append, numberLength_cons, numberLength_cons]
      rfl
    · have hnumber : inNumber d c (e.write rest) = inNumber d c rest := by
        rw [inNumber, inNumber, head?_write_any rfl, head?_write_any rfl]
      rw [write_cons hc, numberLength_cons, numberLength_cons, hnumber]
      cases inNumber d c rest with
      | false => rfl
      | true =>
        rw [if_pos rfl, if_pos rfl, ih, List.take_succ_cons, write_cons hc]
        rfl

/-- The line of a directive stays one, as a new line end behind a backslash carries it on. -/
theorem directiveLine_write (h : DirectiveLine rest text) (hreturn : '\r' ∉ text ++ rest) :
    DirectiveLine (e.write rest) (e.write text) := by
  induction h with
  | nil hend => exact .nil ((forall_head?_write rfl rest).2 hend)
  | @continued c stride text hc hu h ih =>
    -- Without carriage returns the line end is a line feed.
    cases hu with
    | crlf => simp at hreturn
    | char =>
      simp only [List.cons_append, List.nil_append, List.mem_cons, not_or] at hreturn
      obtain rfl : c = '\n' := by
        simp only [endsLine, Bool.or_eq_true, beq_iff_eq] at hc
        exact hc.resolve_right (Ne.symm hreturn.2.1)
      have hstride : Stride ('\r' :: e.more) (e.write text ++ e.write rest) := by
        rw [← write_append]
        exact e.stride _
      rw [List.cons_append, List.nil_append, write_cons (by decide), write_newline]
      exact .continued rfl hstride (ih hreturn.2.2)
  | @plain c text hc hback h ih =>
    rw [List.cons_append, List.mem_cons, not_or] at hreturn
    rw [write_cons (newline_ne hc).symm]
    refine .plain hc (fun hslash => ?_) (ih hreturn.2)
    rw [← write_append]
    exact (forall_head?_write rfl _).2 (hback hslash)

theorem directiveLength_write (h : '\r' ∉ rest) :
    directiveLength (e.write rest) = (e.write (rest.take (directiveLength rest))).length := by
  obtain ⟨text, more, rfl, hlength, hline⟩ := exists_directiveLine rest
  rw [← hlength, List.take_left, write_append, directiveLength_of_line (directiveLine_write hline h)]

theorem rawHashes?_write (rest : List Char) : rawHashes? (e.write rest) = rawHashes? rest := by
  induction rest with
  | nil => rfl
  | cons c rest ih =>
    by_cases hc : c = '\n'
    · subst hc
      rw [write_newline, List.cons_append, rawHashes?_cons, rawHashes?_cons]
      rfl
    · rw [write_cons hc, rawHashes?_cons, rawHashes?_cons, ih]

/-! ## Tokens -/

variable {what : Unclosed} {make : String → Kind}

/-- What has been found in its whole text. -/
theorem reach_append {role' : Role} {word : List Char} {n : Nat} (hn : word.length = n) (rest : List Char) :
    e.reach (word ++ rest) (role', n) = (e.role role', (e.write word).length) := by
  rw [reach, List.take_left' hn]

theorem scanQuoted_write (hmake : ∀ s, e.kind (make s) = make (e.rewrite s))
    (hquote : endsLine quote = false) (hback : quote ≠ '\\') (h : '\r' ∉ rest) :
    scanQuoted quote what make (e.write rest) = (scanQuoted quote what make rest).map (e.reach rest) := by
  have hline : quote ≠ '\n' := (newline_ne hquote).symm
  unfold scanQuoted
  rw [quoted?_write hquote hback h]
  cases hcontent : quoted? quote rest with
  | none => rfl
  | some content =>
    obtain ⟨-, more, rfl⟩ := quoted?_eq_some hcontent
    have hlength : (content ++ [quote]).length = content.length + 1 := by simp
    simp only [Option.map_some, Except.map, reach_append hlength, role, hmake, rewrite,
      String.toList_ofList, write_append, write_cons hline, List.length_append, write_nil,
      List.length_cons, List.length_nil]

theorem scanRaw_write (hraw : rawHashes? rest = some hashes) (h : '\r' ∉ rest) :
    scanRaw hashes (e.write rest) = (scanRaw hashes rest).map (e.reach rest) := by
  obtain ⟨inner, rfl⟩ := eq_of_rawHashes? hraw
  have hmarks : '\n' ∉ List.replicate hashes '#' ++ ['"'] := by simp [List.mem_replicate]
  have hclosing : ∀ c ∈ '"' :: List.replicate hashes '#', endsLine c = false := by
    simp [List.mem_replicate, endsLine]
  unfold scanRaw
  rw [write_append, write_of_notMem hmarks, raw?_append, raw?_append,
    before?_write hclosing (by simp) fun hmem => h (List.mem_append_right _ hmem)]
  cases hcontent : Text.before? ('"' :: List.replicate hashes '#') inner with
  | none => rfl
  | some content =>
    obtain ⟨-, more, rfl⟩ := before?_eq_some hcontent
    -- The marks and the quote in front, the content, and the closing behind.
    have hlength : (List.replicate hashes '#' ++ ['"'] ++ (content ++ '"' :: List.replicate hashes '#')).length
        = content.length + 2 * hashes + 2 := by
      simp
      omega
    have hsplit : List.replicate hashes '#' ++ ['"'] ++ (content ++ '"' :: List.replicate hashes '#' ++ more)
        = List.replicate hashes '#' ++ ['"'] ++ (content ++ '"' :: List.replicate hashes '#') ++ more := by
      simp
    -- Neither the marks nor the quotes are changed.
    have hmarks' : '\n' ∉ '"' :: List.replicate hashes '#' := by simp [List.mem_replicate]
    simp only [Option.map_some, Except.map, hsplit, reach_append hlength, role, kind, rewrite,
      String.toList_ofList, write_append, write_of_notMem hmarks, write_of_notMem hmarks']
    simp
    omega

theorem scanWord_write (hc : c ≠ '\n') (rest : List Char) :
    scanWord c (e.write rest) = (scanWord c rest).map (e.reach rest) := by
  simp only [scanWord, Except.map, reach, ← length_takeWhile_write (e := e) (p := isWordPart) rfl rest]
  rw [takeWhile_write rfl]
  simp [role, kind, rewrite, write_cons hc]

theorem scanNumber_write (hc : c ≠ '\n') (rest : List Char) :
    scanNumber d c (e.write rest) = (scanNumber d c rest).map (e.reach rest) := by
  simp only [scanNumber, Except.map, reach, numberLength_write, take_write]
  simp [role, kind, rewrite, write_cons hc]

theorem scanTriple_write (h : '\r' ∉ rest) :
    scanTriple (e.write rest) = (scanTriple rest).map (e.reach ('"' :: '"' :: rest)) := by
  unfold scanTriple
  rw [before?_write (by simp [endsLine]) (by simp) h]
  cases hcontent : Text.before? ['"', '"', '"'] rest with
  | none => rfl
  | some content =>
    obtain ⟨-, more, rfl⟩ := before?_eq_some hcontent
    have hlength : ('"' :: '"' :: (content ++ ['"', '"', '"'])).length = content.length + 5 := by simp
    have hsplit : '"' :: '"' :: (content ++ ['"', '"', '"'] ++ more)
        = '"' :: '"' :: (content ++ ['"', '"', '"']) ++ more := by simp
    have hcons : ∀ text, e.write ('"' :: text) = '"' :: e.write text := write_cons (by decide)
    simp only [Option.map_some, Except.map, hsplit, reach_append hlength, role, kind, rewrite,
      String.toList_ofList, hcons, write_append]
    simp

theorem scanString_write (h : '\r' ∉ rest) :
    scanString d (e.write rest) = (scanString d rest).map (e.reach rest) := by
  have htriple : (∃ inner, e.write rest = '"' :: '"' :: inner) ↔ ∃ inner, rest = '"' :: '"' :: inner := by
    have hstart : ∀ text, (∃ inner, text = '"' :: '"' :: inner) ↔ ['"', '"'].isPrefixOf text = true := by
      intro text
      rw [List.isPrefixOf_iff_prefix]
      exact ⟨fun ⟨inner, h⟩ => ⟨inner, h.symm⟩, fun ⟨inner, h⟩ => ⟨inner, h.symm⟩⟩
    rw [hstart, hstart, isPrefixOf_write (by simp [endsLine])]
  by_cases hkotlin : d = .kotlin ∧ ∃ inner, rest = '"' :: '"' :: inner
  · obtain ⟨rfl, inner, rfl⟩ := hkotlin
    simp only [List.mem_cons, not_or] at h
    rw [write_cons (by decide), write_cons (by decide), scanString_triple, scanString_triple]
    exact scanTriple_write h.2.2
  · have hkotlin' : ¬(d = .kotlin ∧ ∃ inner, e.write rest = '"' :: '"' :: inner) := by
      rwa [htriple]
    rw [scanString_single hkotlin, scanString_single hkotlin']
    exact scanQuoted_write (fun _ => rfl) rfl (by decide) h

theorem startsLifetime_write (rest : List Char) :
    startsLifetime d (e.write rest) = startsLifetime d rest := by
  cases rest with
  | nil => rfl
  | cons c rest =>
    by_cases hc : c = '\n'
    · subst hc
      have hreturn : isWordStart '\r' = false := rfl
      have hfeed : isWordStart '\n' = false := rfl
      rw [write_newline, List.cons_append, startsLifetime_cons, startsLifetime_cons, hreturn, hfeed,
        Bool.and_false, Bool.false_and, Bool.false_and]
    · have hquote : ((e.write rest).head? != some '\'') = (rest.head? != some '\'') := by
        rw [Bool.eq_iff_iff, bne_iff_ne, bne_iff_ne, ne_eq, head?_write_eq rfl]
      rw [write_cons hc, startsLifetime_cons, startsLifetime_cons, hquote]

theorem scanQuote_write (h : '\r' ∉ rest) :
    scanQuote d (e.write rest) = (scanQuote d rest).map (e.reach rest) := by
  have hsame := startsLifetime_write (e := e) (d := d) rest
  cases hword : startsLifetime d rest with
  | true =>
    rw [hword] at hsame
    rw [scanQuote_lifetime hword, scanQuote_lifetime hsame]
    simp only [Except.map, reach, ← length_takeWhile_write (e := e) (p := isWordPart) rfl rest]
    rw [takeWhile_write rfl]
    simp [role, kind, rewrite]
  | false =>
    rw [hword] at hsame
    rw [scanQuote_character hword, scanQuote_character hsame]
    exact scanQuoted_write (fun _ => rfl) rfl (by decide) h

theorem rawOrName_write {more : List Char} (hc : c ≠ '\n') (hmore : '\n' ∉ more) (h : '\r' ∉ rest) :
    rawOrName c more (e.write rest) = (rawOrName c more rest).map (e.reach (more ++ rest)) := by
  unfold rawOrName
  rw [rawHashes?_write]
  cases hraw : rawHashes? rest with
  | none =>
    have hword := scanWord_write (e := e) hc (more ++ rest)
    rwa [write_append, write_of_notMem hmore] at hword
  | some hashes =>
    simp only [scanRaw_write hraw h]
    cases scanRaw hashes rest with
    | error what => rfl
    | ok found =>
      obtain ⟨role', n⟩ := found
      simp only [Except.map, reach, List.take_length_add_append, Nat.add_comm n, write_append,
        write_of_notMem hmore, List.length_append]
      rw [Nat.add_comm]

theorem scanLetter_write (hc : c ≠ '\n') (h : '\r' ∉ rest) :
    scanLetter d c (e.write rest) = (scanLetter d c rest).map (e.reach rest) := by
  by_cases hrust : d = .rust ∧ (c = 'r' ∨ c = 'b')
  · obtain ⟨rfl, rfl | rfl⟩ := hrust
    · rw [scanLetter_r, scanLetter_r]
      exact rawOrName_write hc (by simp) h
    · by_cases hr : rest.head? = some 'r'
      · obtain ⟨inner, rfl⟩ := List.head?_eq_some_iff.1 hr
        rw [write_cons (by decide), scanLetter_br, scanLetter_br]
        exact rawOrName_write hc (by simp) fun hmem => h (List.mem_cons_of_mem _ hmem)
      by_cases hquote : rest.head? = some '"'
      · obtain ⟨inner, rfl⟩ := List.head?_eq_some_iff.1 hquote
        rw [write_cons (by decide)]
        rfl
      · rw [scanLetter_b hr hquote, scanLetter_b (by rwa [ne_eq, head?_write_eq rfl])
          (by rwa [ne_eq, head?_write_eq rfl])]
        exact scanWord_write hc rest
  · rw [scanLetter_plain hrust]
    exact scanWord_write hc rest

/-- A token of one character that is told by it alone. -/
theorem single_write {kind' : Kind} (h : e.kind kind' = kind') (rest : List Char) :
    single kind' = (single kind').map (e.reach rest) := by
  simp [single, Except.map, reach, role, h]

theorem kind_of_mem_signs : ∀ p ∈ signs, e.kind p.2 = p.2 := by
  simp only [signs, List.forall_mem_cons]
  and_intros <;> first | rfl | exact List.forall_mem_nil _

/-- A sign that is another one together with the next character. -/
theorem pair_write {second : Char} {double simple : Kind} (hsecond : endsLine second = false)
    (hdouble : e.kind double = double) (hsimple : e.kind simple = simple) (rest : List Char) :
    (if (e.write rest).head? = some second then .ok (.token double, 1) else single simple)
      = (if rest.head? = some second then .ok (.token double, 1) else single simple).map (e.reach rest) := by
  simp only [head?_write_eq hsecond]
  split
  · rename_i hhead
    obtain ⟨more, rfl⟩ := List.head?_eq_some_iff.1 hhead
    simp [Except.map, reach, role, hdouble, write_cons (newline_ne hsecond).symm]
  · exact single_write hsimple rest

theorem tokenScanner_write {found : List Char → Except Unclosed Reach} (hfound : TokenScanner d c found)
    (hc : c ≠ '\n') (h : '\r' ∉ rest) : found (e.write rest) = (found rest).map (e.reach rest) := by
  cases hfound with
  | sign hsign => exact single_write (kind_of_mem_signs _ hsign) rest
  | colon => exact pair_write rfl rfl rfl rest
  | minus => exact pair_write rfl rfl rfl rest
  | string => exact scanString_write h
  | quote => exact scanQuote_write h
  | name => exact scanQuoted_write (fun _ => rfl) rfl (by decide) h
  | letter => exact scanLetter_write hc h
  | number => exact scanNumber_write hc rest
  | other => exact single_write rfl rest

/-! ## Segments -/

theorem slash_write {fresh : Bool} (h : '\r' ∉ rest) :
    scan d fresh '/' (e.write rest) = (scan d fresh '/' rest).map (e.reach rest) := by
  by_cases hslash : rest.head? = some '/'
  · obtain ⟨more, rfl⟩ := List.head?_eq_some_iff.1 hslash
    have hlength := length_takeWhile_write (e := e) (p := (!endsLine ·)) rfl ('/' :: more)
    rw [write_cons (by decide)] at hlength ⊢
    rw [scan_lineComment, scan_lineComment, hlength]
    rfl
  by_cases hstar : rest.head? = some '*'
  · obtain ⟨more, rfl⟩ := List.head?_eq_some_iff.1 hstar
    rw [write_cons (by decide), scan_blockComment, scan_blockComment,
      commentLength?_write _ _ fun hmem => h (List.mem_cons_of_mem _ hmem)]
    cases commentLength? (d != .c) 0 more with
    | none => rfl
    | some n => simp [Except.map, reach, role, write_cons]
  · rw [scan_slash hslash hstar, scan_slash (by rwa [ne_eq, head?_write_eq rfl])
      (by rwa [ne_eq, head?_write_eq rfl])]
    exact single_write rfl rest

/-- What is found at a character is found again, in its new form. -/
theorem scan_write {fresh : Bool} (hc : c ≠ '\n') (h : '\r' ∉ rest) :
    scan d fresh c (e.write rest) = (scan d fresh c rest).map (e.reach rest) := by
  by_cases hslash : c = '/'
  · subst hslash
    exact slash_write h
  cases hblank : isBlank c with
  | true =>
    rw [scan_of_isBlank hblank, scan_of_isBlank hblank, length_takeWhile_write rfl]
    rfl
  | false =>
    by_cases hdirective : d = .c ∧ fresh = true ∧ c = '#'
    · obtain ⟨rfl, rfl, rfl⟩ := hdirective
      rw [scan_directive, scan_directive, directiveLength_write h]
      rfl
    · rw [scan_of_token hblank hslash hdirective, scan_of_token hblank hslash hdirective]
      exact tokenScanner_write (scanToken_scanner d c) hc h

/-- A line feed that stands between segments is found with what follows it. -/
theorem scan_newline {fresh : Bool} (rest : List Char) :
    scan d fresh '\r' (e.more ++ e.write rest)
      = .ok (.blank, (e.more ++ e.write (rest.takeWhile isBlank)).length) := by
  rw [scan_of_isBlank rfl]
  cases e <;> simp [more, takeWhile_write, isBlank]

end

end LineEnding

end ForeignModule
