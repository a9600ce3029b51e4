import ForeignModule.Proofs.Bounds.Scanner
import ForeignModule.Proofs.Token.Reading

/-!
# The loops of the tokenizer

Each loop is given a place between two characters. It ends, and at such a place again: as far on as `Source` says
of the text that is ahead. Its lookahead asks about bytes, and the answers are those for characters, because all
bytes of longer characters are outside ASCII. Only an escape can stop inside a character, and the loop goes on
from there behind it (`quoted_loop`).
-/

namespace ForeignModule.Bounds.Scanner

open Source Token

variable {d : Dialect} {text rest : List Char} {s : Reader} {c : Char}

/-! ## Characters from outside ASCII -/

theorem endsLine_of_isWide (h : IsWide c) : endsLine c = false := by
  simp [endsLine, h.ne (c := '\n') (by decide), h.ne (c := '\r') (by decide)]

theorem isWordStart_of_isWide (h : IsWide c) : isWordStart c = true := by
  simp [isWordStart, show 0x80 ≤ c.val from h]

theorem isWordPart_of_isWide (h : IsWide c) : isWordPart c = true :=
  isWordPart_of_isWordStart (isWordStart_of_isWide h)

theorem isDigit_of_isWide (h : IsWide c) : c.isDigit = false := by
  rw [isWide_iff] at h
  simp only [Char.isDigit, Bool.and_eq_false_iff, decide_eq_false_iff_not, ge_iff_le, UInt32.le_iff_toNat_le]
  right
  show ¬c.val.toNat ≤ 57
  omega

theorem isHexDigit_of_isWide (h : IsWide c) : isHexDigit c = false := by
  have hlow : ¬c ≤ 'f' := by
    rw [isWide_iff] at h
    show ¬c.val ≤ 'f'.val
    rw [UInt32.le_iff_toNat_le]
    show ¬c.val.toNat ≤ 102
    omega
  have hhigh : ¬c ≤ 'F' := fun hc => hlow (Char.le_trans hc (by decide))
  simp [isHexDigit, isDigit_of_isWide h, hlow, hhigh]

theorem peek_cons (h : At text (c :: rest) s.position) (hc : ¬IsWide c) : s.peek (encode text) 0 = some c := by
  rw [h.peek_eq, byteAt_zero hc]

theorem peek_nil (h : At text [] s.position) : s.peek (encode text) 0 = none := by
  rw [h.peek_eq, byteAt_nil]

/-- A question about the byte behind `c` is one about the character behind it. -/
theorem any_peek_one {f : Char → Bool} {answer : Bool} (h : At text (c :: rest) s.position) (hc : ¬IsWide c)
    (hf : ∀ a, IsWide a → f a = answer) : (s.peek (encode text) 1).any f = rest.head?.any f := by
  rw [h.peek_eq, byteAt_succ hc, any_byteAt hf]

theorem peek_one_eq_some_iff {a : Char} (h : At text (c :: rest) s.position) (hc : ¬IsWide c) (ha : ¬IsWide a) :
    s.peek (encode text) 1 = some a ↔ rest.head? = some a := by
  rw [h.peek_eq, byteAt_succ hc, byteAt_eq_some_iff ha]

/-- A backslash and what is behind it. -/
theorem advance_escape {a : Char} {stride : List Char} (h : At text ('\\' :: (a :: stride ++ rest)) s.position)
    (hu : Stride (a :: stride) rest) (ha : ¬IsWide a) :
    s.advance (encode text) 2 = (s.pass ['\\']).pass (a :: stride) := by
  have hb : Between ['\\'] (a :: stride ++ rest) := .of_not_endsLine rfl _
  have hafter : At text (a :: stride ++ rest) (s.pass ['\\']).position := At.pass h hb
  rw [Reader.advance, Reader.advance, Reader.advance, h.step (by decide) hb, hafter.step_stride hu ha]

/-! ## Loops over bytes of a kind -/

theorem skipWhile_eq {p : Char → Bool} (hwide : ∀ c, IsWide c → p c = true)
    (hline : ∀ c, p c = true → endsLine c = false)
    (h : At text rest s.position) :
    ∃ t, skipWhile (encode text) p s = pure t ∧ Passes text rest (rest.takeWhile p).length s t := by
  have hbody : PassesWide (encode text) (whileRound (encode text) p) id := by
    intro s b hb hwideb
    simp [whileRound, hb, hwide b hwideb]
  unfold skipWhile
  induction rest generalizing s with
  | nil => exact ⟨s, loop_done (by simp [whileRound, peek_nil h]), .zero h⟩
  | cons c rest ih =>
    by_cases hp : p c = true
    · have hu : Stride [c] rest := .char (.of_not_endsLine (hline c hp) rest)
      have hpass : loop (whileRound (encode text) p) s = loop (whileRound (encode text) p) (s.pass [c]) :=
        loop_stride h hu hbody fun hc => by simp [whileRound, peek_cons h hc, hp]
      obtain ⟨t, ht, hpasses⟩ := ih (s := s.pass [c]) (h.pass hu.between)
      refine ⟨t, hpass.trans ht, ?_⟩
      rw [List.takeWhile_cons_of_pos hp, List.length_cons, Nat.add_comm]
      exact (Passes.of_between hu.between h).trans hpasses
    · have hc : ¬IsWide c := fun hc => hp (hwide c hc)
      refine ⟨s, loop_done (by simp [whileRound, peek_cons h hc, hp]), ?_⟩
      rw [List.takeWhile_cons_of_neg hp]
      exact .zero h

theorem skipLine_eq (h : At text rest s.position) :
    ∃ t, skipLine (encode text) s = pure t ∧ Passes text rest (rest.takeWhile (!endsLine ·)).length s t := by
  apply skipWhile_eq _ _ h
  · intro c hc
    simp [endsLine_of_isWide hc]
  · intro c hc
    simpa using hc

theorem skipWord_eq (h : At text rest s.position) :
    ∃ t, skipWord (encode text) s = pure t ∧ Passes text rest (rest.takeWhile isWordPart).length s t := by
  apply skipWhile_eq _ _ h
  · exact fun c hc => isWordPart_of_isWide hc
  · exact fun c hc => endsLine_of_isWordPart hc

/-! ## What is looked for -/

/-- A program brings what is found in `rest`, and the reader behind it, or nothing, and the reader at the end. -/
def Ends {α β : Type} (text rest : List Char) (found? : Option β) (size : β → Nat) (s : Reader) (run : Run α)
    (result : Option β → Reader → α) : Prop :=
  ∃ t, Passes text rest ((found?.map size).getD rest.length) s t ∧ run = pure (result found? t)

/-- What is found behind `front` is found from before it, further on by its length. -/
theorem Ends.extend {α β : Type} {front : List Char} {found? : Option β} {size size' : β → Nat} {u : Reader}
    {run : Run α} {result result' : Option β → Reader → α} (hfront : Passes text (front ++ rest) front.length s u)
    (h : Ends text rest found? size' u run result') (f : β → β) (hsize : ∀ b, size (f b) = front.length + size' b)
    (hresult : ∀ o t, result (o.map f) t = result' o t) :
    Ends text (front ++ rest) (found?.map f) size s run result := by
  obtain ⟨t, hpasses, hrun⟩ := h
  refine ⟨t, ?_, by rw [hrun, hresult]⟩
  have hlength : ((found?.map f).map size).getD (front ++ rest).length
      = front.length + (found?.map size').getD rest.length := by
    cases found? with
    | none => exact List.length_append
    | some b => exact hsize b
  rw [hlength]
  exact hfront.trans hpasses

/-! ## Preprocessor lines -/

theorem directiveLength_cons (h : c = '\\' → rest.head?.any endsLine = false) :
    directiveLength (c :: rest) = if endsLine c then 0 else directiveLength rest + 1 := by
  rw [directiveLength]
  · rintro more rfl rfl
    simp [endsLine] at h
  · rintro more rfl rfl
    simp [endsLine] at h
  · rintro more rfl rfl
    simp [endsLine] at h

theorem directiveLength_continued {stride : List Char} (hc : endsLine c = true) (hu : Stride (c :: stride) rest) :
    directiveLength ('\\' :: (c :: stride ++ rest)) = directiveLength rest + (stride.length + 2) := by
  cases hu with
  | crlf => rfl
  | char hb =>
    simp only [endsLine, Bool.or_eq_true, beq_iff_eq] at hc
    rcases hc with rfl | rfl
    · rfl
    · cases rest with
      | nil => rfl
      | cons a rest =>
        rw [List.singleton_append, directiveLength]
        · rfl
        · intro more hmore
          rw [hmore] at hb
          exact hb rfl rfl

theorem skipDirective_eq (h : At text rest s.position) :
    ∃ t, skipDirective (encode text) s = pure t ∧ Passes text rest (directiveLength rest) s t := by
  have hbody : PassesWide (encode text) (directiveRound (encode text)) id := by
    intro s b hb hwide
    simp [directiveRound, hb, hwide.ne (c := '\\') (by decide), endsLine_of_isWide hwide]
  unfold skipDirective
  induction hn : rest.length using Nat.strongRecOn generalizing rest s with
  | ind n ih =>
    cases rest with
    | nil => exact ⟨s, loop_done (by simp [directiveRound, peek_nil h]), .zero h⟩
    | cons c rest =>
      have hahead : ¬IsWide c → (s.peek (encode text) 1).any endsLine = rest.head?.any endsLine :=
        fun hc => any_peek_one h hc fun a ha => endsLine_of_isWide ha
      by_cases hcontinued : c = '\\' ∧ rest.head?.any endsLine = true
      · -- The backslash and the line end behind it go together.
        obtain ⟨rfl, hend⟩ := hcontinued
        cases rest with
        | nil => cases hend
        | cons a rest =>
          have hline : endsLine a = true := hend
          have ha : ¬IsWide a := fun ha => by simp [endsLine_of_isWide ha] at hline
          have hround : directiveRound (encode text) s = pure (.inl (s.advance (encode text) 2)) := by
            simp [directiveRound, peek_cons h (by decide), hahead (by decide), hline]
          obtain ⟨stride, more, rfl, hu⟩ := exists_stride a rest
          have hb : Between ['\\'] (a :: stride ++ more) := .of_not_endsLine rfl _
          have hback := Passes.of_between hb h
          have hend' := Passes.of_between hu.between (At.pass h hb)
          have hshort : more.length < n := by
            simp only [List.length_append, List.length_cons] at hn
            omega
          obtain ⟨t, ht, hpasses⟩ := ih more.length hshort (At.pass (At.pass h hb) hu.between) rfl
          refine ⟨t, ?_, ?_⟩
          · rw [loop_next hround, advance_escape h hu ha, ht]
          · rw [← List.cons_append, directiveLength_continued hend hu]
            have htwo := hback.trans (hend'.trans hpasses)
            rwa [show ['\\'].length + ((a :: stride).length + directiveLength more)
              = directiveLength more + (stride.length + 2) by simp only [List.length_cons, List.length_nil]; omega]
              at htwo
      · have hcontinues : c = '\\' → rest.head?.any endsLine = false := fun hc => by
          simpa [hc] using hcontinued
        rw [directiveLength_cons hcontinues]
        by_cases hline : endsLine c = true
        · have hc : ¬IsWide c := fun hc => by simp [endsLine_of_isWide hc] at hline
          refine ⟨s, loop_done ?_, ?_⟩
          · simp [directiveRound, peek_cons h hc, hahead hc, hcontinued, hline]
          · rw [if_pos hline]
            exact .zero h
        · rw [Bool.not_eq_true] at hline
          have hu : Stride [c] rest := .char (.of_not_endsLine hline rest)
          have hpass : loop (directiveRound (encode text)) s = loop (directiveRound (encode text)) (s.pass [c]) :=
            loop_stride h hu hbody fun hc => by
              simp [directiveRound, peek_cons h hc, hahead hc, hcontinued, hline]
          obtain ⟨t, ht, hpasses⟩ := ih rest.length (by simp [← hn]) (s := s.pass [c]) (h.pass hu.between) rfl
          refine ⟨t, hpass.trans ht, ?_⟩
          rw [if_neg (by simp [hline]), Nat.add_comm]
          exact (Passes.of_between hu.between h).trans hpasses

/-! ## Comments -/

theorem commentLength?_stride {nests : Bool} {depth : Nat} {stride : List Char} (hu : Stride (c :: stride) rest)
    (h : ∀ b ∈ (stride ++ rest).head?, ¬(nests = true ∧ c = '/' ∧ b = '*') ∧ ¬(c = '*' ∧ b = '/')) :
    commentLength? nests depth (c :: stride ++ rest)
      = (commentLength? nests depth rest).map (· + (c :: stride).length) := by
  have hone : ∀ (c : Char) (rest : List Char), (∀ b ∈ rest.head?, ¬(nests = true ∧ c = '/' ∧ b = '*') ∧
      ¬(c = '*' ∧ b = '/')) → commentLength? nests depth (c :: rest)
        = (commentLength? nests depth rest).map (· + 1) := by
    intro c rest hc
    cases rest with
    | nil => rfl
    | cons b rest =>
      obtain ⟨hopen, hclose⟩ := hc b rfl
      rw [commentLength?.eq_def]
      dsimp only
      rw [if_neg (by simpa [and_assoc] using hopen), if_neg (by simpa using hclose)]
  cases hu with
  | char hb => exact hone c rest h
  | crlf =>
    have hnewline := hone '\n' rest (by simp)
    have hreturn := hone '\r' ('\n' :: rest) (by simp)
    rw [List.cons_append, List.singleton_append, hreturn, hnewline, Option.map_map]
    rfl

theorem commentRound_wide {start : Position} (depth : Nat) :
    PassesWide (encode text) (commentRound d (encode text) start) (depth, ·) := by
  intro s b hb hwide
  have hslash := hwide.ne (c := '/') (by decide)
  have hstar := hwide.ne (c := '*') (by decide)
  simp [commentRound, Reader.isAtEnd_of_peek hb, hb, hslash, hstar]

theorem commentRound_eq (d : Dialect) (start : Position) (depth : Nat) (h : At text (c :: rest) s.position) (hc : ¬IsWide c) :
    commentRound d (encode text) start (depth + 1, s) =
      if c = '/' ∧ rest.head? = some '*' ∧ d ≠ .c then pure (.inl (depth + 2, s.advance (encode text) 2))
      else if c = '*' ∧ rest.head? = some '/' then
        pure (if depth = 0 then .inr (s.advance (encode text) 2) else .inl (depth, s.advance (encode text) 2))
      else pure (.inl (depth + 1, s.step (encode text))) := by
  simp only [commentRound, h.isAtEnd, peek_cons h hc, peek_one_eq_some_iff h hc (a := '*') (by decide),
    peek_one_eq_some_iff h hc (a := '/') (by decide), minus_add]
  simp

theorem comment_loop (start : Position) (depth : Nat) (h : At text rest s.position) :
    Ends text rest (commentLength? (d != .c) depth rest) id s
      (loop (commentRound d (encode text) start) (depth + 1, s))
      fun length? t => if length?.isSome then t else t.fail .comment start := by
  induction hn : rest.length using Nat.strongRecOn generalizing rest s depth with
  | ind n ih =>
    subst hn
    cases rest with
    | nil => exact ⟨s, .zero h, loop_done (by simp [commentRound, h.isAtEnd, commentLength?])⟩
    | cons c rest =>
      by_cases hopen : c = '/' ∧ rest.head? = some '*' ∧ d ≠ .c
      · -- A comment opens inside of the comment.
        have hround := commentRound_eq d start depth h
        rw [if_pos hopen] at hround
        obtain ⟨rfl, hstar, hd⟩ := hopen
        obtain ⟨more, rfl⟩ := List.head?_eq_some_iff.1 hstar
        have hpass : Passes text (['/', '*'] ++ more) 2 s (s.advance (encode text) 2) := .advance h (by decide)
        rw [loop_next (hround (by decide))]
        have hlength : commentLength? (d != .c) depth ('/' :: '*' :: more)
            = (commentLength? (d != .c) (depth + 1) more).map (· + 2) := by
          simp [commentLength?, hd]
        rw [hlength]
        have hmore := ih more.length (by simp only [List.length_cons]; omega) (depth + 1) hpass.at_rest rfl
        exact hmore.extend hpass _ (fun b => Nat.add_comm b 2) fun o t => by simp
      by_cases hclose : c = '*' ∧ rest.head? = some '/'
      · have hround := commentRound_eq d start depth h
        rw [if_neg hopen, if_pos hclose] at hround
        obtain ⟨rfl, hslash⟩ := hclose
        obtain ⟨more, rfl⟩ := List.head?_eq_some_iff.1 hslash
        have hpass : Passes text (['*', '/'] ++ more) 2 s (s.advance (encode text) 2) := .advance h (by decide)
        cases depth with
        | zero =>
          have hlength : commentLength? (d != .c) 0 ('*' :: '/' :: more) = some 2 := by simp [commentLength?]
          rw [hlength]
          exact ⟨_, hpass, loop_done (hround (by decide))⟩
        | succ k =>
          have hlength : commentLength? (d != .c) (k + 1) ('*' :: '/' :: more)
              = (commentLength? (d != .c) k more).map (· + 2) := by
            simp [commentLength?]
          rw [hlength, loop_next (hround (by decide))]
          have hmore := ih more.length (by simp only [List.length_cons]; omega) k hpass.at_rest rfl
          exact hmore.extend hpass _ (fun b => Nat.add_comm b 2) fun o t => by simp
      · obtain ⟨stride, more, rfl, hu⟩ := exists_stride c rest
        have hneither : ∀ b ∈ (stride ++ more).head?,
            ¬((d != .c) = true ∧ c = '/' ∧ b = '*') ∧ ¬(c = '*' ∧ b = '/') := by
          intro b hb
          constructor
          · rintro ⟨hd, rfl, rfl⟩
            exact hopen ⟨rfl, hb, by simpa using hd⟩
          · rintro ⟨rfl, rfl⟩
            exact hclose ⟨rfl, hb⟩
        have hpass : loop (commentRound d (encode text) start) (depth + 1, s)
            = loop (commentRound d (encode text) start) (depth + 1, s.pass (c :: stride)) := by
          apply loop_stride h hu (commentRound_wide (depth + 1))
          intro hc
          rw [commentRound_eq d start depth h hc, if_neg hopen, if_neg hclose]
        have hfront : Passes text (c :: stride ++ more) (c :: stride).length s (s.pass (c :: stride)) :=
          .of_between hu.between h
        have hmore := ih more.length (by simp only [List.length_cons, List.length_append]; omega) depth (At.pass h hu.between) rfl
        rw [hpass, ← List.cons_append, commentLength?_stride hu hneither]
        exact hmore.extend hfront _ (fun b => Nat.add_comm b _) fun o t => by simp

/-! ## Literals -/

theorem Ends.extend_content {front before : List Char} {content? : Option (List Char)} {k : Nat} {u : Reader}
    {run : Run (Option String × Reader)} (hfront : Passes text (front ++ rest) front.length s u)
    (h : Ends text rest content? (·.length + k) u run
      fun content? t => (content?.map fun content => .ofList (before ++ front ++ content), t)) :
    Ends text (front ++ rest) (content?.map (front ++ ·)) (·.length + k) s run
      fun content? t => (content?.map fun content => .ofList (before ++ content), t) := by
  refine h.extend hfront _ (fun content => ?_) fun content? t => ?_
  · rw [List.length_append, Nat.add_assoc]
  · rw [Option.map_map]
    simp only [Function.comp_def, List.append_assoc]

section

variable {quote : Char} {stride : List Char}

theorem quoted?_cons (hc : c ≠ '\\') (hne : c ≠ quote) :
    quoted? quote (c :: rest) = (quoted? quote rest).map (c :: ·) := by
  rw [quoted?, if_neg hne]
  · rintro rfl
    exact absurd rfl hc
  · rintro a more rfl
    exact absurd rfl hc

theorem newline_ne (hquote : endsLine quote = false) : '\n' ≠ quote := by
  rintro rfl
  cases hquote

theorem quoted?_stride (hu : Stride (c :: stride) rest) (hquote : endsLine quote = false) (hc : c ≠ '\\')
    (hne : c ≠ quote) : quoted? quote (c :: stride ++ rest) = (quoted? quote rest).map (c :: stride ++ ·) := by
  cases hu with
  | char hb => exact quoted?_cons hc hne
  | crlf =>
    rw [List.cons_append, quoted?_cons hc hne, List.singleton_append,
      quoted?_cons (by decide) (newline_ne hquote), Option.map_map]
    rfl

theorem quoted?_escape {a : Char} (hu : Stride (a :: stride) rest) (hquote : endsLine quote = false) :
    quoted? quote ('\\' :: (a :: stride ++ rest)) = (quoted? quote rest).map ('\\' :: a :: stride ++ ·) := by
  rw [List.cons_append, quoted?]
  cases hu with
  | char hb => rfl
  | crlf =>
    rw [List.singleton_append, quoted?_cons (by decide) (newline_ne hquote), Option.map_map]
    rfl

theorem quotedRound_wide {start : Nat} (hq : ¬IsWide quote) :
    PassesWide (encode text) (quotedRound (encode text) quote start) id := by
  intro s b hb hwide
  simp [quotedRound, hb, hwide.ne (c := '\\') (by decide), hwide.ne hq]

theorem quoted_loop (hq : ¬IsWide quote) (hquote : endsLine quote = false) (hback : quote ≠ '\\')
    {p : Position} {before : List Char} (hp : At text (before ++ rest) p) (h : At text rest s.position) :
    Ends text rest (quoted? quote rest) (·.length + 1) s (loop (quotedRound (encode text) quote p.offset) s)
      fun content? t => (content?.map fun content => .ofList (before ++ content), t) := by
  induction hn : rest.length using Nat.strongRecOn generalizing rest s before with
  | ind n ih =>
    subst hn
    cases rest with
    | nil => exact ⟨s, .zero h, loop_done (by simp [quotedRound, peek_nil h, quoted?])⟩
    | cons c rest =>
      by_cases hc : c = '\\'
      · subst hc
        have hround : quotedRound (encode text) quote p.offset s = pure (.inl (s.advance (encode text) 2)) := by
          simp [quotedRound, peek_cons h (by decide)]
        have hb : Between ['\\'] rest := .of_not_endsLine rfl _
        have hafter := At.pass h hb
        have hpass := Passes.of_between hb h
        rw [loop_next hround, Reader.advance, Reader.advance, Reader.advance, h.step (by decide) hb]
        cases rest with
        | nil =>
          have hend : (s.pass ['\\']).step (encode text) = s.pass ['\\'] := by
            rw [Reader.step, peek_nil hafter]
          refine ⟨s.pass ['\\'], hpass, ?_⟩
          rw [hend]
          exact loop_done (by simp [quotedRound, peek_nil hafter, quoted?])
        | cons a rest =>
          -- The escape may step into a longer character; the loop goes on behind that.
          obtain ⟨stride, more, rfl, hu⟩ := exists_stride a rest
          have hloop : loop (quotedRound (encode text) quote p.offset) ((s.pass ['\\']).step (encode text))
              = loop (quotedRound (encode text) quote p.offset) ((s.pass ['\\']).pass (a :: stride)) :=
            loop_step hafter hu (quotedRound_wide hq)
          have hfront := hpass.trans (Passes.of_between hu.between hafter)
          have hp' : At text ((before ++ '\\' :: a :: stride) ++ more) p := by simpa using hp
          have hmore := ih more.length (by simp only [List.length_cons, List.length_append]; omega) hp' (At.pass hafter hu.between) rfl
          rw [hloop, ← List.cons_append, quoted?_escape hu hquote]
          refine hmore.extend_content ?_
          rwa [Nat.add_comm] at hfront
      by_cases hne : c = quote
      · subst hne
        have hslice := At.slice hp h
        have hb : Between [c] rest := .of_not_endsLine hquote _
        have hround : quotedRound (encode text) c p.offset s
            = pure (.inr (some (.ofList before), s.step (encode text))) := by
          simp [quotedRound, peek_cons h hq, hc, hslice]
        have hfound : quoted? c (c :: rest) = some [] := by
          rw [quoted?, if_pos rfl]
          · rintro rfl
            exact absurd rfl hc
          · rintro a more rfl
            exact absurd rfl hc
        rw [hfound, loop_done hround, h.step hq hb]
        refine ⟨s.pass [c], .of_between hb h, ?_⟩
        simp
      obtain ⟨stride, more, rfl, hu⟩ := exists_stride c rest
      have hpass : loop (quotedRound (encode text) quote p.offset) s
          = loop (quotedRound (encode text) quote p.offset) (s.pass (c :: stride)) :=
        loop_stride h hu (quotedRound_wide hq) fun hascii => by simp [quotedRound, peek_cons h hascii, hc, hne]
      rw [hpass, ← List.cons_append, quoted?_stride hu hquote hc hne]
      have hp' : At text ((before ++ c :: stride) ++ more) p := by simpa using hp
      have hmore := ih more.length (by simp only [List.length_cons, List.length_append]; omega) hp' (At.pass h hu.between) rfl
      exact hmore.extend_content (.of_between hu.between h)

end

theorem readQuoted_eq {quote : Char} (hq : ¬IsWide quote) (hquote : endsLine quote = false) (hback : quote ≠ '\\')
    (h : At text (quote :: rest) s.position) :
    Ends text (quote :: rest) (quoted? quote rest) (·.length + 2) s (readQuoted (encode text) quote s)
      fun content? t => (content?.map .ofList, t) := by
  have hb : Between [quote] rest := .of_not_endsLine hquote _
  have hafter := At.pass h hb
  have hloop := quoted_loop hq hquote hback (List.nil_append rest ▸ hafter) hafter
  have hall : Ends text ([quote] ++ rest) ((quoted? quote rest).map id) (·.length + 2) s
      (readQuoted (encode text) quote s) fun content? t => (content?.map .ofList, t) := by
    rw [readQuoted, h.step hq hb]
    refine hloop.extend (.of_between hb h) id (fun content => ?_) fun content? t => ?_
    · rw [List.length_singleton, id]
      omega
    · rw [Option.map_id]
      rfl
  rwa [Option.map_id] at hall

section

variable {closing : List Char}

theorem isPrefixOf_bytes (hplain : ∀ c ∈ closing, ¬IsWide c) (rest : List Char) :
    closing.isPrefixOf ((encode rest).map Char.ofUInt8) = closing.isPrefixOf rest := by
  induction closing generalizing rest with
  | nil => rw [List.isPrefixOf_nil_left, List.isPrefixOf_nil_left]
  | cons a closing ih =>
    have ha := hplain a List.mem_cons_self
    cases rest with
    | nil => rfl
    | cons c rest =>
      by_cases hc : IsWide c
      · obtain ⟨first, more, hencode, -, hwide⟩ := exists_encode hc
        have hfirst : (a == Char.ofUInt8 first) = false :=
          beq_eq_false_iff_ne.2 ((hwide first List.mem_cons_self).ne ha).symm
        have hne : (a == c) = false := beq_eq_false_iff_ne.2 (hc.ne ha).symm
        simp [encode_cons, hencode, List.isPrefixOf, hfirst, hne]
      · rw [encode_cons, encode_ascii hc, List.singleton_append, List.map_cons, ofUInt8_toUInt8 hc,
          List.isPrefixOf, List.isPrefixOf, ih fun b hb => hplain b (List.mem_cons_of_mem a hb)]

theorem before?_stride {stride : List Char} (hu : Stride (c :: stride) rest)
    (hplain : ∀ c ∈ closing.head?, endsLine c = false) (hne : closing ≠ [])
    (h : closing.isPrefixOf (c :: stride ++ rest) = false) :
    Text.before? closing (c :: stride ++ rest) = (Text.before? closing rest).map (c :: stride ++ ·) := by
  cases hu with
  | char hb =>
    rw [List.singleton_append] at h ⊢
    rw [Text.before?, if_neg (by simp [h])]
    rfl
  | crlf =>
    have hnewline : closing.isPrefixOf ('\n' :: rest) = false := by
      cases closing with
      | nil => exact absurd rfl hne
      | cons a closing =>
        have ha : (a == '\n') = false := by
          rw [beq_eq_false_iff_ne]
          rintro rfl
          cases hplain '\n' rfl
        simp [List.isPrefixOf, ha]
    rw [List.cons_append, List.singleton_append] at h ⊢
    rw [Text.before?, if_neg (by simp [h]), Text.before?, if_neg (by simp [hnewline]), Option.map_map]
    rfl

theorem rawRound_eq (start : Nat) (h : At text rest s.position) (hrest : rest ≠ [])
    (hplain : Plain closing) :
    rawRound (encode text) closing start s =
      if closing.isPrefixOf rest then do
        let content ← slice (encode text) start s.position.offset
        pure (.inr (some content, s.advance (encode text) closing.length))
      else pure (.inl (s.step (encode text))) := by
  rw [rawRound, h.isAtEnd, List.isEmpty_eq_false_iff.2 hrest, if_neg Bool.false_ne_true, part_drop h.offset_le,
    pure_bind, h.drop_offset, isPrefixOf_bytes fun c hc => (hplain c hc).1]

theorem rawRound_wide {start : Nat} (hplain : Plain closing) (hne : closing ≠ []) :
    PassesWide (encode text) (rawRound (encode text) closing start) id := by
  intro s b hb hwide
  obtain ⟨a, ha, rfl⟩ := Option.map_eq_some_iff.1 hb
  rw [Nat.add_zero] at ha
  obtain ⟨hlt, hget⟩ := List.getElem?_eq_some_iff.1 ha
  have hnot : closing.isPrefixOf (((encode text).drop s.position.offset).map Char.ofUInt8) = false := by
    cases closing with
    | nil => exact absurd rfl hne
    | cons q closing =>
      have hq : (q == Char.ofUInt8 a) = false :=
        beq_eq_false_iff_ne.2 (hwide.ne (hplain q List.mem_cons_self).1).symm
      rw [List.drop_eq_getElem_cons hlt, List.map_cons, List.isPrefixOf, hget, hq, Bool.false_and]
  rw [id, rawRound, Reader.isAtEnd_of_peek hb, if_neg Bool.false_ne_true, part_drop (Nat.le_of_lt hlt), pure_bind,
    hnot, if_neg Bool.false_ne_true]
  rfl

theorem raw_loop (hplain : Plain closing) (hne : closing ≠ [])
    {p : Position} {before : List Char} (hp : At text (before ++ rest) p) (h : At text rest s.position) :
    Ends text rest (Text.before? closing rest) (·.length + closing.length) s
      (loop (rawRound (encode text) closing p.offset) s)
      fun content? t => (content?.map fun content => .ofList (before ++ content), t) := by
  induction hn : rest.length using Nat.strongRecOn generalizing rest s before with
  | ind n ih =>
    subst hn
    cases rest with
    | nil => exact ⟨s, .zero h, loop_done (by simp [rawRound, h.isAtEnd, Text.before?])⟩
    | cons c rest =>
      have hround := rawRound_eq p.offset h (List.cons_ne_nil c rest) hplain
      cases hclose : closing.isPrefixOf (c :: rest) with
      | true =>
        obtain ⟨more, hmore⟩ := List.isPrefixOf_iff_prefix.1 hclose
        rw [hclose, if_pos rfl, At.slice hp h, pure_bind] at hround
        have hfound : Text.before? closing (c :: rest) = some [] := by rw [Text.before?, if_pos hclose]
        have hpass : Passes text (c :: rest) closing.length s (s.advance (encode text) closing.length) := by
          rw [← hmore] at h ⊢
          exact .advance h hplain
        rw [hfound, loop_done hround]
        refine ⟨_, by simpa using hpass, ?_⟩
        simp
      | false =>
        obtain ⟨stride, more, rfl, hu⟩ := exists_stride c rest
        have hpass : loop (rawRound (encode text) closing p.offset) s
            = loop (rawRound (encode text) closing p.offset) (s.pass (c :: stride)) :=
          loop_stride h hu (rawRound_wide hplain hne) fun _ => by simpa [hclose] using hround
        have hp' : At text ((before ++ c :: stride) ++ more) p := by simpa using hp
        have hmore := ih more.length (by simp only [List.length_cons, List.length_append]; omega) hp' (At.pass h hu.between) rfl
        have hline : ∀ q ∈ closing.head?, endsLine q = false := fun q hq => (hplain q (List.mem_of_mem_head? hq)).2
        rw [hpass, ← List.cons_append, before?_stride hu hline hne (by simpa using hclose)]
        exact hmore.extend_content (.of_between hu.between h)

theorem readRaw_eq (hplain : Plain closing) (hne : closing ≠ [])
    (h : At text rest s.position) :
    Ends text rest (Text.before? closing rest) (·.length + closing.length) s (readRaw (encode text) closing s)
      fun content? t => (content?.map .ofList, t) := by
  have hp : At text ([] ++ rest) s.position := h
  exact raw_loop hplain hne hp h

end

theorem length_encode_replicate (hc : ¬IsWide c) (n : Nat) : (encode (List.replicate n c)).length = n := by
  induction n with
  | zero => rfl
  | succ n ih => rw [List.replicate_succ, encode_cons, List.length_append, ih, encode_ascii hc, List.length_singleton,
      Nat.add_comm]

theorem hash_loop {bytes : List UInt8} {first : Nat} (hpeek : ∀ k, s.peek bytes (first + k) = byteAt (encode rest) k) :
    loop (hashRound bytes first s) 0 = pure (rest.takeWhile (· == '#')).length := by
  have hfrom : ∀ (more : List Char) (n : Nat), rest = List.replicate n '#' ++ more →
      loop (hashRound bytes first s) n = pure (n + (more.takeWhile (· == '#')).length) := by
    intro more
    induction more with
    | nil =>
      intro n hrest
      have hbyte := byteAt_append (List.replicate n '#') [] 0
      rw [length_encode_replicate (by decide), ← hrest, byteAt_nil, Nat.add_zero, ← hpeek] at hbyte
      exact loop_done (by simp [hashRound, hbyte])
    | cons c more ih =>
      intro n hrest
      have hbyte := byteAt_append (List.replicate n '#') (c :: more) 0
      rw [length_encode_replicate (by decide), ← hrest, Nat.add_zero, ← hpeek] at hbyte
      have hhash : s.peek bytes (first + n) = some '#' ↔ c = '#' := by
        rw [hbyte, byteAt_eq_some_iff (by decide)]
        simp
      by_cases hc : c = '#'
      · subst hc
        have hnext := ih (n + 1) (by rw [hrest, List.replicate_succ', List.append_assoc]; rfl)
        rw [loop_next (t := n + 1) (by simp [hashRound, hhash]), hnext, List.takeWhile_cons_of_pos (by simp),
          List.length_cons, Nat.add_right_comm, Nat.add_assoc]
      · rw [loop_done (a := n) (by simp [hashRound, hhash, hc]), List.takeWhile_cons_of_neg (by simpa using hc)]
        rfl
  rw [hfrom rest 0 rfl, Nat.zero_add]

/-! ## Numbers -/

theorem number_loop (h : At text rest s.position) :
    ∃ t, loop (numberRound d (encode text)) s = pure t ∧ Passes text rest (numberLength d rest) s t := by
  have hbody : PassesWide (encode text) (numberRound d (encode text)) id := by
    intro s b hb hwide
    simp [numberRound, hb, isWordPart_of_isWide hwide]
  induction rest generalizing s with
  | nil => exact ⟨s, loop_done (by simp [numberRound, peek_nil h]), .zero h⟩
  | cons c rest ih =>
    have hround : ¬IsWide c → numberRound d (encode text) s = pure (if isWordPart c
        || (c == '.' && rest.head?.any Char.isDigit) || (c == '\'' && d == .c && rest.head?.any isHexDigit)
        then .inl (s.step (encode text)) else .inr s) := by
      intro hc
      have hdigit := any_peek_one h hc fun a ha => isDigit_of_isWide ha
      have hhex := any_peek_one h hc fun a ha => isHexDigit_of_isWide ha
      simp only [numberRound, peek_cons h hc, hdigit, hhex]
      simp [or_assoc, and_assoc]
    rw [numberLength]
    split
    · next hgoes =>
      have hline : endsLine c = false := by
        cases hends : endsLine c with
        | false => rfl
        | true =>
          simp only [endsLine, Bool.or_eq_true, beq_iff_eq] at hends
          rcases hends with rfl | rfl <;> simp [isWordPart] at hgoes
      have hu : Stride [c] rest := .char (.of_not_endsLine hline rest)
      have hpass : loop (numberRound d (encode text)) s = loop (numberRound d (encode text)) (s.pass [c]) :=
        loop_stride h hu hbody fun hc => (hround hc).trans (by rw [if_pos hgoes]; rfl)
      obtain ⟨t, ht, hpasses⟩ := ih (s := s.pass [c]) (h.pass hu.between)
      refine ⟨t, hpass.trans ht, ?_⟩
      rw [Nat.add_comm]
      exact (Passes.of_between hu.between h).trans hpasses
    · next hstops =>
      have hc : ¬IsWide c := fun hc => hstops (by simp [isWordPart_of_isWide hc])
      exact ⟨s, loop_done (by rw [hround hc, if_neg hstops]), .zero h⟩

end ForeignModule.Bounds.Scanner
