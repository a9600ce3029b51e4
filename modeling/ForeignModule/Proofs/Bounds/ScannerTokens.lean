import ForeignModule.Proofs.Bounds.ScannerLoops

/-!
# What the tokenizer does in a round

`Gives` says that a program goes behind what `Source.scan` finds at a place of a text, adds its token, and stops
at no trap. It holds of every part of a round, and so of a round as a whole (`round_eq`). Only blanks are gone
over in several rounds, and the letter of a byte string takes no round of its own (`byteString_round`).
-/

namespace ForeignModule.Bounds

/-- The token of a segment that ends here. Other segments have none. -/
def Reader.mark (role : Source.Role) (start : Position) (s : Reader) : Reader :=
  match role with
  | .token kind => s.emit kind start
  | _ => s

@[simp] theorem Reader.position_mark (role : Source.Role) (start : Position) (s : Reader) :
    (s.mark role start).position = s.position := by
  cases role <;> rfl

namespace Scanner

open Source Token

variable {d : Dialect} {text rest : List Char} {s : Reader} {c : Char}

/-- The program goes behind the segment that is found at the start of `rest`, or to the end, if that is not closed
there. -/
def Gives (text rest : List Char) (s : Reader) (found : Except Unclosed Reach) (run : Run Reader) : Prop :=
  match found with
  | .ok (role, n) => ∃ t, Passes text rest (n + 1) s t ∧ run = pure (t.mark role s.position)
  | .error what => ∃ t, Passes text rest rest.length s t ∧ run = pure (t.fail what s.position)

/-! ## Literals -/

/-- What a literal is found to be, given its content and by how much its end is behind its first character. -/
def literal (kind : String → Kind) (what : Unclosed) (size : List Char → Nat) :
    Option (List Char) → Except Unclosed Reach
  | some content => .ok (.token (kind (.ofList content)), size content)
  | none => .error what

theorem Ends.gives {content? : Option (List Char)} {size : List Char → Nat} {run : Run (Option String × Reader)}
    (h : Ends text rest content? (size · + 1) s run fun content? t => (content?.map .ofList, t))
    (kind : String → Kind) (what : Unclosed) :
    Gives text rest s (literal kind what size content?) (finish kind what s.position <$> run) := by
  obtain ⟨t, hpasses, rfl⟩ := h
  cases content? with
  | none => exact ⟨t, hpasses, rfl⟩
  | some content => exact ⟨t, hpasses, rfl⟩

theorem quoted_gives {quote : Char} (hq : ¬IsWide quote) (hquote : endsLine quote = false) (hback : quote ≠ '\\')
    (h : At text (quote :: rest) s.position) (kind : String → Kind) (what : Unclosed) :
    Gives text (quote :: rest) s (scanQuoted quote what kind rest)
      (finish kind what s.position <$> readQuoted (encode text) quote s) := by
  have hscan : scanQuoted quote what kind rest = literal kind what (·.length + 1) (quoted? quote rest) := by
    unfold scanQuoted
    cases quoted? quote rest <;> rfl
  rw [hscan]
  exact Ends.gives (readQuoted_eq hq hquote hback h) kind what

/-- Behind a part of a literal that opens it, its content is read to the closing part. -/
theorem readRaw_gives (front closing : List Char) (hfront : Plain front)
    (hclosing : Plain closing) (hne : closing ≠ []) (hfirst : front ≠ [])
    (h : At text (front ++ rest) s.position) (kind : String → Kind) (what : Unclosed) :
    Gives text (front ++ rest) s
      (literal kind what (fun content => front.length + content.length + closing.length - 1)
        (Text.before? closing rest))
      (finish kind what s.position <$> readRaw (encode text) closing (s.advance (encode text) front.length)) := by
  have hpass := Passes.advance h hfront
  have hrest : At text rest (s.advance (encode text) front.length).position := by simpa using hpass.at_rest
  have hall : Ends text (front ++ rest) ((Text.before? closing rest).map id)
      (fun content => front.length + content.length + closing.length - 1 + 1) s
      (readRaw (encode text) closing (s.advance (encode text) front.length))
      fun content? t => (content?.map .ofList, t) := by
    refine (readRaw_eq hclosing hne hrest).extend hpass id (fun content => ?_) fun content? t => ?_
    · have := List.length_pos_iff.2 hfirst
      simp only [id]
      omega
    · rw [Option.map_id]
      rfl
  rw [Option.map_id] at hall
  exact Ends.gives hall kind what

theorem lexString_gives (h : At text ('"' :: rest) s.position) :
    Gives text ('"' :: rest) s (scanString d rest) (lexString d (encode text) s) := by
  have hone := peek_one_eq_some_iff h (by decide) (a := '"') (by decide)
  by_cases htriple : d = .kotlin ∧ ∃ inner, rest = '"' :: '"' :: inner
  · obtain ⟨rfl, inner, rfl⟩ := htriple
    have htwo : s.peek (encode text) 2 = some '"' := by
      rw [h.peek_eq, byteAt_succ (by decide), byteAt_succ (by decide), byteAt_zero (by decide)]
    have hscan : scanString .kotlin ('"' :: '"' :: inner) = literal .string .string
        (fun content => 3 + content.length + 3 - 1) (Text.before? ['"', '"', '"'] inner) := by
      simp only [scanString]
      cases Text.before? ['"', '"', '"'] inner with
      | none => rfl
      | some content =>
        simp only [literal, Except.ok.injEq, Prod.mk.injEq, true_and]
        omega
    rw [lexString, if_pos ⟨rfl, hone.2 rfl, htwo⟩, hscan]
    exact readRaw_gives ['"', '"', '"'] ['"', '"', '"'] (by decide) (by decide) (by decide) (by decide) h .string .string
  · have hscan : scanString d rest = scanQuoted '"' .string .string rest := by
      unfold scanString
      split
      · next inner => exact absurd ⟨rfl, inner, rfl⟩ htriple
      · rfl
    rw [lexString, hscan, if_neg]
    · exact quoted_gives (by decide) (by decide) (by decide) h .string .string
    · rintro ⟨rfl, hfirst, hsecond⟩
      obtain ⟨more, rfl⟩ := List.head?_eq_some_iff.1 (hone.1 hfirst)
      rw [h.peek_eq, byteAt_succ (by decide), byteAt_succ (by decide), byteAt_eq_some_iff (by decide)] at hsecond
      obtain ⟨inner, rfl⟩ := List.head?_eq_some_iff.1 hsecond
      exact htriple ⟨rfl, inner, rfl⟩

theorem hashes_eq (rest : List Char) :
    rest = List.replicate (rest.takeWhile (· == '#')).length '#' ++ rest.drop (rest.takeWhile (· == '#')).length := by
  have hall : rest.takeWhile (· == '#') = List.replicate (rest.takeWhile (· == '#')).length '#' := by
    rw [List.eq_replicate_iff]
    refine ⟨rfl, fun c hc => ?_⟩
    simpa using List.all_eq_true.1 List.all_takeWhile c hc
  have htake := List.prefix_iff_eq_take.1 (List.takeWhile_prefix (· == '#') (l := rest))
  rw [← hall, htake, List.length_take, Nat.min_eq_left (List.takeWhile_prefix _).length_le, List.take_append_drop]

/-- A raw string of Rust is found where one stands. `front` is what stands before its marks. -/
theorem rawString?_eq (front : List Char) (hfront : front = ['r'] ∨ front = ['b', 'r'])
    (h : At text (front ++ rest) s.position) :
    match rawHashes? rest with
    | some hashes => ∃ run, rawString? (encode text) s = some <$> run ∧
        Gives text (front ++ rest) s
          ((scanRaw hashes rest).map fun (role, length) => (role, length + (front.length - 1))) run
    | none => rawString? (encode text) s = pure none := by
  have hplain : Plain front := by rcases hfront with rfl | rfl <;> decide
  have hlength : (encode front).length = front.length - 1 + 1 := by rcases hfront with rfl | rfl <;> rfl
  have hmark : (if s.peek (encode text) 0 = some 'b' then 1 else 0) = front.length - 1 := by
    rcases hfront with rfl | rfl <;> simp [peek_cons h (by decide)]
  have hr : s.peek (encode text) (front.length - 1) = some 'r' := by
    rcases hfront with rfl | rfl
    · exact peek_cons h (by decide)
    · exact (peek_one_eq_some_iff h (by decide) (by decide)).2 rfl
  have hpeek : ∀ k, s.peek (encode text) (front.length - 1 + 1 + k) = byteAt (encode rest) k := by
    intro k
    rw [h.peek_eq, ← hlength, byteAt_append]
  have hloop := hash_loop hpeek
  unfold rawHashes?
  dsimp only
  have hsplit := hashes_eq rest
  generalize (rest.takeWhile (· == '#')).length = hashes at hloop hsplit
  have hquote : s.peek (encode text) (front.length - 1 + 1 + hashes) = some '"' ↔
      (rest.drop hashes).head? = some '"' := by
    have hbyte := byteAt_append (List.replicate hashes '#') (rest.drop hashes) 0
    rw [length_encode_replicate (by decide), ← hsplit, Nat.add_zero] at hbyte
    rw [hpeek, hbyte, byteAt_eq_some_iff (by decide)]
  by_cases hopen : (rest.drop hashes).head? = some '"'
  · obtain ⟨inner, hinner⟩ := List.head?_eq_some_iff.1 hopen
    have hafter : rest.drop (hashes + 1) = inner := by rw [← List.drop_drop, hinner]; rfl
    have hmarks : Plain (List.replicate hashes '#') := by
      intro c hc
      rw [List.eq_of_mem_replicate hc]
      decide
    have hopening : Plain (front ++ (List.replicate hashes '#' ++ ['"'])) := hplain.append (hmarks.append (by decide))
    have hquoted : Plain ['"'] := by decide
    have hclosing : Plain ('"' :: List.replicate hashes '#') := hquoted.append hmarks
    have hlength : (front ++ (List.replicate hashes '#' ++ ['"'])).length = front.length - 1 + 2 + hashes := by
      have : front.length ≠ 0 := by rcases hfront with rfl | rfl <;> simp
      simp only [List.length_append, List.length_replicate, List.length_singleton]
      omega
    have hrun : rawString? (encode text) s = some <$> (finish .string .string s.position <$>
        readRaw (encode text) ('"' :: List.replicate hashes '#')
          (s.advance (encode text) (front ++ (List.replicate hashes '#' ++ ['"'])).length)) := by
      rw [hlength]
      simp [rawString?, hmark, hr, hloop, hquote.2 hopen]
    have hscan : (scanRaw hashes rest).map (fun (role, length) => (role, length + (front.length - 1)))
        = literal .string .string (fun content => (front ++ (List.replicate hashes '#' ++ ['"'])).length
          + content.length + ('"' :: List.replicate hashes '#').length - 1)
          (Text.before? ('"' :: List.replicate hashes '#') inner) := by
      rw [scanRaw, raw?, hafter, hlength]
      cases Text.before? ('"' :: List.replicate hashes '#') inner with
      | none => rfl
      | some content =>
        simp only [Except.map, literal, Except.ok.injEq, Prod.mk.injEq, true_and, List.length_cons,
          List.length_replicate]
        omega
    have htext : front ++ rest = (front ++ (List.replicate hashes '#' ++ ['"'])) ++ inner := by
      rw [hsplit, hinner]
      simp
    rw [if_pos hopen]
    refine ⟨_, hrun, ?_⟩
    rw [hscan, htext]
    rw [htext] at h
    exact readRaw_gives _ _ hopening hclosing (by simp) (by simp) h .string .string
  · have hne : s.peek (encode text) (front.length - 1 + 1 + hashes) ≠ some '"' := fun hp => hopen (hquote.1 hp)
    rw [if_neg hopen]
    simp [rawString?, hmark, hr, hloop, hne]

theorem rawString?_eq_none (h : At text ('b' :: rest) s.position) (hrest : rest.head? ≠ some 'r') :
    rawString? (encode text) s = pure none := by
  have hone := peek_one_eq_some_iff h (by decide) (a := 'r') (by decide)
  simp [rawString?, peek_cons h (by decide), hone, hrest]

/-! ## Words, numbers and signs -/

theorem take_length_takeWhile (p : Char → Bool) (rest : List Char) :
    rest.take (rest.takeWhile p).length = rest.takeWhile p :=
  (List.prefix_iff_eq_take.1 (List.takeWhile_prefix p)).symm

theorem lexWord_gives (h : At text (c :: rest) s.position) (hc : isWordStart c = true) :
    Gives text (c :: rest) s (scanWord c rest) (lexWord (encode text) s) := by
  obtain ⟨t, ht, hpasses⟩ := skipWord_eq h
  have hslice := hpasses.slice h
  have hword : (c :: rest).takeWhile isWordPart = c :: rest.takeWhile isWordPart :=
    List.takeWhile_cons_of_pos (isWordPart_of_isWordStart hc)
  rw [take_length_takeWhile, hword] at hslice
  rw [hword] at hpasses
  refine ⟨t, hpasses, ?_⟩
  simp [lexWord, ht, hslice, Reader.mark]

theorem lexNumber_gives (h : At text (c :: rest) s.position) (hc : c.isDigit = true) :
    Gives text (c :: rest) s (scanNumber d c rest) (lexNumber d (encode text) s) := by
  obtain ⟨t, ht, hpasses⟩ := number_loop (d := d) h
  have hslice := hpasses.slice h
  have hlength : numberLength d (c :: rest) = numberLength d rest + 1 := by
    rw [numberLength, if_pos (by simp [isWordPart_of_isDigit hc])]
  rw [hlength] at hpasses hslice
  refine ⟨t, hpasses, ?_⟩
  simp [lexNumber, ht, hslice, Reader.mark]

theorem lexOther_gives (h : At text (c :: rest) s.position) (hc : ¬IsWide c) (hline : endsLine c = false) :
    Gives text (c :: rest) s (single (.punctuation c)) (lexOther (encode text) s) := by
  refine ⟨s.pass [c], .of_between (.of_not_endsLine hline rest) h, ?_⟩
  simp [lexOther, h.slice_end, Reader.mark, Reader.pass, after_one, hline, utf8Size_ascii hc, Position.sameLine]

theorem sign_gives (front : List Char) (kind : Kind) (h : At text (front ++ rest) s.position)
    (hfront : Plain front) {n : Nat} (hn : front.length = n + 1) :
    Gives text (front ++ rest) s (.ok (.token kind, n)) (pure (sign (encode text) kind (n + 1) s)) := by
  have hpass := Passes.advance h hfront
  rw [hn] at hpass
  exact ⟨_, hpass, rfl⟩

theorem lexQuote_gives (h : At text ('\'' :: rest) s.position) :
    Gives text ('\'' :: rest) s (scanQuote d rest) (lexQuote d (encode text) s) := by
  have hb : Between ['\''] rest := .of_not_endsLine rfl _
  have hstep := h.step (by decide) hb
  have hafter := At.pass h hb
  have hslice : slice (encode text) (s.position.offset + 1) (encode text).length = pure (.ofList rest) :=
    hafter.slice_end
  have hfirst : (s.peek (encode text) 1).any isWordStart = rest.head?.any isWordStart :=
    any_peek_one h (by decide) fun a ha => isWordStart_of_isWide ha
  have hsecond : rest.head?.any isWordStart = true →
      (s.peek (encode text) (1 + (rest.head?.map Char.utf8Size).getD 1) = some '\'' ↔
        rest.tail.head? = some '\'') := by
    intro hword
    cases rest with
    | nil => cases hword
    | cons a more =>
      have hbyte := byteAt_append ['\'', a] more 0
      have hlength : (encode ['\'', a]).length = 1 + a.utf8Size := by
        simp [encode, encode_ascii (c := '\'') (by decide)]
        omega
      rw [hlength, Nat.add_zero] at hbyte
      rw [h.peek_eq]
      show byteAt (encode (['\'', a] ++ more)) (1 + a.utf8Size) = _ ↔ _
      rw [hbyte, byteAt_eq_some_iff (by decide)]
      rfl
  have hlexQuote : lexQuote d (encode text) s =
      if d = .rust ∧ rest.head?.any isWordStart ∧
          s.peek (encode text) (1 + (rest.head?.map Char.utf8Size).getD 1) ≠ some '\'' then do
        let t ← skipWord (encode text) (s.pass ['\''])
        let name ← slice (encode text) (s.pass ['\'']).position.offset t.position.offset
        pure (t.emit (.lifetime name) s.position)
      else finish .character .character s.position <$> readQuoted (encode text) '\'' s := by
    simp only [lexQuote, hslice, pure_bind, String.toList_ofList, hfirst, hstep]
  rw [hlexQuote, scanQuote]
  by_cases hname : d = .rust ∧ rest.head?.any isWordStart = true ∧ rest.tail.head? ≠ some '\''
  · obtain ⟨rfl, hword, hnot⟩ := hname
    obtain ⟨t, ht, hpasses⟩ := skipWord_eq hafter
    have hname := hpasses.slice hafter
    rw [take_length_takeWhile] at hname
    have hmodel : (Dialect.rust == .rust && rest.head?.any isWordStart && rest.tail.head? != some '\'') = true := by
      rw [hword]
      exact bne_iff_ne.2 hnot
    rw [if_pos hmodel, if_pos ⟨rfl, hword, fun hp => hnot ((hsecond hword).1 hp)⟩]
    have hall := (Passes.of_between hb h).trans hpasses
    rw [List.length_singleton, Nat.add_comm] at hall
    refine ⟨t, hall, ?_⟩
    rw [ht, pure_bind, hname, pure_bind]
    rfl
  · rw [if_neg, if_neg]
    · exact quoted_gives (by decide) (by decide) (by decide) h .character .character
    · rintro ⟨rfl, hword, hnot⟩
      exact hname ⟨rfl, hword, fun hp => hnot ((hsecond hword).2 hp)⟩
    · intro hboth
      simp only [Bool.and_eq_true, beq_iff_eq, bne_iff_ne] at hboth
      exact hname ⟨hboth.1.1, hboth.1.2, hboth.2⟩

/-! ## Tokens -/

theorem scanLetter_eq_scanWord
    (h : ¬(d = .rust ∧ (c = 'r' ∨ c = 'b' ∧ (rest.head? = some 'r' ∨ rest.head? = some '"')))) :
    scanLetter d c rest = scanWord c rest := by
  unfold scanLetter
  split
  · exact absurd ⟨rfl, .inl rfl⟩ h
  · exact absurd ⟨rfl, .inr ⟨rfl, .inl rfl⟩⟩ h
  · exact absurd ⟨rfl, .inr ⟨rfl, .inr rfl⟩⟩ h
  · rfl

theorem scanLetter_byteRaw (inner : List Char) :
    scanLetter .rust 'b' ('r' :: inner) = match rawHashes? inner with
      | some hashes => (scanRaw hashes inner).map fun (role, length) => (role, length + 1)
      | none => scanWord 'b' ('r' :: inner) := rfl

theorem scanLetter_raw (rest : List Char) :
    scanLetter .rust 'r' rest = match rawHashes? rest with
      | some hashes => scanRaw hashes rest
      | none => scanWord 'r' rest := rfl

theorem scanRaw_map_zero (hashes : Nat) (rest : List Char) :
    (scanRaw hashes rest).map (fun (role, length) => (role, length + (['r'].length - 1)))
      = scanRaw hashes rest := by
  cases scanRaw hashes rest <;> rfl

/-- What starts with a letter, a digit or any other sign, and is no raw string. -/
theorem lexRest_of_not_raw (h : At text (c :: rest) s.position) (hc : ¬IsWide c)
    (hline : endsLine c = false) (hbyte : ¬(d = .rust ∧ c = 'b' ∧ rest.head? = some '"'))
    {raw? : Run (Option Reader)} (hraw : raw? = pure none) :
    Gives text (c :: rest) s
      (if isWordStart c then scanWord c rest else if c.isDigit then scanNumber d c rest
        else single (.punctuation c))
      (do
        match ← raw? with
        | some t => pure t
        | none =>
          if d = .rust ∧ c = 'b' ∧ s.peek (encode text) 1 = some '"' then
            lexString d (encode text) (s.step (encode text))
          else if isWordStart c then lexWord (encode text) s
          else if c.isDigit then lexNumber d (encode text) s
          else lexOther (encode text) s) := by
  subst hraw
  have hnot : ¬(d = .rust ∧ c = 'b' ∧ s.peek (encode text) 1 = some '"') := by
    rintro ⟨hd, hb, hpeek⟩
    exact hbyte ⟨hd, hb, (peek_one_eq_some_iff h hc (by decide)).1 hpeek⟩
  rw [pure_bind]
  dsimp only
  rw [if_neg hnot]
  by_cases hstart : isWordStart c = true
  · rw [if_pos hstart, if_pos hstart]
    exact lexWord_gives h hstart
  · rw [if_neg hstart, if_neg hstart]
    by_cases hdigit : c.isDigit = true
    · rw [if_pos hdigit, if_pos hdigit]
      exact lexNumber_gives h hdigit
    · rw [if_neg hdigit, if_neg hdigit]
      exact lexOther_gives h hc hline

/-- What starts with a letter, a digit or any other sign. A byte string of Rust is found by its letter alone. -/
theorem lexRest_gives (h : At text (c :: rest) s.position) (hc : ¬IsWide c) (hline : endsLine c = false)
    (hbyte : ¬(d = .rust ∧ c = 'b' ∧ rest.head? = some '"')) :
    Gives text (c :: rest) s
      (if isWordStart c then scanLetter d c rest else if c.isDigit then scanNumber d c rest
        else single (.punctuation c))
      (lexRest d (encode text) c s) := by
  unfold lexRest
  by_cases hraw : d = .rust ∧ (c = 'b' ∨ c = 'r')
  · rw [if_pos hraw]
    obtain ⟨rfl, rfl | rfl⟩ := hraw
    · rw [if_pos (by decide)]
      by_cases hr : rest.head? = some 'r'
      · obtain ⟨inner, rfl⟩ := List.head?_eq_some_iff.1 hr
        have hfound := rawString?_eq ['b', 'r'] (.inr rfl) h
        rw [scanLetter_byteRaw]
        cases hhashes : rawHashes? inner with
        | none =>
          rw [hhashes] at hfound
          exact lexRest_of_not_raw h hc hline hbyte hfound
        | some hashes =>
          rw [hhashes] at hfound
          obtain ⟨run, hrun, hgives⟩ := hfound
          rw [hrun]
          simpa using hgives
      · rw [scanLetter_eq_scanWord (by simpa [hr] using hbyte)]
        exact lexRest_of_not_raw h hc hline hbyte (rawString?_eq_none h hr)
    · rw [if_pos (by decide)]
      have hfound := rawString?_eq ['r'] (.inl rfl) h
      rw [scanLetter_raw]
      cases hhashes : rawHashes? rest with
      | none =>
        rw [hhashes] at hfound
        exact lexRest_of_not_raw h hc hline hbyte hfound
      | some hashes =>
        rw [hhashes] at hfound
        obtain ⟨run, hrun, hgives⟩ := hfound
        rw [scanRaw_map_zero] at hgives
        rw [hrun]
        simpa using hgives
  · rw [if_neg hraw, scanLetter_eq_scanWord]
    · exact lexRest_of_not_raw h hc hline hbyte rfl
    · rintro ⟨hd, hc | ⟨hc, -⟩⟩
      · exact hraw ⟨hd, .inr hc⟩
      · exact hraw ⟨hd, .inl hc⟩

theorem lexToken_gives (h : At text (c :: rest) s.position) (hc : ¬IsWide c) (hline : endsLine c = false)
    (hbyte : ¬(d = .rust ∧ c = 'b' ∧ rest.head? = some '"')) :
    Gives text (c :: rest) s (scanToken d c rest) (lexToken d (encode text) c s) := by
  unfold lexToken
  split
  case h_17 =>
    have hone := peek_one_eq_some_iff h (by decide) (a := ':') (by decide)
    by_cases hsecond : rest.head? = some ':'
    · obtain ⟨more, rfl⟩ := List.head?_eq_some_iff.1 hsecond
      rw [if_pos (hone.2 rfl)]
      exact sign_gives [':', ':'] _ h (by decide) rfl
    · have hscan : scanToken d ':' rest = single .colon := if_neg hsecond
      rw [hscan, if_neg fun hp => hsecond (hone.1 hp)]
      exact sign_gives [':'] _ h (by decide) rfl
  case h_18 =>
    have hone := peek_one_eq_some_iff h (by decide) (a := '>') (by decide)
    by_cases hsecond : rest.head? = some '>'
    · obtain ⟨more, rfl⟩ := List.head?_eq_some_iff.1 hsecond
      rw [if_pos (hone.2 rfl)]
      exact sign_gives ['-', '>'] _ h (by decide) rfl
    · have hscan : scanToken d '-' rest = single (.punctuation '-') := if_neg hsecond
      rw [hscan, if_neg fun hp => hsecond (hone.1 hp)]
      exact sign_gives ['-'] _ h (by decide) rfl
  case h_19 => exact lexString_gives h
  case h_20 => exact lexQuote_gives h
  case h_21 =>
    have hscan : scanToken d c rest =
        if d == .kotlin && c == '\x60' then scanQuoted '\x60' .string .identifier rest
        else if isWordStart c then scanLetter d c rest
        else if c.isDigit then scanNumber d c rest
        else single (.punctuation c) := by
      unfold scanToken
      split <;> first | contradiction | rfl
    rw [hscan]
    by_cases hname : d = .kotlin ∧ c = '\x60'
    · obtain ⟨rfl, rfl⟩ := hname
      rw [if_pos (by decide), if_pos ⟨rfl, rfl⟩]
      exact quoted_gives (by decide) (by decide) (by decide) h .identifier .string
    · rw [if_neg (by simpa using hname), if_neg hname]
      exact lexRest_gives h hc hline hbyte
  all_goals exact sign_gives [_] _ h (by decide) rfl

/-- A character from outside ASCII starts a word, and so do its first byte. -/
theorem lexToken_gives_of_isWide {b : Char} (h : At text (c :: rest) s.position) (hc : IsWide c) (hb : IsWide b) :
    Gives text (c :: rest) s (scanToken d c rest) (lexToken d (encode text) b s) := by
  have hscan : scanToken d c rest = scanWord c rest := by
    have hrest : scanToken d c rest =
        if d == .kotlin && c == '\x60' then scanQuoted '\x60' .string .identifier rest
        else if isWordStart c then scanLetter d c rest
        else if c.isDigit then scanNumber d c rest
        else single (.punctuation c) := by
      unfold scanToken
      split <;> first | exact absurd hc (by decide) | rfl
    have hquote := hc.ne (c := '\x60') (by decide)
    rw [hrest, if_neg (by simp [hquote]), if_pos (isWordStart_of_isWide hc), scanLetter_eq_scanWord]
    rintro ⟨-, rfl | ⟨rfl, -⟩⟩ <;> exact absurd hc (by decide)
  have hlex : lexToken d (encode text) b s = lexWord (encode text) s := by
    have hquote := hb.ne (c := '\x60') (by decide)
    have hletter : ¬(d = .rust ∧ (b = 'b' ∨ b = 'r')) := by
      rintro ⟨-, rfl | rfl⟩ <;> exact absurd hb (by decide)
    have hbyte : ¬(d = .rust ∧ b = 'b' ∧ s.peek (encode text) 1 = some '"') := fun hp => hletter ⟨hp.1, .inl hp.2.1⟩
    unfold lexToken
    split
    case h_21 =>
      rw [if_neg fun hp => hquote hp.2, lexRest, if_neg hletter, pure_bind]
      dsimp only
      rw [if_neg hbyte, if_pos (isWordStart_of_isWide hb)]
    all_goals exact absurd hb (by decide)
  rw [hscan, hlex]
  exact lexWord_gives h (isWordStart_of_isWide hc)

/-! ## Rounds -/

/-- What a block comment is found to be, given how far its end is behind its opening. -/
def blockComment : Option Nat → Except Unclosed Reach
  | some length => .ok (.blockComment, length + 1)
  | none => .error .comment

theorem skipComment_gives (h : At text ('/' :: '*' :: rest) s.position) :
    Gives text ('/' :: '*' :: rest) s (blockComment (commentLength? (d != .c) 0 rest))
      (skipComment d (encode text) s) := by
  have hpass : Passes text (['/', '*'] ++ rest) 2 s (s.advance (encode text) 2) := .advance h (by decide)
  have hround : commentRound d (encode text) s.position (0, s) = pure (.inl (1, s.advance (encode text) 2)) := by
    simp [commentRound, h.isAtEnd, peek_cons h (by decide),
      (peek_one_eq_some_iff h (by decide) (a := '*') (by decide)).2 rfl]
  have hinside : At text rest (s.advance (encode text) 2).position := hpass.at_rest
  obtain ⟨t, hpasses, ht⟩ := comment_loop (d := d) s.position 0 hinside
  have hall := hpass.trans hpasses
  have hrun : skipComment d (encode text) s = pure (if (commentLength? (d != .c) 0 rest).isSome then t
      else t.fail .comment s.position) := (loop_next hround).trans ht
  rw [hrun]
  cases hlength : commentLength? (d != .c) 0 rest with
  | none =>
    rw [hlength, Nat.add_comm] at hall
    exact ⟨t, hall, rfl⟩
  | some length =>
    rw [hlength, Nat.add_comm] at hall
    exact ⟨t, hall, rfl⟩

theorem endsLine_of_isBlank (h : isBlank c = false) : endsLine c = false := by
  simp only [isBlank, Bool.or_eq_false_iff] at h
  rw [endsLine, h.1.1.2, h.1.2, Bool.or_self]

theorem isBlank_of_isWide (h : IsWide c) : isBlank c = false := by
  cases hblank : isBlank c with
  | false => rfl
  | true =>
    simp only [isBlank, Bool.or_eq_true, beq_iff_eq] at hblank
    rcases hblank with (((rfl | rfl) | rfl) | rfl) | rfl <;> exact absurd h (by decide)

theorem skipLine_gives (h : At text ('/' :: '/' :: rest) s.position) :
    Gives text ('/' :: '/' :: rest) s (.ok (.lineComment, (('/' :: rest).takeWhile (!endsLine ·)).length))
      (skipLine (encode text) s) := by
  obtain ⟨t, ht, hpasses⟩ := skipLine_eq h
  exact ⟨t, hpasses, ht⟩

theorem skipDirective_gives (h : At text ('#' :: rest) s.position) :
    Gives text ('#' :: rest) s (.ok (.directive, directiveLength rest)) (skipDirective (encode text) s) := by
  obtain ⟨t, ht, hpasses⟩ := skipDirective_eq h
  rw [directiveLength_cons (by simp), if_neg (by decide)] at hpasses
  exact ⟨t, hpasses, ht⟩

/-- What starts here is gone over in one round, but for a row of blanks and the letter of a byte string. -/
theorem round_eq (h : At text (c :: rest) s.position) (hblank : isBlank c = false)
    (hbyte : ¬(d = .rust ∧ c = 'b' ∧ rest.head? = some '"')) :
    ∃ run, round d (encode text) s = .inl <$> run ∧
      Gives text (c :: rest) s (scan d (!s.lineHasToken) c rest) run := by
  by_cases hc : IsWide c
  · obtain ⟨b, hb, hwide⟩ := byteAt_wide hc rest
    rw [← h.peek_eq] at hb
    have hscan : scan d (!s.lineHasToken) c rest = scanToken d c rest := by
      simp [scan, hblank, hc.ne (c := '/') (by decide), hc.ne (c := '#') (by decide)]
    refine ⟨lexToken d (encode text) b s, ?_, ?_⟩
    · simp [round, hb, isBlank_of_isWide hwide, hwide.ne (c := '/') (by decide), hwide.ne (c := '#') (by decide)]
    · rw [hscan]
      exact lexToken_gives_of_isWide h hc hwide
  · have hslash := peek_one_eq_some_iff h hc (a := '/') (by decide)
    have hstar := peek_one_eq_some_iff h hc (a := '*') (by decide)
    have hround : round d (encode text) s = .inl <$>
        if c = '/' ∧ rest.head? = some '/' then skipLine (encode text) s
        else if c = '/' ∧ rest.head? = some '*' then skipComment d (encode text) s
        else if c = '#' ∧ d = .c ∧ s.lineHasToken = false then skipDirective (encode text) s
        else lexToken d (encode text) c s := by
      simp only [round, peek_cons h hc, hblank, hslash, hstar, Bool.false_eq_true, if_false]
    have hscan : scan d (!s.lineHasToken) c rest =
        if c = '/' ∧ rest.head? = some '/' then .ok (.lineComment, (rest.takeWhile (!endsLine ·)).length)
        else if c = '/' ∧ rest.head? = some '*' then blockComment (commentLength? (d != .c) 0 rest.tail)
        else if c = '#' ∧ d = .c ∧ s.lineHasToken = false then .ok (.directive, directiveLength rest)
        else scanToken d c rest := by
      simp only [scan, hblank, Bool.false_eq_true, if_false, Bool.and_eq_true, beq_iff_eq, and_assoc,
        Bool.not_eq_true']
      rfl
    refine ⟨_, hround, ?_⟩
    rw [hscan]
    by_cases hline : c = '/' ∧ rest.head? = some '/'
    · rw [if_pos hline, if_pos hline]
      obtain ⟨rfl, hnext⟩ := hline
      obtain ⟨more, rfl⟩ := List.head?_eq_some_iff.1 hnext
      exact skipLine_gives h
    rw [if_neg hline, if_neg hline]
    by_cases hcomment : c = '/' ∧ rest.head? = some '*'
    · rw [if_pos hcomment, if_pos hcomment]
      obtain ⟨rfl, hnext⟩ := hcomment
      obtain ⟨more, rfl⟩ := List.head?_eq_some_iff.1 hnext
      exact skipComment_gives h
    rw [if_neg hcomment, if_neg hcomment]
    by_cases hdirective : c = '#' ∧ d = .c ∧ s.lineHasToken = false
    · rw [if_pos hdirective, if_pos hdirective]
      obtain ⟨rfl, -⟩ := hdirective
      exact skipDirective_gives h
    rw [if_neg hdirective, if_neg hdirective]
    exact lexToken_gives h hc (endsLine_of_isBlank hblank) hbyte

theorem byteString_round (h : At text ('b' :: '"' :: rest) s.position) :
    round .rust (encode text) s = round .rust (encode text) (s.pass ['b']) := by
  have hb : Between ['b'] ('"' :: rest) := .of_not_endsLine rfl _
  have hafter := At.pass h hb
  have hone := (peek_one_eq_some_iff h (by decide) (a := '"') (by decide)).2 rfl
  have hletter : round .rust (encode text) s = .inl <$> lexString .rust (encode text) (s.pass ['b']) := by
    have hraw := rawString?_eq_none h (by simp)
    rw [← h.step (by decide) hb]
    simp [round, peek_cons h (by decide), isBlank, lexToken, lexRest, hraw, hone]
  have hquote : round .rust (encode text) (s.pass ['b']) = .inl <$> lexString .rust (encode text) (s.pass ['b']) := by
    simp [round, peek_cons hafter (by decide), isBlank, lexToken]
  rw [hletter, hquote]

end Scanner

end ForeignModule.Bounds
