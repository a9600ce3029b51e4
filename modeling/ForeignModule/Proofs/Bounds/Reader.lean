import ForeignModule.Proofs.Bounds.Run
import ForeignModule.Proofs.Text.Utf8
import ForeignModule.Token.Listing

/-!
# Reading a text by byte offsets

The reader stands at a byte of a text and goes on byte by byte, counting lines and columns on its way. It can
stand inside of a character, and a stretch of text cannot be taken from there.

`At text rest p` says that `p` is a place between two characters, with `rest` behind it, and not between the
two characters of one line end. From such a place:

* the bytes ahead are those of `rest` (`At.drop_offset`), and the text up to a later such place can be taken
  (`At.slice`);
* one step passes a character of one byte (`At.step`) and a line end of two (`At.step_crlf`);
* a loop that goes on at every byte from outside ASCII passes a longer character as a whole (`loop_step_wide`).
-/

namespace ForeignModule.Bounds

/-! ## Bytes and stretches of text -/

/-- A byte, as the character with its number. Bytes of longer characters become characters outside ASCII. -/
def byteAt (bytes : List UInt8) (i : Nat) : Option Char := bytes[i]?.map Char.ofUInt8

/-- Does no character stand across this offset? -/
def isBoundary (bytes : List UInt8) (i : Nat) : Bool :=
  match bytes[i]? with
  | some b => !Text.continues b
  | none => i == bytes.length

/-- The text between two offsets. -/
def slice (bytes : List UInt8) (start stop : Nat) : Run String :=
  if start ≤ stop ∧ isBoundary bytes start ∧ isBoundary bytes stop then
    match Text.decode? ((bytes.drop start).take (stop - start)) with
    | some text => pure text
    | none => throw .slice
  else throw .slice

/-! ## The reader -/

/-- A reader of a text, with what it has found so far. -/
structure Reader where
  position : Position := {}
  lineHasToken : Bool := false
  tokens : List Token := []
  errors : List UnclosedError := []

namespace Reader

/-- The byte so many bytes ahead. -/
def peek (bytes : List UInt8) (s : Reader) (ahead : Nat) : Option Char := byteAt bytes (s.position.offset + ahead)

/-- Is no byte left? -/
def isAtEnd (bytes : List UInt8) (s : Reader) : Bool := bytes.length ≤ s.position.offset

/-- Goes on by a byte, or by two at a line end of two. At the end it stays. -/
def step (bytes : List UInt8) (s : Reader) : Reader :=
  match s.peek bytes 0 with
  | none => s
  | some b =>
    if b = '\r' then
      let length := if s.peek bytes 1 = some '\n' then 2 else 1
      { s with position := s.position.nextLine length, lineHasToken := false }
    else if b = '\n' then { s with position := s.position.nextLine 1, lineHasToken := false }
    else { s with position := s.position.sameLine 1 }

/-- Goes on by so many steps. -/
def advance (bytes : List UInt8) : Nat → Reader → Reader
  | 0, s => s
  | n + 1, s => advance bytes n (s.step bytes)

/-- Adds a token that starts at `start` and ends here. -/
def emit (kind : Token.Kind) (start : Position) (s : Reader) : Reader :=
  { s with
    tokens := s.tokens ++ [{ kind, span := ⟨start, s.position.offset⟩, startsLine := !s.lineHasToken }]
    lineHasToken := true }

/-- Adds the error that what opens at `start` is not closed up to here. -/
def fail (what : Unclosed) (start : Position) (s : Reader) : Reader :=
  { s with errors := s.errors ++ [{ what, span := ⟨start, s.position.offset⟩ }] }

/-- The reader behind a text. -/
def pass (s : Reader) (text : List Char) : Reader :=
  { s with position := s.position.after text, lineHasToken := s.lineHasToken && !text.any endsLine }

theorem isAtEnd_of_peek {bytes : List UInt8} {s : Reader} {b : Char} (h : s.peek bytes 0 = some b) :
    s.isAtEnd bytes = false := by
  rw [peek, byteAt, Option.map_eq_some_iff] at h
  obtain ⟨a, ha, -⟩ := h
  have := (List.getElem?_eq_some_iff.1 ha).1
  simpa [isAtEnd] using this

@[simp] theorem pass_nil (s : Reader) : s.pass [] = s := by
  simp [pass, Position.after]

@[simp] theorem tokens_pass (s : Reader) (text : List Char) : (s.pass text).tokens = s.tokens := rfl

@[simp] theorem errors_pass (s : Reader) (text : List Char) : (s.pass text).errors = s.errors := rfl

@[simp] theorem position_pass (s : Reader) (text : List Char) :
    (s.pass text).position = s.position.after text := rfl

@[simp] theorem position_emit (s : Reader) (kind : Token.Kind) (start : Position) :
    (s.emit kind start).position = s.position := rfl

end Reader

/-! ## Characters in bytes -/

/-- The bytes of a text. -/
def encode (text : List Char) : List UInt8 := text.flatMap String.utf8EncodeChar

@[simp] theorem encode_nil : encode [] = [] := rfl

theorem encode_cons (c : Char) (rest : List Char) : encode (c :: rest) = String.utf8EncodeChar c ++ encode rest := rfl

@[simp] theorem encode_append (front rest : List Char) : encode (front ++ rest) = encode front ++ encode rest :=
  List.flatMap_append

theorem length_encode (source : String) : (encode source.toList).length = source.utf8ByteSize := by
  rw [encode, ← List.size_toByteArray, ← List.utf8Encode, ← String.toByteArray_ofList, String.ofList_toList]
  rfl

theorem decode?_encode (text : List Char) : Text.decode? (encode text) = some (.ofList text) := by
  have h := Text.decode?_bytes (.ofList text)
  rwa [Text.bytes, String.toList_ofList] at h

/-- Does the character take more than one byte? -/
def IsWide (c : Char) : Prop := 0x80 ≤ c.val

instance (c : Char) : Decidable (IsWide c) := inferInstanceAs (Decidable (0x80 ≤ c.val))

theorem isWide_iff {c : Char} : IsWide c ↔ 0x80 ≤ c.val.toNat := UInt32.le_iff_toNat_le

theorem IsWide.ne {a c : Char} (ha : IsWide a) (hc : ¬IsWide c) : a ≠ c := by
  rintro rfl
  exact hc ha

theorem encode_ascii {c : Char} (h : ¬IsWide c) : String.utf8EncodeChar c = [c.toUInt8] := by
  rw [isWide_iff] at h
  rw [String.utf8EncodeChar, if_pos (by omega)]
  rfl

theorem utf8Size_ascii {c : Char} (h : ¬IsWide c) : c.utf8Size = 1 := by
  rw [← String.length_utf8EncodeChar, encode_ascii h, List.length_singleton]

theorem continues_ascii {c : Char} (h : ¬IsWide c) : Text.continues c.toUInt8 = false := by
  rw [isWide_iff] at h
  have htoNat : c.toUInt8.toNat = c.val.toNat % 256 := UInt32.toNat_toUInt8 c.val
  simp only [Text.continues, Bool.and_eq_false_iff, decide_eq_false_iff_not, UInt8.le_iff_toNat_le, htoNat]
  left
  show ¬128 ≤ c.val.toNat % 256
  omega

theorem ofUInt8_toUInt8 {c : Char} (h : ¬IsWide c) : Char.ofUInt8 c.toUInt8 = c := by
  rw [isWide_iff] at h
  apply Char.ext
  rw [← UInt32.toNat_inj]
  show c.val.toUInt8.toUInt32.toNat = c.val.toNat
  rw [UInt8.toNat_toUInt32, UInt32.toNat_toUInt8]
  omega

theorem isWide_ofUInt8 {b : UInt8} (h : 0x80 ≤ b.toNat) : IsWide (Char.ofUInt8 b) := by
  rw [isWide_iff]
  show 0x80 ≤ b.toUInt32.toNat
  rw [UInt8.toNat_toUInt32]
  exact h

/-- No character starts with a byte that continues one, and the bytes of a longer one are outside ASCII. -/
theorem exists_encode {c : Char} (h : IsWide c) : ∃ first more, String.utf8EncodeChar c = first :: more ∧
    Text.continues first = false ∧ ∀ b ∈ first :: more, IsWide (Char.ofUInt8 b) := by
  rw [isWide_iff] at h
  have hvalid : c.val.toNat < 0xd800 ∨ 0xdfff < c.val.toNat ∧ c.val.toNat < 0x110000 := c.valid
  have hfirst : ∀ n, 0xc0 ≤ n → n < 256 →
      Text.continues (UInt8.ofNat n) = false ∧ IsWide (Char.ofUInt8 (UInt8.ofNat n)) := by
    intro n hn hlt
    have htoNat : (UInt8.ofNat n).toNat = n := by
      rw [UInt8.toNat_ofNat']
      omega
    constructor
    · simp only [Text.continues, Bool.and_eq_false_iff, decide_eq_false_iff_not, UInt8.le_iff_toNat_le, htoNat]
      right
      show ¬n ≤ 191
      omega
    · exact isWide_ofUInt8 (by omega)
  have hmore : ∀ n, IsWide (Char.ofUInt8 (UInt8.ofNat (n % 64 + 128))) := by
    intro n
    apply isWide_ofUInt8
    rw [Text.toNat_continuing]
    omega
  have hall : ∀ {first : UInt8} {more : List UInt8}, IsWide (Char.ofUInt8 first) →
      (∀ b ∈ more, ∃ n, b = UInt8.ofNat (n % 64 + 128)) → ∀ b ∈ first :: more, IsWide (Char.ofUInt8 b) := by
    intro first more hfirst hmore' b hb
    rcases List.mem_cons.1 hb with rfl | hb
    · exact hfirst
    · obtain ⟨n, rfl⟩ := hmore' b hb
      exact hmore n
  rw [String.utf8EncodeChar, if_neg (by omega)]
  split
  · obtain ⟨hc, hw⟩ := hfirst (c.val.toNat / 64 % 32 + 192) (by omega) (by omega)
    refine ⟨_, _, rfl, hc, hall hw ?_⟩
    rintro b hb
    exact ⟨_, List.mem_singleton.1 hb⟩
  · split
    · obtain ⟨hc, hw⟩ := hfirst (c.val.toNat / 4096 % 16 + 224) (by omega) (by omega)
      refine ⟨_, _, rfl, hc, hall hw ?_⟩
      rintro b hb
      rcases List.mem_cons.1 hb with rfl | hb
      · exact ⟨_, rfl⟩
      · exact ⟨_, List.mem_singleton.1 hb⟩
    · obtain ⟨hc, hw⟩ := hfirst (c.val.toNat / 262144 % 8 + 240) (by omega) (by omega)
      refine ⟨_, _, rfl, hc, hall hw ?_⟩
      rintro b hb
      rcases List.mem_cons.1 hb with rfl | hb
      · exact ⟨_, rfl⟩
      · rcases List.mem_cons.1 hb with rfl | hb
        · exact ⟨_, rfl⟩
        · exact ⟨_, List.mem_singleton.1 hb⟩

/-- All characters take one byte, and none ends a line. -/
def Plain (text : List Char) : Prop := ∀ c ∈ text, ¬IsWide c ∧ endsLine c = false

instance (text : List Char) : Decidable (Plain text) :=
  decidable_of_iff (text.all (fun c => !decide (IsWide c) && !endsLine c) = true) (by simp [Plain])

theorem Plain.append {front rest : List Char} (h : Plain front) (h' : Plain rest) : Plain (front ++ rest) := by
  intro c hc
  rcases List.mem_append.1 hc with hc | hc
  · exact h c hc
  · exact h' c hc

section

variable {c : Char} {rest : List Char}

@[simp] theorem byteAt_nil (i : Nat) : byteAt (encode []) i = none := by
  simp [byteAt]

theorem byteAt_zero (h : ¬IsWide c) : byteAt (encode (c :: rest)) 0 = some c := by
  simp [byteAt, encode_cons, encode_ascii h, ofUInt8_toUInt8 h]

theorem byteAt_succ (h : ¬IsWide c) (i : Nat) : byteAt (encode (c :: rest)) (i + 1) = byteAt (encode rest) i := by
  simp [byteAt, encode_cons, encode_ascii h]

theorem byteAt_append (front rest : List Char) (i : Nat) :
    byteAt (encode (front ++ rest)) ((encode front).length + i) = byteAt (encode rest) i := by
  simp [byteAt, List.getElem?_append_right]

theorem byteAt_wide (h : IsWide c) (rest : List Char) : ∃ b, byteAt (encode (c :: rest)) 0 = some b ∧ IsWide b := by
  obtain ⟨first, more, hencode, -, hwide⟩ := exists_encode h
  refine ⟨Char.ofUInt8 first, ?_, hwide first List.mem_cons_self⟩
  simp [byteAt, encode_cons, hencode]

/-- A question about the next character is one about the next byte, if all characters from outside ASCII give the
same answer. -/
theorem any_byteAt {f : Char → Bool} {answer : Bool} (h : ∀ c, IsWide c → f c = answer) (rest : List Char) :
    (byteAt (encode rest) 0).any f = rest.head?.any f := by
  cases rest with
  | nil => rw [byteAt_nil]; rfl
  | cons c rest =>
    by_cases hc : IsWide c
    · obtain ⟨b, hb, hwide⟩ := byteAt_wide hc rest
      simp [hb, h c hc, h b hwide]
    · simp [byteAt_zero hc]

theorem byteAt_eq_some_iff (h : ¬IsWide c) : byteAt (encode rest) 0 = some c ↔ rest.head? = some c := by
  have hiff : ∀ o : Option Char, o.any (· == c) = true ↔ o = some c := by
    intro o
    cases o <;> simp
  have hwide : ∀ a, IsWide a → (a == c) = false := by
    intro a ha
    exact beq_eq_false_iff_ne.2 (ha.ne h)
  rw [← hiff, ← hiff, any_byteAt hwide]

end

/-! ## Places between characters -/

/-- The text ends, or goes on, at no place inside of a line end of two characters. -/
def Between (front rest : List Char) : Prop := front.getLast? = some '\r' → rest.head? ≠ some '\n'

theorem Between.nil (rest : List Char) : Between [] rest := nofun

theorem Between.of_not_endsLine {c : Char} (h : endsLine c = false) (rest : List Char) : Between [c] rest := by
  intro hc
  cases hc
  cases h

theorem Between.append {front rest : List Char} (h : Between front rest) (hne : front ≠ [])
    (more : List Char) : Between (more ++ front) rest := by
  intro hlast
  rw [List.getLast?_append, Option.or_of_isSome (List.getLast?_isSome.2 hne)] at hlast
  exact h hlast

/-- What a reader passes at once: a character, or a line end of two. -/
inductive Stride : List Char → List Char → Prop where
  | char {c : Char} {rest : List Char} (h : Between [c] rest) : Stride [c] rest
  | crlf (rest : List Char) : Stride ['\r', '\n'] rest

theorem Stride.between {stride rest : List Char} (h : Stride stride rest) : Between stride rest := by
  cases h with
  | char h => exact h
  | crlf => simp [Between]

theorem exists_stride (c : Char) (rest : List Char) :
    ∃ stride more, rest = stride ++ more ∧ Stride (c :: stride) more := by
  by_cases hb : Between [c] rest
  · exact ⟨[], rest, rfl, .char hb⟩
  · simp only [Between, List.getLast?_singleton, Option.some.injEq, ne_eq, Classical.not_imp, Classical.not_not,
      List.head?_eq_some_iff] at hb
    obtain ⟨rfl, more, rfl⟩ := hb
    exact ⟨['\n'], more, rfl, .crlf more⟩

theorem stride_induction {P : List Char → Prop} (nil : P [])
    (append : ∀ stride rest, Stride stride rest → P rest → P (stride ++ rest)) (text : List Char) : P text := by
  induction hn : text.length using Nat.strongRecOn generalizing text with
  | ind n ih =>
    cases text with
    | nil => exact nil
    | cons c rest =>
      obtain ⟨stride, more, rfl, hu⟩ := exists_stride c rest
      refine append _ _ hu (ih more.length ?_ more rfl)
      simp only [← hn, List.length_append, List.length_cons]
      omega

theorem after_one (p : Position) (c : Char) :
    p.after [c] = if endsLine c then p.nextLine 1 else p.sameLine c.utf8Size := by
  rw [Position.after, Position.after]
  simp

theorem after_cons {c : Char} {rest : List Char} (h : Between [c] rest) (p : Position) :
    p.after (c :: rest) = (p.after [c]).after rest := by
  have hone : ∀ text : List Char, Between [c] text → p.after (c :: text)
      = (if endsLine c then p.nextLine 1 else p.sameLine c.utf8Size).after text := by
    intro text htext
    rw [Position.after]
    rintro rest rfl rfl
    exact htext rfl rfl
  rw [hone rest h, after_one]

theorem after_append {front rest : List Char} (h : Between front rest) (p : Position) :
    p.after (front ++ rest) = (p.after front).after rest := by
  induction front using stride_induction generalizing p with
  | nil => rfl
  | append stride front hu ih =>
    have hmore : ∀ q : Position, q.after (front ++ rest) = (q.after front).after rest := by
      intro q
      cases front with
      | nil => rfl
      | cons a front => exact ih (by simpa [Between] using h) q
    cases hu with
    | crlf =>
      rw [List.append_assoc]
      exact hmore (p.nextLine 2)
    | @char c _ hc =>
      have hc' : Between [c] (front ++ rest) := by
        cases front with
        | nil => exact h
        | cons a front => exact hc
      rw [List.append_assoc, List.singleton_append, List.singleton_append, after_cons hc', after_cons hc]
      exact hmore _

theorem offset_after (p : Position) (text : List Char) :
    (p.after text).offset = p.offset + (encode text).length := by
  induction text using stride_induction generalizing p with
  | nil => rfl
  | append stride rest hu ih =>
    have hunit : (p.after stride).offset = p.offset + (encode stride).length := by
      cases hu with
      | crlf => rfl
      | @char c _ hc =>
        have hencode : (encode [c]).length = c.utf8Size := by simp [encode]
        rw [after_one, hencode]
        split
        · next hline =>
          simp only [endsLine, Bool.or_eq_true, beq_iff_eq] at hline
          rcases hline with rfl | rfl <;> rfl
        · rfl
    rw [after_append hu.between, ih, hunit, encode_append, List.length_append, Nat.add_assoc]

/-- The place `p` in a text has `rest` behind it, and stands inside of no character and no line end. -/
def At (text rest : List Char) (p : Position) : Prop :=
  ∃ front, text = front ++ rest ∧ p = ({} : Position).after front ∧ Between front rest

namespace At

variable {text rest inside : List Char} {p q : Position} {c : Char}

theorem start (text : List Char) : At text text {} := ⟨[], rfl, rfl, .nil text⟩

theorem pass {s : Reader} (h : At text (inside ++ rest) s.position) (hb : Between inside rest) :
    At text rest (s.pass inside).position := by
  obtain ⟨front, rfl, hp, hfront⟩ := h
  rw [Reader.position_pass, hp]
  cases inside with
  | nil => exact ⟨front, rfl, rfl, hfront⟩
  | cons c inside =>
    refine ⟨front ++ c :: inside, by simp, (after_append ?_ _).symm, hb.append (List.cons_ne_nil _ _) front⟩
    simpa [Between] using hfront

theorem offset_eq (h : At text rest p) : ∃ front, text = front ++ rest ∧ p.offset = (encode front).length := by
  obtain ⟨front, rfl, rfl, -⟩ := h
  exact ⟨front, rfl, by rw [offset_after]; simp⟩

theorem offset_le (h : At text rest p) : p.offset ≤ (encode text).length := by
  obtain ⟨front, rfl, hoffset⟩ := h.offset_eq
  rw [hoffset, encode_append, List.length_append]
  exact Nat.le_add_right _ _

theorem offset_nil (h : At text [] p) : p.offset = (encode text).length := by
  obtain ⟨front, rfl, hoffset⟩ := h.offset_eq
  rw [hoffset, List.append_nil]

/-- A place is told by what is behind it. -/
theorem unique (h : At text rest p) (h' : At text rest q) : p = q := by
  obtain ⟨front, rfl, rfl, -⟩ := h
  obtain ⟨front', htext, rfl, -⟩ := h'
  rw [List.append_cancel_right htext]

theorem drop_offset (h : At text rest p) : (encode text).drop p.offset = encode rest := by
  obtain ⟨front, rfl, hoffset⟩ := h.offset_eq
  rw [encode_append, hoffset, List.drop_left]

theorem getElem?_offset (h : At text rest p) (k : Nat) : (encode text)[p.offset + k]? = (encode rest)[k]? := by
  rw [← h.drop_offset, List.getElem?_drop]

theorem isBoundary (h : At text rest p) : isBoundary (encode text) p.offset = true := by
  have hget : (encode text)[p.offset]? = (encode rest)[0]? := h.getElem?_offset 0
  rw [Bounds.isBoundary, hget]
  cases rest with
  | nil =>
    obtain ⟨front, rfl, hoffset⟩ := h.offset_eq
    simp [hoffset]
  | cons c rest =>
    rw [encode_cons]
    by_cases hc : IsWide c
    · obtain ⟨first, more, hencode, hfirst, -⟩ := exists_encode hc
      simp [hencode, hfirst]
    · simp [encode_ascii hc, continues_ascii hc]

/-- The text between two places can be taken. -/
theorem slice (h : At text (inside ++ rest) p) (h' : At text rest q) :
    slice (encode text) p.offset q.offset = pure (.ofList inside) := by
  have hq : q.offset = p.offset + (encode inside).length := by
    obtain ⟨front, rfl, hp⟩ := h.offset_eq
    obtain ⟨front', htext, hq⟩ := h'.offset_eq
    rw [← List.append_assoc] at htext
    rw [hp, hq, ← List.append_cancel_right htext]
    simp
  have hinside : ((encode text).drop p.offset).take (q.offset - p.offset) = encode inside := by
    rw [h.drop_offset, encode_append, hq, Nat.add_sub_cancel_left, List.take_left]
  rw [Bounds.slice, if_pos ⟨by omega, h.isBoundary, h'.isBoundary⟩, hinside, decode?_encode]

/-- The text from a place to the end can be taken. -/
theorem slice_end (h : At text rest p) :
    Bounds.slice (encode text) p.offset (encode text).length = pure (.ofList rest) := by
  have hend : At text [] (({} : Position).after text) := ⟨text, by simp, rfl, by simp [Between]⟩
  have hoffset : (({} : Position).after text).offset = (encode text).length := by
    rw [offset_after]
    exact Nat.zero_add _
  rw [← hoffset]
  exact At.slice (by rwa [List.append_nil]) hend

theorem peek_eq {s : Reader} (h : At text rest s.position) (k : Nat) :
    s.peek (encode text) k = byteAt (encode rest) k := by
  rw [Reader.peek, byteAt, h.getElem?_offset]
  rfl

theorem isAtEnd {s : Reader} (h : At text rest s.position) : s.isAtEnd (encode text) = rest.isEmpty := by
  obtain ⟨front, rfl, hoffset⟩ := h.offset_eq
  rw [Reader.isAtEnd, hoffset, encode_append, List.length_append]
  cases rest with
  | nil => simp
  | cons c rest =>
    have := Char.utf8Size_pos c
    simp only [encode_cons, List.length_append, String.length_utf8EncodeChar, List.isEmpty_cons,
      decide_eq_false_iff_not]
    omega

theorem step {s : Reader} (h : At text (c :: rest) s.position) (hc : ¬IsWide c) (hb : Between [c] rest) :
    s.step (encode text) = s.pass [c] := by
  have hzero : s.peek (encode text) 0 = some c := by rw [h.peek_eq, byteAt_zero hc]
  have hone : s.peek (encode text) 1 = some '\n' ↔ rest.head? = some '\n' := by
    rw [h.peek_eq, byteAt_succ hc, byteAt_eq_some_iff (by decide)]
  simp only [Reader.step, hzero, hone, Reader.pass, after_one]
  by_cases hr : c = '\r'
  · subst hr
    rw [if_pos rfl, if_neg (hb rfl)]
    simp [endsLine]
  · by_cases hn : c = '\n'
    · subst hn
      simp [endsLine]
    · have hline : endsLine c = false := by simp [endsLine, hr, hn]
      simp [hr, hn, hline, utf8Size_ascii hc]

theorem step_crlf {s : Reader} (h : At text ('\r' :: '\n' :: rest) s.position) :
    s.step (encode text) = s.pass ['\r', '\n'] := by
  have hzero : s.peek (encode text) 0 = some '\r' := by rw [h.peek_eq, byteAt_zero (by decide)]
  have hone : s.peek (encode text) 1 = some '\n' := by
    rw [h.peek_eq, byteAt_succ (by decide), byteAt_zero (by decide)]
  simp [Reader.step, hzero, hone, Reader.pass, Position.after, endsLine]

theorem step_stride {s : Reader} {stride : List Char} (h : At text (c :: stride ++ rest) s.position)
    (hu : Stride (c :: stride) rest) (hc : ¬IsWide c) : s.step (encode text) = s.pass (c :: stride) := by
  cases hu with
  | crlf => exact h.step_crlf
  | char hb => exact h.step hc hb

end At

/-! ## Passing characters -/

theorem Reader.pass_append {front rest : List Char} (h : Between front rest) (s : Reader) :
    (s.pass front).pass rest = s.pass (front ++ rest) := by
  simp only [pass, after_append h, List.any_append, Bool.not_or, Bool.and_assoc]

/-- From `s` the reader has passed `n` characters of `rest` and stands at `t`. -/
structure Passes (text rest : List Char) (n : Nat) (s t : Reader) : Prop where
  eq : t = s.pass (rest.take n)
  at_rest : At text (rest.drop n) t.position
  between : Between (rest.take n) (rest.drop n)

namespace Passes

variable {text front rest : List Char} {n : Nat} {s t u : Reader}

theorem zero (h : At text rest s.position) : Passes text rest 0 s s := ⟨by rw [List.take_zero, Reader.pass_nil], h, .nil rest⟩

theorem of_between (hb : Between front rest) (h : At text (front ++ rest) s.position) :
    Passes text (front ++ rest) front.length s (s.pass front) := by
  constructor
  · rw [List.take_left]
  · rw [List.drop_left]
    exact h.pass hb
  · rw [List.take_left, List.drop_left]
    exact hb

theorem trans (h : Passes text (front ++ rest) front.length s t) (h' : Passes text rest n t u) :
    Passes text (front ++ rest) (front.length + n) s u := by
  have heq := h.eq
  have hb := h.between
  rw [List.take_left] at heq
  rw [List.take_left, List.drop_left] at hb
  have hb' : Between front (rest.take n) := by
    intro hlast
    cases n with
    | zero => simp
    | succ n =>
      cases rest with
      | nil => simp
      | cons a rest => exact hb hlast
  constructor
  · rw [h'.eq, heq, List.take_length_add_append, Reader.pass_append hb']
  · rw [List.drop_length_add_append]
    exact h'.at_rest
  · rw [List.take_length_add_append, List.drop_length_add_append]
    by_cases hempty : rest.take n = []
    · have hdrop : rest.drop n = rest := by
        rcases List.take_eq_nil_iff.1 hempty with rfl | rfl <;> simp
      rw [hempty, hdrop, List.append_nil]
      exact hb
    · exact h'.between.append hempty front

/-- The text that has been passed can be taken. -/
theorem slice (h : At text rest s.position) (h' : Passes text rest n s t) :
    Bounds.slice (encode text) s.position.offset t.position.offset = pure (.ofList (rest.take n)) := by
  rw [← List.take_append_drop n rest] at h
  exact At.slice h h'.at_rest

/-- Characters of one byte that end no line are passed one by one. -/
theorem advance (h : At text (front ++ rest) s.position) (hplain : Plain front) :
    Passes text (front ++ rest) front.length s (s.advance (encode text) front.length) := by
  induction front generalizing s with
  | nil => exact .zero h
  | cons c front ih =>
    obtain ⟨hc, hline⟩ := hplain c List.mem_cons_self
    have hb : Between [c] (front ++ rest) := .of_not_endsLine hline _
    have hone := of_between hb h
    rw [← h.step hc hb] at hone
    have hmore : At text (front ++ rest) (s.step (encode text)).position := by simpa using hone.at_rest
    have hall := hone.trans (ih hmore fun a ha => hplain a (List.mem_cons_of_mem c ha))
    rw [List.length_singleton, Nat.add_comm] at hall
    exact hall

end Passes

section

variable {α σ : Type} {text rest : List Char} {s : Reader} {c b : Char} {body : σ → Run (σ ⊕ α)} {make : Reader → σ}

/-- At a byte from outside ASCII the loop goes on with the next byte. -/
def PassesWide (bytes : List UInt8) (body : σ → Run (σ ⊕ α)) (make : Reader → σ) : Prop :=
  ∀ s b, s.peek bytes 0 = some b → IsWide b → body (make s) = pure (.inl (make (s.step bytes)))

theorem step_wide {bytes : List UInt8} (h : s.peek bytes 0 = some b) (hb : IsWide b) :
    s.step bytes = { s with position := s.position.sameLine 1 } := by
  rw [Reader.step, h]
  dsimp only
  rw [if_neg (hb.ne (by decide)), if_neg (hb.ne (by decide))]

/-- From inside of a character the loop goes on behind it. -/
theorem loop_inside (done todo : List UInt8) (h : At text (c :: rest) s.position) (hc : IsWide c)
    (hbytes : done ++ todo = String.utf8EncodeChar c) (hbody : PassesWide (encode text) body make) :
    loop body (make { s with position := s.position.sameLine done.length }) = loop body (make (s.pass [c])) := by
  obtain ⟨first, more, hencode, -, hwide⟩ := exists_encode hc
  induction todo generalizing done with
  | nil =>
    have hline : endsLine c = false := by
      simp [endsLine, hc.ne (c := '\n') (by decide), hc.ne (c := '\r') (by decide)]
    rw [List.append_nil] at hbytes
    rw [hbytes, String.length_utf8EncodeChar]
    simp [Reader.pass, after_one, hline]
  | cons b todo ih =>
    have hb : IsWide (Char.ofUInt8 b) := hwide b (by rw [← hencode, ← hbytes]; simp)
    have hpeek : ({ s with position := s.position.sameLine done.length } : Reader).peek (encode text) 0
        = some (Char.ofUInt8 b) := by
      have hget := h.getElem?_offset done.length
      rw [encode_cons, ← hbytes] at hget
      simp [Reader.peek, byteAt, Position.sameLine, hget]
    rw [loop_next (hbody _ _ hpeek hb), step_wide hpeek hb]
    have hnext := ih (done ++ [b]) (by simpa using hbytes)
    simpa [Position.sameLine, Nat.add_assoc] using hnext

/-- A step into a longer character leads behind it. -/
theorem loop_step_wide (h : At text (c :: rest) s.position) (hc : IsWide c)
    (hbody : PassesWide (encode text) body make) :
    loop body (make (s.step (encode text))) = loop body (make (s.pass [c])) := by
  obtain ⟨first, more, hencode, -, hwide⟩ := exists_encode hc
  obtain ⟨b, hb, hwide⟩ := byteAt_wide hc rest
  rw [← h.peek_eq] at hb
  rw [step_wide hb hwide]
  exact loop_inside [first] more h hc hencode.symm hbody

/-- A step into a stride leads behind it. -/
theorem loop_step {stride : List Char} (h : At text (stride ++ rest) s.position) (hu : Stride stride rest)
    (hbody : PassesWide (encode text) body make) :
    loop body (make (s.step (encode text))) = loop body (make (s.pass stride)) := by
  cases hu with
  | crlf => rw [h.step_crlf]
  | @char c _ hc =>
    by_cases hwide : IsWide c
    · exact loop_step_wide h hwide hbody
    · rw [h.step hwide hc]

/-- A loop that goes on at a stride goes on behind it. -/
theorem loop_stride {stride : List Char} (h : At text (c :: stride ++ rest) s.position) (hu : Stride (c :: stride) rest)
    (hbody : PassesWide (encode text) body make)
    (hascii : ¬IsWide c → body (make s) = pure (.inl (make (s.step (encode text))))) :
    loop body (make s) = loop body (make (s.pass (c :: stride))) := by
  have hnext : body (make s) = pure (.inl (make (s.step (encode text)))) := by
    by_cases hc : IsWide c
    · obtain ⟨b, hpeek, hwide⟩ := byteAt_wide hc (stride ++ rest)
      rw [← List.cons_append, ← h.peek_eq] at hpeek
      exact hbody s b hpeek hwide
    · exact hascii hc
  rw [loop_next hnext, loop_step h hu hbody]

end

end ForeignModule.Bounds
