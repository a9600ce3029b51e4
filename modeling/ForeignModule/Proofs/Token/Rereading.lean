import ForeignModule.Proofs.Token.Lossless
import ForeignModule.Proofs.Token.Outline
import ForeignModule.Proofs.Token.Rendering

/-!
# What is written out is read again

Tokens of a Rust source that are written out, with no more blanks than keep words apart, are read
as the same tokens (`tokenize_render`). Each of them is found again in front of whatever may stand
behind it (`Kind.Reread`), and what is written behind it may (`endsBefore_behind`), unless the two
make another token together.
-/

namespace ForeignModule

open Bounds (encode)
open Source Token

/-- The token is a string literal that was not written in plain quotes. -/
def Token.IsRaw (source : List Char) (t : Token) : Prop :=
  (∃ content, t.kind = .string content) ∧ ∃ text rest,
    Stands source text rest t.span.start.offset t.span.stop ∧ text.head? ≠ some '"'

namespace Token.Kind

/-- Nothing in the list runs together when it is written out. -/
structure Apart (kinds : List Kind) : Prop where
  /-- A sign that stands for itself may be half of a comment or of an arrow, and a `#` may open a raw
  string. -/
  signs : .hash ∉ kinds ∧ ∀ c, .punctuation c ∉ kinds
  colons : ¬ [.colon, .colon] <:+: kinds ∧ ¬ [.colon, .pathSeparator] <:+: kinds
  numbers : ∀ a b, ¬ [.number a, .dot, .number b] <:+: kinds

/-- Written out, the kind is found in front of whatever may stand behind it. -/
def Reread (k : Kind) : Prop :=
  ∃ c tail, k.text.toList = c :: tail ∧ Spelling .rust k (c :: tail) ∧
    ∀ fresh rest, k.EndsBefore .rust (c :: tail) rest →
      scan .rust fresh c (tail ++ rest) = .ok (.token k, tail.length)

/-- What is written behind a kind. -/
def behind (k : Kind) : List Kind → List Char
  | [] => []
  | next :: rest => k.gap next ++ (render (next :: rest)).toList

end Token.Kind

/-! ## Tokens of a source -/

section

variable {d : Dialect} {fresh after : Bool} {c : Char} {kind : Kind} {p : Position}
  {tail rest : List Char} {segments : List Segment} {t : Token}

/-- The token is found in a text that starts at this byte. -/
def FoundIn (d : Dialect) (text : List Char) (start : Nat) (t : Token) : Prop :=
  ∃ front c tail rest fresh, text = front ++ c :: tail ++ rest ∧
    t.span.start.offset = start + (encode front).length ∧
    t.span.stop = start + (encode (front ++ c :: tail)).length ∧
    scan d fresh c (tail ++ rest) = .ok (.token t.kind, tail.length)

theorem FoundIn.append {text word : List Char} {start : Nat}
    (h : FoundIn d text (start + (encode word).length) t) : FoundIn d (word ++ text) start t := by
  obtain ⟨front, c, tail, rest, fresh, rfl, hstart, hstop, hscan⟩ := h
  refine ⟨word ++ front, c, tail, rest, fresh, by simp, ?_, ?_, hscan⟩
  · rw [hstart, length_encode_append word]
    omega
  · rw [hstop, List.append_assoc, length_encode_append word]
    omega

/-- Every token is found in the text that is cut. -/
theorem Leads.foundIn (h : Leads d after rest fresh segments) (ht : t ∈ ofSegments p fresh segments) :
    FoundIn d (Segment.texts segments ++ rest) p.offset t := by
  induction h generalizing p with
  | nil => cases ht
  | @cons fresh c tail role segments hscan h ih =>
    rw [Segment.texts_cons, List.append_assoc]
    have hbehind : t ∈ ofSegments (p.after (c :: tail)) (Segment.leavesFresh fresh ⟨role, c :: tail⟩)
        segments → FoundIn d (c :: tail ++ (Segment.texts segments ++ rest)) p.offset t := by
      intro ht
      have hfound := ih ht
      rw [Bounds.offset_after] at hfound
      exact hfound.append
    cases role with
    | token kind =>
      rw [ofSegments_token] at ht
      rcases List.mem_cons.1 ht with rfl | ht
      · exact ⟨[], c, tail, _, fresh, rfl, rfl, Bounds.offset_after _ _, hscan⟩
      · exact hbehind ht
    | blank | lineComment | blockComment | directive | bytePrefix => exact hbehind ht

theorem foundIn_of_mem {source : String} {tokens : List Token} (h : tokenize d source = .ok tokens)
    (ht : t ∈ tokens) : FoundIn d source.toList 0 t := by
  obtain ⟨after, rest, hsplit, hleads⟩ := Leads.of_go d true source.toList
  rw [hsplit]
  refine hleads.foundIn (p := {}) ?_
  simp only [tokenize, Cut.ofSource] at h
  split at h
  · exact Except.ok.inj h ▸ ht
  · cases h

/-- In Rust a token is found as well when other tokens stand on its line. -/
theorem scan_rust_fresh (fresh' : Bool) :
    scan .rust fresh c rest = scan .rust fresh' c rest := by
  simp [scan]

/-- The text of a token is what stands in its place, unless that is a raw string. -/
theorem text_of_spelling (h : Spelling .rust kind (c :: tail))
    (hraw : ∀ content, kind = .string content → c = '"') : kind.text.toList = c :: tail := by
  generalize hword : c :: tail = word at h
  cases h with
  | word _ => simp [Kind.text]
  | name form _ => cases form
  | number _ => simp [Kind.text]
  | lifetime _ => simp [Kind.text]
  | string form _ =>
    obtain rfl := hraw _ rfl
    cases form with
    | string => simp [Kind.text]
    | raw hletters => rcases hletters with rfl | rfl <;> cases hword
  | character form _ =>
    cases form
    simp [Kind.text]
  | sign _ => rfl

theorem reread_of_scan (h : scan .rust fresh c (tail ++ rest) = .ok (.token kind, tail.length))
    (hraw : ∀ content, kind = .string content → c = '"') : kind.Reread := by
  have hscanned := scan_scanned .rust fresh c (tail ++ rest)
  rw [h] at hscanned
  cases hscanned with
  | skipped hrole => exact absurd rfl (hrole kind)
  | @token _ word more _ split length hspelling =>
    obtain ⟨rfl, rfl⟩ : c :: tail = word ∧ rest = more := List.append_inj split length.symm
    refine ⟨c, tail, text_of_spelling hspelling hraw, hspelling, fun fresh' rest' hends => ?_⟩
    rw [scan_rust_fresh fresh]
    exact (scan_bounded _ _ _ h).2 rest' hends

/-- Each token of a Rust source can be read again, if it is no raw string. -/
theorem reread_of_mem {source : String} {tokens : List Token}
    (h : tokenize .rust source = .ok tokens) (ht : t ∈ tokens) (hraw : ¬t.IsRaw source.toList) :
    t.kind.Reread := by
  obtain ⟨front, c, tail, rest, fresh, hsplit, hstart, hstop, hscan⟩ := foundIn_of_mem h ht
  refine reread_of_scan hscan fun content hkind => ?_
  rw [Nat.zero_add] at hstart hstop
  by_contra hne
  exact hraw ⟨⟨content, hkind⟩, c :: tail, rest, ⟨front, hsplit, hstart.symm, hstop.symm⟩,
    by simpa using hne⟩

end

/-! ## Tokens in a row -/

namespace Token.Kind

variable {k next : Kind} {a : Char} {text : List Char} {ks : List Kind}

theorem Apart.of_cons (h : Apart (k :: ks)) : Apart ks where
  signs := h.signs.imp (fun hnot hk => hnot (List.mem_cons_of_mem _ hk))
    fun hnot c hk => hnot c (List.mem_cons_of_mem _ hk)
  colons := h.colons.imp (fun hnot hk => hnot (List.infix_cons hk))
    fun hnot hk => hnot (List.infix_cons hk)
  numbers a b hk := h.numbers a b (List.infix_cons hk)

theorem Apart.sign (h : Apart ks) : ∀ k ∈ ks, k ≠ .hash ∧ ∀ c, k ≠ .punctuation c := by
  rintro k hk
  refine ⟨?_, fun c => ?_⟩ <;> rintro rfl
  · exact h.signs.1 hk
  · exact h.signs.2 c hk

theorem render_eq (k : Kind) (ks : List Kind) :
    (render (k :: ks)).toList = k.text.toList ++ k.behind ks := by
  cases ks with
  | nil => simp [render, behind]
  | cons next ks =>
    have hgap : (if k.spaced next then " " else "").toList = k.gap next := by
      unfold gap
      split <;> rfl
    simp [render, behind, hgap]

/-- The first character of a kind. -/
def StartsWith (a : Char) : Kind → Prop
  | identifier _ => isWordStart a = true
  | number _ => a.isDigit = true
  | string _ => a = '"'
  | character _ | lifetime _ => a = '\''
  | k => k.text.toList.head? = some a

theorem Reread.startsWith (h : k.Reread) : ∃ a text, k.text.toList = a :: text ∧ k.StartsWith a := by
  obtain ⟨a, text, htext, hspelling, -⟩ := h
  refine ⟨a, text, htext, ?_⟩
  cases k with
  | identifier name =>
    generalize hword : a :: text = word at hspelling
    cases hspelling with
    | word hname =>
      obtain ⟨c, rest, rfl, hstart, -⟩ := hname
      exact (List.cons.inj hword).1 ▸ hstart
    | name form => cases form
    | sign hsign => cases hsign
  | number =>
    generalize hword : a :: text = word at hspelling
    cases hspelling with
    | number hlexical =>
      obtain ⟨⟨c, hc, hdigit⟩, -⟩ := hlexical
      rw [String.toList_ofList, ← hword] at hc
      exact Option.some.inj hc ▸ hdigit
    | sign hsign => cases hsign
  | string | character | lifetime =>
    simp only [Kind.text, String.toList_append] at htext
    exact ((List.cons.inj htext).1).symm
  | _ => exact congrArg List.head? htext

/-- A sign that is written next to a word starts with no character that the word, or a literal,
could go on with. -/
theorem StartsWith.not_isWordPart (h : k.StartsWith a) (hk : k.isWordlike = false)
    (hsign : k ≠ .hash ∧ ∀ c, k ≠ .punctuation c) :
    isWordPart a = false ∧ a ≠ '#' ∧ a ≠ '"' ∧ a ≠ '\'' := by
  cases k with
  | punctuation c => exact absurd rfl (hsign.2 c)
  | hash => exact absurd rfl hsign.1
  | opening b | closing b =>
    cases b <;> obtain rfl := Option.some.inj h <;> decide
  | identifier | number | string | character | lifetime => cases hk
  | _ =>
    obtain rfl := Option.some.inj h
    decide

/-- What is written behind a kind starts with a blank, or with the next one. -/
theorem behind_cons (k : Kind) (ks : List Kind) (hnext : next.Reread) :
    ∃ a text, k.behind (next :: ks) = a :: text ∧ (a = ' ' ∨
      k.spaced next = false ∧ next.StartsWith a ∧
        ∃ word, next.text.toList = a :: word ∧ text = word ++ next.behind ks) := by
  obtain ⟨a, word, hword, hstarts⟩ := hnext.startsWith
  cases hspaced : k.spaced next with
  | true =>
    refine ⟨' ', (render (next :: ks)).toList, ?_, .inl rfl⟩
    rw [behind, gap, if_pos hspaced]
    rfl
  | false =>
    refine ⟨a, word ++ next.behind ks, ?_, .inr ⟨rfl, hstarts, word, hword, rfl⟩⟩
    rw [behind, gap, if_neg (ne_true_of_eq_false hspaced), render_eq, hword]
    rfl

/-- What is written behind a word starts with a blank or with a sign. -/
theorem head_behind (hk : k.isWordlike = true) (hks : ∀ k ∈ ks, k.Reread)
    (hsigns : ∀ k ∈ ks, k ≠ .hash ∧ ∀ c, k ≠ .punctuation c) :
    ∀ a ∈ (k.behind ks).head?, isWordPart a = false ∧ a ≠ '#' ∧ a ≠ '"' ∧ a ≠ '\'' := by
  intro a ha
  cases ks with
  | nil => cases ha
  | cons next ks =>
    obtain ⟨b, text, hbehind, hb⟩ := behind_cons k ks (hks next List.mem_cons_self)
    rw [hbehind] at ha
    obtain rfl := Option.some.inj ha
    rcases hb with rfl | ⟨hspaced, hstarts, -⟩
    · decide
    · have hword : next.isWordlike = false := by
        simp only [spaced, hk, Bool.true_and, Bool.or_eq_false_iff] at hspaced
        exact hspaced.1.1.1
      exact hstarts.not_isWordPart hword (hsigns next List.mem_cons_self)

/-- Only a dot starts with a point. -/
theorem StartsWith.eq_dot (h : k.StartsWith '.') (hsign : ∀ c, k ≠ .punctuation c) : k = .dot := by
  cases k with
  | punctuation c => exact absurd rfl (hsign c)
  | opening b | closing b => cases b <;> cases h
  | dot => rfl
  | _ => cases h

theorem isWordStart_of_isDigit (h : a.isDigit = true) : isWordStart a = false := by
  have hle : a ≤ '9' := of_decide_eq_true (Bool.and_eq_true_iff.1 h).2
  rw [Bool.eq_false_iff]
  intro hstart
  have hge : 'A' ≤ a := by
    simp only [isWordStart, Bool.or_eq_true, beq_iff_eq, decide_eq_true_eq] at hstart
    rcases hstart with (halpha | rfl) | hwide
    · rcases Bool.or_eq_true_iff.1 halpha with hupper | hlower
      · exact (of_decide_eq_true hupper).1
      · exact Char.le_trans (by decide) (of_decide_eq_true (Bool.and_eq_true_iff.1 hlower).1)
    · decide
    · exact UInt32.le_trans (by decide) hwide
  exact absurd (Char.le_trans hge hle) (by decide)

/-- Only a number starts with a digit. -/
theorem StartsWith.eq_number (h : k.StartsWith a) (ha : a.isDigit = true)
    (hsign : ∀ c, k ≠ .punctuation c) : ∃ text, k = .number text := by
  cases k with
  | number text => exact ⟨text, rfl⟩
  | punctuation c => exact absurd rfl (hsign c)
  | identifier name =>
    have hstart : isWordStart a = true := h
    rw [isWordStart_of_isDigit ha] at hstart
    cases hstart
  | string | character | lifetime =>
    obtain rfl := h
    cases ha
  | opening b | closing b =>
    cases b <;> obtain rfl := Option.some.inj h <;> cases ha
  | _ =>
    obtain rfl := Option.some.inj h
    cases ha

/-- Only colons start with one. -/
theorem StartsWith.eq_colon (h : k.StartsWith ':') (hsign : ∀ c, k ≠ .punctuation c) :
    k = .colon ∨ k = .pathSeparator := by
  cases k with
  | punctuation c => exact absurd rfl (hsign c)
  | opening b | closing b => cases b <;> cases h
  | colon => exact .inl rfl
  | pathSeparator => exact .inr rfl
  | _ => cases h

/-- No number goes on with what is written behind it. -/
theorem numberLength_behind {text : String} (hks : ∀ k ∈ ks, k.Reread)
    (hapart : Apart (.number text :: ks)) :
    numberLength .rust ((Kind.number text).behind ks) = 0 := by
  have hsigns : ∀ k ∈ ks, k ≠ .hash ∧ ∀ c, k ≠ .punctuation c := hapart.of_cons.sign
  have hhead : ∀ a ∈ ((Kind.number text).behind ks).head?, isWordPart a = false := fun a ha =>
    (head_behind rfl hks hsigns a ha).1
  cases ks with
  | nil => rfl
  | cons next ks =>
    obtain ⟨hnext, hks⟩ := List.forall_mem_cons.1 hks
    obtain ⟨hsign, hsigns⟩ := List.forall_mem_cons.1 hsigns
    obtain ⟨a, rest, hbehind, hfirst⟩ := behind_cons (.number text) ks hnext
    rw [hbehind] at hhead ⊢
    rw [numberLength_cons, inNumber, hhead a rfl]
    by_cases hdot : a = '.'
    · subst hdot
      obtain ⟨-, hstarts, word, hword, rfl⟩ := hfirst.resolve_left (by decide)
      obtain rfl := hstarts.eq_dot hsign.2
      obtain rfl : word = [] := ((List.cons.inj hword).2).symm
      -- Behind the point stands no digit, as no number follows it.
      have hdigit : ((Kind.dot.behind ks).head?.any Char.isDigit) = false := by
        cases ks with
        | nil => rfl
        | cons third ks =>
          obtain ⟨b, rest, hbehind, hb⟩ := behind_cons .dot ks (hks third (by simp))
          rw [hbehind]
          cases hdigit : b.isDigit with
          | false => exact hdigit
          | true =>
            rcases hb with rfl | ⟨-, hstarts, -⟩
            · cases hdigit
            · obtain ⟨text', rfl⟩ := hstarts.eq_number hdigit (hsigns third (by simp)).2
              exact absurd ⟨[], ks, rfl⟩ (hapart.numbers text text')
      simp [hdigit]
    · simp [hdot]

/-- What is written behind a kind may stand there. -/
theorem endsBefore_behind (hks : ∀ k ∈ ks, k.Reread) (hapart : Apart (k :: ks)) (text : List Char) :
    k.EndsBefore .rust text (k.behind ks) := by
  have hword : k.isWordlike = true → ∀ a ∈ (k.behind ks).head?,
      isWordPart a = false ∧ a ≠ '#' ∧ a ≠ '"' ∧ a ≠ '\'' := fun hk =>
    head_behind hk hks hapart.of_cons.sign
  cases k with
  | identifier name =>
    -- The letters of a raw string are a name here, as neither a mark nor a quote follows them.
    have hnone : Source.rawHashes? ((Kind.identifier name).behind ks) = none := by
      cases hrest : (Kind.identifier name).behind ks with
      | nil => rfl
      | cons a rest =>
        obtain ⟨-, hhash, hquote, -⟩ := hword rfl a (by rw [hrest]; rfl)
        rw [rawHashes?_cons, if_neg hhash, if_neg hquote]
    exact .inr ⟨fun a ha => (hword rfl a ha).1, fun _ =>
      ⟨fun _ => hnone, fun _ hquote => (hword rfl _ hquote).2.2.1 rfl⟩⟩
  | number text => exact numberLength_behind hks hapart
  | string => exact nofun
  | lifetime name =>
    exact ⟨fun a ha => (hword rfl a ha).1, fun _ hquote => (hword rfl _ hquote).2.2.2 rfl⟩
  | colon =>
    cases ks with
    | nil => exact nofun
    | cons next ks =>
      intro hcolon
      obtain ⟨a, rest, hbehind, hfirst⟩ := behind_cons .colon ks (hks next List.mem_cons_self)
      rw [hbehind] at hcolon
      obtain rfl := Option.some.inj hcolon
      obtain ⟨-, hstarts, -⟩ := hfirst.resolve_left (by decide)
      rcases hstarts.eq_colon (hapart.sign next (by simp)).2 with rfl | rfl
      · exact hapart.colons.1 ⟨[], ks, rfl⟩
      · exact hapart.colons.2 ⟨[], ks, rfl⟩
  | punctuation c => exact absurd rfl ((hapart.sign _ List.mem_cons_self).2 c)
  | _ => trivial

/-- A list that is written out is read as that list. -/
theorem outlineFrom_render (hks : ∀ k ∈ ks, k.Reread) (hapart : Apart ks) (fresh : Bool) :
    ∃ outlines, outlineFrom .rust fresh (render ks).toList = .ok outlines ∧
      outlines.map Outline.kind = ks := by
  induction ks generalizing fresh with
  | nil => exact ⟨[], rfl, rfl⟩
  | cons k ks ih =>
    -- The blank that may stand behind the kind is no token.
    have hbehind : outlineFrom .rust false (k.behind ks) = outlineFrom .rust false (render ks).toList := by
      cases ks with
      | nil => rfl
      | cons next ks =>
        rw [behind, gap]
        split
        · exact outlineFrom_blank rfl
        · rfl
    obtain ⟨⟨c, tail, htext, -, hfound⟩, hks⟩ := List.forall_mem_cons.1 hks
    obtain ⟨outlines, hread, hkinds⟩ := ih hks hapart.of_cons false
    have hscan := hfound fresh _ (endsBefore_behind hks hapart _)
    refine ⟨⟨k, fresh || (c :: tail).any endsLine⟩ :: outlines, ?_, ?_⟩
    · rw [render_eq, htext, outlineFrom_of_scan hscan]
      simp only [Segment.leavesFresh, hbehind, hread]
      rfl
    · rw [List.map_cons, hkinds]

end Token.Kind

/-- Tokens of a Rust source that are written out are read as the same kinds with the same texts,
unless two of them run together or one is a raw string. -/
theorem tokenize_render {source : String} {tokens part : List Token}
    (h : tokenize .rust source = .ok tokens) (hpart : part ⊆ tokens)
    (hapart : Kind.Apart (part.map Token.kind)) (hraw : ∀ t ∈ part, ¬t.IsRaw source.toList) :
    ∃ again, tokenize .rust (Token.render part) = .ok again ∧
      again.map Token.kind = part.map Token.kind := by
  have hreread : ∀ k ∈ part.map Token.kind, k.Reread := by
    intro k hk
    obtain ⟨t, ht, rfl⟩ := List.mem_map.1 hk
    exact reread_of_mem h (hpart ht) (hraw t ht)
  obtain ⟨outlines, hread, hkinds⟩ := Kind.outlineFrom_render hreread hapart true
  have houtline : outline .rust (Token.render part) = .ok outlines := by
    rw [outline_eq]
    exact hread
  unfold outline at houtline
  cases hagain : tokenize .rust (Token.render part) with
  | error e => simp [hagain] at houtline
  | ok again =>
    rw [hagain] at houtline
    obtain rfl := Except.ok.inj houtline
    exact ⟨again, rfl, by rw [← hkinds, List.map_map]; rfl⟩

/-- A header with a path, a lifetime and a number. -/
def referenceSource : String := "fn f(p: *const std::c_char, b: &'a [u8; 4]) -> 'x'"

def referenceTokens : List Token := (tokenize .rust referenceSource).toOption.getD []

theorem tokenize_render_reference :
    referenceTokens.length = 23 ∧ ∃ again, tokenize .rust (Token.render referenceTokens) = .ok again ∧
      again.map Token.kind = referenceTokens.map Token.kind := by
  have htokens : tokenize .rust referenceSource = .ok referenceTokens :=
    tokenize_eq_ok (by decide +kernel)
  have hkinds : referenceTokens.map Token.kind =
      [.identifier "fn", .identifier "f", .opening .paren, .identifier "p", .colon, .star,
        .identifier "const", .identifier "std", .pathSeparator, .identifier "c_char", .comma,
        .identifier "b", .colon, .ampersand, .lifetime "a", .opening .square, .identifier "u8",
        .semicolon, .number "4", .closing .square, .closing .paren, .arrow, .character "x"] := by
    decide +kernel
  have hapart : Kind.Apart (referenceTokens.map Token.kind) := by
    rw [hkinds]
    refine ⟨⟨by decide, fun c => by simp⟩, ⟨by decide, by decide⟩, fun a b h => ?_⟩
    exact absurd (h.subset (by simp : Kind.dot ∈ [.number a, .dot, .number b])) (by decide)
  have hraw : ∀ t ∈ referenceTokens, ¬t.IsRaw referenceSource.toList := by
    rintro t ht ⟨⟨content, hcontent⟩, -⟩
    have hmem : t.kind ∈ referenceTokens.map Token.kind := List.mem_map_of_mem ht
    rw [hkinds, hcontent] at hmem
    simp at hmem
  exact ⟨by decide +kernel, tokenize_render htokens (List.Subset.refl _) hapart hraw⟩

end ForeignModule
