import ForeignModule.Json.TextMap
import Mathlib.Data.Option.Basic

/-!
# What is written as a map of texts is read back

`Reads text tokens` says that a stretch of text stands for these tokens, whatever comes behind it; it
carries over from the parts of a text to the whole (`Reads.append`). A quoted text is read unit by
unit (`tokensFrom?_quoteChar`), and its units give the text again (`joinUnits_unitOf`).
-/

namespace ForeignModule.Json

/-! ## Quoted texts -/

/-- The unit as which a character is read back. -/
def unitOf (c : Char) : TextUnit :=
  if (shortEscapes.find? (·.2 == c)).isNone && isControl c then .number c.toNat else .char c

theorem isControl_iff (c : Char) : isControl c = true ↔ c.toNat < 32 := by
  simp [isControl, Char.lt_def, UInt32.lt_iff_toNat_lt]

/-- A number that is no half of anything stands for its own character. -/
theorem joinUnits_number {n : Nat} (h : n < 0xd800) (units : List TextUnit) :
    joinUnits (.number n :: units) = (joinUnits units).map (Char.ofNat n :: ·) := by
  have hhigh : isHighHalf n = false := by simp [isHighHalf]; omega
  have hlow : isLowHalf n = false := by simp [isLowHalf]; omega
  cases units with
  | nil => simp [joinUnits, hhigh, hlow]
  | cons unit more => cases unit <;> simp [joinUnits, hhigh, hlow]

theorem joinUnits_unitOf (text : List Char) : joinUnits (text.map unitOf) = some text := by
  induction text with
  | nil => rfl
  | cons c rest ih =>
    rw [List.map_cons, unitOf]
    split
    · rename_i hnumber
      rw [Bool.and_eq_true, isControl_iff] at hnumber
      have hsmall : c.toNat < 0xd800 := by omega
      rw [joinUnits_number hsmall, ih, Option.map_some, Char.ofNat_toNat]
    · rw [joinUnits, ih, Option.map_some]

/-- Every short escape is read as the character that it stands for. -/
theorem escape?_short {letter c : Char} (h : (letter, c) ∈ shortEscapes) (rest : List Char) :
    escape? (letter :: rest) = some (.char c, 1) := by
  simp only [shortEscapes, List.mem_cons, Prod.mk.injEq, List.not_mem_nil, or_false] at h
  rcases h with ⟨rfl, rfl⟩ | ⟨rfl, rfl⟩ | ⟨rfl, rfl⟩ | ⟨rfl, rfl⟩ | ⟨rfl, rfl⟩ | ⟨rfl, rfl⟩ |
    ⟨rfl, rfl⟩ <;> rfl

theorem digits?_control : (List.range 32).all (fun n =>
    Number.digits? 16 ['0', '0', (n / 16).digitChar, (n % 16).digitChar] == some n) = true := by
  decide

/-- The number of a control character is read as that number. -/
theorem escape?_number {c : Char} (h : isControl c = true) (rest : List Char) :
    escape? ('u' :: '0' :: '0' :: (c.toNat / 16).digitChar :: (c.toNat % 16).digitChar :: rest)
      = some (.number c.toNat, 5) := by
  have hdigits := List.all_eq_true.1 digits?_control c.toNat
    (List.mem_range.2 ((isControl_iff c).1 h))
  rw [beq_iff_eq] at hdigits
  simp [escape?, hdigits, guard, pure]

theorem tokensFrom?_quoteChar (units : List TextUnit) (c : Char) (rest : List Char) :
    tokensFrom? 0 (some units) (quoteChar c ++ rest)
      = tokensFrom? 0 (some (unitOf c :: units)) rest := by
  unfold quoteChar unitOf
  cases hshort : shortEscapes.find? (·.2 == c) with
  | some pair =>
    obtain ⟨letter, c'⟩ := pair
    have hc : c' = c := by simpa using List.find?_some hshort
    subst hc
    have hescape := escape?_short (List.mem_of_find?_eq_some hshort) rest
    simp only [List.cons_append, List.nil_append, tokensFrom?, hescape]
    rfl
  | none =>
    by_cases hcontrol : isControl c = true
    · have hescape := escape?_number hcontrol rest
      simp only [hcontrol, if_true, List.cons_append, List.nil_append, tokensFrom?, hescape]
      rfl
    · have hquote : c ≠ '"' := by
        rintro rfl
        simp [shortEscapes] at hshort
      have hback : c ≠ '\\' := by
        rintro rfl
        simp [shortEscapes] at hshort
      simp [hcontrol, tokensFrom?, hquote, hback]

theorem tokensFrom?_quoted (text rest : List Char) (units : List TextUnit) :
    tokensFrom? 0 (some units) (text.flatMap quoteChar ++ rest)
      = tokensFrom? 0 (some ((text.map unitOf).reverse ++ units)) rest := by
  induction text generalizing units with
  | nil => rfl
  | cons c more ih =>
    rw [List.flatMap_cons, List.append_assoc, tokensFrom?_quoteChar, ih]
    simp

/-! ## Tokens -/

/-- The text stands for these tokens, whatever comes behind it. -/
def Reads (text : List Char) (tokens : List Token) : Prop :=
  ∀ rest, tokensFrom? 0 none (text ++ rest) = (tokensFrom? 0 none rest).map (tokens ++ ·)

namespace Reads

variable {text text' : List Char} {tokens tokens' : List Token}

theorem append (h : Reads text tokens) (h' : Reads text' tokens') :
    Reads (text ++ text') (tokens ++ tokens') := by
  intro rest
  rw [List.append_assoc, h, h', Option.map_map]
  simp [Function.comp_def]

theorem space {c : Char} (h : isSpace c = true) : Reads [c] [] := by
  intro rest
  simp [tokensFrom?, h]

theorem mark {c : Char} {t : Token} (hspace : isSpace c = false) (hquote : c ≠ '"')
    (h : mark? c = some t) : Reads [c] [t] := by
  intro rest
  simp only [List.cons_append, List.nil_append, tokensFrom?, hspace, hquote, h, bind, pure]
  cases tokensFrom? 0 none rest <;> rfl

theorem quote (text : List Char) : Reads (quote text) [.text (.ofList text)] := by
  intro rest
  rw [Json.quote, List.cons_append, List.cons_append, List.append_assoc, tokensFrom?]
  rw [if_neg (by decide), if_pos rfl, tokensFrom?_quoted, List.append_nil, List.singleton_append,
    tokensFrom?, if_pos rfl, List.reverse_reverse, joinUnits_unitOf]
  cases tokensFrom? 0 none rest <;> rfl

/-- Texts with something between them. -/
theorem intercalate {α : Type} {f : α → List Char} {g : α → List Token}
    (hsep : Reads text tokens) (h : ∀ a, Reads (f a) (g a)) (l : List α) :
    Reads (text.intercalate (l.map f)) (tokens.intercalate (l.map g)) := by
  induction l with
  | nil =>
    intro rest
    simp
  | cons a more ih =>
    cases more with
    | nil => simpa using h a
    | cons b rest =>
      rw [List.map_cons, List.map_cons, List.map_cons, List.map_cons, List.intercalate_cons_cons,
        List.intercalate_cons_cons]
      exact ((h a).append hsep).append ih

theorem tokens_eq (h : Reads text tokens) : tokensFrom? 0 none text = some tokens := by
  have := h []
  simpa [tokensFrom?] using this

end Reads

/-! ## Maps -/

/-- The tokens of a pair. -/
def pairTokens (pair : String × String) : List Token := [.text pair.1, .colon, .text pair.2]

theorem reads_renderPair (pair : String × String) : Reads (renderPair pair) (pairTokens pair) := by
  have hindent : Reads "  ".toList [] := (Reads.space rfl).append (Reads.space rfl)
  have hcolon : Reads ": ".toList [.colon] :=
    (Reads.mark rfl (by decide) rfl).append (Reads.space rfl)
  have h := ((hindent.append (Reads.quote pair.1.toList)).append hcolon).append
    (Reads.quote pair.2.toList)
  simpa [renderPair, pairTokens] using h

theorem reads_render {pairs : List (String × String)} (h : pairs ≠ []) :
    Reads (render pairs)
      (.openBrace :: ([Token.comma].intercalate (pairs.map pairTokens) ++ [.closeBrace])) := by
  have hopen : Reads ['\x7b', '\n'] [.openBrace] :=
    (Reads.mark rfl (by decide) rfl).append (Reads.space rfl)
  have hcomma : Reads [',', '\n'] [.comma] :=
    (Reads.mark rfl (by decide) rfl).append (Reads.space rfl)
  have hclose : Reads ['\n', '\x7d'] [.closeBrace] :=
    (Reads.space rfl).append (Reads.mark rfl (by decide) rfl)
  have hall := hopen.append ((hcomma.intercalate reads_renderPair pairs).append hclose)
  cases pairs with
  | nil => exact absurd rfl h
  | cons pair more => simpa [render] using hall

theorem morePairs?_tokens {pairs : List (String × String)} (h : pairs ≠ []) :
    morePairs? ([Token.comma].intercalate (pairs.map pairTokens) ++ [.closeBrace])
      = some pairs := by
  induction pairs with
  | nil => exact absurd rfl h
  | cons pair more ih =>
    cases more with
    | nil => simp [pairTokens, morePairs?]
    | cons pair' rest =>
      have hrest := ih (List.cons_ne_nil _ _)
      rw [List.map_cons, List.map_cons, List.intercalate_cons_cons]
      rw [List.map_cons] at hrest
      simp only [pairTokens, List.cons_append, List.nil_append, morePairs?]
      simp only [pairTokens] at hrest
      rw [hrest]
      rfl

theorem exists_text_tokens {pairs : List (String × String)} (h : pairs ≠ []) :
    ∃ key rest, [Token.comma].intercalate (pairs.map pairTokens) ++ [.closeBrace]
      = .text key :: rest := by
  cases pairs with
  | nil => exact absurd rfl h
  | cons pair more => cases more <;> simp [pairTokens, List.intercalate_cons_cons]

/-- The pairs that are written are read back, in their order. -/
theorem pairs?_render (pairs : List (String × String)) : pairs? (render pairs) = some pairs := by
  by_cases h : pairs = []
  · subst h
    rfl
  · obtain ⟨key, rest, htokens⟩ := exists_text_tokens h
    have hmore := morePairs?_tokens h
    have hread := (reads_render h).tokens_eq
    rw [htokens] at hmore hread
    rw [pairs?, hread]
    exact hmore

end ForeignModule.Json
