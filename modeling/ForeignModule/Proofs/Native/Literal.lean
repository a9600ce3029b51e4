import ForeignModule.Proofs.Native.Calling
import Mathlib.Data.Nat.Digits.Lemmas

/-!
# Whole numbers on the command line

A `Numeral` is a whole number as it is written, of any size, and `Numeral.value` the number that it
denotes. Its literal is read as that number if 64 bits hold it, with or without a sign, and as no
whole number otherwise (`wholeNumber?_ofLiteral`): the text then is a floating-point number, which
no slot for whole numbers takes.

So a literal reaches the function that is called exactly or not at all, under every tag for whole
numbers or truth values (`ofLiteral_exact`).
-/

namespace ForeignModule.Native

open ForeignModule.Abi Number

/-! ## Numerals -/

/-- What may stand before the digits of a number. -/
inductive Sign where
  | none
  | plus
  | minus
deriving DecidableEq, Repr

namespace Sign

/-- A sign as it is written. -/
def text : Sign → List Char
  | none => []
  | plus => ['+']
  | minus => ['-']

/-- A magnitude with its sign. -/
def apply : Sign → Nat → Int
  | minus, n => -n
  | none, n | plus, n => n

end Sign

/-- A whole number as it is written: one or more digits, perhaps zeros first, and perhaps with a
sign. -/
structure Numeral where
  sign : Sign
  digits : List (Fin 10)
  nonempty : digits ≠ []

namespace Numeral

/-- The digits as they are written. -/
def written (digits : List (Fin 10)) : List Char := digits.map fun d => d.val.digitChar

/-- The number that digits denote, the last of them the units. -/
def magnitude (digits : List (Fin 10)) : Nat := Nat.ofDigits 10 (digits.map Fin.val).reverse

/-- A numeral as it is written. -/
def text (k : Numeral) : String := .ofList (k.sign.text ++ written k.digits)

/-- The number that a numeral denotes. -/
def value (k : Numeral) : Int := k.sign.apply (magnitude k.digits)

end Numeral

/-- The whole numbers that a slot with this tag has a word for. -/
def Slot.Covers : Tag → Int → Prop
  | .signed w, n => -Nat.pow 2 (w.bits - 1) ≤ n ∧ n < Nat.pow 2 (w.bits - 1)
  | .unsigned w, n => 0 ≤ n ∧ n < Nat.pow 2 w.bits
  | .bool, n => n = 0 ∨ n = 1
  | _, _ => False

instance (tag : Tag) (n : Int) : Decidable (Slot.Covers tag n) :=
  match tag with
  | .signed _ | .unsigned _ => inferInstanceAs (Decidable (_ ∧ _))
  | .bool => inferInstanceAs (Decidable (_ ∨ _))
  | .single | .double | .cstring | .pointer | .function | .void => inferInstanceAs (Decidable False)

/-- The slot holds this whole number. -/
def Slot.Holds : Slot → Int → Prop
  | .signed _ word, n => word.toInt = n
  | .unsigned _ word, n => word.toNat = n
  | _, _ => False

/-- The tags for whole numbers and truth values. -/
def IsWholeTag : Tag → Prop
  | .signed _ | .unsigned _ | .bool => True
  | _ => False

/-- What is found for a whole number is a slot that holds it, if the tag has one for it, and a
mismatch otherwise. -/
structure Exact (tag : Tag) (n : Int) (found : Except Misfit Slot) : Prop where
  succeeds : (∃ slot, found = .ok slot) ↔ Slot.Covers tag n
  holds : ∀ slot, found = .ok slot → slot.storage = .ofTag tag ∧ slot.Holds n
  refuses : ∀ m, found = .error m → m = .mismatch

/-! ## Reading a numeral -/

section Reading

variable {digits : List (Fin 10)} {c : Char}

theorem digitValue?_digitChar : ∀ d : Fin 10, digitValue? 10 d.val.digitChar = some d.val := by
  decide

theorem magnitude_cons (d : Fin 10) (rest : List (Fin 10)) :
    Numeral.magnitude (d :: rest) = Numeral.magnitude rest + 10 ^ rest.length * d := by
  simp [Numeral.magnitude, Nat.ofDigits_append]

/-- Behind what has been read each digit is worth what its place says. -/
theorem digitsFrom?_written (soFar : Nat) :
    digitsFrom? 10 soFar (Numeral.written digits)
      = some (soFar * 10 ^ digits.length + Numeral.magnitude digits) := by
  induction digits generalizing soFar with
  | nil => simp [Numeral.written, Numeral.magnitude, digitsFrom?]
  | cons d rest ih =>
    have hrest : digitsFrom? 10 (soFar * 10 + d) (Numeral.written rest)
        = some ((soFar * 10 + d) * 10 ^ rest.length + Numeral.magnitude rest) := ih _
    simp only [Numeral.written, List.map_cons, digitsFrom?, digitValue?_digitChar] at hrest ⊢
    rw [hrest, magnitude_cons, List.length_cons, pow_succ]
    congr 1
    ring

theorem digits?_written (h : digits ≠ []) :
    digits? 10 (Numeral.written digits) = some (Numeral.magnitude digits) := by
  have hne : (Numeral.written digits).isEmpty = false := by simpa [Numeral.written] using h
  have hread : digitsFrom? 10 0 (Numeral.written digits)
      = some (0 * 10 ^ digits.length + Numeral.magnitude digits) := digitsFrom?_written 0
  rw [digits?, hne, hread]
  simp

/-- Nothing but signs and digits stands in a numeral. -/
theorem mem_text (k : Numeral) (h : c ∈ k.text.toList) : c ∈ "+-0123456789".toList := by
  have hdigit : ∀ d : Fin 10, d.val.digitChar ∈ "+-0123456789".toList := by decide
  rw [Numeral.text, String.toList_ofList] at h
  rcases List.mem_append.1 h with hsign | hwritten
  · cases hk : k.sign with
    | none => simp [hk, Sign.text] at hsign
    | plus | minus =>
      rw [hk, Sign.text, List.mem_singleton] at hsign
      subst hsign
      decide
  · obtain ⟨d, -, rfl⟩ := List.mem_map.1 hwritten
    exact hdigit d

theorem integer?_text (k : Numeral) : integer? k.text.toList = some k.value := by
  have hread := digits?_written k.nonempty
  rw [Numeral.text, String.toList_ofList, integer?, Numeral.value]
  cases k.sign with
  | plus => simp [Sign.text, splitSign, hread, Sign.apply]
  | minus => simp [Sign.text, splitSign, hread, Sign.apply]
  | none =>
    -- Without a sign the first character is a digit.
    have hsplit : splitSign (Numeral.written k.digits) = (false, Numeral.written k.digits) := by
      obtain ⟨d, rest, hd⟩ := List.exists_cons_of_ne_nil k.nonempty
      have hne : ∀ d : Fin 10, d.val.digitChar ≠ '-' ∧ d.val.digitChar ≠ '+' := by decide
      rw [hd, Numeral.written, List.map_cons, splitSign]
      · exact fun _ h => (hne d).1 (List.cons.inj h).1
      · exact fun _ h => (hne d).2 (List.cons.inj h).1
    simp [Sign.text, hsplit, hread, Sign.apply]

/-- A numeral is none of the other literals. -/
theorem ofLiteral_text (k : Numeral) :
    Value.ofLiteral k.text = (Value.number? k.text.toList).getD (.text k.text) := by
  have habsent : ∀ c ∈ k.text.toList, c ≠ '"' ∧ c ≠ 'x' ∧ c ≠ 'e' ∧ c ≠ 'l' := by
    intro c hc
    have hall : ("+-0123456789".toList.all fun c => c ∉ ['"', 'x', 'e', 'l']) = true := by decide
    simpa using List.all_eq_true.1 hall c (mem_text k hc)
  have hquote : Text.stripStart? ['"'] k.text.toList = none := by
    rw [Option.eq_none_iff_forall_ne_some]
    intro rest hrest
    have htext := Text.stripStart?_eq_some_iff.1 hrest
    exact (habsent '"' (by simp [htext])).1 rfl
  have haddress : Value.address? k.text.toList = none := by
    have hstart : Text.stripStart? ['0', 'x'] k.text.toList = none := by
      rw [Option.eq_none_iff_forall_ne_some]
      intro rest hrest
      have htext := Text.stripStart?_eq_some_iff.1 hrest
      exact (habsent 'x' (by simp [htext])).2.1 rfl
    rw [Value.address?, hstart]
    rfl
  have htrue : k.text ≠ "true" := fun h => (habsent 'e' (by simp [h])).2.2.1 rfl
  have hfalse : k.text ≠ "false" := fun h => (habsent 'e' (by simp [h])).2.2.1 rfl
  have hnull : k.text ≠ "null" := fun h => (habsent 'l' (by simp [h])).2.2.2 rfl
  simp [Value.ofLiteral, hquote, haddress, htrue, hfalse, hnull]

end Reading

/-! ## The kind of a value -/

/-- A number of 64 bits, with or without a sign, becomes a value that is this number. -/
theorem wholeNumber?_ofInt? (n : Int) :
    (Value.ofInt? n).bind Value.wholeNumber?
      = if -2 ^ 63 ≤ n ∧ n < 2 ^ 64 then some n else none := by
  unfold Value.ofInt?
  simp only [Nat.pow_eq, Nat.cast_pow, Nat.cast_ofNat]
  by_cases hsigned : -2 ^ 63 ≤ n ∧ n < 2 ^ 63
  · -- The signed reading comes first and covers everything below the middle.
    have hn : (Int64.ofInt n).toInt = n := by
      rw [Int64.toInt_ofInt]
      apply Int.bmod_eq_of_le <;> simp [Int64.size] <;> omega
    rw [if_pos hsigned, if_pos (by omega), Option.bind_some, Value.wholeNumber?, hn]
  · rw [if_neg hsigned]
    by_cases hunsigned : 0 ≤ n ∧ n < 2 ^ 64
    · have hn : ((UInt64.ofNat n.toNat).toNat : Int) = n := by
        rw [UInt64.toNat_ofNat']
        omega
      rw [if_pos hunsigned, if_pos (by omega), Option.bind_some, Value.wholeNumber?, hn]
    · rw [if_neg hunsigned, if_neg (by omega), Option.bind_none]

/-- A numeral is read as the number that it denotes if 64 bits hold it, else as no whole number. -/
theorem wholeNumber?_ofLiteral (k : Numeral) :
    (Value.ofLiteral k.text).wholeNumber?
      = if -2 ^ 63 ≤ k.value ∧ k.value < 2 ^ 64 then some k.value else none := by
  rw [← wholeNumber?_ofInt?, ofLiteral_text, Value.number?, integer?_text, Option.bind_some]
  cases hint : Value.ofInt? k.value with
  | some v => rfl
  | none =>
    cases Double.ofText? k.text.toList <;> rfl

/-! ## Into a slot -/

section Slots

variable {tag : Tag} {v : Value} {n : Int}

/-- Every number that some slot has a word for has 64 bits at most. -/
theorem Slot.Covers.bounds (h : Slot.Covers tag n) : -2 ^ 63 ≤ n ∧ n < 2 ^ 64 := by
  cases tag with
  | signed w =>
    obtain ⟨lower, upper⟩ := h
    cases w <;> simp [Width.bits] at lower upper <;> omega
  | unsigned w =>
    obtain ⟨lower, upper⟩ := h
    cases w <;> simp [Width.bits] at upper <;> omega
  | bool =>
    rcases h with rfl | rfl <;> omega
  | _ => exact h.elim

/-- A value fits a tag for whole numbers if it is one, and the tag has a word for it. -/
theorem fits_iff_covers (htag : IsWholeTag tag) :
    Fits tag v ↔ ∃ n, Whole v n ∧ Slot.Covers tag n := by
  cases tag with
  | signed w => exact fits_signed_iff
  | unsigned w => exact fits_unsigned_iff
  | bool => exact fits_bool_iff
  | _ => exact htag.elim

/-- The slot that carries a whole number holds it. -/
theorem Carries.holds {slot : Slot} (h : Carries v slot) (htag : IsWholeTag tag)
    (hstorage : slot.storage = .ofTag tag) (hv : Whole v n) : slot.Holds n := by
  cases h with
  | signed hw => exact hw.unique hv
  | unsigned hw => exact hw.unique hv
  | _ => cases tag <;> first | exact htag.elim | cases hstorage

/-- A misfit under such a tag is a mismatch: no text is due there. -/
theorem refuses_mismatch (htag : IsWholeTag tag) {m : Misfit}
    (h : Slot.ofValue tag v = .error m) : m = .mismatch := by
  have hcstring : tag ≠ .cstring := by
    rintro rfl
    exact htag
  have hsettled := ofValue_settled tag v
  rw [h] at hsettled
  cases hsettled with
  | misfit _ refused =>
    cases m with
    | mismatch => rfl
    | innerZero =>
      cases refused 0 with
      | innerZero => exact absurd rfl hcstring

/-- What is found for a value that is a whole number is exact. -/
theorem exact_of_whole (htag : IsWholeTag tag) (hv : Whole v n) :
    Exact tag n (Slot.ofValue tag v) := by
  have hfits : Fits tag v ↔ Slot.Covers tag n := by
    rw [fits_iff_covers htag]
    constructor
    · rintro ⟨k, hk, hcovers⟩
      rwa [hv.unique hk]
    · intro hcovers
      exact ⟨n, hv, hcovers⟩
  have hsettled := ofValue_settled tag v
  constructor
  case succeeds =>
    rw [← hfits]
    generalize Slot.ofValue tag v = found at hsettled
    cases hsettled with
    | slot fits => simp [fits]
    | misfit misfit => simp [misfit]
  case holds =>
    intro slot hslot
    rw [hslot] at hsettled
    cases hsettled with
    | slot _ carries storage => exact ⟨storage, carries.holds htag storage hv⟩
  case refuses =>
    intro m hm
    exact refuses_mismatch htag hm

/-- A value that is no whole number is exact for each number without a slot. -/
theorem exact_of_not_whole (htag : IsWholeTag tag) (hv : ∀ k, ¬Whole v k)
    (hn : ¬Slot.Covers tag n) : Exact tag n (Slot.ofValue tag v) := by
  have hmisfit : ∀ slot, Slot.ofValue tag v ≠ .ok slot := by
    intro slot hslot
    have hsettled := ofValue_settled tag v
    rw [hslot] at hsettled
    cases hsettled with
    | slot fits =>
      obtain ⟨k, hk, -⟩ := (fits_iff_covers htag).1 fits
      exact hv k hk
  constructor
  case succeeds => exact ⟨fun ⟨slot, hslot⟩ => absurd hslot (hmisfit slot), fun h => absurd h hn⟩
  case holds => exact fun slot hslot => absurd hslot (hmisfit slot)
  case refuses => exact fun m hm => refuses_mismatch htag hm

/-- Only the number counts, not whether the value has a sign. -/
theorem ofValue_congr {u : Value} (htag : IsWholeTag tag) (hv : Whole v n) (hu : Whole u n) :
    Slot.ofValue tag v = Slot.ofValue tag u := by
  have hsame : v.wholeNumber? = u.wholeNumber? := by
    rw [wholeNumber?_eq_some_iff.2 hv, wholeNumber?_eq_some_iff.2 hu]
  cases tag with
  | signed w => simp only [Slot.ofValue, hsame]
  | unsigned w => simp only [Slot.ofValue, hsame]
  | bool => simp only [Slot.ofValue, hsame]
  | _ => exact htag.elim

end Slots

/-- A literal that is a whole number goes into a slot for whole numbers or truth values exactly if
the slot has a word for it, and the slot then holds it; otherwise it is a mismatch. A number given
with or without a sign goes into the same slot. -/
theorem ofLiteral_exact {tag : Tag} (htag : IsWholeTag tag) :
    (∀ k : Numeral, Exact tag k.value (Slot.ofValue tag (.ofLiteral k.text))) ∧
      ∀ (a : Int64) (b : UInt64), a.toInt = b.toNat →
        Slot.ofValue tag (.int a) = Slot.ofValue tag (.uint b) := by
  constructor
  · intro k
    have hread := wholeNumber?_ofLiteral k
    by_cases hbounds : -2 ^ 63 ≤ k.value ∧ k.value < 2 ^ 64
    · rw [if_pos hbounds] at hread
      exact exact_of_whole htag (wholeNumber?_eq_some_iff.1 hread)
    · rw [if_neg hbounds] at hread
      apply exact_of_not_whole htag
      · intro n hn
        rw [wholeNumber?_eq_some_iff.2 hn] at hread
        cases hread
      · exact fun hcovers => hbounds hcovers.bounds
  · intro a b hab
    have ha : Whole (.int a) b.toNat := hab ▸ .int a
    exact ofValue_congr htag ha (.uint b)

/-- The least number that 64 bits hold with a sign, with zeros in front. -/
def leastNumeral : Numeral where
  sign := .minus
  digits := [0, 0, 9, 2, 2, 3, 3, 7, 2, 0, 3, 6, 8, 5, 4, 7, 7, 5, 8, 0, 8]
  nonempty := by simp

/-- It goes into a slot of 64 bits with a sign, and is a mismatch without one. -/
theorem ofLiteral_least :
    (∃ slot, Slot.ofValue (.signed .w64) (.ofLiteral leastNumeral.text) = .ok slot ∧
      slot.Holds (-2 ^ 63)) ∧
      Slot.ofValue (.unsigned .w64) (.ofLiteral leastNumeral.text) = .error .mismatch := by
  have hvalue : leastNumeral.value = -2 ^ 63 := by decide
  have hwhole : IsWholeTag (.signed .w64) ∧ IsWholeTag (.unsigned .w64) := ⟨trivial, trivial⟩
  have hsigned := (ofLiteral_exact hwhole.1).1 leastNumeral
  have hunsigned := (ofLiteral_exact hwhole.2).1 leastNumeral
  rw [hvalue] at hsigned hunsigned
  constructor
  · obtain ⟨slot, hslot⟩ := hsigned.succeeds.2 (by decide)
    exact ⟨slot, hslot, (hsigned.holds slot hslot).2⟩
  · cases hfound : Slot.ofValue (.unsigned .w64) (.ofLiteral leastNumeral.text) with
    | error m => rw [hunsigned.refuses m hfound]
    | ok slot =>
      have hcovers := hunsigned.succeeds.1 ⟨slot, hfound⟩
      exact absurd hcovers (by decide)

end ForeignModule.Native
