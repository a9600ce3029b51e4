/-!
# Finding a text in a text

Texts are lists of characters here, so that what stands before and behind a find is a part of the
list.
-/

namespace ForeignModule.Text

/-- What stands before the first occurrence of `stop`, which is not empty. -/
def before? (stop : List Char) : List Char → Option (List Char)
  | [] => none
  | c :: rest =>
    if stop.isPrefixOf (c :: rest) then some [] else (before? stop rest).map (c :: ·)

/-- What stands behind the last occurrence of `mark`, which is not empty. -/
def afterLast? (mark : List Char) : List Char → Option (List Char)
  | [] => none
  | c :: rest =>
    match afterLast? mark rest with
    | some after => some after
    | none =>
      if mark.isPrefixOf (c :: rest) then some ((c :: rest).drop mark.length) else none

/-- Does the word, which is not empty, occur in the text? -/
def contains (text word : String) : Bool := (before? word.toList text.toList).isSome

/-- What follows `start` in a text that begins with it. -/
def stripStart? : List Char → List Char → Option (List Char)
  | [], text => some text
  | _ :: _, [] => none
  | s :: start, c :: text => if s = c then stripStart? start text else none

theorem stripStart?_eq_some_iff {start text rest : List Char} :
    stripStart? start text = some rest ↔ text = start ++ rest := by
  induction start generalizing text with
  | nil => simp [stripStart?]
  | cons s start ih =>
    cases text with
    | nil => simp [stripStart?]
    | cons c text =>
      by_cases h : s = c
      · simp [stripStart?, h, ih]
      · simp [stripStart?, h, Ne.symm h]

/-- What comes before `stop` in a text that ends with it. -/
def stripEnd? (stop text : List Char) : Option (List Char) :=
  (stripStart? stop.reverse text.reverse).map List.reverse

theorem stripEnd?_eq_some_iff {stop text rest : List Char} :
    stripEnd? stop text = some rest ↔ text = rest ++ stop := by
  simp only [stripEnd?, Option.map_eq_some_iff, stripStart?_eq_some_iff]
  constructor
  · rintro ⟨r, hr, rfl⟩
    have := congrArg List.reverse hr
    simpa using this
  · rintro rfl
    exact ⟨rest.reverse, by simp, by simp⟩

end ForeignModule.Text
