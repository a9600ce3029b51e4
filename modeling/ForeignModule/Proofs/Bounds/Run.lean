/-!
# Programs that read by index

A list read by indices and a text read by byte offsets can be read outside of what is there, and a loop over
them need not end. `Run` is what such a program brings: it may stop at a trap, and it is `none` if it goes on
forever. A program that equals `pure a` therefore ends, and reads only what is there.

* `item`, `part` and `minus` are the operations on indices that may stop;
* `loop` repeats a body until that has a result; `loop_next` and `loop_done` say what one round does.
-/

namespace ForeignModule.Bounds

/-- What stops a program. -/
inductive Trap where
  /-- A stretch of text that is not in the text, or that starts or ends inside a character. -/
  | slice
  /-- An element or a stretch of a list that is not in the list. -/
  | index
  /-- A count below zero. -/
  | underflow
deriving DecidableEq, Repr

/-- What a program brings. -/
abbrev Run := ExceptT Trap Option

variable {α σ : Type}

/-- The element at an index. -/
def item (xs : List α) (i : Nat) : Run α :=
  match xs[i]? with
  | some x => pure x
  | none => throw .index

/-- The elements from one index up to another. -/
def part (xs : List α) (start stop : Nat) : Run (List α) :=
  if start ≤ stop ∧ stop ≤ xs.length then pure ((xs.drop start).take (stop - start)) else throw .index

/-- A difference of counts. -/
def minus (m n : Nat) : Run Nat := if n ≤ m then pure (m - n) else throw .underflow

/-- Repeats a body until it brings a result. Until then each round brings the state for the next one. -/
def loop (body : σ → Run (σ ⊕ α)) (s : σ) : Run α := do
  match ← body s with
  -- Applied by tactics: a call that is written out keeps its place in the file as a part of the term.
  | .inl s => (by
      apply loop
      · exact body
      · exact s)
  | .inr a => pure a
partial_fixpoint

theorem loop_next {body : σ → Run (σ ⊕ α)} {s t : σ} (h : body s = pure (.inl t)) :
    loop body s = loop body t := by
  rw [loop, h, pure_bind]

theorem loop_done {body : σ → Run (σ ⊕ α)} {s : σ} {a : α} (h : body s = pure (.inr a)) :
    loop body s = pure a := by
  rw [loop, h, pure_bind]

theorem item_append (front rest : List α) (x : α) : item (front ++ x :: rest) front.length = pure x := by
  simp [item]

theorem part_append (front inside rest : List α) :
    part (front ++ (inside ++ rest)) front.length (front.length + inside.length) = pure inside := by
  rw [part, if_pos]
  · simp
  · simp only [List.length_append]
    omega

theorem part_drop {xs : List α} {start : Nat} (h : start ≤ xs.length) :
    part xs start xs.length = pure (xs.drop start) := by
  rw [part, if_pos ⟨h, Nat.le_refl _⟩, List.take_of_length_le (by simp)]

theorem minus_add (m n : Nat) : minus (m + n) n = pure m := by
  rw [minus, if_pos (Nat.le_add_left n m), Nat.add_sub_cancel]

end ForeignModule.Bounds
