import Mathlib.Data.List.Basic

/-!
# Going through a list in pieces

A list is gone through from the beginning to the end, in pieces of at most a given length: the piece
at a position is `(l.drop pos).take n`, and the next position is behind it.

## Main results

* `Pieces.take_append`: what was gone through, and the next piece.
* `Pieces.append_drop`: the next piece, and what is left.
-/

namespace ExKernel.Pieces

variable {α : Type*} (l : List α) (pos n : ℕ)

theorem length_eq : ((l.drop pos).take n).length = min n (l.length - pos) := by
  rw [List.length_take, List.length_drop]

/-- The next piece, and what is left behind it. -/
theorem append_drop :
    (l.drop pos).take n ++ l.drop (pos + ((l.drop pos).take n).length) = l.drop pos := by
  rw [← List.drop_drop, List.length_take]
  generalize l.drop pos = rest
  rcases Nat.le_total n rest.length with hle | hle
  · rw [Nat.min_eq_left hle, List.take_append_drop]
  · rw [Nat.min_eq_right hle, List.take_of_length_le hle, List.drop_length, List.append_nil]

/-- What was gone through, and the next piece. -/
theorem take_append :
    l.take pos ++ (l.drop pos).take n = l.take (pos + ((l.drop pos).take n).length) := by
  rw [List.take_add, List.length_take, ← List.take_eq_take_min]

theorem eq_nil_iff : (l.drop pos).take (n + 1) = [] ↔ l.length ≤ pos := by
  simp

end ExKernel.Pieces
