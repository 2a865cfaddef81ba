import Mathlib.Order.WellFounded
import Mathlib.Tactic.Common

/-!
# Loops that start over

A function goes through its steps and either returns or starts over with what it has left, as often
as it takes. It is given by one round: the effects of the round, and with what the next one begins,
if there is one. The loop ends if and only if there is no infinite sequence of rounds, and it does
so when every round leaves less than it began with.

## Main definitions

* `Retry.run`: the effects of at most so many rounds, if the last of them returns.
* `Retry.Next`: what a round begins the next one with.

## Main results

* `Retry.exists_run_iff_acc`: when the loop ends.
* `Retry.exists_run_of_lt`: it ends when the rounds leave less and less.
* `Retry.run_induction`: what holds of the last round, and carries over to the rounds before, holds
  of the loop.
-/

namespace ExKernel.Retry

variable {σ ε : Type*} (round : σ → List ε × Option σ)

/-- The effects of the loop from `s` on, if it ends within `n` rounds. -/
def run : ℕ → σ → Option (List ε)
  | 0, _ => none
  | n + 1, s =>
    match (round s).2 with
    | none => some (round s).1
    | some t => (run n t).map ((round s).1 ++ ·)

/-- The round that begins with `s` is followed by one that begins with `t`. -/
def Next (t s : σ) : Prop := (round s).2 = some t

variable {round}

theorem run_of_none {s : σ} (h : (round s).2 = none) (n : ℕ) :
    run round (n + 1) s = some (round s).1 := by
  rw [run, h]

theorem run_of_some {s t : σ} (h : (round s).2 = some t) (n : ℕ) :
    run round (n + 1) s = (run round n t).map ((round s).1 ++ ·) := by
  rw [run, h]

/-- **Induction over the rounds**, from the last one back. -/
theorem run_induction {P : σ → List ε → Prop}
    (hlast : ∀ s, (round s).2 = none → P s (round s).1)
    (hround : ∀ s t log, (round s).2 = some t → P t log → P s ((round s).1 ++ log))
    {n : ℕ} {s : σ} {log : List ε} (h : run round n s = some log) : P s log := by
  induction n generalizing s log with
  | zero => cases h
  | succ n ih =>
    cases hs : (round s).2 with
    | none =>
      rw [run_of_none hs] at h
      exact Option.some.inj h ▸ hlast s hs
    | some t =>
      rw [run_of_some hs] at h
      obtain ⟨rest, hrest, rfl⟩ := Option.map_eq_some_iff.mp h
      exact hround s t rest hs (ih hrest)

/-- **When the loop ends.** -/
theorem exists_run_iff_acc (s : σ) : (∃ n log, run round n s = some log) ↔ Acc (Next round) s := by
  constructor
  · rintro ⟨n, log, h⟩
    refine run_induction (P := fun s _ => Acc (Next round) s) (fun s hs => ?_)
      (fun s t _ hs ht => ?_) h
    · exact ⟨s, fun t ht => by rw [Next, hs] at ht; cases ht⟩
    · exact ⟨s, fun u hu => Option.some.inj (hs.symm.trans hu) ▸ ht⟩
  · intro h
    induction h with
    | intro s _ ih =>
      cases hs : (round s).2 with
      | none => exact ⟨1, _, run_of_none hs 0⟩
      | some t =>
        obtain ⟨n, log, hlog⟩ := ih t hs
        exact ⟨n + 1, _, by rw [run_of_some hs, hlog]; rfl⟩

/-- **The loop ends** when each round leaves less than it began with. -/
theorem exists_run_of_lt {size : σ → ℕ} (h : ∀ s t, Next round t s → size t < size s) (s : σ) :
    ∃ log, ∀ n, size s < n → run round n s = some log := by
  induction hsize : size s using Nat.strong_induction_on generalizing s with
  | _ k ih =>
    cases hs : (round s).2 with
    | none =>
      refine ⟨(round s).1, fun n hn => ?_⟩
      obtain ⟨m, rfl⟩ := Nat.exists_eq_add_of_le' (Nat.one_le_of_lt hn)
      exact run_of_none hs m
    | some t =>
      have hlt := h s t hs
      obtain ⟨log, hlog⟩ := ih (size t) (hsize ▸ hlt) t rfl
      refine ⟨(round s).1 ++ log, fun n hn => ?_⟩
      obtain ⟨m, rfl⟩ := Nat.exists_eq_add_of_le' (Nat.one_le_of_lt hn)
      rw [run_of_some hs, hlog m (by omega)]
      rfl

end ExKernel.Retry
