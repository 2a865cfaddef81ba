import Mathlib.Algebra.BigOperators.Group.Finset.Piecewise
import Mathlib.Data.Finset.Card
import Mathlib.Data.Fintype.Basic

/-!
# Counting processes

A system of finitely many processes has, for each predicate on the state of a process, the number of
processes that satisfy it. A step of one process changes the number by what the step does to this
one process.

## Main definitions

* `census`: the number of processes whose state satisfies a predicate.

## Main results

* `census_update`: the number after the step of one process.
-/

namespace ExKernel

variable {ι α : Type*} [Fintype ι] (P : α → Bool) (f : ι → α)

/-- The number of processes whose state satisfies `P`. -/
def census : ℕ := (Finset.univ.filter fun p => P (f p) = true).card

theorem census_eq_sum : census P f = ∑ p, (P (f p)).toNat := by
  rw [census, Finset.card_filter]
  refine Finset.sum_congr rfl fun p _ => ?_
  cases P (f p) <;> rfl

/-- **The step of one process.** The number changes as the process that makes the step does. -/
theorem census_update [DecidableEq ι] (p : ι) (a : α) :
    census P (Function.update f p a) + (P (f p)).toNat = census P f + (P a).toNat := by
  have hcomp : (fun q => (P (Function.update f p a q)).toNat) =
      Function.update (fun q => (P (f q)).toNat) p (P a).toNat :=
    funext (Function.apply_update (fun _ b => (P b).toNat) f p a)
  rw [census_eq_sum, census_eq_sum, hcomp, Finset.sum_update_of_mem (Finset.mem_univ p)]
  have hsplit := Finset.sum_sdiff (f := fun q => (P (f q)).toNat) (Finset.subset_univ {p})
  rw [Finset.sum_singleton] at hsplit
  omega

theorem census_eq_zero_iff : census P f = 0 ↔ ∀ p, P (f p) = false := by
  simp [census, Finset.filter_eq_empty_iff]

theorem census_pos_iff : 0 < census P f ↔ ∃ p, P (f p) = true := by
  simp [census, Finset.card_pos, Finset.Nonempty]

theorem census_le_one_iff :
    census P f ≤ 1 ↔ ∀ p q, P (f p) = true → P (f q) = true → p = q := by
  simp only [census, Finset.card_le_one, Finset.mem_filter, Finset.mem_univ, true_and]
  exact ⟨fun h p q hp hq => h p hp q hq, fun h p hp q hq => h p q hp hq⟩

end ExKernel
