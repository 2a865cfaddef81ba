import ExKernel.Lib.Ledger
import Mathlib.Logic.Function.Basic

/-!
# Owners of single blocks

Each of many owners has a pointer, to a block that it alone owns, or to nothing. The blocks that are
live are those that the pointers point to. An owner without a block can be given a fresh one, and
one with a block can release it; the others keep theirs, which are different blocks.

## Main definitions

* `Ledger.OwnedBy`: the live blocks are owned, each by one owner.

## Main results

* `Ledger.OwnedBy.alloc`, `Ledger.OwnedBy.free`: the operations on the block of an owner.
-/

namespace ExKernel.Ledger

variable {α : Type*}

/-- The pointers of the owners point to the live blocks, and no two to the same. -/
structure OwnedBy (l : Ledger) (ptr : α → Option ℕ) : Prop where
  sound : l.Sound
  inj : ∀ a b p, ptr a = some p → ptr b = some p → a = b
  live_iff : ∀ p, p ∈ l.live ↔ ∃ a, ptr a = some p

namespace OwnedBy

variable {l : Ledger} {ptr : α → Option ℕ} {a : α} {p : ℕ}

theorem empty : Ledger.empty.OwnedBy (fun _ : α => none) where
  sound := sound_empty
  inj _ _ _ h := by cases h
  live_iff _ := iff_of_false List.not_mem_nil fun ⟨_, h⟩ => by cases h

theorem live (h : l.OwnedBy ptr) (ha : ptr a = some p) : p ∈ l.live := (h.live_iff p).mpr ⟨a, ha⟩

variable [DecidableEq α]

/-- An owner without a block gets a fresh one. -/
theorem alloc (h : l.OwnedBy ptr) (ha : ptr a = none) :
    l.alloc.OwnedBy (Function.update ptr a (some l.next)) := by
  have hfresh : ∀ b, ptr b ≠ some l.next := fun b hb =>
    absurd (h.sound.live_lt _ (h.live hb)) (Nat.lt_irrefl _)
  refine ⟨h.sound.alloc, fun b c p hb hc => ?_, fun p => ?_⟩
  · simp only [Function.update_apply] at hb hc
    split_ifs at hb hc with hba hca hca
    · exact hba.trans hca.symm
    · exact absurd (hc.trans hb.symm) (hfresh c)
    · exact absurd (hb.trans hc.symm) (hfresh b)
    · exact h.inj b c p hb hc
  · rw [live_alloc, List.mem_cons, h.live_iff]
    constructor
    · rintro (rfl | ⟨b, hb⟩)
      · exact ⟨a, Function.update_self _ _ _⟩
      · refine ⟨b, (Function.update_of_ne ?_ _ _).trans hb⟩
        rintro rfl
        cases ha.symm.trans hb
    · rintro ⟨b, hb⟩
      rw [Function.update_apply] at hb
      split_ifs at hb with hba
      · exact .inl (Option.some.inj hb).symm
      · exact .inr ⟨b, hb⟩

/-- An owner releases its block. -/
theorem free (h : l.OwnedBy ptr) (ha : ptr a = some p) :
    (l.free p).OwnedBy (Function.update ptr a none) := by
  refine ⟨h.sound.free (h.live ha), fun b c q hb hc => ?_, fun q => ?_⟩
  · simp only [Function.update_apply] at hb hc
    split_ifs at hb hc
    exact h.inj b c q hb hc
  · rw [Ledger.free, h.sound.live_nodup.mem_erase_iff, h.live_iff]
    constructor
    · rintro ⟨hne, b, hb⟩
      refine ⟨b, (Function.update_of_ne ?_ _ _).trans hb⟩
      rintro rfl
      exact hne (Option.some.inj (hb.symm.trans ha))
    · rintro ⟨b, hb⟩
      rw [Function.update_apply] at hb
      split_ifs at hb with hba
      refine ⟨?_, b, hb⟩
      rintro rfl
      exact hba (h.inj b a q hb ha)

end OwnedBy

end ExKernel.Ledger
