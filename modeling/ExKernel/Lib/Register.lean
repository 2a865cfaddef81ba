import Mathlib.Data.List.Perm.Basic
import Mathlib.Data.List.Nodup

/-!
# Registers of named resources

A register records which resources of some kind are held, by their names, and which releases were of
a name that was not held at that moment. Unlike the blocks of an allocator, the names are chosen by
the one who acquires, and the one who releases may name anything.

A sequence of releases that takes no notice of what was acquired leaves the register clean exactly
when it happens to name what is held, each as often as it is held.

## Main definitions

* `Register`, with `Register.acquire`, `Register.release` and `Register.releaseAll`.
* `Register.acquireSome`: the acquisition of those names of a list that are granted.
* `Register.Clean`: nothing is held, and nothing was released that was not held.

## Main results

* `Register.clean_releaseAll`: when a sequence of releases leaves a register clean.
* `Register.releaseAll_perm`: a sequence of releases of some of what is held.
* `Register.held_acquireSome`: what is held after some names of a list were granted.
-/

namespace ExKernel

/-- The resources held, by name, and the names released that were not held, the last one first. -/
structure Register (α : Type*) where
  held : List α
  stray : List α
  deriving DecidableEq

namespace Register

variable {α : Type*}

/-- The register before the first acquisition. -/
def empty : Register α := ⟨[], []⟩

/-- Acquire the name `x`. -/
def acquire (r : Register α) (x : α) : Register α := { r with held := x :: r.held }

/-- Acquire those names of a list that are granted, in order. -/
def acquireSome (r : Register α) (granted : α → Bool) (xs : List α) : Register α :=
  xs.foldl (fun r x => if granted x then r.acquire x else r) r

/-- Nothing is held, and nothing was released that was not held. -/
structure Clean (r : Register α) : Prop where
  held_eq : r.held = []
  stray_eq : r.stray = []

theorem clean_empty : (empty : Register α).Clean := ⟨rfl, rfl⟩

/-- What is held after some names of a list were granted. -/
theorem held_acquireSome (r : Register α) (granted : α → Bool) (xs : List α) :
    (r.acquireSome granted xs).held.Perm (xs.filter granted ++ r.held) := by
  induction xs generalizing r with
  | nil => exact .refl _
  | cons x xs ih =>
    refine (ih _).trans ?_
    cases hx : granted x with
    | false => simp [hx]
    | true =>
      simp only [hx, if_true, acquire, List.filter_cons_of_pos, List.cons_append]
      exact List.perm_middle

theorem stray_acquireSome (r : Register α) (granted : α → Bool) (xs : List α) :
    (r.acquireSome granted xs).stray = r.stray := by
  induction xs generalizing r with
  | nil => rfl
  | cons x xs ih =>
    refine (ih _).trans ?_
    simp only
    split_ifs <;> rfl

/-- Some names of a list are the whole list only if they are all. -/
theorem filter_perm_iff {granted : α → Bool} {xs : List α} :
    (xs.filter granted).Perm xs ↔ ∀ x ∈ xs, granted x = true := by
  rw [← List.filter_eq_self]
  exact ⟨fun h => List.filter_sublist.eq_of_length h.length_eq, fun h => .of_eq h⟩

variable [DecidableEq α]

/-- Release the name `x`. -/
def release (r : Register α) (x : α) : Register α :=
  if x ∈ r.held then { r with held := r.held.erase x } else { r with stray := x :: r.stray }

/-- Release the names of a list, in order. -/
def releaseAll (r : Register α) (xs : List α) : Register α := xs.foldl release r

theorem releaseAll_append (r : Register α) (xs ys : List α) :
    r.releaseAll (xs ++ ys) = (r.releaseAll xs).releaseAll ys :=
  List.foldl_append

/-- A sequence of releases of some of what is held leaves the rest. -/
theorem releaseAll_perm {r : Register α} {xs rest : List α} (h : r.held.Perm (xs ++ rest)) :
    (r.releaseAll xs).held.Perm rest ∧ (r.releaseAll xs).stray = r.stray := by
  induction xs generalizing r with
  | nil => exact ⟨h, rfl⟩
  | cons x xs ih =>
    have hx : x ∈ r.held := h.mem_iff.mpr List.mem_cons_self
    have hrelease : r.release x = { r with held := r.held.erase x } := if_pos hx
    have hrest : (r.release x).held.Perm (xs ++ rest) := by
      rw [hrelease]
      exact ((List.perm_cons_erase hx).symm.trans h).cons_inv
    obtain ⟨hheld, hstray⟩ := ih hrest
    exact ⟨hheld, hstray.trans (by rw [hrelease])⟩

/-- **A sequence of releases** leaves a register clean exactly when it names what is held. -/
theorem clean_releaseAll {r : Register α} {xs : List α} :
    (r.releaseAll xs).Clean ↔ r.stray = [] ∧ r.held.Perm xs := by
  induction xs generalizing r with
  | nil => exact ⟨fun h => ⟨h.stray_eq, .of_eq h.held_eq⟩, fun h => ⟨h.2.eq_nil, h.1⟩⟩
  | cons x xs ih =>
    refine (ih (r := r.release x)).trans ?_
    by_cases hx : x ∈ r.held
    · have hiff : (r.held.erase x).Perm xs ↔ r.held.Perm (x :: xs) := by
        rw [(List.perm_cons_erase hx).congr_left, List.perm_cons]
      simp only [release, if_pos hx, hiff]
    · simp only [release, if_neg hx, List.cons_ne_nil, false_and, false_iff]
      exact fun h => hx (h.2.mem_iff.mpr List.mem_cons_self)

end Register

end ExKernel
