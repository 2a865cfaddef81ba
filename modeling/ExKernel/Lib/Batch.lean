import Mathlib.Algebra.BigOperators.Group.List.Basic
import Mathlib.Data.List.SplitBy
import Mathlib.Tactic.Common

/-!
# Loops that collect batches

A loop goes through a list, looks at every element, and collects those that it keeps in a batch as
long as their key stays the same. When the key changes, the batch is handed on as a whole and a new
one is begun. What the loop does is a log of effects. The first element of a batch may leave a mark
by which the loop looks at the elements after it, so that what it finds out about one element can
be used for the next.

Whatever is counted of the effects of a single element, over all batches it is the sum over the
elements, provided that a mark makes no difference to it and that a batch counts as its elements do.
In a commutative monoid this says that no effect is lost or doubled; in a free one, for effects that
only a batch has, that their order is the order of the list.

## Main definitions

* `Batch.Loop`, `Batch.Loop.run`: the loop, from any key, mark and batch.
* `Batch.Loop.groups`: the batches that it hands on.

## Main results

* `Batch.Loop.sum_run`: what is counted over all batches.
* `Batch.Loop.groups_eq`: the batches are the longest stretches of elements with one key.
-/

namespace ExKernel.Batch

/-- What is particular to a loop: what looking at an element does, given the mark in force, and
whether the element is kept; the key of an element; the mark that the first element of a batch
leaves; and what handing on a batch does. -/
structure Loop (α β γ κ ε : Type*) where
  look : Option γ → α → List ε × Option β
  key : β → κ
  mark : β → Option γ
  flush : κ → List β → List ε

namespace Loop

variable {α β γ κ ε : Type*} [DecidableEq κ] (L : Loop α β γ κ ε)

/-- What handing on a batch does, if there is one. -/
def dispatch (cur : Option κ) (batch : List β) : List ε :=
  match cur, batch with
  | some k, y :: ys => L.flush k (y :: ys)
  | _, _ => []

/-- The effects of the loop, from the key `cur`, the mark `hint` and the batch `batch` on. -/
def run (cur : Option κ) (hint : Option γ) (batch : List β) : List α → List ε
  | [] => L.dispatch cur batch
  | x :: xs =>
    let seen := L.look hint x
    seen.1 ++ match seen.2 with
    | none => run cur hint batch xs
    | some y =>
      if cur = some (L.key y) then run cur hint (batch ++ [y]) xs
      else L.dispatch cur batch ++ run (some (L.key y)) (L.mark y) [y] xs

/-- What the loop does with an element, and how it goes on. -/
theorem run_cons_cases (cur : Option κ) (hint : Option γ) (batch : List β) (x : α) (xs : List α) :
    ∃ rest, L.run cur hint batch (x :: xs) = (L.look hint x).1 ++ rest ∧
      ((L.look hint x).2 = none ∧ rest = L.run cur hint batch xs ∨
        ∃ y, (L.look hint x).2 = some y ∧
          (cur = some (L.key y) ∧ rest = L.run cur hint (batch ++ [y]) xs ∨
            cur ≠ some (L.key y) ∧
              rest = L.dispatch cur batch ++ L.run (some (L.key y)) (L.mark y) [y] xs)) := by
  refine ⟨_, rfl, ?_⟩
  cases hlook : (L.look hint x).2 with
  | none => exact .inl ⟨rfl, rfl⟩
  | some y =>
    refine .inr ⟨y, rfl, ?_⟩
    dsimp only
    split_ifs with hcur
    · exact .inl ⟨hcur, rfl⟩
    · exact .inr ⟨hcur, rfl⟩

/-- What holds of the effects of single elements and single batches, and of two logs together, holds
of the whole loop. -/
theorem run_of_append {P : List ε → Prop} (hnil : P []) (happend : ∀ a b, P a → P b → P (a ++ b))
    (hflush : ∀ k batch, P (L.flush k batch)) (cur : Option κ) (hint : Option γ) (batch : List β)
    (xs : List α) (hlook : ∀ hint, ∀ x ∈ xs, P (L.look hint x).1) :
    P (L.run cur hint batch xs) := by
  have hdispatch : ∀ cur batch, P (L.dispatch cur batch) := by
    intro cur batch
    unfold dispatch
    split
    · exact hflush _ _
    · exact hnil
  induction xs generalizing cur hint batch with
  | nil => exact hdispatch cur batch
  | cons x xs ih =>
    have hxs : ∀ hint, ∀ z ∈ xs, P (L.look hint z).1 := fun hint z hz =>
      hlook hint z (List.mem_cons_of_mem x hz)
    obtain ⟨rest, hrun, hrest⟩ := L.run_cons_cases cur hint batch x xs
    rw [hrun]
    refine happend _ _ (hlook hint x List.mem_cons_self) ?_
    rcases hrest with ⟨-, rfl⟩ | ⟨y, -, ⟨-, rfl⟩ | ⟨-, rfl⟩⟩
    · exact ih _ _ _ hxs
    · exact ih _ _ _ hxs
    · exact happend _ _ (hdispatch cur batch) (ih _ _ _ hxs)

/-! ### What is counted -/

section Sums

variable {M : Type*} [AddMonoid M] (φ : ε → M) (ψ : β → M) (χ : α → M) {I : κ → Option γ → Prop}
  {Q : β → Prop}

/-- What is counted of a batch, the elements of which have the property `Q`, is counted of its
elements. -/
def Splits (Q : β → Prop) : Prop :=
  ∀ k batch, (∀ y ∈ batch, L.key y = k ∧ Q y) →
    ((L.flush k batch).map φ).sum = (batch.map ψ).sum

/-- What is counted when an element is looked at, and of the element if it is kept, is the same
under every admissible mark; and it can be counted before or after the elements of a batch. -/
structure Counts (I : κ → Option γ → Prop) (Q : β → Prop) (cur : Option κ) (hint : Option γ)
    (x : α) : Prop where
  total : ((L.look hint x).1.map φ).sum + ((L.look hint x).2.map ψ).getD 0 = χ x
  comm : ∀ y, ((L.look hint x).1.map φ).sum + ψ y = ψ y + ((L.look hint x).1.map φ).sum
  kept : ∀ y, (L.look hint x).2 = some y → Q y
  mark : ∀ y, (L.look hint x).2 = some y → cur ≠ some (L.key y) → I (L.key y) (L.mark y)

variable {φ ψ χ L}

omit [DecidableEq κ] in
theorem sum_dispatch (hsplits : L.Splits φ ψ Q) {cur : Option κ} {batch : List β}
    (hkey : ∀ y ∈ batch, cur = some (L.key y) ∧ Q y) :
    ((L.dispatch cur batch).map φ).sum = (batch.map ψ).sum := by
  unfold dispatch
  cases batch with
  | nil => cases cur <;> rfl
  | cons y ys =>
    cases cur with
    | none => cases (hkey y List.mem_cons_self).1
    | some k =>
      exact hsplits k _ fun z hz => ⟨(Option.some.inj (hkey z hz).1).symm, (hkey z hz).2⟩

theorem sum_comm {a : M} (h : ∀ y, a + ψ y = ψ y + a) (batch : List β) :
    a + (batch.map ψ).sum = (batch.map ψ).sum + a := by
  induction batch with
  | nil => simp
  | cons y ys ih => rw [List.map_cons, List.sum_cons, ← add_assoc, h, add_assoc, ih, add_assoc]

/-- **What is counted over all batches.** -/
theorem sum_run (hsplits : L.Splits φ ψ Q) (xs : List α)
    (hcounts : ∀ cur hint, (∀ k, cur = some k → I k hint) → (cur = none → hint = none) →
      ∀ x ∈ xs, L.Counts φ ψ χ I Q cur hint x)
    {cur : Option κ} {hint : Option γ} {batch : List β}
    (hkey : ∀ y ∈ batch, cur = some (L.key y) ∧ Q y) (hI : ∀ k, cur = some k → I k hint)
    (hnone : cur = none → hint = none) :
    ((L.run cur hint batch xs).map φ).sum = (batch.map ψ).sum + (xs.map χ).sum := by
  induction xs generalizing cur hint batch with
  | nil => simpa [run] using sum_dispatch hsplits hkey
  | cons x xs ih =>
    have hx := hcounts cur hint hI hnone x List.mem_cons_self
    have ih := @ih fun cur hint h h' z hz => hcounts cur hint h h' z (List.mem_cons_of_mem x hz)
    have htotal := hx.total
    have hmove := sum_comm hx.comm batch
    simp only [run, List.map_append, List.sum_append, List.map_cons, List.sum_cons]
    cases hseen : (L.look hint x).2 with
    | none =>
      rw [hseen, Option.map_none, Option.getD_none, add_zero] at htotal
      rw [ih hkey hI hnone, ← htotal, ← add_assoc, hmove, add_assoc]
    | some y =>
      rw [hseen, Option.map_some, Option.getD_some] at htotal
      dsimp only
      split_ifs with hcur
      · have hkey' : ∀ z ∈ batch ++ [y], cur = some (L.key z) ∧ Q z := by
          intro z hz
          rcases List.mem_append.mp hz with hz | hz
          · exact hkey z hz
          · rw [List.mem_singleton.mp hz]
            exact ⟨hcur, hx.kept y hseen⟩
        rw [ih hkey' hI hnone, List.map_append, List.sum_append, List.map_singleton,
          List.sum_singleton, ← htotal, ← add_assoc, ← add_assoc, hmove]
        simp only [add_assoc]
      · -- The batch is handed on after the element was looked at, and before it is kept.
        have hkey' : ∀ z ∈ [y], some (L.key y) = some (L.key z) ∧ Q z := by
          intro z hz
          rw [List.mem_singleton.mp hz]
          exact ⟨rfl, hx.kept y hseen⟩
        have hmark : ∀ k, some (L.key y) = some k → I k (L.mark y) := by
          rintro k heq
          cases heq
          exact hx.mark y hseen hcur
        rw [List.map_append, List.sum_append, sum_dispatch hsplits hkey,
          ih hkey' hmark (by simp), List.map_singleton, List.sum_singleton, ← htotal, ← add_assoc,
          hmove]
        simp only [add_assoc]

end Sums

/-! ### The batches -/

/-- The loop with the batches that it hands on as its only effects. -/
def traced : Loop α β γ κ (List β) where
  look hint x := ([], (L.look hint x).2)
  key := L.key
  mark := L.mark
  flush _ batch := [batch]

/-- The batches that the loop hands on, in order. -/
def groups (xs : List α) : List (List β) := L.traced.run none none [] xs

/-- The elements that the loop keeps, from the key `cur` and the mark `hint` on. -/
def kept (cur : Option κ) (hint : Option γ) : List α → List β
  | [] => []
  | x :: xs =>
    match (L.look hint x).2 with
    | none => kept cur hint xs
    | some y =>
      y :: if cur = some (L.key y) then kept cur hint xs else kept (some (L.key y)) (L.mark y) xs

variable {L}

/-- If a mark makes no difference to what is kept, this is a part of the list. -/
theorem kept_eq_filterMap {keep : α → Option β} {xs : List α} (cur : Option κ) (hint : Option γ)
    (hkeep : ∀ hint, ∀ x ∈ xs, (L.look hint x).2 = keep x) :
    L.kept cur hint xs = xs.filterMap keep := by
  induction xs generalizing cur hint with
  | nil => rfl
  | cons x xs ih =>
    have hxs : ∀ hint, ∀ z ∈ xs, (L.look hint z).2 = keep z := fun hint z hz =>
      hkeep hint z (List.mem_cons_of_mem x hz)
    rw [kept, hkeep hint x List.mem_cons_self]
    cases hx : keep x with
    | none =>
      rw [List.filterMap_cons_none hx]
      exact ih cur hint hxs
    | some y =>
      rw [List.filterMap_cons_some hx]
      dsimp only
      split_ifs
      · rw [ih cur hint hxs]
      · rw [ih _ _ hxs]

omit [DecidableEq κ] in
theorem traced_look (hint : Option γ) (x : α) : L.traced.look hint x = ([], (L.look hint x).2) :=
  rfl

omit [DecidableEq κ] in
theorem traced_key (y : β) : L.traced.key y = L.key y := rfl

omit [DecidableEq κ] in
theorem traced_mark (y : β) : L.traced.mark y = L.mark y := rfl

omit [DecidableEq κ] in
theorem isChain_of_key [DecidableEq κ] {k : κ} {batch : List β} (h : ∀ z ∈ batch, L.key z = k) :
    batch.IsChain fun y z => decide (L.key y = L.key z) = true := by
  refine List.Pairwise.isChain (List.pairwise_of_forall_mem_list fun a ha b hb => ?_)
  simp [h a ha, h b hb]

/-- The batches that are handed on when one has been begun. -/
theorem traced_run_cons {xs : List α} {k : κ} {hint : Option γ} {y : β} {ys : List β}
    (hkey : ∀ z ∈ y :: ys, L.key z = k) :
    L.traced.run (some k) hint (y :: ys) xs =
      (y :: ys ++ L.kept (some k) hint xs).splitBy fun y z => L.key y = L.key z := by
  induction xs generalizing k hint y ys with
  | nil =>
    rw [kept, List.append_nil,
      List.splitBy_of_isChain (List.cons_ne_nil y ys) (isChain_of_key hkey)]
    rfl
  | cons x xs ih =>
    rw [run, kept, traced_look]
    dsimp only [List.nil_append]
    cases hlook : (L.look hint x).2 with
    | none => exact ih hkey
    | some z =>
      dsimp only
      rw [traced_key, traced_mark]
      split_ifs with hcur
      · have hkey' : ∀ w ∈ y :: (ys ++ [z]), L.key w = k := by
          intro w hw
          rw [← List.cons_append, List.mem_append, List.mem_singleton] at hw
          rcases hw with hw | rfl
          · exact hkey w hw
          · exact (Option.some.inj hcur).symm
        have hrun := @ih k hint y (ys ++ [z]) hkey'
        rw [List.cons_append, List.append_assoc] at hrun
        exact hrun
      · have hz : ¬ k = L.key z := fun heq => hcur (congrArg some heq)
        have hlast : ∀ w ∈ (y :: ys).getLast?, decide (L.key w = L.key z) = false := by
          intro w hw
          rw [hkey w (List.mem_of_getLast? hw)]
          simpa using hz
        rw [List.splitBy_append_cons _ hlast,
          List.splitBy_of_isChain (List.cons_ne_nil y ys) (isChain_of_key hkey)]
        have hrun := @ih (L.key z) (L.mark z) z [] (by simp)
        exact congrArg (List.cons (y :: ys)) hrun

/-- **The batches** are the longest stretches of elements with one key, of those that are kept. -/
theorem groups_eq (xs : List α) :
    L.groups xs = (L.kept none none xs).splitBy fun y z => L.key y = L.key z := by
  unfold groups
  induction xs with
  | nil => rfl
  | cons x xs ih =>
    rw [run, kept, traced_look]
    dsimp only [List.nil_append]
    cases hlook : (L.look none x).2 with
    | none => exact ih
    | some z => exact traced_run_cons (by simp [traced_key])

end Loop

end ExKernel.Batch
