import ExKernel.Scullp.Calls
import ExKernel.Scullp.System

/-!
# The shape of a scullp device

What a device is like after whatever calls. Every array has as many entries as the geometry says,
because the geometry changes only when there is no array. Every block is of the order of its list
item. And the list items after the first are of order 0: `scullp_follow` clears what it appends.

## Main definitions

* `Scullp.ScullpDev.entries`: the number of the entries of an array.
* `Scullp.InShape`: the shape.

## Main results

* `Scullp.Sized.step`, `Scullp.InShape.step`: every call keeps the shape.

## References

* `ldd/scullp/main.c`, lines 117–263 and 413–441.
-/

namespace ExKernel.Scullp

open Scull (Answer QArray)

/-- The number of the entries of an array: `dev->qset`, which counts a loop. -/
def ScullpDev.entries (dev : ScullpDev) : ℕ := dev.qset.toInt.toNat

/-- Every array has as many entries as the geometry says, every block is of the order of its list
item, and that of all list items after the first is 0. -/
structure InShape (dev : ScullpDev) : Prop where
  sized : Sized dev
  size_eq : ∀ n idx q, dev.pagesAt n idx = some q → q.size = pageBytes (dev.orderAt n)
  order_succ : ∀ n, dev.orderAt (n + 1) = 0

section Device

variable {dev : ScullpDev}

/-- A device without data has no blocks, and no list items after the first. -/
theorem pagesAt_empty (hdata : dev.data = none) (hnext : dev.next = []) (n : ℕ) (idx : ℤ) :
    dev.pagesAt n idx = none ∧ dev.orderAt (n + 1) = 0 := by
  have hitems : dev.items = [⟨scullpDevices, none, dev.order⟩] := by
    rw [ScullpDev.items, hdata, hnext]
  rw [ScullpDev.pagesAt, ScullpDev.orderAt, hitems]
  refine ⟨?_, rfl⟩
  cases n <;> rfl

namespace Sized

theorem empty (hdata : dev.data = none) (hnext : dev.next = []) : Sized dev := by
  intro n arr harr
  have hitems : dev.items = [⟨scullpDevices, none, dev.order⟩] := by
    rw [ScullpDev.items, hdata, hnext]
  rw [ScullpDev.arrayOf, hitems] at harr
  cases n <;> cases harr

theorem size_eq (h : Sized dev) {n : ℕ} {arr : QArray} (harr : dev.arrayOf n = some arr) :
    arr.size = dev.entries := by
  obtain ⟨hsize, -⟩ := h n arr harr
  rw [ScullpDev.entries]
  omega

theorem size_eq_of_mem (h : Sized dev) {dptr : ScullpItem} (hd : dptr ∈ dev.items) {arr : QArray}
    (harr : dptr.data = some arr) : arr.size = dev.entries := by
  obtain ⟨n, hn⟩ := List.mem_iff_getElem?.mp hd
  refine h.size_eq (n := n) ?_
  rw [ScullpDev.arrayOf, hn, Option.bind_some, harr]

/-- The length of the arrays is kept by every call. -/
theorem step {s t : ScullpSys} {op : ScullpOp} {r : Answer} (h : Sized s.dev)
    (hst : s.step op = some (r, t)) : Sized t.dev := by
  cases op with
  | scullpOpen file mode lockIntr =>
    rcases open_cases hst with ⟨hdev, -⟩ | ⟨-, -, -, hdev, -⟩
    · rw [hdev]
      exact h
    · rw [hdev]
      exact .empty rfl rfl
  | scullpRead file count room lockIntr env =>
    obtain ⟨res, hres, heq⟩ := Option.map_eq_some_iff.mp hst
    cases heq
    exact h.read hres
  | scullpWrite file count src lockIntr env =>
    obtain ⟨res, hres, heq⟩ := Option.map_eq_some_iff.mp hst
    cases heq
    exact h.write hres
  | scullpMmap area =>
    cases hst
    simp only [scullpMmap]
    split_ifs
    · exact h
    · exact h
  | _ =>
    cases hst
    exact h

end Sized

namespace InShape

theorem empty (hdata : dev.data = none) (hnext : dev.next = []) : InShape dev where
  sized := .empty hdata hnext
  size_eq n idx q hq := by
    rw [(pagesAt_empty hdata hnext n idx).1] at hq
    cases hq
  order_succ n := (pagesAt_empty hdata hnext n 0).2

theorem grown {P : ℕ → Prop} {dev' : ScullpDev} {heap heap' : Ledger} (h : InShape dev)
    (hgrown : Grown P dev heap dev' heap') (hsized : Sized dev') : InShape dev' where
  sized := hsized
  size_eq n idx q hq := by
    rw [hgrown.orderAt_eq]
    rcases hgrown.pagesAt_fresh hq with ⟨old, hold, -, hsize⟩ | ⟨-, -, hsize⟩
    · exact hsize.trans (h.size_eq n idx old hold)
    · exact hsize
  order_succ n := by
    rw [hgrown.orderAt_eq]
    exact h.order_succ n

theorem of_vmas {dev' : ScullpDev} {v : ℤ} (h : InShape dev) (hdev : dev' = { dev with vmas := v }) :
    InShape dev' := by
  subst hdev
  exact ⟨h.sized, h.size_eq, h.order_succ⟩

/-- The shape is kept by every call. -/
theorem step {s t : ScullpSys} {op : ScullpOp} {r : Answer} (h : InShape s.dev)
    (hst : s.step op = some (r, t)) : InShape t.dev := by
  have hsized : Sized t.dev := h.sized.step hst
  cases moved_of_step hst with
  | grown hgrown _ => exact h.grown hgrown hsized
  | emptied _ _ _ hdev _ => exact .empty (by rw [hdev]) (by rw [hdev])
  | mapped _ _ _ hdev _ _ => exact h.of_vmas hdev
  | copied _ _ _ hdev _ _ => exact h.of_vmas hdev
  | closed _ _ hdev _ _ => exact h.of_vmas hdev

end InShape

end Device

end ExKernel.Scullp
