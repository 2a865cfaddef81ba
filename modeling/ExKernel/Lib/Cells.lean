import Mathlib.Algebra.Order.Ring.Int

/-!
# Memory contents and blocks

The contents of memory around a pointer are a function of the offset from it. `load` reads a range
of offsets and `store` overwrites one, as a copy of consecutive cells does. A `Block` is an
allocated piece of memory: its identity, the number of its cells, and the contents seen from its
first cell. The contents are total: an offset outside `[0, size)` is memory of somebody else, and
being inside is a property to be proved, not one the representation grants.

## Main definitions

* `Cells.load`, `Cells.store`, `Cells.fill`: reading, overwriting and clearing a range of offsets.
* `Block`: an allocated block.

## Main results

* `Cells.load_store_self`, `Cells.load_store_of_disjoint`: what a store changes and what it leaves.
-/

namespace ExKernel

namespace Cells

variable {α : Type*}

/-- The `n` cells from the offset `off` on. -/
def load (m : ℤ → α) (off : ℤ) (n : ℕ) : List α :=
  (List.range n).map fun i : ℕ => m (off + i)

/-- The contents after the cells from the offset `off` on were overwritten by `xs`. -/
def store (m : ℤ → α) (off : ℤ) (xs : List α) : ℤ → α := fun x =>
  if off ≤ x then (xs[(x - off).toNat]?).getD (m x) else m x

/-- The contents after the `n` cells from the offset `off` on were all set to `c`. -/
def fill (m : ℤ → α) (off : ℤ) (c : α) (n : ℕ) : ℤ → α := fun x =>
  if off ≤ x ∧ x < off + n then c else m x

variable (m : ℤ → α) (off : ℤ)

@[simp] theorem length_load (n : ℕ) : (load m off n).length = n := by
  simp [load]

@[simp] theorem load_zero : load m off 0 = [] := rfl

theorem getElem?_load {n i : ℕ} (h : i < n) : (load m off n)[i]? = some (m (off + i)) := by
  simp [load, h]

theorem load_add (a b : ℕ) : load m off (a + b) = load m off a ++ load m (off + a) b := by
  simp only [load, List.range_add, List.map_append, List.map_map, List.append_cancel_left_eq]
  refine List.map_congr_left fun i _ => ?_
  simp only [Function.comp_apply, Nat.cast_add, add_assoc]

theorem load_congr {m m' : ℤ → α} {off : ℤ} {n : ℕ}
    (h : ∀ x, off ≤ x → x < off + n → m x = m' x) : load m off n = load m' off n := by
  refine List.map_congr_left fun i hi => h _ (by omega) ?_
  have := List.mem_range.mp hi
  omega

theorem store_of_lt (xs : List α) {x : ℤ} (h : x < off) : store m off xs x = m x := by
  simp [store, not_le.mpr h]

theorem store_of_ge (xs : List α) {x : ℤ} (h : off + xs.length ≤ x) : store m off xs x = m x := by
  have hx : xs[(x - off).toNat]? = none := List.getElem?_eq_none (by omega)
  simp [store, hx]

theorem store_of_mem (xs : List α) {i : ℕ} (h : i < xs.length) :
    store m off xs (off + i) = xs[i] := by
  simp [store, h]

/-- What is stored does not depend on the contents before, and what is not stored is what it was. -/
theorem store_congr {m m' : ℤ → α} {off : ℤ} {xs : List α} {x : ℤ}
    (h : ¬ (off ≤ x ∧ x < off + xs.length) → m x = m' x) :
    store m off xs x = store m' off xs x := by
  by_cases hx : off ≤ x ∧ x < off + xs.length
  · have hlt : (x - off).toNat < xs.length := by omega
    simp [store, hx.1, hlt]
  · simp only [store, h hx]

theorem store_eq_self {m : ℤ → α} {off : ℤ} {xs : List α} {x : ℤ}
    (h : ∀ (i : ℕ) b, xs[i]? = some b → off + i = x → m x = b) : store m off xs x = m x := by
  rw [store]
  split_ifs with hle
  · cases hx : xs[(x - off).toNat]? with
    | none => rfl
    | some b => exact (h _ b hx (by omega)).symm
  · rfl

@[simp] theorem store_nil : store m off [] = m := by
  funext x
  simp [store]

/-- Storing two lists one behind the other is storing them as one. -/
theorem store_append (xs ys : List α) :
    store m off (xs ++ ys) = store (store m off xs) (off + xs.length) ys := by
  funext x
  rcases lt_or_ge x (off + xs.length) with hlt | hge
  · rw [store_of_lt _ _ ys hlt]
    rcases lt_or_ge x off with hoff | hoff
    · rw [store_of_lt m off _ hoff, store_of_lt m off _ hoff]
    · have hi : (x - off).toNat < xs.length := by omega
      simp only [store, if_pos hoff, List.getElem?_append_left hi]
  · have hi : xs.length ≤ (x - off).toNat := by omega
    have heq : (x - off).toNat - xs.length = (x - (off + xs.length)).toNat := by omega
    rw [store, if_pos (by omega), List.getElem?_append_right hi, heq, store, if_pos hge,
      store_of_ge m off xs hge]

theorem store_store (xs ys : List α) :
    store (store m off ys) off xs = store m off (xs ++ ys.drop xs.length) := by
  funext x
  rcases lt_or_ge x off with hlt | hge
  · rw [store_of_lt _ _ _ hlt, store_of_lt _ _ _ hlt, store_of_lt _ _ _ hlt]
  · rcases lt_or_ge (x - off).toNat xs.length with hi | hi
    · simp only [store, if_pos hge, List.getElem?_append_left hi, List.getElem?_eq_getElem hi,
        Option.getD_some]
    · simp only [store, if_pos hge, List.getElem?_append_right hi, List.getElem?_eq_none hi,
        Option.getD_none, List.getElem?_drop, Nat.add_sub_cancel' hi]

theorem load_store_self (xs : List α) : load (store m off xs) off xs.length = xs := by
  refine List.ext_getElem (length_load _ _ _) fun i _ h => ?_
  simp only [load, List.getElem_map, List.getElem_range]
  exact store_of_mem m off xs h

theorem load_store_take (xs : List α) {n : ℕ} (h : n ≤ xs.length) :
    load (store m off xs) off n = xs.take n := by
  obtain ⟨r, hr⟩ := Nat.exists_eq_add_of_le h
  have hload := congrArg (List.take n) (load_store_self m off xs)
  rw [hr, load_add, List.take_left' (length_load _ _ _)] at hload
  exact hload

theorem load_store_of_disjoint (xs : List α) {a : ℤ} {n : ℕ}
    (h : a + n ≤ off ∨ off + xs.length ≤ a) : load (store m off xs) a n = load m a n := by
  refine load_congr fun x hx hx' => ?_
  rcases h with h | h
  · exact store_of_lt m off xs (by omega)
  · exact store_of_ge m off xs (by omega)

theorem load_store_of_le (xs : List α) {n : ℕ} (h : xs.length ≤ n) :
    load (store m off xs) off n = xs ++ (load m off n).drop xs.length := by
  obtain ⟨r, rfl⟩ := Nat.exists_eq_add_of_le h
  rw [load_add, load_store_self, load_store_of_disjoint m off xs (Or.inr le_rfl), load_add,
    List.drop_left' (length_load m off xs.length)]

end Cells

/-- An allocated block: its identity, its number of cells and the contents of memory as seen from
its first cell. -/
structure Block (α : Type*) where
  /-- The identity of the allocation. -/
  id : ℕ
  /-- The number of cells allocated. -/
  size : ℕ
  /-- The contents by offset; offsets outside `[0, size)` belong to somebody else. -/
  cells : ℤ → α

namespace Block

variable {α : Type*}

/-- The range of `n` cells from the offset `off` lies in the block. -/
def Contains (b : Block α) (off : ℤ) (n : ℕ) : Prop := n = 0 ∨ 0 ≤ off ∧ off + n ≤ b.size

instance (b : Block α) (off : ℤ) (n : ℕ) : Decidable (b.Contains off n) :=
  inferInstanceAs (Decidable (_ ∨ _))

end Block

end ExKernel
