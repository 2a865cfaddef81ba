import ExKernel.Scull.Layout

/-!
# What a read and a write do

The specifications of `scull_read` and `scull_write` under the lock, on a device whose list has the
shape that the geometry of the call asks for. No access leaves a block, whatever allocations fail:
so a call is never stuck. A write changes one quantum, and may have appended empty quantum sets and
allocated an array and a quantum; a read changes nothing that can be read.

## Main definitions

* `Scull.Kept`: what every call keeps: the geometry, the shape, and that the new blocks are
  reachable.
* `Scull.AllocEnv.Supplies`: there is memory for what a write finds missing.
* `Scull.Starved`, `Scull.Landed`: the effects of a write, for any geometry; `Scull.Attached`: what
  it leaves in the list.
* `Scull.Written`, `Scull.Copied`: the effects of a write in a good geometry.
* `Scull.readEntry`, `Scull.ReadEffect`: the effect of a read.

## Main results

* `Scull.scullWriteLocked_outcome`, `Scull.scullReadLocked_outcome`: for any geometry.
* `Scull.scullWriteLocked_spec`, `Scull.scullReadLocked_spec`: for a good geometry, in which no call
  is stuck.

## References

* `ldd/scull/main.c`, lines 294–389.
-/

namespace ExKernel.Scull

variable {Q S : ℕ} {data : List QSet} {dptr : QSet} {n : ℕ}

/-! ### Changing one quantum set -/

theorem arrayAt_set (hn : data[n]? = some dptr) (arr : QArray) (m : ℕ) :
    arrayAt (data.set n { dptr with data := some arr }) m =
      if m = n then some arr else arrayAt data m := by
  have hlt := (List.getElem?_eq_some_iff.mp hn).1
  unfold arrayAt
  by_cases hm : m = n
  · rw [if_pos hm, hm, List.getElem?_set_self hlt]
    rfl
  · rw [if_neg hm, List.getElem?_set_ne (Ne.symm hm)]

theorem isSome_arrayAt_set (hn : data[n]? = some dptr) (arr : QArray) (m : ℕ) :
    (arrayAt (data.set n { dptr with data := some arr }) m).isSome ↔
      (arrayAt data m).isSome ∨ m = n := by
  rw [arrayAt_set hn]
  split_ifs with hm
  · simp [hm]
  · simp [hm]

theorem Shaped.set (h : Shaped Q S data) {arr : QArray} (hsize : arr.size = S)
    (hcells : ∀ i < S, ∀ q, arr.cells (i : ℕ) = some q → q.size = Q) :
    Shaped Q S (data.set n { dptr with data := some arr }) := by
  intro d hd arr' harr'
  rcases List.mem_or_eq_of_mem_set hd with hd | rfl
  · exact h d hd arr' harr'
  · cases harr'
    exact ⟨hsize, hcells⟩

theorem blocks_set_perm {x : QSet} {ids : List ℕ} (hn : data[n]? = some dptr)
    (hx : (x.blocks S).Perm (ids ++ dptr.blocks S)) :
    (blocks S (data.set n x)).Perm (ids ++ blocks S data) := by
  obtain ⟨rest, hold, hnew⟩ := Ledger.exists_rest_set (f := QSet.blocks S) hn
  refine (hnew x).trans ((hx.append_right rest).trans ?_)
  rw [List.append_assoc]
  exact hold.symm.append_left ids

/-- A list of the values of a partial function gains what the function gains at one place. -/
theorem filterMap_range_perm {g g' : ℕ → Option ℕ} {i b : ℕ} (hne : ∀ j, j ≠ i → g' j = g j)
    (hi : g i = none) (hi' : g' i = some b) (hlt : i < S) :
    ((List.range S).filterMap g').Perm (b :: (List.range S).filterMap g) := by
  induction S with
  | zero => omega
  | succ m ih =>
    rw [List.range_succ, List.filterMap_append, List.filterMap_append]
    by_cases him : i = m
    · subst him
      have hbelow : (List.range i).filterMap g' = (List.range i).filterMap g :=
        List.filterMap_congr fun j hj => hne j (List.mem_range.mp hj).ne
      simp only [hbelow, List.filterMap_cons, hi, hi', List.filterMap_nil, List.append_nil]
      exact List.perm_append_comm
    · have hlast : [m].filterMap g' = [m].filterMap g := by
        refine List.filterMap_congr fun j hj => ?_
        rw [List.mem_singleton.mp hj]
        exact hne m (Ne.symm him)
      rw [hlast]
      exact (ih (by omega)).append_right _

/-- Replacing the quantum of an entry by one in the same block changes no block. -/
theorem blocks_update_some {arr : QArray} {i : ℕ} {q q' : Quantum}
    (hi : arr.cells (i : ℕ) = some q) (hid : q'.id = q.id) :
    QArray.blocks S { arr with cells := Function.update arr.cells i (some q') } =
      QArray.blocks S arr := by
  refine List.filterMap_congr fun j _ => ?_
  by_cases hji : j = i
  · subst hji
    simp [hi, hid]
  · simp [hji]

theorem blocks_update_none {arr : QArray} {i : ℕ} (q : Quantum) (hi : arr.cells (i : ℕ) = none)
    (hlt : i < S) :
    (QArray.blocks S { arr with cells := Function.update arr.cells i (some q) }).Perm
      (q.id :: QArray.blocks S arr) := by
  refine filterMap_range_perm (fun j hji => ?_) (i := i) (by simp [hi]) (by simp) hlt
  simp [hji]

/-! ### Allocating what is missing -/

/-- The entries of the array of a quantum set, as far as it has one. -/
def QSet.entry (dptr : QSet) (i : ℤ) : Option Quantum := dptr.data.bind fun arr => arr.cells i

theorem arrayAt_eq_data (hn : data[n]? = some dptr) : arrayAt data n = dptr.data := by
  rw [arrayAt, hn, Option.bind_some]

theorem entryAt_eq_entry (hn : data[n]? = some dptr) (i : ℤ) :
    entryAt data n i = dptr.entry i := by
  rw [entryAt, arrayAt_eq_data hn, QSet.entry]

/-- An array for a quantum set: it has the entries that the set has. -/
theorem ensureArray_spec {qset : Int32}
    (hdata : ∀ arr, dptr.data = some arr → arr.size = qset.toInt.toNat) (ok : Bool)
    (heap : Ledger) :
    (dptr.data = none ∧ (ok = false ∨ qset.toInt < 0) ∧
      ensureArray qset ok dptr.data heap = (none, heap)) ∨
    ∃ arr heap' ids, ensureArray qset ok dptr.data heap = (some arr, heap') ∧
      heap.Grows heap' ids ∧ arr.size = qset.toInt.toNat ∧ (∀ i, arr.cells i = dptr.entry i) ∧
      (QSet.blocks qset.toInt.toNat { dptr with data := some arr }).Perm
        (ids ++ dptr.blocks qset.toInt.toNat) ∧ (ok = true ∨ dptr.data.isSome) := by
  cases hd : dptr.data with
  | some arr =>
    refine Or.inr ⟨arr, heap, [], rfl, .refl heap, hdata arr hd, fun i => ?_, ?_, .inr rfl⟩
    · simp [QSet.entry, hd]
    · simp [QSet.blocks, hd]
  | none =>
    by_cases hneg : qset.toInt < 0
    · exact Or.inl ⟨rfl, .inr hneg, by simp [ensureArray, kmalloc, hneg]⟩
    cases ok with
    | false =>
      refine Or.inl ⟨rfl, .inl rfl, ?_⟩
      simp [ensureArray, kmalloc]
    | true =>
      refine Or.inr ⟨⟨heap.next, qset.toInt.toNat, fun _ => none⟩, heap.alloc, [heap.next], ?_,
        .alloc heap, rfl, fun i => ?_, ?_, .inl rfl⟩
      · simp [ensureArray, kmalloc, hneg]
      · simp [QSet.entry, hd]
      · simp [QSet.blocks, QArray.blocks, hd]

theorem ensureQuantum_spec {quantum : Int32} {entry : Option Quantum}
    (hentry : ∀ q, entry = some q → q.size = quantum.toInt.toNat)
    (answer : Option (ℤ → UInt8)) (heap : Ledger) :
    (entry = none ∧ (answer = none ∨ quantum.toInt < 0) ∧
      ensureQuantum quantum answer entry heap = (none, heap)) ∨
    ∃ q heap' ids, ensureQuantum quantum answer entry heap = (some q, heap') ∧
      q.size = quantum.toInt.toNat ∧ heap.Grows heap' ids ∧
      ((entry = some q ∧ ids = []) ∨
        (entry = none ∧ ids = [q.id] ∧ answer = some q.cells)) := by
  cases entry with
  | some q => exact Or.inr ⟨q, heap, [], rfl, hentry q rfl, .refl heap, Or.inl ⟨rfl, rfl⟩⟩
  | none =>
    by_cases hneg : quantum.toInt < 0
    · exact Or.inl ⟨rfl, .inr hneg, by simp [ensureQuantum, kmalloc, hneg]⟩
    cases answer with
    | none =>
      refine Or.inl ⟨rfl, .inl rfl, ?_⟩
      simp [ensureQuantum, kmalloc]
    | some contents =>
      refine Or.inr ⟨⟨heap.next, quantum.toInt.toNat, contents⟩, heap.alloc, [heap.next], ?_, rfl,
        .alloc heap, Or.inr ⟨rfl, rfl, rfl⟩⟩
      simp [ensureQuantum, kmalloc, hneg]

/-! ### The effects of the calls -/

/-- There is memory for everything that a call may need. -/
structure AllocEnv.Ample (env : AllocEnv) : Prop where
  node : ∀ k, env.node k = true
  array : env.array = true
  quantum : env.quantum.isSome

/-- There is memory for everything that a write to the entry `i` of the quantum set `n` finds
missing: nodes of the list, the array of the set and the quantum of the entry. -/
structure AllocEnv.Supplies (env : AllocEnv) (data : List QSet) (n : ℕ) (i : ℤ) : Prop where
  node : ∀ k, k + data.length ≤ n → env.node k = true
  array : env.array = true ∨ (arrayAt data n).isSome
  quantum : env.quantum.isSome ∨ (entryAt data n i).isSome

theorem AllocEnv.Ample.supplies {env : AllocEnv} (h : env.Ample) (data : List QSet) (n : ℕ)
    (i : ℤ) : env.Supplies data n i :=
  ⟨fun k _ => h.node k, .inl h.array, .inl h.quantum⟩

/-- What every call keeps: the geometry of the device and the shape of its list, which only grows;
and the blocks that the call allocated are those that are newly reachable. -/
structure Kept (Q S : ℕ) (dev : ScullDev) (heap : Ledger) (res : IoResult) : Prop where
  quantum_eq : res.dev.quantum = dev.quantum
  qset_eq : res.dev.qset = dev.qset
  shaped : Shaped Q S res.dev.data
  length_le : dev.data.length ≤ res.dev.data.length
  grows : ∃ ids, heap.Grows res.heap ids ∧
    (blocks S res.dev.data).Perm (ids ++ blocks S dev.data)

/-- A write that fails for want of memory: whatever it has allocated, it leaves the position, the
size and all quanta. -/
structure Starved (dev : ScullDev) (fPos : ℤ) (res : IoResult) : Prop where
  ret_eq : res.ret = -ENOMEM
  bytes_eq : res.bytes = []
  fPos_eq : res.fPos = fPos
  size_eq : res.dev.size = dev.size
  entryAt_eq : ∀ m j, entryAt res.dev.data m j = entryAt dev.data m j

/-- The effect of a write from `src` at the position `fPos` that comes to its copy, `m` bytes to the
offset `off` of the entry `i` of the quantum set `n`: the quantum in the entry, which is the old one
or else a fresh one as the allocator hands it out, gets what the copy leaves, whether it succeeds or
not. -/
structure Landed (n : ℕ) (i off : ℤ) (dev : ScullDev) (fPos : ℤ) (m : ℕ) (src : UserBuffer)
    (fresh : Option (ℤ → UInt8)) (res : IoResult) : Prop where
  item_lt : n < res.dev.data.length
  stored : ∃ q : Quantum, (∀ m' j, entryAt res.dev.data m' j =
      if m' = n ∧ j = i then some { q with cells := (copyFromUser q.cells off src m).2 }
      else entryAt dev.data m' j) ∧
    (∀ old, entryAt dev.data n i = some old → q = old) ∧
    (entryAt dev.data n i = none → fresh = some q.cells)
  done : m ≤ src.bytes.length → res.ret = m ∧ res.bytes = src.bytes.take m ∧
    res.fPos = loffT (fPos + m) ∧ res.dev.size = max dev.size (sizeT (loffT (fPos + m)))
  fault : src.bytes.length < m → res.ret = -EFAULT ∧ res.bytes = [] ∧ res.fPos = fPos ∧
    res.dev.size = dev.size

/-- What a write to the quantum set `n` attaches: the list is as long as following it leaves it, and
the set has an array if it had one, or it was reached and there was memory for an array. -/
structure Attached (env : AllocEnv) (n : ℕ) (dev : ScullDev) (heap : Ledger) (res : IoResult) :
    Prop where
  length_eq : res.dev.data.length = (scullFollow env.node n dev.data heap).2.1.length
  isSome_iff : ∀ m, (arrayAt res.dev.data m).isSome ↔ (arrayAt dev.data m).isSome ∨
    m = n ∧ env.array = true ∧ (scullFollow env.node n dev.data heap).1 = true

/-- The effect of a write from `src` at the position `p` that succeeds, where `n` and `k` are the
numbers of the quantum set and of the quantum that it comes to: it stores `m` bytes in the
quantum. -/
structure Written (Q S n k : ℕ) (dev : ScullDev) (p m : ℕ) (src : UserBuffer) (res : IoResult) :
    Prop where
  ret_eq : res.ret = m
  length_le : m ≤ src.bytes.length
  bytes_eq : res.bytes = src.bytes.take m
  fPos_eq : res.fPos = loffT ((p + m : ℕ) : ℤ)
  size_eq : res.dev.size = max dev.size (sizeT (loffT ((p + m : ℕ) : ℤ)))
  item_lt : n < res.dev.data.length
  stored : ∃ q : Quantum, (∀ j, quantumAt S res.dev.data j =
      if j = k then
        some { q with cells := Cells.store q.cells ((p % Q : ℕ) : ℤ) (src.bytes.take m) }
      else quantumAt S dev.data j) ∧
    ∀ old, quantumAt S dev.data k = some old → q = old

/-- The effect of a write from `src` at the position `p` that comes to its copy: the quantum `k`,
which is the old one or else a fresh one as the allocator hands it out, gets what the copy leaves,
whether it succeeds or not. -/
structure Copied (Q S n k : ℕ) (dev : ScullDev) (p m : ℕ) (src : UserBuffer)
    (fresh : Option (ℤ → UInt8)) (res : IoResult) : Prop where
  item_lt : n < res.dev.data.length
  stored : ∃ q : Quantum, (∀ j, quantumAt S res.dev.data j =
      if j = k then some { q with cells := (copyFromUser q.cells ((p % Q : ℕ) : ℤ) src m).2 }
      else quantumAt S dev.data j) ∧
    (∀ old, quantumAt S dev.data k = some old → q = old) ∧
    (quantumAt S dev.data k = none → fresh = some q.cells)
  done : m ≤ src.bytes.length → res.ret = m ∧ res.bytes = src.bytes.take m ∧
    res.fPos = loffT ((p + m : ℕ) : ℤ) ∧
    res.dev.size = max dev.size (sizeT (loffT ((p + m : ℕ) : ℤ)))
  fault : src.bytes.length < m → res.ret = -EFAULT ∧ res.bytes = [] ∧ res.fPos = p ∧
    res.dev.size = dev.size

/-- A call that fails: it returns a negative number and leaves the position and the size. -/
structure Failed (dev : ScullDev) (p : ℕ) (res : IoResult) : Prop where
  ret_neg : res.ret < 0
  bytes_eq : res.bytes = []
  fPos_eq : res.fPos = p
  size_eq : res.dev.size = dev.size

namespace Copied

variable {k p m : ℕ} {dev : ScullDev} {src : UserBuffer} {fresh : Option (ℤ → UInt8)}
  {res : IoResult}

theorem written (h : Copied Q S n k dev p m src fresh res) (hm : m ≤ src.bytes.length) :
    Written Q S n k dev p m src res := by
  obtain ⟨hret, hbytes, hpos, hsize⟩ := h.done hm
  obtain ⟨q, hat, hold, -⟩ := h.stored
  simp only [copyFromUser, if_pos hm] at hat
  exact ⟨hret, hm, hbytes, hpos, hsize, h.item_lt, q, hat, hold⟩

theorem failed (h : Copied Q S n k dev p m src fresh res) (hm : ¬ m ≤ src.bytes.length) :
    Failed dev p res := by
  obtain ⟨hret, hbytes, hpos, hsize⟩ := h.fault (not_le.mp hm)
  exact ⟨by rw [hret]; decide, hbytes, hpos, hsize⟩

theorem ret_ne (h : Copied Q S n k dev p m src fresh res) : res.ret ≠ -ENOMEM := by
  rcases le_or_gt m src.bytes.length with hm | hm
  · have hneg : -ENOMEM < 0 := by decide
    rw [(h.done hm).1]
    omega
  · rw [(h.fault hm).1]
    decide

theorem lt_size_iff (h : Copied Q S n k dev p m src fresh res) (hend : p + m < 2 ^ 63) (x : ℕ) :
    x < res.dev.size ↔ x < dev.size ∨ m ≤ src.bytes.length ∧ x < p + m := by
  rcases le_or_gt m src.bytes.length with hm | hm
  · rw [(h.done hm).2.2.2, loffT_natCast hend, sizeT_natCast (by omega), lt_max_iff,
      and_iff_right hm]
  · rw [(h.fault hm).2.2.2, or_iff_left fun h => absurd h.1 (by omega)]

end Copied

theorem ite_lt_eq_max (a b : ℕ) : (if a < b then b else a) = max a b := by
  split_ifs <;> omega

theorem div_mod_target {n s k : ℕ} (hs : s < S) : k = n * S + s ↔ k / S = n ∧ k % S = s := by
  have hpos : 0 < S := by omega
  constructor
  · rintro rfl
    rw [Nat.mul_comm n S, Nat.mul_add_div hpos, Nat.mul_add_mod, Nat.div_eq_of_lt hs,
      Nat.mod_eq_of_lt hs]
    exact ⟨rfl, rfl⟩
  · rintro ⟨rfl, rfl⟩
    exact (Nat.div_add_mod' k S).symm

/-! ### Attaching arrays and quanta -/

section Attach

variable {arr : QArray} {s : ℕ}

/-- The entries of an array are shaped when they are those of a quantum set of the list. -/
theorem Shaped.size_of_entry (h : Shaped Q S data) (hn : data[n]? = some dptr)
    (hcells : ∀ i, arr.cells i = dptr.entry i) :
    ∀ i < S, ∀ q, arr.cells (i : ℕ) = some q → q.size = Q := by
  intro i hi q hq
  rw [hcells] at hq
  obtain ⟨arr', harr', hq'⟩ := Option.bind_eq_some_iff.mp hq
  exact (h dptr (List.mem_of_getElem? hn) arr' harr').2 i hi q hq'

/-- What a quantum set of the list has in an entry: nothing, or a quantum of the right size. -/
theorem Shaped.entry_cases (h : Shaped Q S data) (hn : data[n]? = some dptr) (hs : s < S) :
    (dptr.data = none ∧ entryAt data n s = none) ∨
    ∃ arr : QArray, dptr.data = some arr ∧ arr.Contains (s : ℤ) 1 ∧
      arr.cells (s : ℤ) = entryAt data n s ∧ ∀ q, entryAt data n s = some q → q.size = Q := by
  have hentry := entryAt_eq_entry hn s
  rw [QSet.entry] at hentry
  cases hdata : dptr.data with
  | none =>
    rw [hdata] at hentry
    exact Or.inl ⟨rfl, hentry⟩
  | some arr =>
    obtain ⟨hsize, hquanta⟩ := h dptr (List.mem_of_getElem? hn) arr hdata
    rw [hdata, Option.bind_some] at hentry
    refine Or.inr ⟨arr, rfl, Or.inr ⟨by omega, by omega⟩, hentry.symm, fun q hq => ?_⟩
    exact hquanta s hs q (hentry ▸ hq)

/-- Attaching an array with the entries that the set has changes no quantum. -/
theorem setArray_spec (h : Shaped Q S data) (hn : data[n]? = some dptr) (hsize : arr.size = S)
    (hcells : ∀ i, arr.cells i = dptr.entry i) :
    Shaped Q S (data.set n { dptr with data := some arr }) ∧
      ∀ m j, entryAt (data.set n { dptr with data := some arr }) m j = entryAt data m j := by
  refine ⟨h.set hsize (h.size_of_entry hn hcells), fun m j => ?_⟩
  rw [entryAt, arrayAt_set hn]
  split_ifs with hm
  · rw [Option.bind_some, hcells, hm, entryAt_eq_entry hn]
  · rfl

/-- A quantum set with the array `arr`, in which the entry `s` is replaced. -/
def QSet.put (dptr : QSet) (arr : QArray) (s : ℕ) (q : Quantum) : QSet :=
  { dptr with data := some { arr with cells := Function.update arr.cells s (some q) } }

/-- Attaching an array with one entry replaced changes one quantum. -/
theorem setQuantum_spec (h : Shaped Q S data) (hn : data[n]? = some dptr) (hsize : arr.size = S)
    (hcells : ∀ i, arr.cells i = dptr.entry i) {q' : Quantum} (hq' : q'.size = Q) :
    Shaped Q S (data.set n (dptr.put arr s q')) ∧
      ∀ m (j : ℤ), entryAt (data.set n (dptr.put arr s q')) m j =
        if m = n ∧ j = s then some q' else entryAt data m j := by
  constructor
  · refine h.set hsize fun i hi q hq => ?_
    by_cases his : i = s
    · subst his
      simp only [Function.update_self, Option.some_inj] at hq
      exact hq ▸ hq'
    · have hne : (i : ℤ) ≠ s := by exact_mod_cast his
      simp only [Function.update_of_ne hne] at hq
      exact h.size_of_entry hn hcells i hi q hq
  · intro m j
    rw [QSet.put, entryAt, arrayAt_set hn]
    by_cases hm : m = n
    · by_cases hj : j = s
      · simp [hm, hj]
      · rw [if_pos hm, if_neg (fun hc => hj hc.2), Option.bind_some]
        simp only [Function.update_of_ne hj]
        rw [hcells, hm, entryAt_eq_entry hn]
    · rw [if_neg hm, if_neg (fun hc => hm hc.1), entryAt]

/-- The blocks after an array was attached and a quantum put into an entry. -/
theorem blocks_setQuantum {ids jds : List ℕ} {q q' : Quantum} (hn : data[n]? = some dptr)
    (harr : (QSet.blocks S { dptr with data := some arr }).Perm (ids ++ dptr.blocks S))
    (hs : s < S) (hid : q'.id = q.id)
    (hentry : (arr.cells (s : ℕ) = some q ∧ jds = []) ∨ (arr.cells (s : ℕ) = none ∧ jds = [q.id])) :
    (blocks S (data.set n (dptr.put arr s q'))).Perm (jds ++ ids ++ blocks S data) := by
  refine blocks_set_perm hn ?_
  rw [List.append_assoc]
  refine List.Perm.trans ?_ (harr.append_left jds)
  simp only [QSet.put, QSet.blocks]
  rcases hentry with ⟨hq, rfl⟩ | ⟨hnone, rfl⟩
  · rw [blocks_update_some hq hid]
    exact .refl _
  · rw [← hid, List.singleton_append, ← List.cons_append, ← List.cons_append]
    exact ((blocks_update_none q' hnone hs).append_right _).append_right _

end Attach

/-! ### Writing -/

/-- What following the list leaves: the same arrays, in a list of the same shape. -/
theorem scullFollow_kept {data : List QSet} (h : Shaped Q S data) (answer : ℕ → Bool) (n : ℕ)
    (heap : Ledger) :
    Shaped Q S (scullFollow answer n data heap).2.1 ∧
      data.length ≤ (scullFollow answer n data heap).2.1.length ∧
      (∀ m, arrayAt (scullFollow answer n data heap).2.1 m = arrayAt data m) ∧
      (∃ ids, heap.Grows (scullFollow answer n data heap).2.2 ids ∧
        (blocks S (scullFollow answer n data heap).2.1).Perm (ids ++ blocks S data)) ∧
      ((scullFollow answer n data heap).1 = true →
        ∃ dptr, (scullFollow answer n data heap).2.1[n]? = some dptr) := by
  obtain ⟨fresh, hlist, hempty, ⟨ids, hgrows, hids⟩, hlen⟩ := scullFollow_spec answer n data heap
  rw [hlist]
  refine ⟨h.append hempty, by simp, arrayAt_append hempty, ⟨ids, hgrows, ?_⟩, fun hok => ?_⟩
  · rw [blocks_append hempty]
    exact List.perm_append_comm.trans (hids.symm.append_right _)
  · exact ⟨_, List.getElem?_eq_getElem (hlen hok)⟩

section Follow

variable {dev : ScullDev} {heap heap₁ : Ledger} {list : List QSet} {res : IoResult}

/-- What a call keeps from the list that following it has left, it keeps from the list before. -/
theorem Kept.of_follow {ids : List ℕ} (h : Kept Q S { dev with data := list } heap₁ res)
    (hlen : dev.data.length ≤ list.length) (hgrows : heap.Grows heap₁ ids)
    (hperm : (blocks S list).Perm (ids ++ blocks S dev.data)) : Kept Q S dev heap res := by
  obtain ⟨jds, hgrows', hperm'⟩ := h.grows
  refine ⟨h.quantum_eq, h.qset_eq, h.shaped, hlen.trans h.length_le, jds ++ ids,
    hgrows.trans hgrows', ?_⟩
  rw [List.append_assoc]
  exact hperm'.trans (hperm.append_left jds)

/-- What a write copies into the list that following it has left, it copies into the list before. -/
theorem Landed.of_follow {i off fPos : ℤ} {m : ℕ} {src : UserBuffer}
    {fresh : Option (ℤ → UInt8)}
    (h : Landed n i off { dev with data := list } fPos m src fresh res)
    (hat : ∀ m' j, entryAt list m' j = entryAt dev.data m' j) :
    Landed n i off dev fPos m src fresh res := by
  obtain ⟨q, hstored, hsame⟩ := h.stored
  simp only [hat] at hstored hsame
  exact ⟨h.item_lt, ⟨q, hstored, hsame⟩, h.done, h.fault⟩

/-- What a call keeps that attaches an array, with the entries that the set has. -/
theorem Kept.of_array {arr : QArray} {ids : List ℕ} (hs : Shaped Q S dev.data)
    (hn : dev.data[n]? = some dptr) (hsize : arr.size = S)
    (hcells : ∀ i, arr.cells i = dptr.entry i) (hgrows : heap.Grows heap₁ ids)
    (harr : (QSet.blocks S { dptr with data := some arr }).Perm (ids ++ dptr.blocks S))
    (ret : ℤ) (bytes : List UInt8) (fPos : ℤ) :
    Kept Q S dev heap ⟨ret, bytes, fPos, dev.setArray n dptr arr, heap₁⟩ :=
  ⟨rfl, rfl, (setArray_spec hs hn hsize hcells).1, List.length_set.ge, ids, hgrows,
    blocks_set_perm hn harr⟩

/-- The sets that have an array, when the set `n` of the list that was followed gets one. -/
theorem isSome_arrayAt_attached {data data' : List QSet} {ok : Bool}
    (harrays : ∀ m, arrayAt list m = arrayAt data m) (hok : ok = true ∨ (arrayAt data n).isSome)
    (hsome : ∀ m, (arrayAt data' m).isSome ↔ (arrayAt list m).isSome ∨ m = n) (m : ℕ) :
    (arrayAt data' m).isSome ↔ (arrayAt data m).isSome ∨ m = n ∧ ok = true := by
  rw [hsome, harrays]
  refine or_congr_right' fun hnone => ⟨fun hm => ⟨hm, ?_⟩, And.left⟩
  rw [hm] at hnone
  exact hok.resolve_right hnone

/-- What a call keeps that puts a quantum into an entry, and leaves any contents in it. -/
theorem Kept.of_put {arr : QArray} {q : Quantum} {s : ℕ} {ids jds : List ℕ} {heap₀ : Ledger}
    (hs : Shaped Q S dev.data) (hn : dev.data[n]? = some dptr) (hsize : arr.size = S)
    (hcells : ∀ i, arr.cells i = dptr.entry i) (hlt : s < S) (hq : q.size = Q)
    (hgrows : heap₀.Grows heap (jds ++ ids))
    (harr : (QSet.blocks S { dptr with data := some arr }).Perm (ids ++ dptr.blocks S))
    (hentry : (arr.cells (s : ℕ) = some q ∧ jds = []) ∨ (arr.cells (s : ℕ) = none ∧ jds = [q.id]))
    (cells : ℤ → UInt8) (size : ℕ) (ret : ℤ) (bytes : List UInt8) (fPos : ℤ) :
    Kept Q S dev heap₀ ⟨ret, bytes, fPos,
      { dev with data := dev.data.set n (dptr.put arr s { q with cells := cells }), size := size },
      heap⟩ := by
  have hq' : ({ q with cells := cells } : Quantum).size = Q := hq
  exact ⟨rfl, rfl, (setQuantum_spec hs hn hsize hcells hq').1, by simp, jds ++ ids, hgrows,
    blocks_setQuantum (q := q) hn harr hlt rfl hentry⟩

end Follow

section Write

variable {quantum qset : Int32} {dev : ScullDev} {fPos : ℤ} {place : Place}

/-- The copy of a write into the quantum that is in its entry, or is fresh: it leaves the quantum,
or the bytes land in it. -/
theorem writeQuantum_outcome (dev : ScullDev) {s : ℕ} {arr : QArray} {q : Quantum}
    {ids jds : List ℕ} {heap₀ heap : Ledger} {fresh : Option (ℤ → UInt8)} (count : ℕ)
    (src : UserBuffer)
    (hs : Shaped quantum.toInt.toNat qset.toInt.toNat dev.data)
    (hn : dev.data[rounds place.item]? = some dptr) (hsize : arr.size = qset.toInt.toNat)
    (hcells : ∀ i, arr.cells i = dptr.entry i) (hpos : place.sPos = s)
    (hlt : s < qset.toInt.toNat) (hq : q.size = quantum.toInt.toNat)
    (hgrows : heap₀.Grows heap (jds ++ ids))
    (harr : (QSet.blocks qset.toInt.toNat { dptr with data := some arr }).Perm
      (ids ++ dptr.blocks qset.toInt.toNat))
    (hentry : (arr.cells (s : ℕ) = some q ∧ jds = []) ∨
      (arr.cells (s : ℕ) = none ∧ jds = [q.id] ∧ fresh = some q.cells)) :
    (writeQuantum quantum dev heap fPos place dptr arr q count src = none ∧
      ¬ place.Inside quantum qset) ∨
    ∃ res, writeQuantum quantum dev heap fPos place dptr arr q count src = some res ∧
      Kept quantum.toInt.toNat qset.toInt.toNat dev heap₀ res ∧
      Landed (rounds place.item) place.sPos place.qPos dev fPos (clamp quantum place.qPos count) src
        fresh res ∧ res.dev.data.length = dev.data.length ∧
      ∀ m, (arrayAt res.dev.data m).isSome ↔
        (arrayAt dev.data m).isSome ∨ m = rounds place.item := by
  have hkept := Kept.of_put hs hn hsize hcells hlt hq hgrows harr
    (hentry.imp_right fun h => ⟨h.1, h.2.1⟩)
  -- The quantum is written in place, so the entry names the block that it named, or a fresh one.
  have hattach : ∀ cells m j, entryAt (dev.data.set (rounds place.item)
        (dptr.put arr s { q with cells := cells })) m j =
      if m = rounds place.item ∧ j = s then some { q with cells := cells }
      else entryAt dev.data m j :=
    fun cells => by
      have hq' : ({ q with cells := cells } : Quantum).size = quantum.toInt.toNat := hq
      exact (setQuantum_spec hs hn hsize hcells hq').2
  have hstored : arr.cells (s : ℕ) = entryAt dev.data (rounds place.item) s := by
    rw [hcells, entryAt_eq_entry hn]
  have hold : (∀ old, entryAt dev.data (rounds place.item) s = some old → q = old) ∧
      (entryAt dev.data (rounds place.item) s = none → fresh = some q.cells) := by
    rw [← hstored]
    rcases hentry with ⟨hsome, -⟩ | ⟨hnone, -, hfresh⟩
    · simp [hsome]
    · simp [hnone, hfresh]
  have hitem : ∀ cells, rounds place.item < (dev.data.set (rounds place.item)
      (dptr.put arr s { q with cells := cells })).length := by
    intro cells
    rw [List.length_set]
    exact (List.getElem?_eq_some_iff.mp hn).1
  simp only [writeQuantum, hpos]
  by_cases hin : q.Contains place.qPos (clamp quantum place.qPos count)
  · rw [if_pos hin]
    right
    generalize clamp quantum place.qPos count = m
    by_cases hcopy : m ≤ src.bytes.length
    · simp only [copyFromUser, hcopy, ↓reduceIte]
      refine ⟨_, rfl, hkept _ _ _ _ _, ⟨hitem _, ⟨q, ?_, hold⟩, fun _ => ?_, fun h => by omega⟩,
        List.length_set, isSome_arrayAt_set hn _⟩
      · simp only [copyFromUser, hcopy, ↓reduceIte]
        exact hattach _
      · exact ⟨rfl, rfl, rfl, ite_lt_eq_max _ _⟩
    · simp only [copyFromUser, hcopy, if_false, Bool.false_eq_true]
      refine ⟨_, rfl, hkept _ dev.size _ _ _, ⟨hitem _, ⟨q, ?_, hold⟩, fun h => by omega,
        fun _ => ⟨rfl, rfl, rfl, rfl⟩⟩, List.length_set, isSome_arrayAt_set hn _⟩
      simp only [copyFromUser, hcopy, if_false]
      exact hattach _
  · exact .inl ⟨if_neg hin, fun hinside => hin (hinside.contains_clamp hq count)⟩

/-- **What a write does.** On a device whose list has the shape of the geometry, a write to a place
inside is never stuck. A write that is not stuck keeps the shape, and fails for want of memory that
it needs, or has this memory and comes to its copy. -/
theorem scullWriteLocked_outcome (hs : Shaped quantum.toInt.toNat qset.toInt.toNat dev.data)
    (hplace : locate quantum qset fPos = some place) (heap : Ledger) (count : ℕ)
    (src : UserBuffer) (env : AllocEnv) :
    (scullWriteLocked quantum qset dev heap fPos count src env = none ∧
      ¬ place.Inside quantum qset) ∨
    ∃ res, scullWriteLocked quantum qset dev heap fPos count src env = some res ∧
      Kept quantum.toInt.toNat qset.toInt.toNat dev heap res ∧
      (place.Inside quantum qset → Attached env (rounds place.item) dev heap res) ∧
      ((Starved dev fPos res ∧ (place.Inside quantum qset →
          ¬ env.Supplies dev.data (rounds place.item) place.sPos)) ∨
        (Landed (rounds place.item) place.sPos place.qPos dev fPos
            (clamp quantum place.qPos count) src env.quantum res ∧
          env.Supplies dev.data (rounds place.item) place.sPos)) := by
  simp only [scullWriteLocked, hplace, Option.bind_some]
  obtain ⟨hshape, hlen, harrays, ⟨ids, hgrows, hperm⟩, hreach⟩ :=
    scullFollow_kept hs env.node (rounds place.item) heap
  have hnode := scullFollow_reached env.node (rounds place.item) dev.data heap
  have hattach := @Attached.mk env (rounds place.item) dev heap
  generalize scullFollow env.node (rounds place.item) dev.data heap = got at *
  obtain ⟨ok, list, heap₁⟩ := got
  simp only at hshape hlen harrays hgrows hperm hreach hnode hattach ⊢
  have hat : ∀ m j, entryAt list m j = entryAt dev.data m j := fun m j => by
    rw [entryAt, harrays, entryAt]
  cases ok with
  | false =>
    refine .inr ⟨_, rfl, ⟨rfl, rfl, hshape, hlen, ids, hgrows, hperm⟩,
      fun _ => hattach rfl fun m => by simp [harrays],
      Or.inl ⟨⟨rfl, rfl, rfl, rfl, hat⟩, fun _ h => ?_⟩⟩
    exact absurd (hnode.mpr h.node) (by simp)
  | true =>
    obtain ⟨dptr, hn⟩ := hreach rfl
    have hdata : arrayAt dev.data (rounds place.item) = dptr.data := by
      rw [← harrays, arrayAt_eq_data hn]
    simp only [hn, Option.bind_some, if_true]
    rcases ensureArray_spec (fun arr harr =>
        (hshape dptr (List.mem_of_getElem? hn) arr harr).1) env.array heap₁ with
      ⟨hnone, hwhy, harray⟩ | ⟨arr, heap₂, jds, harray, hgrows₂, hsize, hcells, harr, harrayOk⟩
    · -- No memory for the array: the list alone may be longer.
      rw [harray]
      have hfalse : place.Inside quantum qset → env.array = false := by
        intro hinside
        have hlow := hinside.sPos_nonneg
        have hhigh := hinside.sPos_lt
        exact hwhy.resolve_right (by omega)
      refine .inr ⟨_, rfl, ⟨rfl, rfl, hshape, hlen, ids, hgrows, hperm⟩,
        fun hinside => hattach rfl fun m => by simp [harrays, hfalse hinside],
        Or.inl ⟨⟨rfl, rfl, rfl, rfl, hat⟩, fun hinside h => ?_⟩⟩
      have hsupply := h.array
      rw [hdata, hnone, hfalse hinside] at hsupply
      simp at hsupply
    rw [harray]
    rw [← hdata] at harrayOk
    have hattached : ∀ data' : List QSet, (∀ m, (arrayAt data' m).isSome ↔
          (arrayAt list m).isSome ∨ m = rounds place.item) →
        ∀ m, (arrayAt data' m).isSome ↔ (arrayAt dev.data m).isSome ∨
          m = rounds place.item ∧ env.array = true ∧ true = true := by
      intro data' hsome m
      rw [and_iff_left rfl]
      exact isSome_arrayAt_attached harrays harrayOk hsome m
    by_cases hin : arr.Contains place.sPos 1
    swap
    · refine .inl ⟨by simp only [if_neg hin], fun hinside => hin (hinside.contains_entry ?_)⟩
      have hlow := hinside.sPos_nonneg
      have hhigh := hinside.sPos_lt
      omega
    simp only [if_pos hin]
    obtain ⟨s, hpos, hlt⟩ : ∃ s : ℕ, place.sPos = s ∧ s < qset.toInt.toNat := by
      rcases hin with hin | ⟨hlow, hhigh⟩
      · cases hin
      · rw [hsize] at hhigh
        exact ⟨place.sPos.toNat, by omega, by omega⟩
    have hentry : arr.cells place.sPos = entryAt dev.data (rounds place.item) place.sPos := by
      rw [hcells, ← entryAt_eq_entry hn, hat]
    have hquanta : ∀ q, arr.cells place.sPos = some q → q.size = quantum.toInt.toNat := by
      rw [hpos]
      exact hshape.size_of_entry hn hcells _ hlt
    rcases ensureQuantum_spec hquanta env.quantum heap₂ with
      ⟨hnone, hwhy, hquantum⟩ | ⟨q, heap₃, kds, hquantum, hq, hgrows₃, hkds⟩
    · -- No memory for the quantum: the array stays attached.
      rw [hquantum]
      have hkept : Kept quantum.toInt.toNat qset.toInt.toNat { dev with data := list } heap₁
          ⟨-ENOMEM, [], fPos, ScullDev.setArray { dev with data := list } (rounds place.item) dptr
            arr, heap₂⟩ := .of_array hshape hn hsize hcells hgrows₂ harr _ _ _
      refine .inr ⟨_, rfl, hkept.of_follow hlen hgrows hperm,
        fun _ => hattach List.length_set (hattached _ fun m => ?_),
        Or.inl ⟨⟨rfl, rfl, rfl, rfl, fun m j => ?_⟩, fun hinside h => ?_⟩⟩
      · exact isSome_arrayAt_set hn arr m
      · exact ((setArray_spec hshape hn hsize hcells).2 m j).trans (hat m j)
      · have hlow := hinside.qPos_nonneg
        have hhigh := hinside.qPos_lt
        have hsupply := h.quantum
        rw [← hentry, hnone] at hsupply
        rcases hwhy with hwhy | hwhy
        · simp [hwhy] at hsupply
        · omega
    · rw [hquantum]
      rcases writeQuantum_outcome { dev with data := list } count src hshape hn hsize
          hcells hpos hlt hq (hgrows₂.trans hgrows₃) harr (by rw [← hpos]; exact hkds) with
        ⟨hstuck, hout⟩ | ⟨res, hres, hkept, hlanded, hlength, hsome⟩
      · exact .inl ⟨hstuck, hout⟩
      · refine .inr ⟨res, hres, hkept.of_follow hlen hgrows hperm,
          fun _ => hattach hlength (hattached _ hsome),
          Or.inr ⟨hlanded.of_follow hat, hnode.mp rfl, harrayOk, ?_⟩⟩
        rw [← hentry]
        rcases hkds with ⟨hsome, -⟩ | ⟨-, -, hfresh⟩
        · exact .inr (by simp [hsome])
        · exact .inl (by simp [hfresh])

/-- What lands in an entry of a good geometry, by the numbers of the quantum and of the position. -/
theorem Landed.copied {k p m : ℕ} {s : ℕ} {src : UserBuffer} {fresh : Option (ℤ → UInt8)}
    {res : IoResult} (h : Landed n s ((p % Q : ℕ) : ℤ) dev p m src fresh res) (hs : s < S)
    (hk : k = n * S + s) : Copied Q S n k dev p m src fresh res := by
  have htarget := (div_mod_target (n := n) (k := k) hs).mp hk
  obtain ⟨q, hat, hold, hfresh⟩ := h.stored
  refine ⟨h.item_lt, ⟨q, fun j => ?_, ?_, ?_⟩, ?_, h.fault⟩
  · rw [quantumAt_eq_entryAt, hat, quantumAt_eq_entryAt]
    simp only [hk, div_mod_target hs, Nat.cast_inj]
  · rw [quantumAt_eq_entryAt, htarget.1, htarget.2]
    exact hold
  · rw [quantumAt_eq_entryAt, htarget.1, htarget.2]
    exact hfresh
  · rw [Nat.cast_add]
    exact h.done

theorem Starved.failed {p : ℕ} {res : IoResult} (h : Starved dev p res) : Failed dev p res :=
  ⟨by rw [h.ret_eq]; decide, h.bytes_eq, h.fPos_eq, h.size_eq⟩

/-- On a device whose list has the shape of a good geometry, no write is stuck: it fails for want of
memory, or comes to the copy of the bytes up to the end of the quantum. -/
theorem scullWriteLocked_cases (hg : GoodGeometry quantum qset)
    (hs : Shaped quantum.toInt.toNat qset.toInt.toNat dev.data) (heap : Ledger) (p count : ℕ)
    (src : UserBuffer) (env : AllocEnv) :
    ∃ res, scullWriteLocked quantum qset dev heap p count src env = some res ∧
      Kept quantum.toInt.toNat qset.toInt.toNat dev heap res ∧
      Attached env (rounds (Int32.ofInt (p / (quantum.toInt.toNat * qset.toInt.toNat) : ℕ))) dev
        heap res ∧
      ((Starved dev p res ∧ ¬ env.Supplies dev.data
          (rounds (Int32.ofInt (p / (quantum.toInt.toNat * qset.toInt.toNat) : ℕ)))
          (p / quantum.toInt.toNat % qset.toInt.toNat : ℕ)) ∨
        (Copied quantum.toInt.toNat qset.toInt.toNat
          (rounds (Int32.ofInt (p / (quantum.toInt.toNat * qset.toInt.toNat) : ℕ)))
          (rounds (Int32.ofInt (p / (quantum.toInt.toNat * qset.toInt.toNat) : ℕ)) *
            qset.toInt.toNat + p / quantum.toInt.toNat % qset.toInt.toNat) dev p
          (min count (quantum.toInt.toNat - p % quantum.toInt.toNat)) src env.quantum res ∧
        env.Supplies dev.data
          (rounds (Int32.ofInt (p / (quantum.toInt.toNat * qset.toInt.toNat) : ℕ)))
          (p / quantum.toInt.toNat % qset.toInt.toNat : ℕ))) := by
  have hplace := locate_eq hg p
  have hinside := locate_inside hg.quantum_pos hg.qset_pos hplace
  have hsPos := Nat.mod_lt (p / quantum.toInt.toNat) hg.toNat_qset_pos
  rcases scullWriteLocked_outcome hs hplace heap count src env with
    ⟨-, hout⟩ | ⟨res, hres, hkept, hattached, hcases⟩
  · exact absurd hinside hout
  refine ⟨res, hres, hkept, hattached hinside, ?_⟩
  rcases hcases with ⟨hstarved, hlacks⟩ | ⟨hlanded, hsupplies⟩
  · exact .inl ⟨hstarved, hlacks hinside⟩
  · rw [clamp_eq hg] at hlanded
    exact .inr ⟨hlanded.copied hsPos rfl, hsupplies⟩

/-- A write fails for want of memory or because the user's buffer cannot be read, or it stores the
bytes up to the end of the quantum. -/
theorem scullWriteLocked_spec (hg : GoodGeometry quantum qset)
    (hs : Shaped quantum.toInt.toNat qset.toInt.toNat dev.data) (heap : Ledger) (p count : ℕ)
    (src : UserBuffer) (env : AllocEnv) :
    ∃ res, scullWriteLocked quantum qset dev heap p count src env = some res ∧
      Kept quantum.toInt.toNat qset.toInt.toNat dev heap res ∧
      ((Failed dev p res ∧ ¬ (env.Ample ∧
          min count (quantum.toInt.toNat - p % quantum.toInt.toNat) ≤ src.bytes.length)) ∨
        Written quantum.toInt.toNat qset.toInt.toNat
          (rounds (Int32.ofInt (p / (quantum.toInt.toNat * qset.toInt.toNat) : ℕ)))
          (rounds (Int32.ofInt (p / (quantum.toInt.toNat * qset.toInt.toNat) : ℕ)) *
            qset.toInt.toNat + p / quantum.toInt.toNat % qset.toInt.toNat) dev p
          (min count (quantum.toInt.toNat - p % quantum.toInt.toNat)) src res) := by
  obtain ⟨res, hres, hkept, -, ⟨hstarved, hlacks⟩ | ⟨hcopied, -⟩⟩ :=
    scullWriteLocked_cases hg hs heap p count src env
  · exact ⟨res, hres, hkept, Or.inl ⟨hstarved.failed, fun h => hlacks (h.1.supplies _ _ _)⟩⟩
  · refine ⟨res, hres, hkept, ?_⟩
    by_cases hcopy : min count (quantum.toInt.toNat - p % quantum.toInt.toNat) ≤ src.bytes.length
    · exact Or.inr (hcopied.written hcopy)
    · exact Or.inl ⟨hcopied.failed hcopy, fun h => hcopy h.2⟩

end Write

/-! ### Reading -/

/-- The effect of a read at the position `p`, where `k` is the number of the quantum that it comes
to and `m` the number of bytes up to the end of the data and of the quantum: it returns nothing at
the end of the data and in a hole, or delivers the bytes of the quantum, or fails because the user's
buffer cannot be written. -/
inductive ReadEffect (Q S k : ℕ) (dev : ScullDev) (p m room : ℕ) (res : IoResult) : Prop
  | nothing (hret : res.ret = 0) (hbytes : res.bytes = []) (hpos : res.fPos = p)
      (hwhy : dev.size ≤ p ∨ quantumAt S dev.data k = none)
  | delivered {q : Quantum} (hsize : p < dev.size)
      (hq : quantumAt S dev.data k = some q) (hroom : m ≤ room)
      (hret : res.ret = m) (hbytes : res.bytes = Cells.load q.cells ((p % Q : ℕ) : ℤ) m)
      (hpos : res.fPos = loffT ((p + m : ℕ) : ℤ))
  | fault {q : Quantum} (hsize : p < dev.size)
      (hq : quantumAt S dev.data k = some q) (hroom : room < m)
      (hret : res.ret = -EFAULT) (hbytes : res.bytes = []) (hpos : res.fPos = p)

/-- What a read at the position `fPos` returns and delivers, and the position that it leaves, when
`entry` is what it finds at the place of the position and `m` the number of bytes up to the end of
the data and of the quantum. -/
def readEntry (entry : Option Quantum) (off fPos : ℤ) (m room : ℕ) : ℤ × List UInt8 × ℤ :=
  match entry with
  | none => (0, [], fPos)
  | some q =>
    match copyToUser q.cells off m room with
    | none => (-EFAULT, [], fPos)
    | some bytes => (m, bytes, loffT (fPos + m))

section Read

variable {quantum qset : Int32} {dev : ScullDev}

theorem scullReadLocked_end {fPos : ℤ} (hend : sizeT fPos ≥ dev.size) (heap : Ledger)
    (count room : ℕ) (env : AllocEnv) :
    scullReadLocked quantum qset dev heap fPos count room env =
      some ⟨0, [], fPos, dev, heap⟩ := if_pos hend

/-- **What a read does.** On a device whose list has the shape of the geometry, a read before the
end of the data at a place inside is never stuck. A read that is not stuck changes no array and not
the size, nothing at all when the list already has the quantum set of the position, and its answer
comes from the entry of its place. -/
theorem scullReadLocked_outcome {fPos : ℤ} {place : Place}
    (hs : Shaped quantum.toInt.toNat qset.toInt.toNat dev.data) (hsize : sizeT fPos < dev.size)
    (hplace : locate quantum qset fPos = some place) (heap : Ledger) (count room : ℕ)
    (env : AllocEnv) :
    (scullReadLocked quantum qset dev heap fPos count room env = none ∧
      ¬ place.Inside quantum qset) ∨
    ∃ res, scullReadLocked quantum qset dev heap fPos count room env = some res ∧
      Kept quantum.toInt.toNat qset.toInt.toNat dev heap res ∧ res.dev.size = dev.size ∧
      (∀ m, arrayAt res.dev.data m = arrayAt dev.data m) ∧
      (rounds place.item < dev.data.length → res.dev = dev ∧ res.heap = heap) ∧
      (res.ret, res.bytes, res.fPos) =
        readEntry (entryAt dev.data (rounds place.item) place.sPos) place.qPos fPos
          (clamp quantum place.qPos (upToSize dev fPos count)) room := by
  simp only [scullReadLocked, if_neg (not_le.mpr hsize), hplace, Option.bind_some]
  obtain ⟨hshape, hlen, harrays, ⟨ids, hgrows, hperm⟩, hreach⟩ :=
    scullFollow_kept hs env.node (rounds place.item) heap
  have hstay : rounds place.item < dev.data.length →
      scullFollow env.node (rounds place.item) dev.data heap = (true, dev.data, heap) :=
    scullFollow_of_lt env.node heap
  generalize scullFollow env.node (rounds place.item) dev.data heap = got at *
  obtain ⟨ok, list, heap₁⟩ := got
  simp only at hshape hlen harrays hgrows hperm hreach ⊢
  have hkept : ∀ ret bytes fPos, Kept quantum.toInt.toNat qset.toInt.toNat dev heap
      ⟨ret, bytes, fPos, { dev with data := list }, heap₁⟩ := fun ret bytes fPos =>
    ⟨rfl, rfl, hshape, hlen, ids, hgrows, hperm⟩
  have hsame : rounds place.item < dev.data.length →
      { dev with data := list } = dev ∧ heap₁ = heap := by
    intro hlt
    have heq := hstay hlt
    simp only [Prod.mk.injEq] at heq
    rw [heq.2.1, heq.2.2]
    exact ⟨rfl, rfl⟩
  cases ok with
  | false =>
    -- The slot was not reached, so it is beyond the list, and there is no quantum.
    refine .inr ⟨_, rfl, hkept _ _ _, rfl, harrays, hsame, ?_⟩
    have hge : dev.data.length ≤ rounds place.item := by
      by_contra hlt
      have heq := hstay (not_le.mp hlt)
      simp at heq
    rw [entryAt, arrayAt, List.getElem?_eq_none hge]
    rfl
  | true =>
    obtain ⟨dptr, hn⟩ := hreach rfl
    have hdata : arrayAt dev.data (rounds place.item) = dptr.data := by
      rw [← harrays, arrayAt_eq_data hn]
    simp only [hn, Option.bind_some, if_true, entryAt, hdata]
    cases harr : dptr.data with
    | none => exact .inr ⟨_, rfl, hkept _ _ _, rfl, harrays, hsame, rfl⟩
    | some arr =>
      obtain ⟨harrSize, hquanta⟩ := hshape dptr (List.mem_of_getElem? hn) arr harr
      by_cases hin : arr.Contains place.sPos 1
      swap
      · refine .inl ⟨if_neg hin, fun hinside => hin (hinside.contains_entry ?_)⟩
        have hlow := hinside.sPos_nonneg
        have hhigh := hinside.sPos_lt
        omega
      simp only [if_pos hin, Option.bind_some]
      cases hq : arr.cells place.sPos with
      | none => exact .inr ⟨_, rfl, hkept _ _ _, rfl, harrays, hsame, rfl⟩
      | some q =>
        generalize upToSize dev fPos count = count
        simp only [readEntry, copyToUser]
        by_cases hin' : q.Contains place.qPos (clamp quantum place.qPos count)
        · right
          simp only [if_pos hin']
          split_ifs with hroom
          · exact ⟨_, rfl, hkept _ _ _, rfl, harrays, hsame, rfl⟩
          · exact ⟨_, rfl, hkept _ _ _, rfl, harrays, hsame, rfl⟩
        · refine .inl ⟨if_neg hin', fun hinside => hin' (hinside.contains_clamp ?_ count)⟩
          have hlow := hinside.sPos_nonneg
          have hhigh := hinside.sPos_lt
          rw [← Int.toNat_of_nonneg hlow] at hq
          exact hquanta _ (by omega) q hq

/-- On a device whose list has the shape of a good geometry, no read is stuck; it changes no quantum
and not the size; and it changes nothing at all when the list already has the quantum set of the
position. -/
theorem scullReadLocked_spec (hg : GoodGeometry quantum qset)
    (hs : Shaped quantum.toInt.toNat qset.toInt.toNat dev.data) (heap : Ledger) {p : ℕ}
    (hp : p < 2 ^ 63) (count room : ℕ) (env : AllocEnv) :
    ∃ res, scullReadLocked quantum qset dev heap p count room env = some res ∧
      Kept quantum.toInt.toNat qset.toInt.toNat dev heap res ∧ res.dev.size = dev.size ∧
      (∀ k, quantumAt qset.toInt.toNat res.dev.data k = quantumAt qset.toInt.toNat dev.data k) ∧
      (dev.size ≤ p ∨ rounds (Int32.ofInt (p / (quantum.toInt.toNat * qset.toInt.toNat) : ℕ)) <
        dev.data.length → res.dev = dev ∧ res.heap = heap) ∧
      ReadEffect quantum.toInt.toNat qset.toInt.toNat
        (rounds (Int32.ofInt (p / (quantum.toInt.toNat * qset.toInt.toNat) : ℕ)) *
          qset.toInt.toNat + p / quantum.toInt.toNat % qset.toInt.toNat) dev p
        (min (upToSize dev p count) (quantum.toInt.toNat - p % quantum.toInt.toNat)) room res := by
  have hsPos := Nat.mod_lt (p / quantum.toInt.toNat) hg.toNat_qset_pos
  have hsizeT : sizeT (p : ℤ) = p := sizeT_natCast (by omega)
  rcases le_or_gt dev.size p with hend | hlt
  · exact ⟨_, scullReadLocked_end (hsizeT.symm ▸ hend) heap count room env,
      ⟨rfl, rfl, hs, le_rfl, [], .refl heap, .refl _⟩, rfl, fun _ => rfl,
      fun _ => ⟨rfl, rfl⟩, .nothing rfl rfl rfl (Or.inl hend)⟩
  have hplace := locate_eq hg p
  have hinside := locate_inside hg.quantum_pos hg.qset_pos hplace
  rcases scullReadLocked_outcome hs (by rw [hsizeT]; exact hlt) hplace heap count room env with
    ⟨-, hout⟩ | ⟨res, hres, hkept, hsize, harrays, hsame, hread⟩
  · exact absurd hinside hout
  refine ⟨res, hres, hkept, hsize, quantumAt_congr _ harrays,
    fun h => hsame (h.resolve_left (by omega)), ?_⟩
  simp only [clamp_eq hg] at hread
  generalize Int32.ofInt (p / (quantum.toInt.toNat * qset.toInt.toNat) : ℕ) = item at *
  have htarget := (div_mod_target (n := rounds item) (k := _) hsPos).mp rfl
  have hentry : quantumAt qset.toInt.toNat dev.data
      (rounds item * qset.toInt.toNat + p / quantum.toInt.toNat % qset.toInt.toNat) =
      entryAt dev.data (rounds item) (p / quantum.toInt.toNat % qset.toInt.toNat : ℕ) := by
    rw [quantumAt_eq_entryAt, htarget.1, htarget.2]
  rw [← hentry] at hread
  generalize min (upToSize dev p count) _ = m at *
  cases hq : quantumAt qset.toInt.toNat dev.data
      (rounds item * qset.toInt.toNat + p / quantum.toInt.toNat % qset.toInt.toNat) with
  | none =>
    rw [hq] at hread
    simp only [readEntry, Prod.mk.injEq] at hread
    obtain ⟨hret, hbytes, hpos⟩ := hread
    exact .nothing hret hbytes hpos (Or.inr hq)
  | some q =>
    rw [hq] at hread
    by_cases hroom : m ≤ room
    · simp only [readEntry, copyToUser, if_pos hroom, Prod.mk.injEq] at hread
      obtain ⟨hret, hbytes, hpos⟩ := hread
      rw [← Nat.cast_add] at hpos
      exact .delivered hlt hq hroom hret hbytes hpos
    · simp only [readEntry, copyToUser, if_neg hroom, Prod.mk.injEq] at hread
      obtain ⟨hret, hbytes, hpos⟩ := hread
      exact .fault hlt hq (not_le.mp hroom) hret hbytes hpos

end Read

end ExKernel.Scull
