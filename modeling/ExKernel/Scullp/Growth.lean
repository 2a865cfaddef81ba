import ExKernel.Scullp.Device

/-!
# How the list of a scullp device grows

A read or a write never removes anything from the list: items are appended, arrays are attached to
items that have none, and blocks to entries that have none; a block that is there stays, in its
place. This holds for every geometry and every position, whatever the allocator answers, as long as
the call does not leave the model.

A block is allocated with the order of its item. So the growth also says which sizes the new blocks
have, and which item may have got one.

## Main definitions

* `Scullp.ScullpDev.pagesAt`: the block at an index of a list item.
* `Scullp.ScullpDev.arrayOf`: the array of a list item.
* `Scullp.ItemGrown`, `Scullp.Grown`: growth of a list item and of a device.

## Main results

* `Scullp.Grown.read`, `Scullp.Grown.write`: reads and writes let the device grow.
* `Scullp.Grown.pagesAt_kept`, `Scullp.Grown.pagesAt_fresh`: the blocks of a device that has grown.

## References

* `ldd/scullp/main.c`, lines 146–263.
-/

namespace ExKernel.Scullp

open Scull (Quantum QArray Place AllocEnv locate rounds clamp ensureArray)

/-- The block at an index of a list item. -/
def ScullpItem.entry (dptr : ScullpItem) (idx : ℤ) : Option Quantum :=
  dptr.data.bind fun arr => arr.cells idx

/-- The block at an index of the list item `n`. -/
def ScullpDev.pagesAt (dev : ScullpDev) (n : ℕ) (idx : ℤ) : Option Quantum :=
  (dev.items[n]?).bind fun dptr => dptr.entry idx

/-- The array of the list item `n`, if the list has this item and the item an array. -/
def ScullpDev.arrayOf (dev : ScullpDev) (n : ℕ) : Option QArray :=
  (dev.items[n]?).bind ScullpItem.data

/-- The order of the list item `n`, and that of a cleared one if the list is shorter. -/
def ScullpDev.orderAt (dev : ScullpDev) (n : ℕ) : Int32 :=
  ((dev.items[n]?).map ScullpItem.order).getD 0

/-- The same block, with whatever contents. -/
def SameBlock (q q' : Quantum) : Prop := q'.id = q.id ∧ q'.size = q.size

theorem SameBlock.refl (q : Quantum) : SameBlock q q := ⟨rfl, rfl⟩

theorem SameBlock.trans {q q' q'' : Quantum} (h : SameBlock q q') (h' : SameBlock q' q'') :
    SameBlock q q'' :=
  ⟨h'.1.trans h.1, h'.2.trans h.2⟩

theorem pagesAt_eq_bind (dev : ScullpDev) (n : ℕ) (idx : ℤ) :
    dev.pagesAt n idx = (dev.arrayOf n).bind fun arr => arr.cells idx := by
  rw [ScullpDev.arrayOf, Option.bind_assoc]
  rfl

/-- Growth of a list item: it keeps its blocks, and where it has got new ones, which needs `P`, they
are live in the heap `heap` and of the order of the item. -/
structure ItemGrown (heap : Ledger) (P : Prop) (dptr dptr' : ScullpItem) : Prop where
  id_eq : dptr'.id = dptr.id
  order_eq : dptr'.order = dptr.order
  kept : ∀ idx q, dptr.entry idx = some q → ∃ q', dptr'.entry idx = some q' ∧ SameBlock q q'
  fresh : ∀ idx q', dptr'.entry idx = some q' → (∃ q, dptr.entry idx = some q ∧ SameBlock q q') ∨
    P ∧ q'.id ∈ heap.live ∧ q'.size = pageBytes dptr.order

namespace ItemGrown

variable {heap heap' : Ledger} {P : Prop} {dptr dptr' dptr'' : ScullpItem}

theorem refl (dptr : ScullpItem) : ItemGrown heap P dptr dptr where
  id_eq := rfl
  order_eq := rfl
  kept _ q hq := ⟨q, hq, .refl q⟩
  fresh _ q hq := .inl ⟨q, hq, .refl q⟩

theorem trans (h : ItemGrown heap P dptr dptr') (h' : ItemGrown heap' P dptr' dptr'')
    (hlive : ∀ b ∈ heap.live, b ∈ heap'.live) : ItemGrown heap' P dptr dptr'' where
  id_eq := h'.id_eq.trans h.id_eq
  order_eq := h'.order_eq.trans h.order_eq
  kept idx q hq := by
    obtain ⟨q', hq', hsame⟩ := h.kept idx q hq
    obtain ⟨q'', hq'', hsame'⟩ := h'.kept idx q' hq'
    exact ⟨q'', hq'', hsame.trans hsame'⟩
  fresh idx q'' hq'' := by
    rcases h'.fresh idx q'' hq'' with ⟨q', hq', hsame'⟩ | ⟨hP, hnew, hsize⟩
    · rcases h.fresh idx q' hq' with ⟨q, hq, hsame⟩ | ⟨hP, hnew, hsize⟩
      · exact .inl ⟨q, hq, hsame.trans hsame'⟩
      · exact .inr ⟨hP, hsame'.1 ▸ hlive _ hnew, hsame'.2.trans hsize⟩
    · exact .inr ⟨hP, hnew, h.order_eq ▸ hsize⟩

end ItemGrown

/-- Growth of a device, where the list item `i` may get new blocks if `P i`. -/
structure Grown (P : ℕ → Prop) (dev : ScullpDev) (heap : Ledger) (dev' : ScullpDev)
    (heap' : Ledger) : Prop where
  vmas_eq : dev'.vmas = dev.vmas
  order_eq : dev'.order = dev.order
  qset_eq : dev'.qset = dev.qset
  size_le : dev.size ≤ dev'.size
  live : ∀ b ∈ heap.live, b ∈ heap'.live
  length_le : dev.items.length ≤ dev'.items.length
  item : ∀ i dptr', dev'.items[i]? = some dptr' →
    ItemGrown heap' (P i) ((dev.items[i]?).getD ⟨dptr'.id, none, 0⟩) dptr'

namespace Grown

variable {P : ℕ → Prop} {dev dev' dev'' : ScullpDev} {heap heap' heap'' : Ledger}

theorem refl (dev : ScullpDev) (heap : Ledger) : Grown P dev heap dev heap where
  vmas_eq := rfl
  order_eq := rfl
  qset_eq := rfl
  size_le := le_rfl
  live _ hb := hb
  length_le := le_rfl
  item i dptr' hi := by
    rw [hi]
    exact .refl dptr'

theorem trans (h : Grown P dev heap dev' heap') (h' : Grown P dev' heap' dev'' heap'') :
    Grown P dev heap dev'' heap'' where
  vmas_eq := h'.vmas_eq.trans h.vmas_eq
  order_eq := h'.order_eq.trans h.order_eq
  qset_eq := h'.qset_eq.trans h.qset_eq
  size_le := h.size_le.trans h'.size_le
  live b hb := h'.live b (h.live b hb)
  length_le := h.length_le.trans h'.length_le
  item i dptr'' hi'' := by
    have hgrown' := h'.item i dptr'' hi''
    cases hi' : dev'.items[i]? with
    | none =>
      have hi : dev.items[i]? = none := by
        rw [List.getElem?_eq_none_iff] at hi' ⊢
        exact h.length_le.trans hi'
      rw [hi'] at hgrown'
      rw [hi]
      exact hgrown'
    | some dptr' =>
      rw [hi', Option.getD_some] at hgrown'
      have hgrown := h.item i dptr' hi'
      rw [← hgrown'.id_eq] at hgrown
      exact hgrown.trans hgrown' h'.live

/-- The blocks that are there stay, each in its place. -/
theorem pagesAt_kept (h : Grown P dev heap dev' heap') {n : ℕ} {idx : ℤ} {q : Quantum}
    (hq : dev.pagesAt n idx = some q) : ∃ q', dev'.pagesAt n idx = some q' ∧ SameBlock q q' := by
  obtain ⟨dptr, hn, hentry⟩ := Option.bind_eq_some_iff.mp hq
  have hlt : n < dev'.items.length :=
    (List.getElem?_eq_some_iff.mp hn).1.trans_le h.length_le
  have hn' : dev'.items[n]? = some dev'.items[n] := List.getElem?_eq_getElem hlt
  have hgrown := h.item n _ hn'
  rw [hn] at hgrown
  obtain ⟨q', hq', hsame⟩ := hgrown.kept idx q hentry
  exact ⟨q', by rw [ScullpDev.pagesAt, hn']; exact hq', hsame⟩

/-- A block was there before, or is new: live, and of the order of its list item. -/
theorem pagesAt_fresh (h : Grown P dev heap dev' heap') {n : ℕ} {idx : ℤ} {q' : Quantum}
    (hq' : dev'.pagesAt n idx = some q') :
    (∃ q, dev.pagesAt n idx = some q ∧ SameBlock q q') ∨
      P n ∧ q'.id ∈ heap'.live ∧ q'.size = pageBytes (dev.orderAt n) := by
  obtain ⟨dptr', hn', hentry⟩ := Option.bind_eq_some_iff.mp hq'
  have hgrown := h.item n dptr' hn'
  rw [ScullpDev.pagesAt, ScullpDev.orderAt]
  cases hn : dev.items[n]? with
  | none =>
    rw [hn] at hgrown
    rcases hgrown.fresh idx q' hentry with ⟨q, hq, hsame⟩ | hnew
    · cases hq
    · exact .inr hnew
  | some dptr =>
    rw [hn] at hgrown
    exact hgrown.fresh idx q' hentry

theorem orderAt_eq (h : Grown P dev heap dev' heap') (n : ℕ) : dev'.orderAt n = dev.orderAt n := by
  rw [ScullpDev.orderAt, ScullpDev.orderAt]
  cases hn' : dev'.items[n]? with
  | none =>
    have hn : dev.items[n]? = none := by
      rw [List.getElem?_eq_none_iff] at hn' ⊢
      exact h.length_le.trans hn'
    rw [hn]
  | some dptr' =>
    have horder := (h.item n dptr' hn').order_eq
    rw [Option.map_some, Option.getD_some, horder]
    cases dev.items[n]? <;> rfl

end Grown

/-! ### Following the list -/

theorem scullpFollow_spec {answer : ℕ → Bool} {n : ℕ} {next next' : List ScullpItem}
    {heap heap' : Ledger} (h : scullpFollow answer n next heap = some (next', heap')) :
    ∃ fresh, next' = next ++ fresh ∧ (∀ dptr ∈ fresh, dptr.data = none ∧ dptr.order = 0) ∧
      (∀ b ∈ heap.live, b ∈ heap'.live) ∧ n ≤ next'.length ∧ (n ≤ next.length → fresh = []) := by
  induction n generalizing next next' heap with
  | zero =>
    cases h
    exact ⟨[], by simp, by simp, fun _ hb => hb, Nat.zero_le _, fun _ => rfl⟩
  | succ n ih =>
    cases next with
    | cons dptr next =>
      obtain ⟨⟨rest, heap₁⟩, hrest, heq⟩ := Option.map_eq_some_iff.mp h
      cases heq
      obtain ⟨fresh, rfl, hfresh, hlive, hlen, hnone⟩ := ih hrest
      exact ⟨fresh, rfl, hfresh, hlive, Nat.succ_le_succ hlen,
        fun hle => hnone (Nat.le_of_succ_le_succ hle)⟩
    | nil =>
      rw [scullpFollow] at h
      split_ifs at h with hans
      obtain ⟨⟨rest, heap₁⟩, hrest, heq⟩ := Option.map_eq_some_iff.mp h
      cases heq
      obtain ⟨fresh, heq, hfresh, hlive, hlen, -⟩ := ih hrest
      refine ⟨⟨heap.next, none, 0⟩ :: fresh, by rw [heq]; rfl, ?_, fun b hb => ?_,
        Nat.succ_le_succ hlen, ?_⟩
      · intro dptr hd
        rcases List.mem_cons.mp hd with rfl | hd
        · exact ⟨rfl, rfl⟩
        · exact hfresh dptr hd
      · exact hlive b (List.mem_cons_of_mem _ hb)
      · intro hle
        exact absurd hle (Nat.not_succ_le_zero n)

section Follow

variable {answer : ℕ → Bool} {n : ℕ} {next : List ScullpItem} {P : ℕ → Prop} {dev : ScullpDev}
  {heap heap' : Ledger}

theorem Grown.follow (h : scullpFollow answer n dev.next heap = some (next, heap')) :
    Grown P dev heap { dev with next := next } heap' := by
  obtain ⟨fresh, rfl, hfresh, hlive, -, -⟩ := scullpFollow_spec h
  have hitems : ({ dev with next := dev.next ++ fresh } : ScullpDev).items = dev.items ++ fresh :=
    rfl
  refine ⟨rfl, rfl, rfl, le_rfl, hlive, by simp [hitems], fun i dptr' hi => ?_⟩
  rw [hitems] at hi
  rcases lt_or_ge i dev.items.length with hlt | hge
  · rw [List.getElem?_append_left hlt] at hi
    rw [hi]
    exact .refl dptr'
  · rw [List.getElem?_append_right hge] at hi
    obtain ⟨hdata, horder⟩ := hfresh dptr' (List.mem_of_getElem? hi)
    rw [List.getElem?_eq_none hge, Option.getD_none, ← horder, ← hdata]
    exact .refl dptr'

theorem arrayOf_follow (h : scullpFollow answer n dev.next heap = some (next, heap')) (m : ℕ) :
    ({ dev with next := next } : ScullpDev).arrayOf m = dev.arrayOf m := by
  obtain ⟨fresh, rfl, hfresh, -, -, -⟩ := scullpFollow_spec h
  change ((dev.items ++ fresh)[m]?).bind ScullpItem.data = (dev.items[m]?).bind ScullpItem.data
  rcases lt_or_ge m dev.items.length with hlt | hge
  · rw [List.getElem?_append_left hlt]
  · rw [List.getElem?_append_right hge, List.getElem?_eq_none hge]
    cases hf : fresh[m - dev.items.length]? with
    | none => rfl
    | some dptr => exact (hfresh dptr (List.mem_of_getElem? hf)).1

theorem exists_item_of_follow (h : scullpFollow answer n dev.next heap = some (next, heap')) :
    ∃ dptr, ({ dev with next := next } : ScullpDev).items[n]? = some dptr := by
  obtain ⟨-, -, -, -, hlen, -⟩ := scullpFollow_spec h
  refine ⟨_, List.getElem?_eq_getElem ?_⟩
  exact Nat.lt_succ_of_le hlen

end Follow

/-! ### Attaching arrays and blocks -/

@[simp] theorem setData_vmas (dev : ScullpDev) (n : ℕ) (arr : QArray) :
    (dev.setData n arr).vmas = dev.vmas := by cases n <;> rfl

@[simp] theorem setData_order (dev : ScullpDev) (n : ℕ) (arr : QArray) :
    (dev.setData n arr).order = dev.order := by cases n <;> rfl

@[simp] theorem setData_qset (dev : ScullpDev) (n : ℕ) (arr : QArray) :
    (dev.setData n arr).qset = dev.qset := by cases n <;> rfl

@[simp] theorem setData_size (dev : ScullpDev) (n : ℕ) (arr : QArray) :
    (dev.setData n arr).size = dev.size := by cases n <;> rfl

theorem items_setData {dev : ScullpDev} {n : ℕ} {dptr : ScullpItem} (hn : dev.items[n]? = some dptr)
    (arr : QArray) :
    (dev.setData n arr).items = dev.items.set n { dptr with data := some arr } := by
  cases n with
  | zero =>
    cases hn
    rfl
  | succ n =>
    have hn' : dev.next[n]? = some dptr := hn
    have hmodify : dev.next.modify n (fun dptr => { dptr with data := some arr }) =
        dev.next.set n { dptr with data := some arr } := by
      refine List.ext_getElem? fun i => ?_
      rw [List.getElem?_modify, List.getElem?_set]
      by_cases hi : n = i
      · subst hi
        obtain ⟨hlt, hget⟩ := List.getElem?_eq_some_iff.mp hn'
        simp [hlt, hget]
      · simp [hi]
    simp only [ScullpDev.items, ScullpDev.setData, hmodify, List.set_cons_succ]

section SetData

variable {P : ℕ → Prop} {dev : ScullpDev} {heap heap' : Ledger} {n : ℕ} {dptr : ScullpItem}
  {arr : QArray}

theorem pagesAt_setData (hn : dev.items[n]? = some dptr) (idx : ℤ) :
    (dev.setData n arr).pagesAt n idx = arr.cells idx := by
  have hlt := (List.getElem?_eq_some_iff.mp hn).1
  rw [ScullpDev.pagesAt, items_setData hn, List.getElem?_set_self hlt]
  rfl

theorem arrayOf_setData (hn : dev.items[n]? = some dptr) (m : ℕ) :
    (dev.setData n arr).arrayOf m = if m = n then some arr else dev.arrayOf m := by
  rw [ScullpDev.arrayOf, items_setData hn]
  split_ifs with hm
  · rw [hm, List.getElem?_set_self (List.getElem?_eq_some_iff.mp hn).1]
    rfl
  · rw [List.getElem?_set_ne (Ne.symm hm), ScullpDev.arrayOf]

theorem Grown.setData (hn : dev.items[n]? = some dptr) (hlive : ∀ b ∈ heap.live, b ∈ heap'.live)
    (hgrown : ItemGrown heap' (P n) dptr { dptr with data := some arr }) :
    Grown P dev heap (dev.setData n arr) heap' := by
  have hitems := items_setData hn arr
  refine ⟨setData_vmas dev n arr, setData_order dev n arr, setData_qset dev n arr,
    (setData_size dev n arr).ge, hlive, ?_, fun i dptr' hi => ?_⟩
  · rw [hitems, List.length_set]
  · rw [hitems] at hi
    by_cases hin : n = i
    · subst hin
      rw [List.getElem?_set_self (List.getElem?_eq_some_iff.mp hn).1] at hi
      cases hi
      rw [hn]
      exact hgrown
    · rw [List.getElem?_set_ne hin] at hi
      rw [hi]
      exact .refl dptr'

end SetData

/-- An array for a list item, for any number of entries: it has the entries that the item has. -/
theorem ensureArray_cases (qset : Int32) (ok : Bool) (data : Option QArray) (heap : Ledger) :
    (data = none ∧ (0 ≤ qset.toInt → ok = false) ∧ ensureArray qset ok data heap = (none, heap)) ∨
    ∃ arr heap', ensureArray qset ok data heap = (some arr, heap') ∧
      (∀ b ∈ heap.live, b ∈ heap'.live) ∧ (ok = true ∨ data.isSome) ∧
      (∀ idx, arr.cells idx = data.bind fun old => old.cells idx) ∧
      (data = some arr ∨ (arr.size : ℤ) = qset.toInt ∧ 0 ≤ qset.toInt) := by
  cases data with
  | some arr =>
    exact .inr ⟨arr, heap, rfl, fun _ hb => hb, .inr rfl, fun _ => rfl, .inl rfl⟩
  | none =>
    by_cases hneg : qset.toInt < 0
    · exact .inl ⟨rfl, fun hpos => absurd hneg (not_lt.mpr hpos),
        by simp [ensureArray, kmalloc, hneg]⟩
    have hpos : 0 ≤ qset.toInt := not_lt.mp hneg
    cases ok with
    | false => exact .inl ⟨rfl, fun _ => rfl, by simp [ensureArray, kmalloc]⟩
    | true =>
      refine .inr ⟨⟨heap.next, qset.toInt.toNat, fun _ => none⟩, heap.alloc, ?_,
        fun b hb => List.mem_cons_of_mem _ hb, .inl rfl, fun _ => rfl,
        .inr ⟨Int.toNat_of_nonneg hpos, hpos⟩⟩
      simp [ensureArray, kmalloc, hneg]

theorem ensurePages_cases (order : Int32) (answer : Option (ℤ → UInt8)) (entry : Option Quantum)
    (heap : Ledger) :
    (entry = none ∧ answer = none ∧ ensurePages order answer entry heap = (none, heap)) ∨
    ∃ q heap', ensurePages order answer entry heap = (some q, heap') ∧
      (∀ b ∈ heap.live, b ∈ heap'.live) ∧
      (entry = some q ∨
        entry = none ∧ answer.isSome ∧ q.id ∈ heap'.live ∧ q.size = pageBytes order) := by
  cases entry with
  | some q => exact .inr ⟨q, heap, rfl, fun _ hb => hb, .inl rfl⟩
  | none =>
    have hneg : ¬ ((pageBytes order : ℕ) : ℤ) < 0 := by omega
    cases answer with
    | none => exact .inl ⟨rfl, rfl, by simp [ensurePages, kmalloc]⟩
    | some contents =>
      refine .inr ⟨⟨heap.next, pageBytes order, Cells.fill contents 0 0 (pageBytes order)⟩,
        heap.alloc, ?_, fun b hb => List.mem_cons_of_mem _ hb,
        .inr ⟨rfl, rfl, List.mem_cons_self, rfl⟩⟩
      simp [ensurePages, kmalloc, hneg]

/-- A write at the position `fPos` puts a block into the list item `n`, if there is none in its
place: it gets the lock, and there is memory for the block, and for the array if the item has
none. -/
def Allocates (dev : ScullpDev) (fPos : ℤ) (lockIntr : Bool) (env : AllocEnv) (n : ℕ) : Prop :=
  lockIntr = false ∧ (∃ quantum place, pageQuantum dev.order = some quantum ∧
    locate quantum dev.qset fPos = some place ∧ rounds place.item = n) ∧
    env.quantum.isSome ∧ (env.array = true ∨ ((dev.items[n]?).bind ScullpItem.data).isSome)

section Write

variable {P : ℕ → Prop} {dev : ScullpDev} {heap : Ledger} {place : Place} {env : AllocEnv}

/-- The growth of the item that a write comes to, when an array with its blocks is attached and one
entry is replaced. -/
theorem ItemGrown.attach {heap : Ledger} {P : Prop} {dptr : ScullpItem} {arr : QArray} {sPos : ℤ}
    {q : Quantum} (hcells : ∀ idx, arr.cells idx = dptr.entry idx)
    (hq : (∃ old, dptr.entry sPos = some old ∧ SameBlock old q) ∨
      dptr.entry sPos = none ∧ P ∧ q.id ∈ heap.live ∧ q.size = pageBytes dptr.order) :
    ItemGrown heap P dptr { dptr with
      data := some { arr with cells := Function.update arr.cells sPos (some q) } } := by
  have hentry : ∀ idx, ScullpItem.entry { dptr with
      data := some { arr with cells := Function.update arr.cells sPos (some q) } } idx =
      if idx = sPos then some q else dptr.entry idx := by
    intro idx
    rw [← hcells]
    exact Function.update_apply arr.cells sPos (some q) idx
  refine ⟨rfl, rfl, fun idx old hold => ?_, fun idx q' hq' => ?_⟩
  · rw [hentry]
    split_ifs with hidx
    · subst hidx
      rcases hq with ⟨old', hold', hsame⟩ | ⟨hnone, -⟩
      · rw [hold] at hold'
        cases hold'
        exact ⟨q, rfl, hsame⟩
      · rw [hold] at hnone
        cases hnone
    · exact ⟨old, hold, .refl old⟩
  · rw [hentry] at hq'
    split_ifs at hq' with hidx
    · subst hidx
      cases hq'
      rcases hq with hold | ⟨-, hnew⟩
      · exact .inl hold
      · exact .inr hnew
    · exact .inl ⟨q', hq', .refl q'⟩

theorem ItemGrown.attachArray {heap : Ledger} {P : Prop} {dptr : ScullpItem} {arr : QArray}
    (hcells : ∀ idx, arr.cells idx = dptr.entry idx) :
    ItemGrown heap P dptr { dptr with data := some arr } := by
  have hentry : ∀ idx, ScullpItem.entry { dptr with data := some arr } idx = dptr.entry idx :=
    hcells
  exact ⟨rfl, rfl, fun idx q hq => ⟨q, by rw [hentry, hq], .refl q⟩,
    fun idx q hq => .inl ⟨q, by rw [← hentry, hq], .refl q⟩⟩

/-- **What a write has reached before its copy.** -/
theorem reachPages_spec {got : Reached} (h : reachPages dev heap place env = some got)
    (hP : env.quantum.isSome →
      (env.array = true ∨ ((dev.items[rounds place.item]?).bind ScullpItem.data).isSome) →
      P (rounds place.item)) :
    Grown P dev heap got.dev got.heap ∧
      (∀ arr q, got.target = some (arr, q) → arr.cells place.sPos = some q ∧
        ∃ dptr : ScullpItem,
          got.dev.items[rounds place.item]? = some { dptr with data := some arr }) ∧
      (0 ≤ dev.qset.toInt → env.quantum.isSome →
        (env.array = true ∨ ((dev.items[rounds place.item]?).bind ScullpItem.data).isSome) →
        got.target ≠ none) := by
  obtain ⟨⟨next, heap₁⟩, hfollow, h⟩ := Option.bind_eq_some_iff.mp h
  obtain ⟨dptr, hn, h⟩ := Option.bind_eq_some_iff.mp h
  have hgrown : Grown P dev heap { dev with next := next } heap₁ := .follow hfollow
  have hdata : (dev.items[rounds place.item]?).bind ScullpItem.data = dptr.data := by
    refine (arrayOf_follow hfollow _).symm.trans ?_
    rw [ScullpDev.arrayOf, hn]
    rfl
  rw [hdata] at hP ⊢
  rcases ensureArray_cases dev.qset env.array dptr.data heap₁ with
    ⟨hnone, hwhy, harray⟩ | ⟨arr, heap₂, harray, hlive₂, hor, hkeeps, -⟩
  · simp only [harray] at h
    cases h
    refine ⟨hgrown, by simp, fun hpos _ hor => ?_⟩
    rcases hor with hok | hsome
    · rw [hwhy hpos] at hok
      cases hok
    · rw [hnone] at hsome
      cases hsome
  simp only [harray] at h
  have hcells : ∀ idx, arr.cells idx = dptr.entry idx := hkeeps
  split_ifs at h with hin
  rcases ensurePages_cases dptr.order env.quantum (arr.cells place.sPos) heap₂ with
    ⟨-, hnone, hpages⟩ | ⟨q, heap₃, hpages, hlive₃, hq⟩
  · simp only [hpages] at h
    cases h
    refine ⟨hgrown.trans (.setData hn hlive₂ (.attachArray hcells)), by simp,
      fun _ hsome _ => ?_⟩
    rw [hnone] at hsome
    cases hsome
  · simp only [hpages] at h
    cases h
    refine ⟨hgrown.trans (.setData hn (fun b hb => hlive₃ b (hlive₂ b hb)) (.attach hcells ?_)),
      fun arr' q' htarget => ?_, by simp⟩
    · rcases hq with hold | ⟨hnone, hsome, hnew, hbytes⟩
      · exact .inl ⟨q, by rw [← hcells, hold], .refl q⟩
      · exact .inr ⟨by rw [← hcells, hnone], hP hsome hor, hnew, hbytes⟩
    · cases htarget
      refine ⟨Function.update_self _ _ _, dptr, ?_⟩
      rw [items_setData hn, List.getElem?_set_self (List.getElem?_eq_some_iff.mp hn).1]

theorem writePages_spec {quantum : Int32} {fPos : ℤ} {dptr : ScullpItem} {arr : QArray}
    {q : Quantum} {count : ℕ} {src : UserBuffer} {res : ScullpResult}
    (hn : dev.items[rounds place.item]? = some { dptr with data := some arr })
    (hq : arr.cells place.sPos = some q)
    (h : writePages quantum dev heap fPos place arr q count src = some res) :
    Grown P dev heap res.dev res.heap ∧
      ∃ q', res.dev.pagesAt (rounds place.item) place.sPos = some q' := by
  have hset : ∀ cells, Grown P dev heap (dev.setData (rounds place.item)
      { arr with cells := Function.update arr.cells place.sPos (some { q with cells := cells }) })
      heap := by
    intro cells
    refine .setData hn (fun _ hb => hb) (.attach (fun _ => rfl) (.inl ?_))
    exact ⟨q, hq, rfl, rfl⟩
  have hat : ∀ cells, (dev.setData (rounds place.item) { arr with
      cells := Function.update arr.cells place.sPos (some { q with cells := cells }) }).pagesAt
        (rounds place.item) place.sPos = some { q with cells := cells } := by
    intro cells
    rw [pagesAt_setData hn]
    exact Function.update_self _ _ _
  simp only [writePages] at h
  split_ifs at h with hin hcopy hlt
  · cases h
    obtain ⟨hvmas, horder, hqset, hsize, hlive, hlen, hitem⟩ := hset _
    exact ⟨⟨hvmas, horder, hqset, hlt.le, hlive, hlen, hitem⟩, _, hat _⟩
  · cases h
    obtain ⟨hvmas, horder, hqset, hsize, hlive, hlen, hitem⟩ := hset _
    exact ⟨⟨hvmas, horder, hqset, le_rfl, hlive, hlen, hitem⟩, _, hat _⟩
  · cases h
    exact ⟨hset _, _, hat _⟩

variable {fPos : ℤ} {count room : ℕ} {src : UserBuffer} {lockIntr : Bool} {res : ScullpResult}

/-- **A write lets the device grow**, by a new block in the item that it comes to, if at all. And it
has put a block there, if there is memory. -/
theorem Grown.write (h : scullpWrite dev heap fPos count src lockIntr env = some res) :
    Grown (Allocates dev fPos lockIntr env) dev heap res.dev res.heap ∧
      (0 ≤ dev.qset.toInt → ∀ n, Allocates dev fPos lockIntr env n →
        ∃ idx q, res.dev.pagesAt n idx = some q) := by
  obtain ⟨quantum, hquantum, h⟩ := Option.bind_eq_some_iff.mp h
  split_ifs at h with hintr
  · cases h
    refine ⟨.refl dev heap, fun _ n halloc => ?_⟩
    rw [halloc.1] at hintr
    cases hintr
  obtain ⟨place, hplace, h⟩ := Option.bind_eq_some_iff.mp h
  obtain ⟨got, hgot, h⟩ := Option.bind_eq_some_iff.mp h
  have hspec := reachPages_spec (P := Allocates dev fPos lockIntr env) hgot fun hsome hor =>
    ⟨Bool.eq_false_iff.mpr hintr, ⟨quantum, place, hquantum, hplace, rfl⟩, hsome, hor⟩
  obtain ⟨hgrown, htarget, hmust⟩ := hspec
  have hitem : ∀ n, Allocates dev fPos lockIntr env n → rounds place.item = n := by
    rintro n ⟨-, ⟨quantum', place', hquantum', hplace', hround⟩, -, -⟩
    rw [hquantum] at hquantum'
    cases hquantum'
    rw [hplace] at hplace'
    cases hplace'
    exact hround
  cases hcase : got.target with
  | none =>
    simp only [hcase] at h
    cases h
    refine ⟨hgrown, fun hpos n halloc => ?_⟩
    have hn := hitem n halloc
    subst hn
    exact absurd hcase (hmust hpos halloc.2.2.1 halloc.2.2.2)
  | some target =>
    obtain ⟨arr, q⟩ := target
    simp only [hcase] at h
    obtain ⟨hcell, dptr, hdptr⟩ := htarget arr q hcase
    obtain ⟨hgrown', q', hq'⟩ :=
      writePages_spec (P := Allocates dev fPos lockIntr env) hdptr hcell h
    refine ⟨hgrown.trans hgrown', fun _ n halloc => ?_⟩
    rw [← hitem n halloc]
    exact ⟨_, q', hq'⟩

/-- **A read lets the device grow** by list items without blocks. -/
theorem Grown.read (h : scullpRead dev heap fPos count room lockIntr env = some res) :
    Grown P dev heap res.dev res.heap ∧ res.dev.size = dev.size := by
  obtain ⟨quantum, hquantum, h⟩ := Option.bind_eq_some_iff.mp h
  split_ifs at h with hintr hend
  · cases h
    exact ⟨.refl dev heap, rfl⟩
  · cases h
    exact ⟨.refl dev heap, rfl⟩
  obtain ⟨place, hplace, h⟩ := Option.bind_eq_some_iff.mp h
  obtain ⟨⟨next, heap'⟩, hfollow, h⟩ := Option.bind_eq_some_iff.mp h
  obtain ⟨dptr, -, h⟩ := Option.bind_eq_some_iff.mp h
  have hgrown : Grown P dev heap { dev with next := next } heap' := .follow hfollow
  dsimp only at h
  repeat' split at h
  all_goals cases h <;> exact ⟨hgrown, rfl⟩

end Write

end ExKernel.Scullp
