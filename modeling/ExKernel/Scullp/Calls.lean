import ExKernel.Scull.Calls
import ExKernel.Scullp.Growth

/-!
# What a read and a write of scullp do

The specifications of `scullp_read` and `scullp_write`, for every order and every geometry. Both
follow the list to the item of the position, and this is where a call is stuck if there is no memory
for an item that the list lacks: `scullp_follow` clears the node that it did not get. From there on
a failed allocation is noticed, and a call is stuck only outside an array or outside a block.

A write that fails for want of an array or of a block leaves the position, the size and all blocks.
A read answers from the block in its place, and may have appended list items.

## Main definitions

* `Scullp.Sized`: every array has as many entries as the geometry says.
* `Scullp.Walks`, `Scullp.Supplies`: there is memory for the list items, and for the array and the
  block, that a call finds missing.
* `Scullp.Starved`, `Scullp.Landed`: the effects of a write.

## Main results

* `Scullp.scullpFollow_isSome`: when following the list comes to its end.
* `Scullp.scullpWrite_outcome`, `Scullp.scullpRead_outcome`.

## References

* `ldd/scullp/main.c`, lines 146–263.
-/

namespace ExKernel.Scullp

open Scull (AllocEnv Place QArray Quantum clamp ensureArray locate readEntry rounds)

/-- Every array has as many entries as the geometry says, and at least one. -/
def Sized (dev : ScullpDev) : Prop :=
  ∀ n arr, dev.arrayOf n = some arr → (arr.size : ℤ) = dev.qset.toInt ∧ 1 ≤ dev.qset.toInt

/-- There is memory for every item that the list lacks up to the item `n`. -/
def Walks (env : AllocEnv) (dev : ScullpDev) (n : ℕ) : Prop :=
  ∀ k, k + dev.next.length < n → env.node k = true

/-- There is memory for the array and for the block, if a write to the entry `i` of the list item
`n` finds them missing. -/
structure Supplies (env : AllocEnv) (dev : ScullpDev) (n : ℕ) (i : ℤ) : Prop where
  array : env.array = true ∨ (dev.arrayOf n).isSome
  quantum : env.quantum.isSome ∨ (dev.pagesAt n i).isSome

/-- A write that fails for want of memory: it leaves the position, the size and all blocks. -/
structure Starved (dev : ScullpDev) (fPos : ℤ) (res : ScullpResult) : Prop where
  ret_eq : res.ret = -ENOMEM
  bytes_eq : res.bytes = []
  fPos_eq : res.fPos = fPos
  size_eq : res.dev.size = dev.size
  pagesAt_eq : ∀ m j, res.dev.pagesAt m j = dev.pagesAt m j

/-- The effect of a write from `src` at the position `fPos` that comes to its copy, `m` bytes to the
offset `off` of the entry `i` of the list item `n`: the block in the entry, which is the old one or
else a fresh one, gets what the copy leaves, whether it succeeds or not. -/
structure Landed (n : ℕ) (i off : ℤ) (dev : ScullpDev) (fPos : ℤ) (m : ℕ) (src : UserBuffer)
    (res : ScullpResult) : Prop where
  stored : ∃ q : Quantum, (∀ m' j, res.dev.pagesAt m' j =
      if m' = n ∧ j = i then some { q with cells := (copyFromUser q.cells off src m).2 }
      else dev.pagesAt m' j) ∧
    ∀ old, dev.pagesAt n i = some old → q = old
  done : m ≤ src.bytes.length → res.ret = m ∧ res.bytes = src.bytes.take m ∧
    res.fPos = loffT (fPos + m) ∧ res.dev.size = max dev.size (sizeT (loffT (fPos + m)))
  fault : src.bytes.length < m → res.ret = -EFAULT ∧ res.bytes = [] ∧ res.fPos = fPos ∧
    res.dev.size = dev.size

/-! ### Following the list -/

/-- **Following the list** comes to its end exactly if there is memory for every item that the list
lacks. -/
theorem scullpFollow_isSome (answer : ℕ → Bool) (n : ℕ) (next : List ScullpItem) (heap : Ledger) :
    (scullpFollow answer n next heap).isSome ↔ ∀ k, k + next.length < n → answer k = true := by
  induction n generalizing next heap with
  | zero => simp [scullpFollow]
  | succ n ih =>
    cases next with
    | cons dptr next =>
      rw [scullpFollow, Option.isSome_map, ih]
      simp [← Nat.add_assoc]
    | nil =>
      rw [scullpFollow]
      split_ifs with hans
      · rw [Option.isSome_map, ih]
        refine ⟨fun h k hk => ?_, fun h k hk => h k (by simp at hk ⊢; omega)⟩
        rcases Nat.lt_or_ge k n with hlt | hge
        · exact h k (by simpa using hlt)
        · rw [show k = n by simp at hk; omega]
          exact hans
      · refine iff_of_false (by simp) fun h => ?_
        exact hans (h n (by simp))

/-- An item that is in the list is reached without an allocation. -/
theorem scullpFollow_of_le (answer : ℕ → Bool) {n : ℕ} {next : List ScullpItem} (heap : Ledger)
    (h : n ≤ next.length) : scullpFollow answer n next heap = some (next, heap) := by
  induction n generalizing next with
  | zero => rw [scullpFollow]
  | succ n ih =>
    cases next with
    | nil => simp at h
    | cons dptr next =>
      rw [scullpFollow, ih (by simpa using h)]
      rfl

/-- The list that was followed is as long as it was, or as the item that was looked for needs. -/
theorem scullpFollow_length {answer : ℕ → Bool} {n : ℕ} {next next' : List ScullpItem}
    {heap heap' : Ledger} (h : scullpFollow answer n next heap = some (next', heap')) :
    next'.length = max next.length n := by
  induction n generalizing next next' heap with
  | zero =>
    cases h
    exact (Nat.max_zero _).symm
  | succ n ih =>
    cases next with
    | cons dptr next =>
      obtain ⟨⟨rest, heap₁⟩, hrest, heq⟩ := Option.map_eq_some_iff.mp h
      cases heq
      rw [List.length_cons, ih hrest, List.length_cons]
      omega
    | nil =>
      rw [scullpFollow] at h
      split_ifs at h with hans
      obtain ⟨⟨rest, heap₁⟩, hrest, heq⟩ := Option.map_eq_some_iff.mp h
      cases heq
      rw [List.length_cons, ih hrest, List.length_nil]
      omega

section Calls

variable {dev : ScullpDev} {heap heap₁ : Ledger} {place : Place} {env : AllocEnv}
  {next : List ScullpItem} {quantum : Int32} {fPos : ℤ}

theorem pagesAt_follow {answer : ℕ → Bool} {n : ℕ}
    (h : scullpFollow answer n dev.next heap = some (next, heap₁)) (m : ℕ) (j : ℤ) :
    ({ dev with next := next } : ScullpDev).pagesAt m j = dev.pagesAt m j := by
  rw [pagesAt_eq_bind, arrayOf_follow h, pagesAt_eq_bind]

theorem Sized.follow {answer : ℕ → Bool} {n : ℕ} (hs : Sized dev)
    (h : scullpFollow answer n dev.next heap = some (next, heap₁)) :
    Sized { dev with next := next } := by
  intro m arr harr
  rw [arrayOf_follow h] at harr
  exact hs m arr harr

/-! ### Attaching arrays and blocks -/

section SetData

variable {n : ℕ} {dptr : ScullpItem} {arr : QArray}

theorem Sized.setData (hs : Sized dev) (hn : dev.items[n]? = some dptr)
    (hsize : (arr.size : ℤ) = dev.qset.toInt) (hpos : 1 ≤ dev.qset.toInt) :
    Sized (dev.setData n arr) := by
  intro m arr' harr'
  rw [setData_qset]
  rw [arrayOf_setData hn] at harr'
  split_ifs at harr' with hm
  · cases harr'
    exact ⟨hsize, hpos⟩
  · exact hs m arr' harr'

/-- The blocks of a device with an array of which one entry was replaced. -/
theorem pagesAt_setData_update (hn : dev.items[n]? = some dptr)
    (hcells : ∀ j, arr.cells j = dev.pagesAt n j) (i : ℤ) (q : Quantum) (m : ℕ) (j : ℤ) :
    (dev.setData n { arr with cells := Function.update arr.cells i (some q) }).pagesAt m j =
      if m = n ∧ j = i then some q else dev.pagesAt m j := by
  rw [pagesAt_eq_bind, arrayOf_setData hn]
  by_cases hm : m = n
  · rw [if_pos hm, Option.bind_some, hm]
    by_cases hj : j = i
    · simp [hj]
    · rw [if_neg fun h => hj h.2]
      exact (Function.update_of_ne hj _ _).trans (hcells j)
  · rw [if_neg hm, if_neg fun h => hm h.1, pagesAt_eq_bind]

/-- The blocks of a device with an array that has the entries that were there. -/
theorem pagesAt_setData_self (hn : dev.items[n]? = some dptr)
    (hcells : ∀ j, arr.cells j = dev.pagesAt n j) (m : ℕ) (j : ℤ) :
    (dev.setData n arr).pagesAt m j = dev.pagesAt m j := by
  rw [pagesAt_eq_bind, arrayOf_setData hn]
  split_ifs with hm
  · rw [Option.bind_some, hm]
    exact hcells j
  · rw [pagesAt_eq_bind]

end SetData

/-! ### Writing -/

/-- **What a write has reached before its copy**, once it has followed the list. It is stuck outside
the array; else it fails for want of an array or a block that it needs, or has both. -/
theorem reachPages_outcome (hs : Sized dev)
    (hfollow : scullpFollow env.node (rounds place.item) dev.next heap = some (next, heap₁)) :
    (reachPages dev heap place env = none ∧
      ¬ (0 ≤ place.sPos ∧ place.sPos < dev.qset.toInt)) ∨
    ∃ got, reachPages dev heap place env = some got ∧ Sized got.dev ∧
      got.dev.qset = dev.qset ∧ got.dev.size = dev.size ∧
      ((got.target = none ∧ (∀ m j, got.dev.pagesAt m j = dev.pagesAt m j) ∧
          (0 ≤ place.sPos → place.sPos < dev.qset.toInt →
            ¬ Supplies env dev (rounds place.item) place.sPos)) ∨
        ∃ arr q, got.target = some (arr, q) ∧
          (got.dev.arrayOf (rounds place.item) = some arr ∧ arr.cells place.sPos = some q) ∧
          (∀ m j, got.dev.pagesAt m j =
            if m = rounds place.item ∧ j = place.sPos then some q else dev.pagesAt m j) ∧
          (∀ old, dev.pagesAt (rounds place.item) place.sPos = some old → q = old) ∧
          (dev.pagesAt (rounds place.item) place.sPos = none →
            q.size = pageBytes (dev.orderAt (rounds place.item))) ∧
          Supplies env dev (rounds place.item) place.sPos) := by
  obtain ⟨dptr, hn⟩ := exists_item_of_follow hfollow
  have hs₁ := hs.follow hfollow
  have hat₁ := pagesAt_follow hfollow
  have horder : dptr.order = dev.orderAt (rounds place.item) := by
    have hgrown : Grown (fun _ => True) dev heap { dev with next := next } heap₁ := .follow hfollow
    rw [← hgrown.orderAt_eq, ScullpDev.orderAt, hn]
    rfl
  have hdata : dev.arrayOf (rounds place.item) = dptr.data := by
    rw [← arrayOf_follow hfollow, ScullpDev.arrayOf, hn]
    rfl
  simp only [reachPages, hfollow, Option.bind_some, hn]
  rcases ensureArray_cases dev.qset env.array dptr.data heap₁ with
    ⟨hnone, hwhy, harray⟩ | ⟨arr, heap₂, harray, -, hor, hkeeps, hsource⟩
  · refine .inr ⟨_, by rw [harray], hs₁, rfl, rfl, .inl ⟨rfl, hat₁, fun hlow hhigh h => ?_⟩⟩
    have harr := h.array
    rw [hdata, hnone, hwhy (by omega)] at harr
    simp at harr
  rw [harray]
  rw [← hdata] at hor
  have hcells : ∀ j, arr.cells j = dev.pagesAt (rounds place.item) j := by
    intro j
    rw [hkeeps, pagesAt_eq_bind, hdata]
  have hcells₁ : ∀ j, arr.cells j =
      ({ dev with next := next } : ScullpDev).pagesAt (rounds place.item) j := by
    intro j
    rw [hcells, hat₁]
  have hsize : (arr.size : ℤ) = dev.qset.toInt ∧ 0 ≤ dev.qset.toInt := by
    rcases hsource with hsome | hfresh
    · have hold := hs (rounds place.item) arr (hdata.trans hsome)
      exact ⟨hold.1, by omega⟩
    · exact hfresh
  by_cases hin : arr.Contains place.sPos 1
  swap
  · refine .inl ⟨by simp only [if_neg hin], fun hinside => hin (.inr ⟨hinside.1, ?_⟩)⟩
    rw [hsize.1]
    exact hinside.2
  simp only [if_pos hin]
  have hpos : 1 ≤ dev.qset.toInt := by
    rcases hin with hin | ⟨hlow, hhigh⟩
    · cases hin
    · rw [hsize.1] at hhigh
      omega
  right
  rcases ensurePages_cases dptr.order env.quantum (arr.cells place.sPos) heap₂ with
    ⟨hnone, hquantum, hpages⟩ | ⟨q, heap₃, hpages, -, hq⟩
  · refine ⟨_, by rw [hpages], hs₁.setData hn hsize.1 hpos, ?_, ?_, .inl ⟨rfl, ?_, ?_⟩⟩
    · exact setData_qset _ _ _
    · exact setData_size _ _ _
    · exact fun m j => (pagesAt_setData_self hn hcells₁ m j).trans (hat₁ m j)
    · intro _ _ h
      have hblock := h.quantum
      rw [hquantum, ← hcells, hnone] at hblock
      simp at hblock
  · have hblock : (∀ old, arr.cells place.sPos = some old → q = old) ∧
        (arr.cells place.sPos = none → q.size = pageBytes dptr.order) ∧
        (env.quantum.isSome ∨ (arr.cells place.sPos).isSome) := by
      rcases hq with hsome | ⟨hnone, hmem, -, hbytes⟩
      · simp [hsome]
      · simp [hnone, hmem, hbytes]
    rw [hcells, horder] at hblock
    refine ⟨_, by rw [hpages], ?_, ?_, ?_,
      .inr ⟨_, q, rfl, ⟨?_, ?_⟩, fun m j => ?_, hblock.1, hblock.2.1, hor, hblock.2.2⟩⟩
    · exact hs₁.setData hn hsize.1 hpos
    · exact setData_qset _ _ _
    · exact setData_size _ _ _
    · rw [arrayOf_setData hn, if_pos rfl]
    · exact Function.update_self _ _ _
    · rw [pagesAt_setData_update hn hcells₁, hat₁]

/-- The copy of a write into a block that has been put into its place: it leaves the block, or the
bytes land in it. -/
theorem writePages_outcome {arr : QArray} {q : Quantum} (hs : Sized dev)
    (harr : dev.arrayOf (rounds place.item) = some arr) (hq : arr.cells place.sPos = some q)
    (quantum : Int32) (heap : Ledger) (fPos : ℤ) (count : ℕ) (src : UserBuffer) :
    (writePages quantum dev heap fPos place arr q count src = none ∧
      ¬ q.Contains place.qPos (clamp quantum place.qPos count)) ∨
    ∃ res, writePages quantum dev heap fPos place arr q count src = some res ∧ Sized res.dev ∧
      Landed (rounds place.item) place.sPos place.qPos dev fPos (clamp quantum place.qPos count) src
        res := by
  obtain ⟨dptr, hn, hdata⟩ := Option.bind_eq_some_iff.mp harr
  obtain ⟨hsize, hpos⟩ := hs (rounds place.item) arr harr
  have hcells : ∀ j, arr.cells j = dev.pagesAt (rounds place.item) j := by
    intro j
    rw [pagesAt_eq_bind, harr, Option.bind_some]
  have hold : ∀ old, dev.pagesAt (rounds place.item) place.sPos = some old → q = old := by
    intro old hold
    rw [← hcells, hq] at hold
    exact Option.some.inj hold
  have hsized : ∀ cells, Sized (dev.setData (rounds place.item) { arr with cells := cells }) :=
    fun cells => hs.setData hn hsize hpos
  have hat := fun cells => pagesAt_setData_update hn hcells place.sPos { q with cells := cells }
  simp only [writePages]
  by_cases hin : q.Contains place.qPos (clamp quantum place.qPos count)
  · right
    rw [if_pos hin]
    generalize clamp quantum place.qPos count = m
    by_cases hcopy : m ≤ src.bytes.length
    · simp only [copyFromUser, hcopy, ↓reduceIte]
      refine ⟨_, rfl, hsized _, ⟨q, ?_, hold⟩, fun _ => ?_, fun h => by omega⟩
      · simp only [copyFromUser, hcopy, ↓reduceIte]
        exact hat _
      · exact ⟨rfl, rfl, rfl, Scull.ite_lt_eq_max _ _⟩
    · simp only [copyFromUser, hcopy, if_false, Bool.false_eq_true]
      refine ⟨_, rfl, hsized _, ⟨q, ?_, hold⟩, fun h => by omega,
        fun _ => ⟨rfl, rfl, rfl, setData_size _ _ _⟩⟩
      simp only [copyFromUser, hcopy, if_false]
      exact hat _
  · exact .inl ⟨if_neg hin, hin⟩

/-- **What a write does** that gets the lock and has followed the list. It is stuck only outside an
array or outside a block. Else it fails for want of an array or a block that it needs, or has both
and comes to its copy. -/
theorem scullpWrite_outcome (hs : Sized dev) (hquantum : pageQuantum dev.order = some quantum)
    (hplace : locate quantum dev.qset fPos = some place)
    (hfollow : scullpFollow env.node (rounds place.item) dev.next heap = some (next, heap₁))
    (count : ℕ) (src : UserBuffer) :
    (scullpWrite dev heap fPos count src false env = none ∧
      ¬ (place.Inside quantum dev.qset ∧ pageBytes (dev.orderAt (rounds place.item)) =
          quantum.toInt.toNat ∧ ∀ q, dev.pagesAt (rounds place.item) place.sPos = some q →
            q.size = quantum.toInt.toNat)) ∨
    ∃ res, scullpWrite dev heap fPos count src false env = some res ∧ Sized res.dev ∧
      ((Starved dev fPos res ∧ (place.Inside quantum dev.qset →
          ¬ Supplies env dev (rounds place.item) place.sPos)) ∨
        (Landed (rounds place.item) place.sPos place.qPos dev fPos
            (clamp quantum place.qPos count) src res ∧
          Supplies env dev (rounds place.item) place.sPos)) := by
  simp only [scullpWrite, hquantum, hplace, Option.bind_some, Bool.false_eq_true, if_false]
  rcases reachPages_outcome hs hfollow with
    ⟨hstuck, hout⟩ | ⟨got, hgot, hsized, hqset, hsize, hcases⟩
  · rw [hstuck, Option.bind_none]
    exact .inl ⟨rfl, fun h => hout ⟨h.1.sPos_nonneg, h.1.sPos_lt⟩⟩
  rw [hgot, Option.bind_some]
  rcases hcases with
    ⟨htarget, hat, hlacks⟩ | ⟨arr, q, htarget, ⟨harr, hcell⟩, hat, hold, hnew, hmem⟩
  · simp only [htarget]
    exact .inr ⟨_, rfl, hsized, .inl ⟨⟨rfl, rfl, rfl, hsize, hat⟩,
      fun h => hlacks h.sPos_nonneg h.sPos_lt⟩⟩
  simp only [htarget]
  rcases writePages_outcome hsized harr hcell quantum got.heap fPos count src with
    ⟨hstuck, hout⟩ | ⟨res, hres, hsized', hlanded⟩
  · refine .inl ⟨hstuck, fun h => ?_⟩
    obtain ⟨hinside, hbytes, hblock⟩ := h
    refine hout (hinside.contains_clamp ?_ count)
    cases hentry : dev.pagesAt (rounds place.item) place.sPos with
    | none => rw [hnew hentry, hbytes]
    | some old => rw [hold old hentry, hblock old hentry]
  · refine .inr ⟨res, hres, hsized', .inr ⟨?_, hmem⟩⟩
    obtain ⟨⟨q', hstored, hsame⟩, hdone, hfault⟩ := hlanded
    have hq' : q' = q := hsame q (by rw [hat, if_pos ⟨rfl, rfl⟩])
    rw [hq'] at hstored
    rw [hsize] at hdone hfault
    refine ⟨⟨q, fun m j => ?_, hold⟩, hdone, hfault⟩
    rw [hstored, hat]
    split_ifs <;> rfl

/-! ### Reading -/

theorem scullpRead_interrupted (hquantum : pageQuantum dev.order = some quantum) (heap : Ledger)
    (fPos : ℤ) (count room : ℕ) (env : AllocEnv) :
    scullpRead dev heap fPos count room true env = some ⟨-ERESTARTSYS, [], fPos, dev, heap⟩ := by
  rw [scullpRead, hquantum, Option.bind_some, if_pos rfl]

theorem scullpRead_after_end (hquantum : pageQuantum dev.order = some quantum)
    (hend : dev.size < sizeT fPos) (heap : Ledger) (count room : ℕ) (env : AllocEnv) :
    scullpRead dev heap fPos count room false env = some ⟨0, [], fPos, dev, heap⟩ := by
  rw [scullpRead, hquantum, Option.bind_some, if_neg Bool.false_ne_true, if_pos hend]

/-- **What a read does** that gets the lock, not after the end of the data, and has followed the
list. It is stuck only outside an array or outside a block. Else it leaves the device with the list
that following it left, and answers from the block in its place. -/
theorem scullpRead_outcome (hs : Sized dev) (hquantum : pageQuantum dev.order = some quantum)
    (hsize : sizeT fPos ≤ dev.size) (hplace : locate quantum dev.qset fPos = some place)
    (hfollow : scullpFollow env.node (rounds place.item) dev.next heap = some (next, heap₁))
    (count room : ℕ) :
    (scullpRead dev heap fPos count room false env = none ∧
      ¬ (place.Inside quantum dev.qset ∧ ∀ q,
          dev.pagesAt (rounds place.item) place.sPos = some q → q.size = quantum.toInt.toNat)) ∨
    ∃ res, scullpRead dev heap fPos count room false env = some res ∧
      res.dev = { dev with next := next } ∧ res.heap = heap₁ ∧
      (res.ret, res.bytes, res.fPos) =
        readEntry (dev.pagesAt (rounds place.item) place.sPos) place.qPos fPos
          (clamp quantum place.qPos (upToSize dev fPos count)) room := by
  obtain ⟨dptr, hn⟩ := exists_item_of_follow hfollow
  have hdata : dev.arrayOf (rounds place.item) = dptr.data := by
    rw [← arrayOf_follow hfollow, ScullpDev.arrayOf, hn]
    rfl
  rw [pagesAt_eq_bind, hdata]
  simp only [scullpRead, hquantum, hplace, hfollow, Option.bind_some, Bool.false_eq_true, if_false,
    if_neg (not_lt.mpr hsize), hn]
  cases harr : dptr.data with
  | none => exact .inr ⟨_, rfl, rfl, rfl, rfl⟩
  | some arr =>
    have harrSize := (hs _ arr (hdata.trans harr)).1
    rw [Option.bind_some]
    by_cases hin : arr.Contains place.sPos 1
    swap
    · exact .inl ⟨if_neg hin, fun h => hin (h.1.contains_entry harrSize)⟩
    simp only [if_pos hin]
    cases hq : arr.cells place.sPos with
    | none => exact .inr ⟨_, rfl, rfl, rfl, rfl⟩
    | some q =>
      generalize upToSize dev fPos count = count
      simp only [readEntry, copyToUser]
      by_cases hin' : q.Contains place.qPos (clamp quantum place.qPos count)
      · right
        simp only [if_pos hin']
        split_ifs with hroom
        · exact ⟨_, rfl, rfl, rfl, rfl⟩
        · exact ⟨_, rfl, rfl, rfl, rfl⟩
      · exact .inl ⟨if_neg hin', fun h => hin' (h.1.contains_clamp (h.2 q rfl) count)⟩

/-! ### Calls that return -/

/-- A read that returns was interrupted or is after the end of the data, or has followed the
list. -/
theorem exists_follow_of_read {count room : ℕ} {lockIntr : Bool} {res : ScullpResult}
    (h : scullpRead dev heap fPos count room lockIntr env = some res) :
    ((lockIntr = true ∨ dev.size < sizeT fPos) ∧ res.dev = dev) ∨
      lockIntr = false ∧ sizeT fPos ≤ dev.size ∧
      ∃ quantum place next heap₁, pageQuantum dev.order = some quantum ∧
        locate quantum dev.qset fPos = some place ∧
        scullpFollow env.node (rounds place.item) dev.next heap = some (next, heap₁) := by
  obtain ⟨quantum, hquantum, h⟩ := Option.bind_eq_some_iff.mp h
  split_ifs at h with hintr hend
  · cases h
    exact .inl ⟨.inl hintr, rfl⟩
  · cases h
    exact .inl ⟨.inr hend, rfl⟩
  obtain ⟨place, hplace, h⟩ := Option.bind_eq_some_iff.mp h
  obtain ⟨⟨next, heap₁⟩, hfollow, -⟩ := Option.bind_eq_some_iff.mp h
  exact .inr ⟨Bool.eq_false_iff.mpr hintr, not_lt.mp hend, quantum, place, next, heap₁, hquantum,
    hplace, hfollow⟩

/-- A write that returns was interrupted, or has followed the list. -/
theorem exists_follow_of_write {count : ℕ} {src : UserBuffer} {lockIntr : Bool}
    {res : ScullpResult} (h : scullpWrite dev heap fPos count src lockIntr env = some res) :
    (lockIntr = true ∧ res = ⟨-ERESTARTSYS, [], fPos, dev, heap⟩) ∨ lockIntr = false ∧
      ∃ quantum place next heap₁, pageQuantum dev.order = some quantum ∧
        locate quantum dev.qset fPos = some place ∧
        scullpFollow env.node (rounds place.item) dev.next heap = some (next, heap₁) := by
  obtain ⟨quantum, hquantum, h⟩ := Option.bind_eq_some_iff.mp h
  split_ifs at h with hintr
  · cases h
    exact .inl ⟨hintr, rfl⟩
  obtain ⟨place, hplace, h⟩ := Option.bind_eq_some_iff.mp h
  obtain ⟨got, hgot, -⟩ := Option.bind_eq_some_iff.mp h
  obtain ⟨⟨next, heap₁⟩, hfollow, -⟩ := Option.bind_eq_some_iff.mp hgot
  exact .inr ⟨Bool.eq_false_iff.mpr hintr, quantum, place, next, heap₁, hquantum, hplace, hfollow⟩

theorem Sized.read {count room : ℕ} {lockIntr : Bool} {res : ScullpResult} (hs : Sized dev)
    (h : scullpRead dev heap fPos count room lockIntr env = some res) : Sized res.dev := by
  rcases exists_follow_of_read h with
    ⟨-, hdev⟩ | ⟨rfl, hsize, quantum, place, next, heap₁, hquantum, hplace, hfollow⟩
  · rw [hdev]
    exact hs
  rcases scullpRead_outcome hs hquantum hsize hplace hfollow count room with
    ⟨hstuck, -⟩ | ⟨res', hres, hdev, -⟩
  · rw [hstuck] at h
    cases h
  · rw [h] at hres
    cases hres
    rw [hdev]
    exact hs.follow hfollow

theorem Sized.write {count : ℕ} {src : UserBuffer} {lockIntr : Bool} {res : ScullpResult}
    (hs : Sized dev) (h : scullpWrite dev heap fPos count src lockIntr env = some res) :
    Sized res.dev := by
  rcases exists_follow_of_write h with
    ⟨-, rfl⟩ | ⟨rfl, quantum, place, next, heap₁, hquantum, hplace, hfollow⟩
  · exact hs
  rcases scullpWrite_outcome hs hquantum hplace hfollow count src with
    ⟨hstuck, -⟩ | ⟨res', hres, hsized, -⟩
  · rw [hstuck] at h
    cases h
  · rw [h] at hres
    cases hres
    exact hsized

end Calls

end ExKernel.Scullp
