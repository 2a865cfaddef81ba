import ExKernel.Scull.Device
import Mathlib.Tactic.Positivity

/-!
# The layout of a scull device

Where the byte at a position is, and what the list of quantum sets looks like. With a geometry whose
numbers are positive and whose product is an `int` the divisions of the driver are those of natural
numbers, and the quantum with the number `k` is the entry `k % qset` of the set `k / qset`
(`quantumAt`). The blocks of the device are listed in the order in which `scull_trim` releases them
(`blocks`), so that emptying the device is the release of this list.

## Main definitions

* `Scull.GoodGeometry`: a geometry that the driver can work with.
* `Scull.Place.Inside`: a place that is inside an array and a quantum.
* `Scull.quantumAt`, `Scull.entryAt`: the quantum with a given number, and the one in a given place.
* `Scull.Shaped`: every array has as many entries, and every quantum as many bytes, as the geometry
  says.
* `Scull.blocks`: the blocks that are reachable from the list.

## Main results

* `Scull.locate_eq`: the place of a position.
* `Scull.locate_inside`: with a positive geometry it is inside an array and a quantum.
* `Scull.scullFollow_spec`: following the list appends empty quantum sets to it.
* `Scull.freeQSets_eq`: emptying the device releases its blocks.

## References

* `ldd/scull/main.c`, lines 62–83 and 264–389.
-/

namespace ExKernel.Scull

/-- A geometry that the driver can work with: both numbers are positive and their product is an
`int`. -/
structure GoodGeometry (quantum qset : Int32) : Prop where
  quantum_pos : 1 ≤ quantum.toInt
  qset_pos : 1 ≤ qset.toInt
  mul_le : quantum.toInt * qset.toInt ≤ intMax

/-! ### Addresses -/

section Addresses

variable {quantum qset : Int32}

namespace GoodGeometry

theorem toNat_quantum (h : GoodGeometry quantum qset) :
    ((quantum.toInt.toNat : ℕ) : ℤ) = quantum.toInt := by
  have := h.quantum_pos
  omega

theorem toNat_qset (h : GoodGeometry quantum qset) :
    ((qset.toInt.toNat : ℕ) : ℤ) = qset.toInt := by
  have := h.qset_pos
  omega

theorem toNat_quantum_pos (h : GoodGeometry quantum qset) : 0 < quantum.toInt.toNat := by
  have := h.quantum_pos
  omega

theorem toNat_qset_pos (h : GoodGeometry quantum qset) : 0 < qset.toInt.toNat := by
  have := h.qset_pos
  omega

theorem toInt_mul (h : GoodGeometry quantum qset) :
    (quantum * qset).toInt = ((quantum.toInt.toNat * qset.toInt.toNat : ℕ) : ℤ) := by
  have hle := h.mul_le
  have hq := h.quantum_pos
  have hs := h.qset_pos
  have hpos : 0 ≤ quantum.toInt * qset.toInt := by positivity
  unfold intMax at hle
  rw [Nat.cast_mul, h.toNat_quantum, h.toNat_qset, Int32.toInt_mul, Int.bmod_eq_of_le] <;> omega

theorem mul_pos (h : GoodGeometry quantum qset) :
    0 < quantum.toInt.toNat * qset.toInt.toNat :=
  Nat.mul_pos h.toNat_quantum_pos h.toNat_qset_pos

theorem toNat_mul_lt (h : GoodGeometry quantum qset) :
    quantum.toInt.toNat * qset.toInt.toNat < 2 ^ 31 := by
  have hle := h.mul_le
  rw [← h.toNat_quantum, ← h.toNat_qset, ← Nat.cast_mul, Nat.cast_le] at hle
  unfold intMax at hle
  omega

/-- A position whose quantum set has a number that is an `int` is far from the end of `loff_t`. -/
theorem add_quantum_lt (h : GoodGeometry quantum qset) {p : ℕ}
    (hp : p / (quantum.toInt.toNat * qset.toInt.toNat) < 2 ^ 31) :
    p + quantum.toInt.toNat < 2 ^ 63 := by
  have hmul := h.toNat_mul_lt
  have hle : quantum.toInt.toNat ≤ quantum.toInt.toNat * qset.toInt.toNat :=
    Nat.le_mul_of_pos_right _ h.toNat_qset_pos
  have hdiv : p < 2 ^ 31 * (quantum.toInt.toNat * qset.toInt.toNat) :=
    (Nat.div_lt_iff_lt_mul h.mul_pos).mp hp
  have hbound : 2 ^ 31 * (quantum.toInt.toNat * qset.toInt.toNat) ≤ 2 ^ 31 * 2 ^ 31 :=
    Nat.mul_le_mul_left _ hmul.le
  omega

end GoodGeometry

/-- **The place of a position.** The quantum set is found by dividing by the size of a set, and the
entry and the offset are those of the quantum `p / quantum`. -/
theorem locate_eq (h : GoodGeometry quantum qset) (p : ℕ) :
    locate quantum qset p = some
      ⟨Int32.ofInt (p / (quantum.toInt.toNat * qset.toInt.toNat) : ℕ),
        ((p / quantum.toInt.toNat % qset.toInt.toNat : ℕ) : ℤ),
        ((p % quantum.toInt.toNat : ℕ) : ℤ)⟩ := by
  have hmul := h.toInt_mul
  have hpos := h.mul_pos
  have hlt := h.toNat_mul_lt
  have hne : quantum * qset ≠ 0 := by
    intro h0
    rw [h0] at hmul
    have : ((quantum.toInt.toNat * qset.toInt.toNat : ℕ) : ℤ) = 0 := hmul.symm
    omega
  have hrest : p % (quantum.toInt.toNat * qset.toInt.toNat) < 2 ^ 31 :=
    (Nat.mod_lt p hpos).trans hlt
  have hQ := h.toNat_quantum.symm
  rw [locate]
  simp only [hne, if_false, hmul]
  generalize quantum.toInt.toNat = Q at *
  rw [hQ, ← Int.ofNat_tdiv, ← Int.ofNat_tmod, Int32.toInt_ofInt_of_le (by omega) (by omega),
    ← Int.ofNat_tdiv, ← Int.ofNat_tmod, Nat.mod_mul_right_div_self, Nat.mod_mul_right_mod]

/-- The number of a quantum from those of its set and of its entry. -/
theorem item_mul_add (p Q S : ℕ) : p / (Q * S) * S + p / Q % S = p / Q := by
  rw [← Nat.div_div_eq_div_mul]
  exact Nat.div_add_mod' (p / Q) S

/-- A loop counter that is an `int` and not negative counts its rounds. -/
theorem rounds_ofInt {k : ℕ} (h : k < 2 ^ 31) : rounds (Int32.ofInt k) = k := by
  have hk : (Int32.ofInt (k : ℤ)).toUInt32 = UInt32.ofNat k := rfl
  rw [rounds, hk, UInt32.toNat_ofNat_of_lt']
  exact h.trans (by decide)

/-- A place inside an array and inside a quantum of the geometry. -/
structure Place.Inside (quantum qset : Int32) (place : Place) : Prop where
  sPos_nonneg : 0 ≤ place.sPos
  sPos_lt : place.sPos < qset.toInt
  qPos_nonneg : 0 ≤ place.qPos
  qPos_lt : place.qPos < quantum.toInt

/-- With a positive geometry the place of a position is inside, even if the product overflows: the
rest is smaller than what is left of the product. -/
theorem locate_inside (hquantum : 1 ≤ quantum.toInt) (hqset : 1 ≤ qset.toInt) {p : ℕ}
    {place : Place} (h : locate quantum qset p = some place) : place.Inside quantum qset := by
  have hle : |(quantum * qset).toInt| ≤ quantum.toInt * qset.toInt := by
    have hpos : 0 < quantum.toInt * qset.toInt := by positivity
    rw [Int32.toInt_mul, Int.bmod_def, abs_le]
    omega
  have habs : |(quantum * qset).toInt| ≤ 2 ^ 31 := by
    have hlow := (quantum * qset).le_toInt
    have hhigh := (quantum * qset).toInt_lt
    rw [abs_le]
    omega
  rw [locate] at h
  split_ifs at h with hzero
  have hrest : 0 ≤ (p : ℤ).tmod (quantum * qset).toInt ∧
      (p : ℤ).tmod (quantum * qset).toInt < |(quantum * qset).toInt| := by
    rw [Int.tmod_eq_emod_of_nonneg (Int.natCast_nonneg p)]
    have hne : (quantum * qset).toInt ≠ 0 := fun h0 => hzero (Int32.toInt_inj.mp h0)
    exact ⟨Int.emod_nonneg _ hne, Int.emod_lt_abs _ hne⟩
  cases h
  have htoInt : (Int32.ofInt ((p : ℤ).tmod (quantum * qset).toInt)).toInt =
      (p : ℤ).tmod (quantum * qset).toInt := Int32.toInt_ofInt_of_le (by omega) (by omega)
  simp only [htoInt]
  generalize (p : ℤ).tmod (quantum * qset).toInt = rest at *
  refine ⟨Int.tdiv_nonneg hrest.1 (by omega), ?_, Int.tmod_nonneg _ hrest.1, ?_⟩
  · rw [Int.tdiv_eq_ediv_of_nonneg hrest.1]
    refine Int.ediv_lt_of_lt_mul (by omega) ?_
    rw [mul_comm]
    omega
  · exact Int.tmod_lt_of_pos _ (by omega)

theorem clamp_of_inside {qPos : ℤ} (h : 0 ≤ qPos) (h' : qPos < quantum.toInt) (count : ℕ) :
    clamp quantum qPos count = min count (quantum.toInt - qPos).toNat := by
  have hmax := quantum.toInt_lt
  have hsize : sizeT (quantum.toInt - qPos) = (quantum.toInt - qPos).toNat :=
    sizeT_of_nonneg (by omega) (by omega)
  rw [clamp, hsize]
  split_ifs <;> omega

theorem Place.Inside.contains_entry {place : Place} (h : place.Inside quantum qset) {arr : QArray}
    (hsize : (arr.size : ℤ) = qset.toInt) : arr.Contains place.sPos 1 := by
  refine .inr ⟨h.sPos_nonneg, ?_⟩
  rw [hsize]
  exact h.sPos_lt

/-- From a place inside, the count that was cut is in a block of the quantum's size. -/
theorem Place.Inside.contains_clamp {place : Place} (h : place.Inside quantum qset) {q : Quantum}
    (hsize : q.size = quantum.toInt.toNat) (count : ℕ) :
    q.Contains place.qPos (clamp quantum place.qPos count) := by
  have hlow := h.qPos_nonneg
  have hhigh := h.qPos_lt
  refine .inr ⟨hlow, ?_⟩
  rw [clamp_of_inside hlow hhigh, hsize]
  omega

theorem clamp_eq (h : GoodGeometry quantum qset) (p count : ℕ) :
    clamp quantum ((p % quantum.toInt.toNat : ℕ) : ℤ) count =
      min count (quantum.toInt.toNat - p % quantum.toInt.toNat) := by
  have hlt := Nat.mod_lt p h.toNat_quantum_pos
  rw [clamp_of_inside (by omega) (by omega)]
  omega

/-- The count is cut at the end of the data, unless the position with the count overflows. -/
theorem upToSize_eq {dev : ScullDev} {p count : ℕ} (hp : p ≤ dev.size)
    (hcount : p + count < 2 ^ 64) : upToSize dev p count = min count (dev.size - p) := by
  have hend : sizeT ((p : ℤ) + count) = p + count := by
    rw [← Nat.cast_add, sizeT_natCast hcount]
  rw [upToSize, hend]
  split_ifs with hlt
  · rw [sizeT_of_nonneg (by omega) (by omega)]
    omega
  · omega

end Addresses

/-! ### The list of quantum sets -/

/-- The quantum with the number `k`: the entry `k % qset` of the set `k / qset`. -/
def quantumAt (qset : ℕ) (data : List QSet) (k : ℕ) : Option Quantum :=
  (data[k / qset]?).bind fun dptr => dptr.data.bind fun arr => arr.cells ((k % qset : ℕ) : ℤ)

/-- The array of the quantum set `n`, if the list has this set and the set an array. -/
def arrayAt (data : List QSet) (n : ℕ) : Option QArray := (data[n]?).bind QSet.data

/-- The quantum in the entry `i` of the quantum set `n`. -/
def entryAt (data : List QSet) (n : ℕ) (i : ℤ) : Option Quantum :=
  (arrayAt data n).bind fun arr => arr.cells i

/-- Every array has `qset` entries, and every quantum in them `quantum` bytes. -/
def Shaped (quantum qset : ℕ) (data : List QSet) : Prop :=
  ∀ dptr ∈ data, ∀ arr, dptr.data = some arr →
    arr.size = qset ∧ ∀ i < qset, ∀ q, arr.cells (i : ℕ) = some q → q.size = quantum

/-- The quanta of an array. -/
def QArray.blocks (qset : ℕ) (arr : QArray) : List ℕ :=
  (List.range qset).filterMap fun i => (arr.cells (i : ℕ)).map Block.id

/-- The blocks of a quantum set: its quanta, its array and the set itself. -/
def QSet.blocks (qset : ℕ) (dptr : QSet) : List ℕ :=
  (match dptr.data with
    | none => []
    | some arr => QArray.blocks qset arr ++ [arr.id]) ++ [dptr.id]

/-- The blocks that are reachable from the list. -/
def blocks (qset : ℕ) (data : List QSet) : List ℕ := data.flatMap (QSet.blocks qset)

/-- Quantum sets without an array. -/
def Empties (fresh : List QSet) : Prop := ∀ dptr ∈ fresh, dptr.data = none

theorem quantumAt_eq_entryAt (qset : ℕ) (data : List QSet) (k : ℕ) :
    quantumAt qset data k = entryAt data (k / qset) ((k % qset : ℕ) : ℤ) := by
  rw [quantumAt, entryAt, arrayAt, Option.bind_assoc]

theorem quantumAt_congr (qset : ℕ) {data data' : List QSet}
    (h : ∀ n, arrayAt data' n = arrayAt data n) (k : ℕ) :
    quantumAt qset data' k = quantumAt qset data k := by
  rw [quantumAt_eq_entryAt, quantumAt_eq_entryAt, entryAt, h, entryAt]

theorem arrayAt_append {data fresh : List QSet} (h : Empties fresh) (n : ℕ) :
    arrayAt (data ++ fresh) n = arrayAt data n := by
  unfold arrayAt
  rcases lt_or_ge n data.length with hlt | hge
  · rw [List.getElem?_append_left hlt]
  · rw [List.getElem?_append_right hge, List.getElem?_eq_none hge]
    cases hf : fresh[n - data.length]? with
    | none => rfl
    | some dptr => simp [h dptr (List.mem_of_getElem? hf)]

theorem Shaped.append {quantum qset : ℕ} {data fresh : List QSet} (h : Shaped quantum qset data)
    (hf : Empties fresh) : Shaped quantum qset (data ++ fresh) := by
  intro dptr hd arr harr
  rcases List.mem_append.mp hd with hd | hd
  · exact h dptr hd arr harr
  · rw [hf dptr hd] at harr
    cases harr

theorem blocks_append {qset : ℕ} {data fresh : List QSet} (h : Empties fresh) :
    blocks qset (data ++ fresh) = blocks qset data ++ fresh.map QSet.id := by
  rw [blocks, List.flatMap_append, ← blocks, List.append_cancel_left_eq, List.map_eq_flatMap]
  refine List.flatMap_congr fun dptr hd => ?_
  simp [QSet.blocks, h dptr hd]

section Follow

variable {answer : ℕ → Bool} {n : ℕ} {heap : Ledger}

theorem scullFollow_cons_zero (dptr : QSet) (next : List QSet) :
    scullFollow answer 0 (dptr :: next) heap = (true, dptr :: next, heap) := rfl

theorem scullFollow_cons_succ (dptr : QSet) (next : List QSet) :
    scullFollow answer (n + 1) (dptr :: next) heap =
      ((scullFollow answer n next heap).1, dptr :: (scullFollow answer n next heap).2.1,
        (scullFollow answer n next heap).2.2) := rfl

theorem scullFollow_nil_of_false (h : answer n = false) :
    scullFollow answer n [] heap = (false, [], heap) := by
  rw [scullFollow]
  simp [ensureNode, h]

theorem scullFollow_nil_zero (h : answer 0 = true) :
    scullFollow answer 0 [] heap = (true, [⟨heap.next, none⟩], heap.alloc) := by
  rw [scullFollow]
  simp [ensureNode, h]

theorem scullFollow_nil_succ (h : answer (n + 1) = true) :
    scullFollow answer (n + 1) [] heap =
      ((scullFollow answer n [] heap.alloc).1,
        ⟨heap.next, none⟩ :: (scullFollow answer n [] heap.alloc).2.1,
        (scullFollow answer n [] heap.alloc).2.2) := by
  rw [scullFollow]
  simp [ensureNode, h]

end Follow

/-- **Following the list.** The list gets empty quantum sets appended, one block each, until it has
the one looked for or no more memory. -/
theorem scullFollow_spec (answer : ℕ → Bool) (n : ℕ) (slot : List QSet) (heap : Ledger) :
    ∃ fresh, (scullFollow answer n slot heap).2.1 = slot ++ fresh ∧ Empties fresh ∧
      (∃ ids, Ledger.Grows heap (scullFollow answer n slot heap).2.2 ids ∧
        ids.Perm (fresh.map QSet.id)) ∧
      ((scullFollow answer n slot heap).1 = true → n < (slot ++ fresh).length) := by
  induction n generalizing slot heap with
  | zero =>
    cases slot with
    | cons dptr next =>
      rw [scullFollow_cons_zero]
      exact ⟨[], by simp, by simp [Empties], ⟨[], .refl heap, .refl _⟩, by simp⟩
    | nil =>
      cases hans : answer 0 with
      | false =>
        rw [scullFollow_nil_of_false hans]
        exact ⟨[], rfl, by simp [Empties], ⟨[], .refl heap, .refl _⟩, by simp⟩
      | true =>
        rw [scullFollow_nil_zero hans]
        exact ⟨[⟨heap.next, none⟩], rfl, by simp [Empties], ⟨[heap.next], .alloc heap, .refl _⟩,
          by simp⟩
  | succ n ih =>
    cases slot with
    | cons dptr next =>
      obtain ⟨fresh, hlist, hempty, hids, hlen⟩ := ih next heap
      rw [scullFollow_cons_succ]
      exact ⟨fresh, by simp [hlist], hempty, hids, by simpa using hlen⟩
    | nil =>
      cases hans : answer (n + 1) with
      | false =>
        rw [scullFollow_nil_of_false hans]
        exact ⟨[], rfl, by simp [Empties], ⟨[], .refl heap, .refl _⟩, by simp⟩
      | true =>
        obtain ⟨fresh, hlist, hempty, ⟨ids, hgrows, hperm⟩, hlen⟩ := ih [] heap.alloc
        rw [scullFollow_nil_succ hans]
        refine ⟨⟨heap.next, none⟩ :: fresh, by simp [hlist], by simpa [Empties] using hempty,
          ⟨ids ++ [heap.next], (Ledger.Grows.alloc heap).trans hgrows, ?_⟩, by simpa using hlen⟩
        exact List.perm_append_comm.trans (hperm.cons heap.next)

theorem scullFollow_of_lt (answer : ℕ → Bool) {n : ℕ} {slot : List QSet} (heap : Ledger)
    (h : n < slot.length) : scullFollow answer n slot heap = (true, slot, heap) := by
  induction n generalizing slot with
  | zero =>
    cases slot with
    | nil => simp at h
    | cons dptr next => exact scullFollow_cons_zero dptr next
  | succ n ih =>
    cases slot with
    | nil => simp at h
    | cons dptr next => rw [scullFollow_cons_succ, ih (by simpa using h)]

/-- A slot is reached exactly if there is memory for every node that the list lacks. -/
theorem scullFollow_reached (answer : ℕ → Bool) (n : ℕ) (slot : List QSet) (heap : Ledger) :
    (scullFollow answer n slot heap).1 = true ↔
      ∀ k, k + slot.length ≤ n → answer k = true := by
  induction n generalizing slot heap with
  | zero =>
    cases slot with
    | cons dptr next => simp [scullFollow_cons_zero]
    | nil =>
      cases hans : answer 0 with
      | false => simp [scullFollow_nil_of_false hans, hans]
      | true => simp [scullFollow_nil_zero hans, hans]
  | succ n ih =>
    cases slot with
    | cons dptr next =>
      rw [scullFollow_cons_succ, ih]
      simp [← Nat.add_assoc]
    | nil =>
      cases hans : answer (n + 1) with
      | false =>
        rw [scullFollow_nil_of_false hans]
        refine iff_of_false (by simp) fun h => ?_
        simp [h (n + 1) (by simp)] at hans
      | true =>
        rw [scullFollow_nil_succ hans, ih]
        refine ⟨fun h k hk => ?_, fun h k hk => h k (by simp at hk ⊢; omega)⟩
        rcases Nat.lt_or_ge n k with hlt | hge
        · rw [show k = n + 1 by simp at hk; omega]
          exact hans
        · exact h k (by simpa using hge)

/-- How far a list is followed, and how long it is then, depends on its length alone. -/
theorem scullFollow_length_congr (answer : ℕ → Bool) (n : ℕ) {slot slot' : List QSet}
    (h : slot'.length = slot.length) (heap heap' : Ledger) :
    (scullFollow answer n slot' heap').1 = (scullFollow answer n slot heap).1 ∧
      (scullFollow answer n slot' heap').2.1.length =
        (scullFollow answer n slot heap).2.1.length := by
  induction n generalizing slot slot' heap heap' with
  | zero =>
    cases slot with
    | nil =>
      rw [List.length_eq_zero_iff.mp h]
      cases hans : answer 0 with
      | false => simp [scullFollow_nil_of_false hans]
      | true => simp [scullFollow_nil_zero hans]
    | cons dptr next =>
      obtain ⟨dptr', next', rfl⟩ := List.exists_cons_of_length_eq_add_one h
      simpa [scullFollow_cons_zero] using h
  | succ n ih =>
    cases slot with
    | nil =>
      rw [List.length_eq_zero_iff.mp h]
      cases hans : answer (n + 1) with
      | false => simp [scullFollow_nil_of_false hans]
      | true =>
        have hnil : ([] : List QSet).length = ([] : List QSet).length := rfl
        obtain ⟨hreached, hlength⟩ := ih hnil heap.alloc heap'.alloc
        simp [scullFollow_nil_succ hans, hreached, hlength]
    | cons dptr next =>
      obtain ⟨dptr', next', rfl⟩ := List.exists_cons_of_length_eq_add_one h
      have hnext : next'.length = next.length := by simpa using h
      obtain ⟨hreached, hlength⟩ := ih hnext heap heap'
      simp [scullFollow_cons_succ, hreached, hlength]

/-! ### Emptying the device -/

theorem freeQuanta_eq (arr : QArray) (qset : ℕ) (heap : Ledger) :
    freeQuanta arr qset heap = heap.freeAll (QArray.blocks qset arr) := by
  induction qset with
  | zero => rfl
  | succ n ih =>
    unfold freeQuanta QArray.blocks at ih ⊢
    rw [List.range_succ, List.foldl_append, ih, List.filterMap_append, Ledger.freeAll_append]
    simp only [List.foldl_cons, List.foldl_nil]
    cases harr : arr.cells (n : ℕ) with
    | none => simp [harr]
    | some q => simp [harr, Ledger.freeAll]

/-- **Emptying the device** releases its blocks, one after the other. -/
theorem freeQSets_eq {quantum qset : ℕ} {data : List QSet} (h : Shaped quantum qset data)
    (heap : Ledger) : freeQSets qset data heap = some (heap.freeAll (blocks qset data)) := by
  induction data generalizing heap with
  | nil => rfl
  | cons dptr next ih =>
    have hnext : Shaped quantum qset next := fun d hd => h d (List.mem_cons_of_mem _ hd)
    rw [freeQSets, blocks, List.flatMap_cons, Ledger.freeAll_append, ← blocks]
    cases hdata : dptr.data with
    | none =>
      simp only
      rw [ih hnext]
      simp [QSet.blocks, hdata, Ledger.freeAll]
    | some arr =>
      have hsize := (h dptr List.mem_cons_self arr hdata).1
      simp only [hsize, le_refl, if_true]
      rw [ih hnext, freeQuanta_eq]
      simp [QSet.blocks, hdata, Ledger.freeAll]

end ExKernel.Scull
