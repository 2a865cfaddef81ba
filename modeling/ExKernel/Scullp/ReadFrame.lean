import ExKernel.Scullp.Mapping

/-!
# What a read of a scullp device changes

A read finds its list item with the function that a write uses, and this function appends the items
that the list lacks. So a read leaves the device as it was only if the list already has the item of
its position. The test for the end of the data is meant to take care of this, but it lets the end
itself pass: where scull returns if the position is not before the end, scullp returns only if it is
after it. When the data end with the last byte of the last list item, a read at the end appends an
item.

In a run in which all writes are at positions whose list items have numbers that are `int`s, this is
the only case. For then the list reaches to the end of the data.

## Main definitions

* `Scullp.Covered`: the list reaches to the end of the data.
* `Scullp.WritesFit`: all writes are at positions whose list items have numbers that are `int`s.

## Main results

* `Scullp.covered_of_run`: the list reaches to the end of the data, over all runs.
* `Scullp.read_leaves_device_iff`: when a read leaves the device as it was.
* `Scullp.read_at_end_allocates`: a read that does not.

## References

* `ldd/scullp/main.c`, lines 146–207 and 252–258; `ldd/scull/main.c`, lines 305–308.
-/

namespace ExKernel.Scullp

open Transition
open Scull (AllocEnv Answer GoodGeometry clamp locate rounds)

theorem exists_item {qset : Int32} (hgeo : GoodGeometry pageInt qset) {p : ℕ}
    (hfit : p / (PAGE_SIZE * qset.toInt.toNat) < 2 ^ 31) :
    ∃ place, locate pageInt qset p = some place ∧
      rounds place.item = p / (PAGE_SIZE * qset.toInt.toNat) ∧
      place.qPos = (p % PAGE_SIZE : ℕ) :=
  ⟨_, Scull.locate_eq hgeo p, Scull.rounds_ofInt hfit, rfl⟩

/-- What is up to the end of a page is up to the end of its list item. -/
theorem add_le_item_end {p m S : ℕ} (hS : 0 < S) (hm : m ≤ PAGE_SIZE - p % PAGE_SIZE) :
    p + m ≤ PAGE_SIZE * S * (p / (PAGE_SIZE * S) + 1) := by
  have hpage : p + m ≤ PAGE_SIZE * (p / PAGE_SIZE + 1) := by
    rw [PAGE_SIZE] at *
    omega
  have hitem : p / PAGE_SIZE + 1 ≤ S * (p / PAGE_SIZE / S + 1) := Nat.lt_mul_div_succ _ hS
  calc p + m ≤ PAGE_SIZE * (p / PAGE_SIZE + 1) := hpage
    _ ≤ PAGE_SIZE * (S * (p / PAGE_SIZE / S + 1)) := Nat.mul_le_mul_left _ hitem
    _ = PAGE_SIZE * S * (p / (PAGE_SIZE * S) + 1) := by
      rw [Nat.div_div_eq_div_mul, Nat.mul_assoc]

/-! ### Where the data end -/

/-- With a geometry that the driver can work with, the list of a device of order 0 reaches to the
end of the data. -/
def Covered (dev : ScullpDev) : Prop :=
  dev.order = 0 → GoodGeometry pageInt dev.qset →
    dev.size ≤ PAGE_SIZE * dev.qset.toInt.toNat * (dev.next.length + 1)

/-- A write to a device of order 0 with a geometry that the driver can work with is at a position
that is not negative and whose list item has a number that is an `int`. -/
def WritesFit (s : ScullpSys) : MapOp → Prop
  | .call (.scullpWrite file ..) => s.dev.order = 0 → GoodGeometry pageInt s.dev.qset →
    ∃ p : ℕ, s.files file = p ∧ p / (PAGE_SIZE * s.dev.qset.toInt.toNat) < 2 ^ 31
  | _ => True

/-- A device that has grown and whose data do not end later is still covered. -/
theorem Covered.grown {P : ℕ → Prop} {dev dev' : ScullpDev} {heap heap' : Ledger}
    (h : Covered dev) (hgrown : Grown P dev heap dev' heap') (hsize : dev'.size = dev.size) :
    Covered dev' := by
  intro horder hgeo
  rw [hgrown.order_eq] at horder
  rw [hgrown.qset_eq] at hgeo ⊢
  have hlen : dev.next.length + 1 ≤ dev'.next.length + 1 := hgrown.length_le
  rw [hsize]
  exact (h horder hgeo).trans (Nat.mul_le_mul_left _ hlen)

theorem Covered.write {dev : ScullpDev} {heap : Ledger} {fPos : ℤ} {count : ℕ} {src : UserBuffer}
    {lockIntr : Bool} {env : AllocEnv} {res : ScullpResult} (h : Covered dev) (hs : InShape dev)
    (hfit : dev.order = 0 → GoodGeometry pageInt dev.qset →
      ∃ p : ℕ, fPos = p ∧ p / (PAGE_SIZE * dev.qset.toInt.toNat) < 2 ^ 31)
    (hres : scullpWrite dev heap fPos count src lockIntr env = some res) : Covered res.dev := by
  have hgrown := (Grown.write hres).1
  intro horder hgeo
  rw [hgrown.order_eq] at horder
  rw [hgrown.qset_eq] at hgeo
  obtain ⟨p, rfl, hitem⟩ := hfit horder hgeo
  have hsame : res.dev.size = dev.size → res.dev.size ≤
      PAGE_SIZE * res.dev.qset.toInt.toNat * (res.dev.next.length + 1) := fun hsize =>
    h.grown hgrown hsize (hgrown.order_eq.trans horder) (by rw [hgrown.qset_eq]; exact hgeo)
  rcases exists_follow_of_write hres with
    ⟨-, rfl⟩ | ⟨rfl, quantum, place, next, heap₁, hquantum, hplace, hfollow⟩
  · exact hsame rfl
  rw [horder] at hquantum
  cases hquantum
  obtain ⟨place', hplace', hround, hqPos⟩ := exists_item hgeo hitem
  cases hplace.symm.trans hplace'
  obtain ⟨res', hres', hcases⟩ := hs.write horder hgeo.qset_pos hplace' hfollow count src
  cases hres.symm.trans hres'
  rcases hcases with ⟨hstarved, -⟩ | ⟨⟨⟨q, hstored, -⟩, hdone, hfault⟩, -⟩
  · exact hsame hstarved.size_eq
  have hlen : p / (PAGE_SIZE * dev.qset.toInt.toNat) + 1 ≤ res.dev.next.length + 1 := by
    have hat := hstored (rounds place.item) place.sPos
    rw [if_pos ⟨rfl, rfl⟩] at hat
    obtain ⟨dptr, hn, -⟩ := Option.bind_eq_some_iff.mp hat
    rw [← hround]
    exact (List.getElem?_eq_some_iff.mp hn).1
  have hcut : clamp pageInt place.qPos count ≤ PAGE_SIZE - p % PAGE_SIZE := by
    rw [hqPos]
    exact (Scull.clamp_eq hgeo p count).trans_le (Nat.min_le_right _ _)
  have hnear : p + PAGE_SIZE < 2 ^ 63 := hgeo.add_quantum_lt hitem
  generalize clamp pageInt place.qPos count = m at *
  rcases le_or_gt m src.bytes.length with hm | hm
  · rw [(hdone hm).2.2.2, ← Nat.cast_add, loffT_natCast (by omega), sizeT_natCast (by omega),
      hgrown.qset_eq, max_le_iff]
    refine ⟨(h horder hgeo).trans (Nat.mul_le_mul_left _ hgrown.length_le), ?_⟩
    exact (add_le_item_end hgeo.toNat_qset_pos hcut).trans (Nat.mul_le_mul_left _ hlen)
  · exact hsame (hfault hm).2.2.2

/-- **Where the data end**, over all runs: if all writes are at positions whose list items have
numbers that are `int`s, the list reaches to the end of the data. -/
theorem covered_of_run {params : ScullpParams} {ops : List MapOp} {answers : List Answer}
    {s : ScullpSys} (hops : Guarded ScullpSys.mapStep WritesFit (.load params) ops)
    (hrun : exec ScullpSys.mapStep (.load params) ops = some (answers, s)) : Covered s.dev := by
  refine (exec_invariant (fun t => InShape t.dev ∧ Covered t.dev) ?_
    ⟨.empty rfl rfl, fun _ _ => Nat.zero_le _⟩ hops hrun).2
  rintro t op r u ⟨hs, ht⟩ hop hst
  cases op with
  | store page off bytes =>
    cases hst
    refine ⟨hs.poke page off bytes, fun horder hgeo => ?_⟩
    have hlen : (t.dev.poke page off bytes).next.length = t.dev.next.length := List.length_map _
    rw [hlen]
    exact ht horder hgeo
  | call op =>
    refine ⟨hs.step hst, ?_⟩
    cases op with
    | scullpOpen file mode lockIntr =>
      rcases open_cases hst with ⟨hdev, -⟩ | ⟨-, -, -, hdev, -⟩
      · rw [hdev]
        exact ht
      · rw [hdev]
        exact fun _ _ => Nat.zero_le _
    | scullpRead file count room lockIntr env =>
      obtain ⟨res, hres, heq⟩ := Option.map_eq_some_iff.mp hst
      cases heq
      obtain ⟨hgrown, hsize⟩ := Grown.read (P := fun _ => True) hres
      exact ht.grown hgrown hsize
    | scullpWrite file count src lockIntr env =>
      obtain ⟨res, hres, heq⟩ := Option.map_eq_some_iff.mp hst
      cases heq
      exact ht.write hs hop hres
    | scullpMmap area =>
      cases hst
      simp only [scullpMmap]
      split_ifs
      · exact ht
      · exact ht
    | _ =>
      cases hst
      exact ht

/-! ### Reads -/

section Read

variable {dev : ScullpDev} {p : ℕ}

/-- A read leaves the device exactly if it is interrupted, is after the end of the data, or the list
has the item of its position. -/
theorem scullpRead_unchanged_iff (hs : InShape dev) (horder : dev.order = 0)
    (hgeo : GoodGeometry pageInt dev.qset)
    (hfit : p / (PAGE_SIZE * dev.qset.toInt.toNat) < 2 ^ 31) (heap : Ledger) (count room : ℕ)
    (lockIntr : Bool) (env : AllocEnv) :
    (∃ res, scullpRead dev heap p count room lockIntr env = some res ∧ res.dev = dev ∧
        res.heap = heap) ↔
      lockIntr = true ∨ dev.size < p ∨
        p / (PAGE_SIZE * dev.qset.toInt.toNat) ≤ dev.next.length := by
  have hnear : p + PAGE_SIZE < 2 ^ 63 := hgeo.add_quantum_lt hfit
  have hsizeT : sizeT (p : ℤ) = p := sizeT_natCast (by omega)
  have hquantum := pageQuantum_of_order_eq horder
  obtain ⟨place, hplace, hround, -⟩ := exists_item hgeo hfit
  constructor
  · rintro ⟨res, hres, hdev, -⟩
    rcases exists_follow_of_read hres with
      ⟨hwhy, -⟩ | ⟨rfl, hsize, quantum, place', next, heap₁, hquantum', hplace', hfollow⟩
    · rw [hsizeT] at hwhy
      exact hwhy.imp_right .inl
    cases hquantum.symm.trans hquantum'
    cases hplace.symm.trans hplace'
    obtain ⟨res', hres', hdev', -⟩ := hs.read horder hgeo.qset_pos hsize hplace hfollow count room
    cases hres.symm.trans hres'
    obtain ⟨-, -, -, -, hlen, -⟩ := scullpFollow_spec hfollow
    have hnext : next = dev.next := congrArg ScullpDev.next (hdev'.symm.trans hdev)
    rw [hround, hnext] at hlen
    exact .inr (.inr hlen)
  · intro hwhy
    cases lockIntr with
    | true => exact ⟨_, scullpRead_interrupted hquantum heap p count room env, rfl, rfl⟩
    | false =>
      by_cases hend : dev.size < p
      · have hend' : dev.size < sizeT (p : ℤ) := by rwa [hsizeT]
        exact ⟨_, scullpRead_after_end hquantum hend' heap count room env, rfl, rfl⟩
      have hitem : rounds place.item ≤ dev.next.length := by
        rw [hround]
        exact (hwhy.resolve_left Bool.false_ne_true).resolve_left hend
      have hsize : sizeT (p : ℤ) ≤ dev.size := by
        rw [hsizeT]
        exact not_lt.mp hend
      obtain ⟨res, hres, hdev, hheap, -⟩ := hs.read horder hgeo.qset_pos hsize hplace
        (scullpFollow_of_le env.node heap hitem) count room
      exact ⟨res, hres, hdev, hheap⟩

/-- A position up to the end of the data whose item the list lacks is the end of the data, and the
data fill the list. -/
theorem Covered.item_le_iff (h : Covered dev) (horder : dev.order = 0)
    (hgeo : GoodGeometry pageInt dev.qset) :
    dev.size < p ∨ p / (PAGE_SIZE * dev.qset.toInt.toNat) ≤ dev.next.length ↔
      ¬ (p = dev.size ∧
        dev.size = PAGE_SIZE * dev.qset.toInt.toNat * (dev.next.length + 1)) := by
  have hle := h horder hgeo
  have hpos : 0 < PAGE_SIZE * dev.qset.toInt.toNat := hgeo.mul_pos
  have hdiv : p / (PAGE_SIZE * dev.qset.toInt.toNat) ≤ dev.next.length ↔
      p < PAGE_SIZE * dev.qset.toInt.toNat * (dev.next.length + 1) := by
    rw [← Nat.lt_succ_iff, Nat.div_lt_iff_lt_mul hpos, Nat.mul_comm]
  rw [hdiv]
  omega

end Read

/-- **When a read leaves the device as it was.** In every state that a run of calls and stores
reaches, with a device of order 0 and a good geometry, and for every position whose list item has a
number that is an `int`: a read returns and leaves the device and the heap as they were exactly if
it is interrupted, is after the end of the data, or the list has the item of its position. If all
writes of the run were at such positions, the one case in which it does not is that of a read at the
end of the data, where these end with the last byte of the last list item.

Source: `ldd/scullp/main.c`, lines 146–207. -/
theorem read_leaves_device_iff {params : ScullpParams} {ops : List MapOp} {answers : List Answer}
    {s : ScullpSys} (hrun : exec ScullpSys.mapStep (.load params) ops = some (answers, s))
    (horder : s.dev.order = 0) (hgeo : GoodGeometry pageInt s.dev.qset) {file p : ℕ}
    (hp : s.files file = p) (hfit : p / (PAGE_SIZE * s.dev.qset.toInt.toNat) < 2 ^ 31)
    (count room : ℕ) (lockIntr : Bool) (env : AllocEnv) :
    ((∃ r t, s.step (.scullpRead file count room lockIntr env) = some (r, t) ∧ t.dev = s.dev ∧
        t.heap = s.heap) ↔
      lockIntr = true ∨ s.dev.size < p ∨
        p / (PAGE_SIZE * s.dev.qset.toInt.toNat) ≤ s.dev.next.length) ∧
    (Guarded ScullpSys.mapStep WritesFit (.load params) ops →
      ((lockIntr = true ∨ s.dev.size < p ∨
          p / (PAGE_SIZE * s.dev.qset.toInt.toNat) ≤ s.dev.next.length) ↔
        ¬ (lockIntr = false ∧ p = s.dev.size ∧
          s.dev.size = PAGE_SIZE * s.dev.qset.toInt.toNat * (s.dev.next.length + 1)))) := by
  constructor
  · have hdev := scullpRead_unchanged_iff (inShape_of_run hrun) horder hgeo hfit s.heap count room
      lockIntr env
    rw [← hdev, ScullpSys.step, hp]
    constructor
    · rintro ⟨r, t, hst, hsame, hheap⟩
      obtain ⟨res, hres, heq⟩ := Option.map_eq_some_iff.mp hst
      cases heq
      exact ⟨res, hres, hsame, hheap⟩
    · rintro ⟨res, hres, hsame, hheap⟩
      exact ⟨_, _, by rw [hres]; rfl, hsame, hheap⟩
  · intro hops
    have hiff := (covered_of_run hops hrun).item_le_iff (p := p) horder hgeo
    cases lockIntr with
    | true => simp
    | false => simpa using hiff

/-- A read of the second page of a device that has been written in its first page leaves the device
as it was. -/
theorem read_leaves_device_iff_second_page :
    ∃ answers s, exec ScullpSys.mapStep (.load .default) ([.scullpLlseek 0 4095 0,
        .scullpWrite 0 1 ⟨[7], []⟩ false ⟨fun _ => true, true, some fun _ => 0⟩].map .call) =
          some (answers, s) ∧
      ∃ r t, s.step (.scullpRead 0 1 1 false ⟨fun _ => true, true, none⟩) = some (r, t) ∧
        t.dev = s.dev ∧ t.heap = s.heap := by
  refine ⟨_, _, rfl, (@read_leaves_device_iff .default ([.scullpLlseek 0 4095 0,
    .scullpWrite 0 1 ⟨[7], []⟩ false ⟨fun _ => true, true, some fun _ => 0⟩].map .call) _ _ rfl rfl
    ⟨?_, ?_, ?_⟩ 0 4096 rfl ?_ _ _ _ _).1.mpr ?_⟩
  all_goals decide

/-- With one page in a list item, the same read is at the end of data that fill the list: it
allocates a list item and appends it. -/
theorem read_at_end_allocates :
    ∃ answers s, exec ScullpSys.mapStep (.load ⟨0, 1⟩) ([.scullpLlseek 0 4095 0,
        .scullpWrite 0 1 ⟨[7], []⟩ false ⟨fun _ => true, true, some fun _ => 0⟩].map .call) =
          some (answers, s) ∧
      ∃ t, s.step (.scullpRead 0 1 1 false ⟨fun _ => true, true, none⟩) = some (⟨0, []⟩, t) ∧
        s.dev.next.length = 0 ∧ t.dev.next.length = 1 ∧
        t.heap.live.length = s.heap.live.length + 1 :=
  ⟨_, _, rfl, _, rfl, rfl, rfl, rfl⟩

end ExKernel.Scullp
