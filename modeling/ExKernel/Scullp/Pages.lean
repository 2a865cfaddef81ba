import ExKernel.Scullp.Shape

/-!
# The sizes of page blocks

Reads and writes take the size of a quantum from the order of the device, and a write allocates a
missing block with the order of the list item that it comes to. The list items after the first are
cleared when they are allocated and keep the order 0. So the two sizes agree as long as only the
first list item gets blocks, or the order of the device is 0 as well; a write beyond the first list
item of a device of another order copies past the end of its block.

## Main definitions

* `Scullp.GoodOrder`: a geometry that the driver can work with.
* `Scullp.Fits`: every block has the size of a quantum.
* `Scullp.Inside`: a read or write stays inside the block that it copies from or to.
* `Scullp.SinglePage`: blocks are put into list items after the first only at order 0.
* `Scullp.PageRep`: the invariant of all runs.

## Main results

* `Scullp.transfers_inside`: when all transfers stay inside, over all runs.
* `Scullp.transfer_outside`: a run in which one does not.

## References

* `ldd/scullp/main.c`, lines 117–263 and 413–441; `ldd/scullp/scullp.h`, lines 56–65.
-/

namespace ExKernel.Scullp

open Transition
open Scull (AllocEnv Answer GoodGeometry Place Quantum clamp exists_locate locate rounds)

/-! ### Geometries -/

/-- A geometry that the driver can work with: the order is not negative, there is at least one entry
in a quantum set, and the number of bytes in a quantum set is an `int`. -/
structure GoodOrder (order qset : Int32) : Prop where
  order_nonneg : 0 ≤ order.toInt
  qset_pos : 1 ≤ qset.toInt
  mul_le : (pageBytes order : ℤ) * qset.toInt ≤ intMax

theorem pageBytes_pos (order : Int32) : 0 < pageBytes order :=
  Nat.mul_pos (by decide) (Nat.two_pow_pos _)

namespace GoodOrder

variable {order qset : Int32}

theorem pageBytes_le (h : GoodOrder order qset) : pageBytes order ≤ intMax := by
  have hpos := pageBytes_pos order
  have hmul := h.mul_le
  have hqset := h.qset_pos
  have hle : (pageBytes order : ℤ) * 1 ≤ pageBytes order * qset.toInt :=
    mul_le_mul_of_nonneg_left hqset (by omega)
  omega

theorem order_lt (h : GoodOrder order qset) : order.toInt < 19 := by
  by_contra hge
  have hle := h.pageBytes_le
  have hpow : 2 ^ 19 ≤ 2 ^ order.toInt.toNat := Nat.pow_le_pow_right (by decide) (by omega)
  unfold pageBytes PAGE_SIZE intMax at hle
  omega

theorem exists_quantum (h : GoodOrder order qset) :
    ∃ quantum, pageQuantum order = some quantum ∧ quantum.toInt = pageBytes order ∧
      GoodGeometry quantum qset := by
  have hle := h.pageBytes_le
  have hpos := pageBytes_pos order
  have hlt := h.order_lt
  have hquantum : (Int32.ofInt (pageBytes order)).toInt = pageBytes order := by
    unfold intMax at hle
    exact Int32.toInt_ofInt_of_le (by omega) (by omega)
  refine ⟨Int32.ofInt (pageBytes order), ?_, hquantum, ?_, h.qset_pos, ?_⟩
  · rw [pageQuantum, if_pos ⟨h.order_nonneg, by omega⟩]
  · rw [hquantum]
    omega
  · rw [hquantum]
    exact h.mul_le

end GoodOrder

theorem order_eq_zero {order : Int32} (hnonneg : 0 ≤ order.toInt)
    (h : pageBytes order = pageBytes 0) : order = 0 := by
  have hpow : 2 ^ order.toInt.toNat = 2 ^ (0 : Int32).toInt.toNat :=
    Nat.eq_of_mul_eq_mul_left (by decide) h
  have hexp : order.toInt.toNat = (0 : Int32).toInt.toNat := Nat.pow_right_injective le_rfl hpow
  rw [← Int32.toInt_inj]
  have hzero : (0 : Int32).toInt = 0 := rfl
  omega

/-! ### The properties -/

/-- Every block of the device, in the first list item and in all later ones, has the size of a
quantum. -/
def Fits (s : ScullpSys) : Prop :=
  ∀ n idx q, s.dev.pagesAt n idx = some q → q.size = pageBytes s.dev.order

/-- A read or write that copies stays inside the block that it copies from or to: the block that is
at its place, for a write after what was missing has been allocated.

Source: `ldd/scullp/main.c`, lines 181–195 and 225–248. -/
def Inside (s : ScullpSys) : ScullpOp → Prop
  | .scullpRead file count _ lockIntr _ => lockIntr = false →
    ∀ quantum place q, pageQuantum s.dev.order = some quantum →
      locate quantum s.dev.qset (s.files file) = some place →
      s.dev.pagesAt (rounds place.item) place.sPos = some q →
      q.Contains place.qPos (clamp quantum place.qPos (upToSize s.dev (s.files file) count))
  | .scullpWrite file count _ lockIntr env => lockIntr = false →
    ∀ quantum place got arr q, pageQuantum s.dev.order = some quantum →
      locate quantum s.dev.qset (s.files file) = some place →
      reachPages s.dev s.heap place env = some got → got.target = some (arr, q) →
      q.Contains place.qPos (clamp quantum place.qPos count)
  | _ => True

/-- A write that puts a block into a list item after the first is made at order 0. -/
def SinglePage (s : ScullpSys) : ScullpOp → Prop
  | .scullpWrite file _ _ lockIntr env =>
    ∀ n, Allocates s.dev (s.files file) lockIntr env (n + 1) → s.dev.order = 0
  | _ => True

/-- Positions that are not negative, as the file system layer passes them on; and an open that
empties the device gives it a geometry that the driver can work with. -/
def Served (s : ScullpSys) : ScullpOp → Prop
  | .scullpOpen _ mode lockIntr => mode = .wronly → lockIntr = false →
    GoodOrder s.params.order s.params.qset
  | .scullpRead file .. => 0 ≤ s.files file
  | .scullpWrite file .. => 0 ≤ s.files file
  | _ => True

/-! ### The invariant of all runs -/

/-- The geometry of the device is one that the driver can work with, and the device is in shape. -/
structure PageRep (s : ScullpSys) : Prop where
  geometry : GoodOrder s.dev.order s.dev.qset
  inShape : InShape s.dev

namespace PageRep

variable {s t : ScullpSys} {op : ScullpOp}

theorem step {r : Answer} (h : PageRep s) (hop : Served s op) (hst : s.step op = some (r, t)) :
    PageRep t := by
  refine ⟨?_, h.inShape.step hst⟩
  cases moved_of_step hst with
  | grown hgrown _ =>
    rw [hgrown.order_eq, hgrown.qset_eq]
    exact h.geometry
  | emptied file hop' _ hdev _ =>
    subst hop'
    rw [hdev]
    exact hop rfl rfl
  | mapped _ _ _ hdev _ _ =>
    rw [hdev]
    exact h.geometry
  | copied _ _ _ hdev _ _ =>
    rw [hdev]
    exact h.geometry
  | closed _ _ hdev _ _ =>
    rw [hdev]
    exact h.geometry

/-- The order of a list item that gets a block is that of the device. -/
theorem orderAt_of_newBlock (h : PageRep s) (hop : SinglePage s op) {n : ℕ}
    (hnew : s.NewBlock op n) : s.dev.orderAt n = s.dev.order := by
  cases n with
  | zero => rfl
  | succ n =>
    rw [h.inShape.order_succ n]
    cases op with
    | scullpWrite => exact (hop n hnew).symm
    | _ => exact hnew.elim

theorem contains (h : PageRep s) {fPos : ℤ} (hpos : 0 ≤ fPos) {quantum : Int32} {place : Place}
    {q : Quantum} (hquantum : pageQuantum s.dev.order = some quantum)
    (hplace : locate quantum s.dev.qset fPos = some place) (hq : q.size = pageBytes s.dev.order)
    (count : ℕ) : q.Contains place.qPos (clamp quantum place.qPos count) := by
  obtain ⟨quantum', hquantum', hbytes, hgood⟩ := h.geometry.exists_quantum
  rw [hquantum] at hquantum'
  cases hquantum'
  obtain ⟨p, rfl⟩ := Int.eq_ofNat_of_zero_le hpos
  obtain ⟨place', hplace', -, -, hnonneg, hle⟩ := exists_locate hgood p count
  rw [hplace] at hplace'
  cases hplace'
  refine .inr ⟨hnonneg, ?_⟩
  rw [hq]
  omega

end PageRep

/-! ### Single steps -/

/-- The sizes are kept by every call that puts blocks into later list items only at order 0. -/
theorem Fits.step {s t : ScullpSys} {op : ScullpOp} (h : Fits s) (hs : PageRep s)
    (hop : SinglePage s op) (hmoved : Moved s op t) : Fits t := by
  have hsame : ∀ {v}, t.dev = { s.dev with vmas := v } → Fits t := by
    intro v hdev
    rw [Fits, hdev]
    exact h
  cases hmoved with
  | grown hgrown _ =>
    intro n idx q hq
    rw [hgrown.order_eq]
    rcases hgrown.pagesAt_fresh hq with ⟨old, hold, -, hsize⟩ | ⟨hnew, -, hsize⟩
    · exact hsize.trans (h n idx old hold)
    · rw [hsize, hs.orderAt_of_newBlock hop hnew]
  | emptied _ _ _ hdev _ =>
    intro n idx q hq
    rw [(pagesAt_empty (by rw [hdev]) (by rw [hdev]) n idx).1] at hq
    cases hq
  | mapped _ _ _ hdev _ _ => exact hsame hdev
  | copied _ _ _ hdev _ _ => exact hsame hdev
  | closed _ _ hdev _ _ => exact hsame hdev

/-- A transfer from a state in which every block has the size of a quantum. -/
theorem Fits.inside {s : ScullpSys} {op : ScullpOp} (h : Fits s) (hs : PageRep s)
    (hserved : Served s op) (hop : SinglePage s op) : Inside s op := by
  cases op with
  | scullpRead file count room lockIntr env =>
    intro _ quantum place q hquantum hplace hq
    exact hs.contains hserved hquantum hplace (h _ _ q hq) _
  | scullpWrite file count src lockIntr env =>
    intro hintr quantum place got arr q hquantum hplace hgot htarget
    obtain ⟨hgrown, hat, -⟩ := Scullp.reachPages_spec
      (P := Allocates s.dev (s.files file) lockIntr env) hgot fun hsome hor =>
        ⟨hintr, ⟨quantum, place, hquantum, hplace, rfl⟩, hsome, hor⟩
    obtain ⟨hcell, dptr, hdptr⟩ := hat arr q htarget
    have hq : got.dev.pagesAt (rounds place.item) place.sPos = some q := by
      rw [ScullpDev.pagesAt, hdptr]
      exact hcell
    refine hs.contains hserved hquantum hplace ?_ _
    rcases hgrown.pagesAt_fresh hq with ⟨old, hold, -, hsize⟩ | ⟨hnew, -, hsize⟩
    · exact hsize.trans (h _ _ old hold)
    · rw [hsize, hs.orderAt_of_newBlock hop hnew]
  | _ => trivial

/-- A call that leaves only blocks of the size of a quantum has put blocks into later list items
only at order 0. -/
theorem Fits.singlePage {s t : ScullpSys} {op : ScullpOp} {r : Answer} (ht : Fits t)
    (hs : PageRep s) (hrep : PageRep t) (hst : s.step op = some (r, t)) : SinglePage s op := by
  cases op with
  | scullpWrite file count src lockIntr env =>
    intro n halloc
    obtain ⟨res, hres, heq⟩ := Option.map_eq_some_iff.mp hst
    cases heq
    obtain ⟨hgrown, hattach⟩ := Grown.write hres
    have hqset := hs.geometry.qset_pos
    obtain ⟨idx, q, hq⟩ := hattach (by omega) (n + 1) halloc
    have hsize := (ht _ _ q hq).symm.trans (hrep.inShape.size_eq _ _ q hq)
    rw [hrep.inShape.order_succ n] at hsize
    have hzero := order_eq_zero hrep.geometry.order_nonneg hsize
    exact hgrown.order_eq.symm.trans hzero
  | _ => trivial

/-! ### Whole runs -/

/-- **Transfers and the blocks that were allocated.** A module that was loaded with parameters that
the driver can work with, in any run of opens, reads, writes, seeks, ioctls and mappings, with
whatever failures, in which such parameters are found by all opens that empty the device. If all
writes that put a block into a list item after the first are made at order 0, every read and every
write stays inside the block that it copies from or to, and in every state all blocks of the device
have the size of a quantum. And only then: in a run that comes to its end and in all of whose states
the blocks have this size, all writes were so.

Source: `ldd/scullp/main.c`, lines 146–263. -/
theorem transfers_inside {params : ScullpParams} (hgood : GoodOrder params.order params.qset)
    {ops : List ScullpOp} (hops : Guarded ScullpSys.step Served (.load params) ops) :
    (Guarded ScullpSys.step SinglePage (.load params) ops →
      Guarded ScullpSys.step Inside (.load params) ops ∧
      Always ScullpSys.step Fits (.load params) ops) ∧
    ∀ answers t, exec ScullpSys.step (.load params) ops = some (answers, t) →
      Always ScullpSys.step Fits (.load params) ops →
      Guarded ScullpSys.step SinglePage (.load params) ops := by
  have hload : PageRep (.load params) := ⟨hgood, .empty rfl rfl⟩
  have hrep : Always ScullpSys.step PageRep (.load params) ops :=
    always_of_invariant PageRep (fun _ _ _ _ h hop hst => h.step hop hst) hload hops
  constructor
  · intro hsingle
    have hguard := (hrep.guarded fun _ _ h => h).and (hops.and hsingle)
    have hfits : Always ScullpSys.step Fits (.load params) ops := by
      refine always_of_invariant Fits ?_ ?_ hguard
      · rintro s op r t hs ⟨hrep, -, hop⟩ hst
        exact hs.step hrep hop (moved_of_step hst)
      · intro n idx q hq
        rw [(pagesAt_empty rfl rfl n idx).1] at hq
        cases hq
    refine ⟨((hfits.guarded fun _ _ h => h).and hguard).mono ?_, hfits⟩
    rintro s op ⟨hs, hrep, hserved, hop⟩
    exact hs.inside hrep hserved hop
  · intro answers t hrun hfits
    refine (hrep.and hfits).guarded_of_next ?_ hrun
    rintro s op r u ⟨hs, -⟩ hst ⟨hu, hfitsu⟩
    exact hfitsu.singlePage hs hu hst

/-- A device gets the order 1, is emptied, and is written at the position `p`. -/
def writeAcross (p : Int64) : List ScullpOp :=
  [.scullpIoctl SCULLP_IOCTORDER 1 ⟨true, false, none, true⟩, .scullpOpen 0 .wronly false,
    .scullpLlseek 0 p 0,
    .scullpWrite 0 8192 ⟨List.replicate 8192 7, []⟩ false ⟨fun _ => true, true, some fun _ => 0⟩]

/-- The write into the first list item stays inside. -/
theorem transfers_inside_first_item :
    Guarded ScullpSys.step Inside (.load .default) (writeAcross 4087808) := by
  have hops : Guarded ScullpSys.step Served (.load .default) (writeAcross 4087808) := by
    refine ⟨trivial, fun _ _ h => ?_⟩
    cases h
    refine ⟨fun _ _ => ⟨by decide, by decide, by decide⟩, fun _ _ h => ?_⟩
    cases h
    refine ⟨trivial, fun _ _ h => ?_⟩
    cases h
    exact ⟨(by decide : (0 : ℤ) ≤ 4087808), fun _ _ _ => trivial⟩
  refine ((transfers_inside ⟨by decide, by decide, by decide⟩ hops).1 ?_).1
  refine ⟨trivial, fun _ _ h => ?_⟩
  cases h
  refine ⟨trivial, fun _ _ h => ?_⟩
  cases h
  refine ⟨trivial, fun _ _ h => ?_⟩
  cases h
  refine ⟨?_, fun _ _ _ => trivial⟩
  rintro n ⟨-, ⟨quantum, place, hquantum, hplace, hround⟩, -⟩
  cases hquantum
  cases hplace
  exact absurd hround (Nat.succ_ne_zero n).symm

/-- The write into the second list item does not: the block that it copies 8192 bytes to has
4096. -/
theorem transfer_outside :
    ¬ Guarded ScullpSys.step Inside (.load .default) (writeAcross 4096000) ∧
      exec ScullpSys.step (.load .default) (writeAcross 4096000) = none := by
  constructor
  · rintro ⟨-, hrest⟩
    obtain ⟨-, hrest⟩ := hrest _ _ rfl
    obtain ⟨-, hrest⟩ := hrest _ _ rfl
    obtain ⟨hinside, -⟩ := hrest _ _ rfl
    have hcontains := hinside rfl _ _ _ _ _ rfl rfl rfl rfl
    exact absurd hcontains (by decide)
  · rfl

end ExKernel.Scullp
