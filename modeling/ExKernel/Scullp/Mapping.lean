import ExKernel.Scullp.Embedding
import ExKernel.Scullp.Shape

/-!
# Faults in a mapping of a scullp device

A mapping of a scullp device starts without pages. When a process touches an address of it, the
kernel calls `scullp_vma_nopage`, which finds the block of the address and hands it out as the page.
The method walks the list in its own way: it counts pages, and goes on to the next list item as long
as the number is not below that of the entries of a quantum set.

With the page the process has the block itself, so what it stores there changes the device without
any call. A run is therefore one of calls and of such stores.

## Main definitions

* `Scullp.VmArea`, `Scullp.scullpVmaNopage`.
* `Scullp.ScullpDev.poke`: a store of a process to a page.
* `Scullp.MapOp`, `Scullp.ScullpSys.mapStep`: calls and stores.
* `Scullp.pageAddress`: the address that a handler gets.
* `Scullp.touch`: an access to a mapping, repeated after every fault.

## Main results

* `Scullp.scullpVmaNopage_eq`: the page that a fault supplies.
* `Scullp.fault_finds_the_page_of_reads`: a fault, a read and a write find the same page.
* `Scullp.touch_ends_iff`: when an access ends.
* `Scullp.touch_never_ends`: one that does not.

## References

* `ldd/scullp/mmap.c`, lines 47–119; `ldd/scullp/main.c`, lines 146–263.
-/

namespace ExKernel.Scullp

open Transition
open Scull (AllocEnv Answer GoodGeometry Place QArray Quantum clamp locate readEntry rounds)

/-- `PAGE_SHIFT`. -/
def PAGE_SHIFT : ℕ := 12

/-- `VM_FAULT_NOPAGE`. -/
def VM_FAULT_NOPAGE : UInt32 := 0x100

/-- What the method reads of `struct vm_area_struct`. -/
structure VmArea where
  vmStart : UInt64
  vmPgoff : UInt64

/-- The offset into the device of an address of the mapping.

Source: `ldd/scullp/mmap.c`, line 70. -/
def VmArea.offset (vma : VmArea) (address : UInt64) : ℕ :=
  ((address - vma.vmStart) + (vma.vmPgoff <<< 12)).toNat

/-- The walk of the method: what is left of the list, nothing for `NULL`, and the number of the page
in its first item.

Source: `ldd/scullp/mmap.c`, lines 79–82. -/
def walkPages (qset : ℕ) : List ScullpItem → ℕ → List ScullpItem × ℕ
  | [], offset => ([], offset)
  | ptr :: next, offset =>
    if offset ≥ qset then walkPages qset next (offset - qset) else (ptr :: next, offset)

/-- What the method returns, and the page that it hands out. -/
structure VmFault where
  ret : UInt32
  page : Option Quantum

/-- `scullp_vma_nopage`; an index outside the array is a step that the model does not make.

Source: `ldd/scullp/mmap.c`, lines 60–95. -/
def scullpVmaNopage (dev : ScullpDev) (vma : VmArea) (address : UInt64) : Option VmFault :=
  let offset := vma.offset address
  let out : VmFault := ⟨VM_FAULT_NOPAGE, none⟩
  if offset ≥ dev.size then some out
  else
    let got := walkPages (sizeT dev.qset.toInt) dev.items (offset >>> PAGE_SHIFT)
    match got.1 with
    | [] => some out
    | ptr :: _ =>
      match ptr.data with
      | none => some out
      | some arr =>
        if arr.Contains got.2 1 then
          match arr.cells got.2 with
          | none => some out
          | some page => some ⟨0, some page⟩
        else none

/-! ### The page that a fault supplies -/

/-- The walk comes to the list item and to the entry that division and modulus give. -/
theorem walkPages_eq {qset : ℕ} (hqset : 0 < qset) (items : List ScullpItem) (offset : ℕ) :
    (walkPages qset items offset).1 = items.drop (offset / qset) ∧
      (offset / qset < items.length → (walkPages qset items offset).2 = offset % qset) := by
  induction items generalizing offset with
  | nil => simp [walkPages]
  | cons ptr next ih =>
    rw [walkPages]
    split_ifs with hge
    · obtain ⟨hlist, hindex⟩ := ih (offset - qset)
      have hdiv : offset / qset = (offset - qset) / qset + 1 := Nat.div_eq_sub_div hqset hge
      have hmod : offset % qset = (offset - qset) % qset := Nat.mod_eq_sub_mod hge
      rw [hdiv, hmod, List.drop_succ_cons, List.length_cons]
      exact ⟨hlist, fun hlt => hindex (by omega)⟩
    · have hlt : offset < qset := not_le.mp hge
      rw [Nat.div_eq_of_lt hlt, Nat.mod_eq_of_lt hlt]
      exact ⟨rfl, fun _ => rfl⟩

/-- With no entries in a quantum set the walk comes to the end of the list. -/
theorem walkPages_zero (items : List ScullpItem) (offset : ℕ) :
    (walkPages 0 items offset).1 = [] := by
  induction items with
  | nil => rfl
  | cons ptr next ih =>
    rw [walkPages, if_pos (Nat.zero_le offset)]
    exact ih

/-- What a fault answers when `page` is what it finds. -/
def faultAnswer : Option Quantum → VmFault
  | none => ⟨VM_FAULT_NOPAGE, none⟩
  | some page => ⟨0, some page⟩

/-- The block of the page of the device with the number `g`. -/
def ScullpDev.pageOf (dev : ScullpDev) (g : ℕ) : Option Quantum :=
  dev.pagesAt (g / dev.qset.toInt.toNat) ((g % dev.qset.toInt.toNat : ℕ) : ℤ)

theorem VmArea.offset_lt (vma : VmArea) (address : UInt64) : vma.offset address < 2 ^ 64 :=
  UInt64.toNat_lt _

theorem shiftRight_page (x : ℕ) : x >>> PAGE_SHIFT = x / PAGE_SIZE := Nat.shiftRight_eq_div_pow x 12

theorem Sized.arrayOf_eq_none {dev : ScullpDev} (hs : Sized dev) (h : dev.qset.toInt ≤ 0) (n : ℕ) :
    dev.arrayOf n = none := by
  refine Option.eq_none_iff_forall_ne_some.mpr fun arr harr => ?_
  have hpos := (hs n arr harr).2
  omega

/-- **The page that a fault supplies**: for an offset before the end of the data the block of its
page, if there is one. -/
theorem scullpVmaNopage_eq {dev : ScullpDev} (hs : Sized dev) (vma : VmArea) (address : UInt64) :
    scullpVmaNopage dev vma address = some (faultAnswer
      (if vma.offset address < dev.size then dev.pageOf (vma.offset address / PAGE_SIZE)
        else none)) := by
  have hlt := vma.offset_lt address
  rw [scullpVmaNopage]
  generalize vma.offset address = offset at *
  by_cases hend : offset ≥ dev.size
  · simp only [if_pos hend, if_neg (not_lt.mpr hend)]
    rfl
  simp only [if_neg hend, if_pos (not_le.mp hend), shiftRight_page]
  have hpage : offset / PAGE_SIZE < 2 ^ 52 := by
    rw [PAGE_SIZE]
    omega
  generalize offset / PAGE_SIZE = g at *
  rw [ScullpDev.pageOf, pagesAt_eq_bind]
  have hmin := dev.qset.le_toInt
  rcases lt_trichotomy dev.qset.toInt 0 with hneg | hzero | hpos
  · have hnone := hs.arrayOf_eq_none hneg.le
    have hbig : ¬ g ≥ sizeT dev.qset.toInt := by
      unfold sizeT
      omega
    have hdata : dev.data = none := hnone 0
    simp only [ScullpDev.items, walkPages, if_neg hbig, hdata, hnone, Option.bind_none]
    rfl
  · have hnone := hs.arrayOf_eq_none hzero.le
    have hsize : sizeT dev.qset.toInt = 0 := by rw [hzero]; rfl
    simp only [hsize, walkPages_zero, hnone, Option.bind_none]
    rfl
  · have hsize : sizeT dev.qset.toInt = dev.qset.toInt.toNat :=
      sizeT_of_nonneg hpos.le (by have := dev.qset.toInt_lt; omega)
    have hqset : 0 < dev.qset.toInt.toNat := by omega
    obtain ⟨hlist, hindex⟩ := walkPages_eq hqset dev.items g
    rw [hsize, ScullpDev.arrayOf]
    generalize walkPages dev.qset.toInt.toNat dev.items g = got at *
    obtain ⟨ptr, idx⟩ := got
    simp only at hlist hindex ⊢
    rw [← List.head?_drop, ← hlist]
    cases ptr with
    | nil => rfl
    | cons ptr next =>
      have hitem : dev.items[g / dev.qset.toInt.toNat]? = some ptr := by
        rw [← List.head?_drop, ← hlist]
        rfl
      have hidx := hindex (List.getElem?_eq_some_iff.mp hitem).1
      simp only [List.head?_cons, Option.bind_some]
      cases hdata : ptr.data with
      | none => rfl
      | some arr =>
        have harr : dev.arrayOf (g / dev.qset.toInt.toNat) = some arr := by
          rw [ScullpDev.arrayOf, hitem, Option.bind_some, hdata]
        have harrSize := (hs _ arr harr).1
        have hin : arr.Contains ((g % dev.qset.toInt.toNat : ℕ) : ℤ) 1 := by
          have hmod := Nat.mod_lt g hqset
          refine .inr ⟨by omega, ?_⟩
          rw [harrSize]
          omega
        simp only [Option.bind_some, hidx, if_pos hin]
        cases arr.cells ((g % dev.qset.toInt.toNat : ℕ) : ℤ) <;> rfl

/-! ### Stores of a process -/

/-- A block after a store of the bytes `bytes` at the offset `off` of the page `page`. -/
def pokeBlock (page : ℕ) (off : ℤ) (bytes : List UInt8) (q : Quantum) : Quantum :=
  if q.id = page ∧ q.Contains off bytes.length then
    { q with cells := Cells.store q.cells off bytes }
  else q

/-- A list item after a store to a page. -/
def ScullpItem.poke (page : ℕ) (off : ℤ) (bytes : List UInt8) (dptr : ScullpItem) : ScullpItem :=
  { dptr with
    data := dptr.data.map fun arr =>
      { arr with cells := fun i => (arr.cells i).map (pokeBlock page off bytes) } }

/-- The device after a store of a process to a page that it has mapped: the block that is the page
has the bytes, wherever it is in the device. -/
def ScullpDev.poke (page : ℕ) (off : ℤ) (bytes : List UInt8) (dev : ScullpDev) : ScullpDev :=
  { dev with
    data := dev.data.map fun arr =>
      { arr with cells := fun i => (arr.cells i).map (pokeBlock page off bytes) }
    next := dev.next.map (ScullpItem.poke page off bytes) }

section Poke

variable (page : ℕ) (off : ℤ) (bytes : List UInt8)

theorem pokeBlock_size (q : Quantum) : (pokeBlock page off bytes q).size = q.size := by
  rw [pokeBlock]
  split_ifs <;> rfl

theorem items_poke (dev : ScullpDev) :
    (dev.poke page off bytes).items = dev.items.map (ScullpItem.poke page off bytes) := rfl

theorem arrayOf_poke (dev : ScullpDev) (n : ℕ) :
    (dev.poke page off bytes).arrayOf n = (dev.arrayOf n).map fun arr =>
      { arr with cells := fun i => (arr.cells i).map (pokeBlock page off bytes) } := by
  rw [ScullpDev.arrayOf, items_poke, List.getElem?_map, ScullpDev.arrayOf]
  cases dev.items[n]? <;> rfl

theorem pagesAt_poke (dev : ScullpDev) (n : ℕ) (i : ℤ) :
    (dev.poke page off bytes).pagesAt n i =
      (dev.pagesAt n i).map (pokeBlock page off bytes) := by
  rw [pagesAt_eq_bind, arrayOf_poke, pagesAt_eq_bind]
  cases dev.arrayOf n <;> rfl

theorem pageOf_poke (dev : ScullpDev) (g : ℕ) :
    (dev.poke page off bytes).pageOf g = (dev.pageOf g).map (pokeBlock page off bytes) :=
  pagesAt_poke page off bytes dev _ _

theorem orderAt_poke (dev : ScullpDev) (n : ℕ) :
    (dev.poke page off bytes).orderAt n = dev.orderAt n := by
  rw [ScullpDev.orderAt, items_poke, List.getElem?_map, ScullpDev.orderAt]
  cases dev.items[n]? <;> rfl

end Poke

/-- A call, or a store of a process at the offset `off` of the page `page`. -/
inductive MapOp
  | call (op : ScullpOp)
  | store (page : ℕ) (off : ℤ) (bytes : List UInt8)

/-- One call or one store. -/
def ScullpSys.mapStep (s : ScullpSys) : MapOp → Option (Answer × ScullpSys)
  | .call op => s.step op
  | .store page off bytes => some (⟨0, []⟩, { s with dev := s.dev.poke page off bytes })

/-! ### The shape after all runs -/

namespace InShape

variable {dev : ScullpDev}

theorem poke (h : InShape dev) (page : ℕ) (off : ℤ) (bytes : List UInt8) :
    InShape (dev.poke page off bytes) where
  sized n arr harr := by
    rw [arrayOf_poke] at harr
    obtain ⟨old, hold, rfl⟩ := Option.map_eq_some_iff.mp harr
    exact h.sized n old hold
  size_eq n idx q hq := by
    rw [pagesAt_poke] at hq
    obtain ⟨old, hold, rfl⟩ := Option.map_eq_some_iff.mp hq
    rw [pokeBlock_size, orderAt_poke]
    exact h.size_eq n idx old hold
  order_succ n := by
    rw [orderAt_poke]
    exact h.order_succ n

end InShape

/-- **Every run** of calls and stores, with whatever failures, leaves the device in shape. -/
theorem inShape_of_run {params : ScullpParams} {ops : List MapOp} {answers : List Answer}
    {s : ScullpSys} (hrun : exec ScullpSys.mapStep (.load params) ops = some (answers, s)) :
    InShape s.dev := by
  refine exec_invariant (fun t => InShape t.dev) ?_ (InShape.empty rfl rfl)
    (guarded_true _ _) hrun
  intro t op r u ht _ hst
  cases op with
  | call op => exact ht.step hst
  | store page off bytes =>
    cases hst
    exact ht.poke page off bytes

/-! ### Reads and writes at order 0 -/

section Single

variable {dev : ScullpDev} {heap heap₁ : Ledger} {place : Place} {env : AllocEnv}
  {next : List ScullpItem} {p : ℕ}

theorem pageInt_toNat : pageInt.toInt.toNat = PAGE_SIZE := rfl

theorem InShape.orderAt_eq_zero (h : InShape dev) (horder : dev.order = 0) (n : ℕ) :
    dev.orderAt n = 0 := by
  cases n with
  | zero => exact horder
  | succ n => exact h.order_succ n

theorem InShape.page_size (h : InShape dev) (horder : dev.order = 0) {n : ℕ} {i : ℤ} {q : Quantum}
    (hq : dev.pagesAt n i = some q) : q.size = PAGE_SIZE := by
  rw [h.size_eq n i q hq, h.orderAt_eq_zero horder]
  rfl

/-- A list item that a block is in, or that the list has memory for, is reached. -/
theorem Walks.exists_follow (h : Walks env dev (rounds place.item)) (heap : Ledger) :
    ∃ next heap₁, scullpFollow env.node (rounds place.item) dev.next heap = some (next, heap₁) := by
  obtain ⟨⟨next, heap₁⟩, hfollow⟩ :=
    Option.isSome_iff_exists.mp ((scullpFollow_isSome env.node _ dev.next heap).mpr h)
  exact ⟨next, heap₁, hfollow⟩

theorem walks_of_pagesAt {n : ℕ} {i : ℤ} {q : Quantum} (hq : dev.pagesAt n i = some q)
    (env : AllocEnv) : Walks env dev n := by
  obtain ⟨dptr, hn, -⟩ := Option.bind_eq_some_iff.mp hq
  have hlt := (List.getElem?_eq_some_iff.mp hn).1
  rw [ScullpDev.items, List.length_cons] at hlt
  intro k hk
  omega

/-- **A write** of a device of order 0 at a position that is not negative is stuck only in following
the list. -/
theorem InShape.write (h : InShape dev) (horder : dev.order = 0) (hqset : 1 ≤ dev.qset.toInt)
    (hplace : locate pageInt dev.qset p = some place)
    (hfollow : scullpFollow env.node (rounds place.item) dev.next heap = some (next, heap₁))
    (count : ℕ) (src : UserBuffer) :
    ∃ res, scullpWrite dev heap p count src false env = some res ∧
      ((Starved dev p res ∧ ¬ Supplies env dev (rounds place.item) place.sPos) ∨
        (Landed (rounds place.item) place.sPos place.qPos dev p (clamp pageInt place.qPos count) src
            res ∧ Supplies env dev (rounds place.item) place.sPos)) := by
  have hquantum := pageQuantum_of_order_eq horder
  have hinside := Scull.locate_inside (by decide) hqset hplace
  rcases scullpWrite_outcome h.sized hquantum hplace hfollow count src with
    ⟨-, hout⟩ | ⟨res, hres, -, hcases⟩
  · refine absurd ⟨hinside, ?_, fun q hq => ?_⟩ hout
    · rw [h.orderAt_eq_zero horder]
      rfl
    · exact h.page_size horder hq
  · exact ⟨res, hres, hcases.imp_left fun hstarved => ⟨hstarved.1, hstarved.2 hinside⟩⟩

/-- **A read** of a device of order 0 at a position that is not negative is stuck only in following
the list. -/
theorem InShape.read (h : InShape dev) (horder : dev.order = 0) (hqset : 1 ≤ dev.qset.toInt)
    (hsize : sizeT p ≤ dev.size) (hplace : locate pageInt dev.qset p = some place)
    (hfollow : scullpFollow env.node (rounds place.item) dev.next heap = some (next, heap₁))
    (count room : ℕ) :
    ∃ res, scullpRead dev heap p count room false env = some res ∧
      res.dev = { dev with next := next } ∧ res.heap = heap₁ ∧
      (res.ret, res.bytes, res.fPos) =
        readEntry (dev.pagesAt (rounds place.item) place.sPos) place.qPos p
          (clamp pageInt place.qPos (upToSize dev p count)) room := by
  have hquantum := pageQuantum_of_order_eq horder
  have hinside := Scull.locate_inside (by decide) hqset hplace
  rcases scullpRead_outcome h.sized hquantum hsize hplace hfollow count room with
    ⟨-, hout⟩ | hres
  · exact absurd ⟨hinside, fun q hq => h.page_size horder hq⟩ hout
  · exact hres

theorem locate_page {qset : Int32} (hgeo : GoodGeometry pageInt qset) (g : ℕ) {k : ℕ}
    (hk : k < PAGE_SIZE) :
    locate pageInt qset ((PAGE_SIZE * g + k : ℕ) : ℤ) = some
      ⟨Int32.ofInt (g / qset.toInt.toNat : ℕ), ((g % qset.toInt.toNat : ℕ) : ℤ), (k : ℕ)⟩ := by
  have hpage : (PAGE_SIZE * g + k) / PAGE_SIZE = g := by
    rw [Nat.mul_add_div (by decide), Nat.div_eq_of_lt hk, Nat.add_zero]
  have hoff : (PAGE_SIZE * g + k) % PAGE_SIZE = k := by
    rw [Nat.mul_add_mod, Nat.mod_eq_of_lt hk]
  rw [Scull.locate_eq hgeo, pageInt_toNat, ← Nat.div_div_eq_div_mul, hpage, hoff]

end Single

/-! ### A fault, a read and a write -/

/-- The position of the first byte of the page of an address, which is its offset into the device if
the address is that of a page. -/
def VmArea.pageStart (vma : VmArea) (address : UInt64) : ℕ :=
  PAGE_SIZE * (vma.offset address / PAGE_SIZE)

theorem faultAnswer_eq_some {entry : Option Quantum} {page : Quantum} :
    faultAnswer entry = ⟨0, some page⟩ ↔ entry = some page := by
  cases entry with
  | none => simp [faultAnswer]
  | some q => simp [faultAnswer]

/-- A fault on an address finds the page that reads and writes have at the place `place`.

The walk comes to the list item and the index of the place, and the fault supplies a page exactly if
there is a block in the place, and then this block (`fault`). A read in the page answers from this
block, once it has followed the list (`read`). What a process stores in the page is what a read of
these positions delivers (`stored`). After a write in the page, a fault supplies a page with the
bytes written, the same page if there was one (`written`). -/
structure SamePage (dev : ScullpDev) (vma : VmArea) (address : UInt64) (place : Place) : Prop where
  item : (walkPages (sizeT dev.qset.toInt) dev.items (vma.offset address >>> PAGE_SHIFT)).1.head? =
    dev.items[rounds place.item]?
  index : rounds place.item < dev.items.length →
    ((walkPages (sizeT dev.qset.toInt) dev.items (vma.offset address >>> PAGE_SHIFT)).2 : ℤ) =
      place.sPos
  fault : scullpVmaNopage dev vma address =
    some (faultAnswer (dev.pagesAt (rounds place.item) place.sPos))
  read : ∀ k < PAGE_SIZE, vma.pageStart address + k < dev.size → ∀ heap count room env,
    Walks env dev (rounds place.item) →
    ∃ res, scullpRead dev heap (vma.pageStart address + k : ℕ) count room false env = some res ∧
      (res.ret, res.bytes, res.fPos) =
        readEntry (dev.pagesAt (rounds place.item) place.sPos) k (vma.pageStart address + k : ℕ)
          (clamp pageInt k (upToSize dev (vma.pageStart address + k : ℕ) count)) room
  stored : ∀ page, scullpVmaNopage dev vma address = some ⟨0, some page⟩ →
    ∀ k < PAGE_SIZE, ∀ bytes : List UInt8, k + bytes.length ≤ PAGE_SIZE →
    vma.pageStart address + k < dev.size → ∀ heap room env, bytes.length ≤ room →
    ∃ res, scullpRead (dev.poke page.id k bytes) heap (vma.pageStart address + k : ℕ) bytes.length
        room false env = some res ∧
      res.bytes = bytes.take (dev.size - (vma.pageStart address + k)) ∧ res.ret = res.bytes.length
  written : ∀ k < PAGE_SIZE, ∀ heap count src env res,
    scullpWrite dev heap (vma.pageStart address + k : ℕ) count src false env = some res →
    0 ≤ res.ret →
    ∃ page, scullpVmaNopage res.dev vma address = some ⟨0, some page⟩ ∧
      Cells.load page.cells k res.bytes.length = res.bytes ∧
      ∀ old, scullpVmaNopage dev vma address = some ⟨0, some old⟩ → page.id = old.id

theorem upToSize_eq {dev : ScullpDev} {p count : ℕ} (hp : p ≤ dev.size)
    (hcount : p + count < 2 ^ 64) : upToSize dev p count = min count (dev.size - p) := by
  have hembed : p ≤ dev.embed.size := hp
  exact Scull.upToSize_eq hembed hcount

section SamePage

variable {dev : ScullpDev} {g k : ℕ}

/-- The place of an offset in the page `g`, in the terms of the device. -/
theorem locate_pageOf (hgeo : GoodGeometry pageInt dev.qset)
    (hfit : g / dev.qset.toInt.toNat < 2 ^ 31) (hk : k < PAGE_SIZE) :
    ∃ place, locate pageInt dev.qset (PAGE_SIZE * g + k : ℕ) = some place ∧
      rounds place.item = g / dev.qset.toInt.toNat ∧
      place.sPos = (g % dev.qset.toInt.toNat : ℕ) ∧ place.qPos = k :=
  ⟨_, locate_page hgeo g hk, Scull.rounds_ofInt hfit, rfl, rfl⟩

variable (hs : InShape dev) (horder : dev.order = 0) (hgeo : GoodGeometry pageInt dev.qset)
  (hfit : g / dev.qset.toInt.toNat < 2 ^ 31)

include hs horder hgeo hfit

theorem read_in_page (hk : k < PAGE_SIZE) (hlt : PAGE_SIZE * g + k < dev.size)
    (hend : PAGE_SIZE * g + k < 2 ^ 64) (heap : Ledger) (count room : ℕ) {env : AllocEnv}
    (hmem : Walks env dev (g / dev.qset.toInt.toNat)) :
    ∃ res, scullpRead dev heap (PAGE_SIZE * g + k : ℕ) count room false env = some res ∧
      (res.ret, res.bytes, res.fPos) = readEntry (dev.pageOf g) k (PAGE_SIZE * g + k : ℕ)
        (clamp pageInt k (upToSize dev (PAGE_SIZE * g + k : ℕ) count)) room := by
  obtain ⟨place, hplace, hitem, hsPos, hqPos⟩ := locate_pageOf hgeo hfit hk
  rw [← hitem] at hmem
  obtain ⟨next, heap₁, hfollow⟩ := hmem.exists_follow heap
  have hsize : sizeT ((PAGE_SIZE * g + k : ℕ) : ℤ) ≤ dev.size := by
    rw [sizeT_natCast hend]
    exact hlt.le
  obtain ⟨res, hres, -, -, hread⟩ :=
    hs.read horder hgeo.qset_pos hsize hplace hfollow count room
  rw [hitem, hsPos, hqPos] at hread
  exact ⟨res, hres, hread⟩

theorem write_in_page (hk : k < PAGE_SIZE) {heap : Ledger} {count : ℕ} {src : UserBuffer}
    {env : AllocEnv} {res : ScullpResult}
    (hres : scullpWrite dev heap (PAGE_SIZE * g + k : ℕ) count src false env = some res)
    (hret : 0 ≤ res.ret) :
    ∃ page, res.dev.pageOf g = some page ∧
      Cells.load page.cells k res.bytes.length = res.bytes ∧
      ∀ old, dev.pageOf g = some old → page.id = old.id := by
  obtain ⟨place, hplace, hitem, hsPos, hqPos⟩ := locate_pageOf hgeo hfit hk
  have hqset := (Grown.write hres).1.qset_eq
  rcases exists_follow_of_write hres with
    ⟨hintr, -⟩ | ⟨-, quantum, place', next, heap₁, hquantum, hplace', hfollow⟩
  · cases hintr
  rw [horder] at hquantum
  cases hquantum
  cases hplace.symm.trans hplace'
  obtain ⟨res', hres', hcases⟩ := hs.write horder hgeo.qset_pos hplace hfollow count src
  cases hres.symm.trans hres'
  rw [hitem, hsPos, hqPos] at hcases
  rcases hcases with ⟨hstarved, -⟩ | ⟨hlanded, -⟩
  · rw [hstarved.ret_eq] at hret
    exact absurd hret (by decide)
  obtain ⟨⟨q, hstored, hold⟩, hdone, hfault⟩ := hlanded
  generalize clamp pageInt k count = m at *
  have hm : m ≤ src.bytes.length := by
    by_contra hgt
    rw [(hfault (not_le.mp hgt)).1] at hret
    exact absurd hret (by decide)
  obtain ⟨-, hbytes, -, -⟩ := hdone hm
  refine ⟨{ q with cells := (copyFromUser q.cells k src m).2 }, ?_, ?_, fun old hpage => ?_⟩
  · rw [ScullpDev.pageOf, hqset, hstored, if_pos ⟨rfl, rfl⟩]
  · rw [hbytes]
    simp only [copyFromUser, if_pos hm]
    exact Cells.load_store_self _ _ _
  · rw [hold old hpage]

/-- A store in the page `g`, and a read of the positions of the bytes stored. -/
theorem read_after_store (hk : k < PAGE_SIZE) {page : Quantum} (hpage : dev.pageOf g = some page)
    {bytes : List UInt8} (hfits : k + bytes.length ≤ PAGE_SIZE)
    (hlt : PAGE_SIZE * g + k < dev.size) (hend : PAGE_SIZE * g + PAGE_SIZE < 2 ^ 63)
    (heap : Ledger) {room : ℕ} (hroom : bytes.length ≤ room) (env : AllocEnv) :
    ∃ res, scullpRead (dev.poke page.id k bytes) heap (PAGE_SIZE * g + k : ℕ) bytes.length room
        false env = some res ∧
      res.bytes = bytes.take (dev.size - (PAGE_SIZE * g + k)) ∧ res.ret = res.bytes.length := by
  have hin : page.Contains k bytes.length := by
    refine .inr ⟨by omega, ?_⟩
    rw [hs.page_size horder hpage]
    omega
  have hpage' : (dev.poke page.id k bytes).pageOf g =
      some { page with cells := Cells.store page.cells k bytes } := by
    rw [pageOf_poke, hpage, Option.map_some, pokeBlock, if_pos ⟨rfl, hin⟩]
  obtain ⟨res, hres, hread⟩ := read_in_page (hs.poke page.id k bytes) horder hgeo hfit hk hlt
    (by omega) heap bytes.length room (walks_of_pagesAt hpage' env)
  have hcount : clamp pageInt k (upToSize (dev.poke page.id k bytes) (PAGE_SIZE * g + k : ℕ)
      bytes.length) = min bytes.length (dev.size - (PAGE_SIZE * g + k)) := by
    have hpages : pageInt.toInt = PAGE_SIZE := rfl
    have hcut : upToSize (dev.poke page.id k bytes) (PAGE_SIZE * g + k : ℕ) bytes.length =
        min bytes.length (dev.size - (PAGE_SIZE * g + k)) := upToSize_eq hlt.le (by omega)
    rw [Scull.clamp_of_inside (by omega) (by omega), hcut, hpages]
    omega
  have hle : min bytes.length (dev.size - (PAGE_SIZE * g + k)) ≤ bytes.length :=
    Nat.min_le_left _ _
  rw [hcount, hpage'] at hread
  simp only [readEntry, copyToUser, if_pos (hle.trans hroom), Cells.load_store_take _ _ _ hle,
    Prod.mk.injEq] at hread
  obtain ⟨hret, hbytes, -⟩ := hread
  refine ⟨res, hres, ?_, ?_⟩
  · rw [hbytes, ← List.take_take, List.take_of_length_le (List.length_take_le' _ _)]
  · rw [hret, hbytes, List.length_take, Nat.min_eq_left hle]

end SamePage

/-- **A page fault, a read and a write find the same page.** In every state that a run of calls and
stores reaches, with a device of order 0 and a good geometry, a fault on an address of a mapping
whose offset is before the end of the data, and whose list item has a number that is an `int`, finds
the page that reads and writes have at this offset.

Source: `ldd/scullp/mmap.c`, lines 60–95; `ldd/scullp/main.c`, lines 146–263. -/
theorem fault_finds_the_page_of_reads {params : ScullpParams} {ops : List MapOp}
    {answers : List Answer} {s : ScullpSys}
    (hrun : exec ScullpSys.mapStep (.load params) ops = some (answers, s))
    (horder : s.dev.order = 0) (hgeo : GoodGeometry pageInt s.dev.qset) {vma : VmArea}
    {address : UInt64} (hsize : vma.offset address < s.dev.size)
    (hfit : vma.offset address / (PAGE_SIZE * s.dev.qset.toInt.toNat) < 2 ^ 31) :
    ∃ place, locate pageInt s.dev.qset (vma.offset address : ℕ) = some place ∧
      SamePage s.dev vma address place := by
  have hs := inShape_of_run hrun
  have hnear : vma.offset address + PAGE_SIZE < 2 ^ 63 := hgeo.add_quantum_lt hfit
  have hsplit := Nat.div_add_mod (vma.offset address) PAGE_SIZE
  have hmod : vma.offset address % PAGE_SIZE < PAGE_SIZE := Nat.mod_lt _ (by decide)
  have hfault := scullpVmaNopage_eq hs.sized vma address
  rw [if_pos hsize] at hfault
  rw [← Nat.div_div_eq_div_mul] at hfit
  obtain ⟨place, hplace, hitem, hsPos, -⟩ := locate_pageOf hgeo hfit hmod
  rw [hsplit] at hplace
  have hstep : sizeT s.dev.qset.toInt = s.dev.qset.toInt.toNat :=
    sizeT_of_nonneg (by have := hgeo.qset_pos; omega) (by have := s.dev.qset.toInt_lt; omega)
  have hwalk := walkPages_eq hgeo.toNat_qset_pos s.dev.items (vma.offset address / PAGE_SIZE)
  refine ⟨place, hplace, ?_, ?_, ?_, ?_, ?_, ?_⟩
  · rw [shiftRight_page, hstep, hwalk.1, List.head?_drop, hitem]
  · intro hlt
    rw [hitem] at hlt
    rw [shiftRight_page, hstep, hwalk.2 hlt, hsPos]
  · rw [hitem, hsPos]
    exact hfault
  · rw [hitem, hsPos]
    intro k hk hlt heap count room env hmem
    exact read_in_page hs horder hgeo hfit hk hlt (by rw [VmArea.pageStart] at hlt; omega) heap
      count room hmem
  · intro page hpageAt
    rw [hfault, Option.some.injEq, faultAnswer_eq_some] at hpageAt
    intro k hk bytes hfits hlt heap room env hroom
    exact read_after_store hs horder hgeo hfit hk hpageAt hfits hlt (by omega) heap hroom env
  · intro k hk heap count src env res hres hret
    obtain ⟨page, hpageAt, hload, hid⟩ := write_in_page hs horder hgeo hfit hk hres hret
    have hgrown := (Grown.write hres).1
    have hfault' := scullpVmaNopage_eq (hs.sized.write hres) vma address
    rw [if_pos (hsize.trans_le hgrown.size_le), hpageAt] at hfault'
    refine ⟨page, hfault', hload, fun old hold => hid old ?_⟩
    rw [hfault, Option.some.injEq, faultAnswer_eq_some] at hold
    exact hold

/-- The page that was written first, through a mapping that starts at the address 8192. -/
theorem fault_finds_the_page_of_reads_first_page :
    ∃ answers s, exec ScullpSys.mapStep (.load .default) (writeAndMap.map .call) =
        some (answers, s) ∧
      ∃ place, locate pageInt s.dev.qset ((VmArea.mk 8192 0).offset 8192 : ℕ) = some place ∧
        SamePage s.dev ⟨8192, 0⟩ 8192 place := by
  refine ⟨_, _, rfl, @fault_finds_the_page_of_reads .default (writeAndMap.map .call) _ _ rfl rfl
    ⟨?_, ?_, ?_⟩ _ _ ?_ ?_⟩
  all_goals decide

/-! ### Accesses to a mapping -/

/-- How an access ends: with a page, or with a signal. -/
inductive Touched
  | supplied (page : Quantum)
  | signal

/-- The address that a handler gets for an access to `address`: that of the page
(`address & PAGE_MASK`). -/
def pageAddress (address : UInt64) : UInt64 := address &&& ~~~0xfff

/-- An access to an address of a mapping, with at most the given number of faults. After a fault
that returns `VM_FAULT_NOPAGE` the kernel takes the page table entry for installed, and the access
is repeated. -/
def touch (dev : ScullpDev) (vma : VmArea) (address : UInt64) : ℕ → Option Touched
  | 0 => none
  | n + 1 =>
    (scullpVmaNopage dev vma (pageAddress address)).bind fun out =>
      if out.ret = VM_FAULT_NOPAGE then touch dev vma address n
      else if out.ret = 0 then out.page.map .supplied
      else some .signal

theorem touch_supplied {dev : ScullpDev} {vma : VmArea} {address : UInt64} {page : Quantum}
    (h : scullpVmaNopage dev vma (pageAddress address) = some ⟨0, some page⟩) :
    touch dev vma address 1 = some (.supplied page) := by
  rw [touch, h]
  rfl

theorem touch_eq_none {dev : ScullpDev} {vma : VmArea} {address : UInt64}
    (h : scullpVmaNopage dev vma (pageAddress address) = some ⟨VM_FAULT_NOPAGE, none⟩) (n : ℕ) :
    touch dev vma address n = none := by
  induction n with
  | zero => rfl
  | succ n ih =>
    rw [touch, h]
    exact ih

/-- **When an access to a mapping ends.** In every state that a run of calls and stores reaches, for
every mapping and every address: the access ends after finitely many faults exactly if the page of
the address begins before the end of the data and there is a block in its place.

Source: `ldd/scullp/mmap.c`, lines 47–95. -/
theorem touch_ends_iff {params : ScullpParams} {ops : List MapOp} {answers : List Answer}
    {s : ScullpSys} (hrun : exec ScullpSys.mapStep (.load params) ops = some (answers, s))
    (vma : VmArea) (address : UInt64) :
    (∃ n, (touch s.dev vma address n).isSome) ↔ vma.offset (pageAddress address) < s.dev.size ∧
      (s.dev.pagesAt (vma.offset (pageAddress address) / PAGE_SIZE / s.dev.qset.toInt.toNat)
        (vma.offset (pageAddress address) / PAGE_SIZE % s.dev.qset.toInt.toNat : ℕ)).isSome := by
  have hfault := scullpVmaNopage_eq (inShape_of_run hrun).sized vma (pageAddress address)
  change _ ↔ _ ∧ (s.dev.pageOf (vma.offset (pageAddress address) / PAGE_SIZE)).isSome
  constructor
  · rintro ⟨n, hsome⟩
    split_ifs at hfault with hlt
    · refine ⟨hlt, ?_⟩
      cases hpage : s.dev.pageOf (vma.offset (pageAddress address) / PAGE_SIZE) with
      | none =>
        rw [hpage] at hfault
        rw [touch_eq_none hfault] at hsome
        cases hsome
      | some page => rfl
    · rw [touch_eq_none hfault] at hsome
      cases hsome
  · rintro ⟨hlt, hsome⟩
    obtain ⟨page, hpage⟩ := Option.isSome_iff_exists.mp hsome
    rw [if_pos hlt, hpage] at hfault
    exact ⟨1, by rw [touch_supplied hfault]; rfl⟩

/-- One byte is written. An access to a later address of its page ends, although its own offset is
behind the end of the data. -/
theorem touch_ends_iff_first_page :
    ∃ answers s, exec ScullpSys.mapStep (.load .default) (writeAndMap.map .call) =
        some (answers, s) ∧ s.dev.size < (VmArea.mk 8192 0).offset 8292 ∧
        ∃ n, (touch s.dev ⟨8192, 0⟩ 8292 n).isSome :=
  ⟨_, _, rfl, by decide,
    (@touch_ends_iff .default (writeAndMap.map .call) _ _ rfl _ _).mpr (by decide)⟩

/-- The third page of the device is written, and the device is mapped. -/
def writeThirdPage : List ScullpOp :=
  [.scullpLlseek 0 8192 0,
    .scullpWrite 0 1 ⟨[7], []⟩ false ⟨fun _ => true, true, some fun _ => 0⟩, .scullpMmap 1]

/-- An access to the hole before it, and one after the end of the data, never ends: neither a page
is supplied nor is there a signal, whatever the number of faults. -/
theorem touch_never_ends :
    ∃ answers s, exec ScullpSys.mapStep (.load .default) (writeThirdPage.map .call) =
        some (answers, s) ∧
      ∀ n, touch s.dev ⟨8192, 0⟩ 8192 n = none ∧ touch s.dev ⟨8192, 0⟩ 20480 n = none :=
  ⟨_, _, rfl, fun n => ⟨touch_eq_none rfl n, touch_eq_none rfl n⟩⟩

end ExKernel.Scullp
