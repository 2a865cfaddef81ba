import ExKernel.Scull.Calls
import ExKernel.Scullp.Embedding
import ExKernel.Scullp.Shape

/-!
# The blocks of a scullp device

The blocks of a device are those of its list items after the first, of their arrays, and of the
pages in the entries of the arrays. What a call allocates it attaches to the list, whatever fails
afterwards; and `scullp_trim` releases the list, unless the device is mapped, when it releases
nothing. So the live blocks are always those of the device, whatever the order, the geometry and the
positions, and no block is released twice.

That `scullp_trim` finds all pages rests on the length of the arrays (`Sized`).

## Main definitions

* `Scullp.ScullpDev.blocks`: the blocks of a device.
* `Scullp.Kept`: what a call keeps that attaches what it allocates.

## Main results

* `Scullp.Kept.read`, `Scullp.Kept.write`: reads and writes attach what they allocate.
* `Scullp.Sized.trim`: emptying a device that is not mapped.
* `Scullp.accounted_of_step`: what one call does to the blocks.
* `Scullp.no_leak`: the blocks over all runs.

## References

* `ldd/scullp/main.c`, lines 117–136, 146–263 and 413–441.
-/

namespace ExKernel.Scullp

open Scull (AllocEnv Answer Place QArray QSet Quantum clamp ensureArray locate rounds)
open Transition

/-- The list items as quantum sets, the device first. -/
def ScullpDev.sets (dev : ScullpDev) : List QSet := dev.items.map ScullpItem.embed

/-- The blocks of an array with `qset` entries, and the array itself, if there is one. -/
def dataBlocks (qset : ℕ) : Option QArray → List ℕ
  | none => []
  | some arr => QArray.blocks qset arr ++ [arr.id]

/-- The blocks of a device, in the order in which `scullp_trim` releases them. -/
def ScullpDev.blocks (dev : ScullpDev) : List ℕ :=
  dataBlocks dev.entries dev.data ++ Scull.blocks dev.entries (dev.next.map ScullpItem.embed)

theorem blocks_cons (qset : ℕ) (dptr : ScullpItem) (next : List ScullpItem) :
    Scull.blocks qset ((dptr :: next).map ScullpItem.embed) =
      dataBlocks qset dptr.data ++ dptr.id :: Scull.blocks qset (next.map ScullpItem.embed) := by
  obtain ⟨id, data, order⟩ := dptr
  rw [List.map_cons, Scull.blocks, List.flatMap_cons, ← Scull.blocks]
  cases data with
  | none => rfl
  | some arr => simp [QSet.blocks, ScullpItem.embed, dataBlocks]

/-- The quantum sets have the blocks of the device, and the one that it is in itself. -/
theorem blocks_sets (dev : ScullpDev) :
    (Scull.blocks dev.entries dev.sets).Perm (scullpDevices :: dev.blocks) := by
  rw [ScullpDev.sets, ScullpDev.items, blocks_cons]
  exact List.perm_middle

/-- What a call keeps that attaches what it allocates: the geometry, and that the new blocks are
those of the device. -/
structure Kept (dev : ScullpDev) (heap : Ledger) (dev' : ScullpDev) (heap' : Ledger) : Prop where
  qset_eq : dev'.qset = dev.qset
  grows : ∃ ids, heap.Grows heap' ids ∧
    (Scull.blocks dev.entries dev'.sets).Perm (ids ++ Scull.blocks dev.entries dev.sets)

namespace Kept

variable {dev dev' dev'' : ScullpDev} {heap heap' heap'' : Ledger}

theorem refl (dev : ScullpDev) (heap : Ledger) : Kept dev heap dev heap :=
  ⟨rfl, [], .refl heap, .refl _⟩

theorem trans (h : Kept dev heap dev' heap') (h' : Kept dev' heap' dev'' heap'') :
    Kept dev heap dev'' heap'' := by
  obtain ⟨ids, hgrows, hperm⟩ := h.grows
  obtain ⟨jds, hgrows', hperm'⟩ := h'.grows
  have hentries : dev'.entries = dev.entries := congrArg (fun q => q.toInt.toNat) h.qset_eq
  rw [hentries] at hperm'
  refine ⟨h'.qset_eq.trans h.qset_eq, jds ++ ids, hgrows.trans hgrows', ?_⟩
  rw [List.append_assoc]
  exact hperm'.trans (hperm.append_left jds)

/-- The call has given the old blocks of the device for the new ones. -/
theorem trades (h : Kept dev heap dev' heap') : heap.Trades heap' dev.blocks dev'.blocks := by
  obtain ⟨ids, hgrows, hperm⟩ := h.grows
  have hentries : dev'.entries = dev.entries := congrArg (fun q => q.toInt.toNat) h.qset_eq
  refine .of_grows hgrows (List.Perm.cons_inv (a := scullpDevices) ?_)
  have hafter := blocks_sets dev'
  rw [hentries] at hafter
  exact hafter.symm.trans (hperm.trans (((blocks_sets dev).append_left ids).trans
    List.perm_middle))

end Kept

/-! ### Reads and writes -/

/-- Following the list appends items without an array, one block each. -/
theorem scullpFollow_grows {answer : ℕ → Bool} {n : ℕ} {next next' : List ScullpItem}
    {heap heap' : Ledger} (h : scullpFollow answer n next heap = some (next', heap')) :
    ∃ fresh : List ScullpItem, next' = next ++ fresh ∧ (∀ dptr ∈ fresh, dptr.data = none) ∧
      ∃ ids, heap.Grows heap' ids ∧ ids.Perm (fresh.map ScullpItem.id) := by
  induction n generalizing next next' heap with
  | zero =>
    cases h
    exact ⟨[], (List.append_nil _).symm, nofun, [], .refl _, .refl _⟩
  | succ n ih =>
    cases next with
    | cons dptr next =>
      obtain ⟨⟨rest, heap₁⟩, hrest, heq⟩ := Option.map_eq_some_iff.mp h
      cases heq
      obtain ⟨fresh, rfl, hfresh⟩ := ih hrest
      exact ⟨fresh, rfl, hfresh⟩
    | nil =>
      rw [scullpFollow] at h
      split_ifs at h with hans
      obtain ⟨⟨rest, heap₁⟩, hrest, heq⟩ := Option.map_eq_some_iff.mp h
      cases heq
      obtain ⟨fresh, heq, hfresh, ids, hgrows, hperm⟩ := ih hrest
      refine ⟨⟨heap.next, none, 0⟩ :: fresh, congrArg (List.cons _) heq, ?_, ids ++ [heap.next],
        (Ledger.Grows.alloc heap).trans hgrows, ?_⟩
      · intro dptr hd
        rcases List.mem_cons.mp hd with rfl | hd
        · rfl
        · exact hfresh dptr hd
      · exact List.perm_append_comm.trans (hperm.cons heap.next)

section Calls

variable {dev : ScullpDev} {heap heap' : Ledger} {n : ℕ} {next : List ScullpItem}
  {dptr : ScullpItem} {arr : QArray} {ids : List ℕ}

theorem Kept.follow {answer : ℕ → Bool}
    (h : scullpFollow answer n dev.next heap = some (next, heap')) :
    Kept dev heap { dev with next := next } heap' := by
  obtain ⟨fresh, rfl, hfresh, ids, hgrows, hperm⟩ := scullpFollow_grows h
  refine ⟨rfl, ids, hgrows, ?_⟩
  have hsets : ({ dev with next := dev.next ++ fresh } : ScullpDev).sets =
      dev.sets ++ fresh.map ScullpItem.embed := by
    simp [ScullpDev.sets, ScullpDev.items]
  have hempty : Scull.Empties (fresh.map ScullpItem.embed) := by
    intro x hx
    obtain ⟨dptr, hd, rfl⟩ := List.mem_map.mp hx
    exact hfresh dptr hd
  rw [hsets, Scull.blocks_append hempty, List.map_map]
  exact List.perm_append_comm.trans (hperm.symm.append_right _)

theorem sets_setData (hn : dev.items[n]? = some dptr) :
    (dev.setData n arr).sets = dev.sets.set n { dptr.embed with data := some arr } := by
  rw [ScullpDev.sets, items_setData hn, List.map_set]
  rfl

theorem getElem?_sets (hn : dev.items[n]? = some dptr) : dev.sets[n]? = some dptr.embed := by
  rw [ScullpDev.sets, List.getElem?_map, hn]
  rfl

/-- An array is attached, with blocks that are new or were there. -/
theorem Kept.setData (hn : dev.items[n]? = some dptr) (hgrows : heap.Grows heap' ids)
    (hperm : (Scull.blocks dev.entries
      (dev.sets.set n { dptr.embed with data := some arr })).Perm
        (ids ++ Scull.blocks dev.entries dev.sets)) :
    Kept dev heap (dev.setData n arr) heap' := by
  refine ⟨setData_qset dev n arr, ids, hgrows, ?_⟩
  rw [sets_setData hn]
  exact hperm

theorem ensurePages_grows (order : Int32) (answer : Option (ℤ → UInt8)) (entry : Option Quantum)
    (heap : Ledger) :
    ensurePages order answer entry heap = (none, heap) ∨
    ∃ q heap' ids, ensurePages order answer entry heap = (some q, heap') ∧
      heap.Grows heap' ids ∧ ((entry = some q ∧ ids = []) ∨ (entry = none ∧ ids = [q.id])) := by
  cases entry with
  | some q => exact .inr ⟨q, heap, [], rfl, .refl heap, .inl ⟨rfl, rfl⟩⟩
  | none =>
    have hneg : ¬ ((pageBytes order : ℕ) : ℤ) < 0 := by omega
    cases answer with
    | none => exact .inl (by simp [ensurePages, kmalloc])
    | some contents =>
      refine .inr ⟨⟨heap.next, pageBytes order, Cells.fill contents 0 0 (pageBytes order)⟩,
        heap.alloc, [heap.next], ?_, .alloc heap, .inr ⟨rfl, rfl⟩⟩
      simp [ensurePages, kmalloc, hneg]

/-- **What a write has reached before its copy** is attached to the list. -/
theorem Kept.reachPages {place : Place} {env : AllocEnv} {got : Reached} (hs : Sized dev)
    (h : Scullp.reachPages dev heap place env = some got) :
    Kept dev heap got.dev got.heap ∧
      ∀ arr q, got.target = some (arr, q) →
        (∃ s : ℕ, place.sPos = s ∧ s < dev.entries ∧ arr.cells s = some q) ∧
        ∃ dptr : ScullpItem,
          got.dev.items[rounds place.item]? = some { dptr with data := some arr } := by
  obtain ⟨⟨next, heap₁⟩, hfollow, h⟩ := Option.bind_eq_some_iff.mp h
  obtain ⟨dptr, hn, h⟩ := Option.bind_eq_some_iff.mp h
  have hkept : Kept dev heap { dev with next := next } heap₁ := .follow hfollow
  have hdata : ∀ arr, dptr.embed.data = some arr → arr.size = dev.qset.toInt.toNat :=
    fun arr harr => (hs.follow hfollow).size_eq_of_mem (List.mem_of_getElem? hn) harr
  rcases Scull.ensureArray_spec hdata env.array heap₁ with
    ⟨-, -, harray⟩ | ⟨arr, heap₂, ids, harray, hgrows, hsize, -, hperm, -⟩
  · have harray' : ensureArray dev.qset env.array dptr.data heap₁ = (none, heap₁) := harray
    simp only [harray'] at h
    cases h
    exact ⟨hkept, nofun⟩
  have harray' : ensureArray dev.qset env.array dptr.data heap₁ = (some arr, heap₂) := harray
  simp only [harray'] at h
  split_ifs at h with hin
  obtain ⟨hnonneg, hlt⟩ : 0 ≤ place.sPos ∧ place.sPos + 1 ≤ arr.size := by
    rcases hin with h1 | h2
    · omega
    · exact_mod_cast h2
  obtain ⟨s, hs'⟩ := Int.eq_ofNat_of_zero_le hnonneg
  have hentries : arr.size = ({ dev with next := next } : ScullpDev).entries := hsize
  have hbound : s < ({ dev with next := next } : ScullpDev).entries := by omega
  have hsets := getElem?_sets hn
  rcases ensurePages_grows dptr.order env.quantum (arr.cells place.sPos) heap₂ with
    hpages | ⟨q, heap₃, jds, hpages, hgrows', hentry⟩
  · simp only [hpages] at h
    cases h
    exact ⟨hkept.trans (.setData hn hgrows (Scull.blocks_set_perm hsets hperm)), nofun⟩
  · simp only [hpages] at h
    cases h
    rw [hs'] at hentry
    refine ⟨hkept.trans (.setData hn (hgrows.trans hgrows') ?_), ?_⟩
    · rw [hs']
      exact Scull.blocks_setQuantum hsets hperm hbound rfl hentry
    · intro arr' q' htarget
      cases htarget
      refine ⟨⟨s, hs', hbound, ?_⟩, dptr, ?_⟩
      · rw [hs']
        exact Function.update_self _ _ _
      · rw [items_setData hn, List.getElem?_set_self (List.getElem?_eq_some_iff.mp hn).1]

theorem Kept.writePages {quantum : Int32} {fPos : ℤ} {place : Place} {q : Quantum} {count : ℕ}
    {src : UserBuffer} {res : ScullpResult}
    (hn : dev.items[rounds place.item]? = some { dptr with data := some arr })
    (hq : ∃ s : ℕ, place.sPos = s ∧ s < dev.entries ∧ arr.cells s = some q)
    (h : Scullp.writePages quantum dev heap fPos place arr q count src = some res) :
    Kept dev heap res.dev res.heap := by
  obtain ⟨s, hplace, hlt, hcell⟩ := hq
  have hset : ∀ cells, Kept dev heap (dev.setData (rounds place.item)
      { arr with cells := Function.update arr.cells place.sPos (some { q with cells := cells }) })
      heap := by
    intro cells
    have hsame : ({ q with cells := cells } : Quantum).id = q.id := rfl
    have harr : (QSet.blocks dev.entries ⟨dptr.id, some arr⟩).Perm
        ([] ++ QSet.blocks dev.entries ⟨dptr.id, some arr⟩) := .refl _
    refine .setData hn (.refl heap) ?_
    rw [hplace]
    exact Scull.blocks_setQuantum (getElem?_sets hn) harr hlt hsame (.inl ⟨hcell, rfl⟩)
  simp only [Scullp.writePages] at h
  split_ifs at h with hin hcopy hgrow
  · cases h
    obtain ⟨hqset, hgrows⟩ := hset _
    exact ⟨hqset, hgrows⟩
  · cases h
    obtain ⟨hqset, hgrows⟩ := hset _
    exact ⟨hqset, hgrows⟩
  · cases h
    exact hset _

variable {fPos : ℤ} {count room : ℕ} {src : UserBuffer} {lockIntr : Bool} {env : AllocEnv}
  {res : ScullpResult}

/-- **A write attaches what it allocates**, however it ends. -/
theorem Kept.write (hs : Sized dev)
    (h : scullpWrite dev heap fPos count src lockIntr env = some res) :
    Kept dev heap res.dev res.heap := by
  obtain ⟨quantum, -, h⟩ := Option.bind_eq_some_iff.mp h
  split_ifs at h with hintr
  · cases h
    exact .refl dev heap
  obtain ⟨place, -, h⟩ := Option.bind_eq_some_iff.mp h
  obtain ⟨got, hgot, h⟩ := Option.bind_eq_some_iff.mp h
  obtain ⟨hkept, htarget⟩ := Kept.reachPages hs hgot
  cases hcase : got.target with
  | none =>
    simp only [hcase] at h
    cases h
    exact hkept
  | some target =>
    simp only [hcase] at h
    obtain ⟨hq, dptr, hn⟩ := htarget _ _ hcase
    have hentries : got.dev.entries = dev.entries :=
      congrArg (fun q => q.toInt.toNat) hkept.qset_eq
    rw [← hentries] at hq
    exact hkept.trans (.writePages hn hq h)

/-- **A read attaches what it allocates**, which are list items. -/
theorem Kept.read
    (h : scullpRead dev heap fPos count room lockIntr env = some res) :
    Kept dev heap res.dev res.heap := by
  obtain ⟨quantum, -, h⟩ := Option.bind_eq_some_iff.mp h
  split_ifs at h with hintr hend
  · cases h
    exact .refl dev heap
  · cases h
    exact .refl dev heap
  obtain ⟨place, -, h⟩ := Option.bind_eq_some_iff.mp h
  obtain ⟨⟨next, heap'⟩, hfollow, h⟩ := Option.bind_eq_some_iff.mp h
  obtain ⟨dptr, -, h⟩ := Option.bind_eq_some_iff.mp h
  have hkept : Kept dev heap { dev with next := next } heap' := .follow hfollow
  dsimp only at h
  repeat' split at h
  all_goals cases h <;> exact hkept

/-! ### Emptying the device -/

theorem freeData_eq {S : ℕ} {data : Option QArray}
    (hs : ∀ arr, data = some arr → arr.size = S) (heap : Ledger) :
    freeData S data heap = some (heap.freeAll (dataBlocks S data)) := by
  cases data with
  | none => rfl
  | some arr =>
    rw [dataBlocks, Ledger.freeAll_append]
    simp only [freeData, if_pos (hs arr rfl).ge, Scull.freeQuanta_eq]
    rfl

theorem freeNext_eq {S : ℕ} {next : List ScullpItem}
    (hs : ∀ dptr ∈ next, ∀ arr, dptr.data = some arr → arr.size = S) (heap : Ledger) :
    freeNext S next heap =
      some (heap.freeAll (Scull.blocks S (next.map ScullpItem.embed))) := by
  induction next generalizing heap with
  | nil => rfl
  | cons dptr next ih =>
    rw [freeNext, freeData_eq (hs dptr List.mem_cons_self), Option.bind_some,
      ih fun d hd => hs d (List.mem_cons_of_mem _ hd), blocks_cons, Ledger.freeAll_append]
    rfl

/-- **Emptying a device** that is not mapped releases its blocks, one after the other. -/
theorem Sized.trim (hs : Sized dev) (params : ScullpParams) (heap : Ledger)
    (hvmas : dev.vmas = 0) :
    scullpTrim params dev heap =
      some (0, { dev with data := none, next := [], order := params.order, qset := params.qset,
                          size := 0 }, heap.freeAll dev.blocks) := by
  have hdata : ∀ arr, dev.data = some arr → arr.size = dev.qset.toInt.toNat :=
    fun arr harr => hs.size_eq (n := 0) harr
  have hnext : ∀ dptr ∈ dev.next, ∀ arr, dptr.data = some arr → arr.size = dev.qset.toInt.toNat :=
    fun dptr hd arr harr => hs.size_eq_of_mem (List.mem_cons_of_mem _ hd) harr
  rw [scullpTrim, if_neg (not_not.mpr hvmas), freeData_eq hdata, Option.bind_some,
    freeNext_eq hnext, Option.map_some, ScullpDev.blocks, Ledger.freeAll_append]
  rfl

end Calls

/-! ### Whole runs -/

/-- **What one call does to the blocks**: it gives the old blocks of the device for the new ones. -/
theorem accounted_of_step {s t : ScullpSys} {op : ScullpOp} {r : Answer} (hs : Sized s.dev)
    (h : s.step op = some (r, t)) : s.heap.Trades t.heap s.dev.blocks t.dev.blocks := by
  have hcount : ∀ n : ℤ,
      s.heap.Trades s.heap s.dev.blocks ({ s.dev with vmas := n } : ScullpDev).blocks :=
    fun n => .refl _ _
  cases op with
  | scullpOpen file mode lockIntr =>
    simp only [ScullpSys.step] at h
    split_ifs at h with hmode hintr
    · cases h
      exact hcount s.dev.vmas
    · by_cases hvmas : s.dev.vmas = 0
      · rw [hs.trim s.params s.heap hvmas] at h
        cases h
        exact .freeAll _ _
      · rw [scullpTrim, if_pos hvmas] at h
        cases h
        exact hcount s.dev.vmas
    · cases h
      exact hcount s.dev.vmas
  | scullpRead file count room lockIntr env =>
    obtain ⟨res, hres, h⟩ := Option.map_eq_some_iff.mp h
    cases h
    exact (Kept.read hres).trades
  | scullpWrite file count src lockIntr env =>
    obtain ⟨res, hres, h⟩ := Option.map_eq_some_iff.mp h
    cases h
    exact (Kept.write hs hres).trades
  | scullpLlseek file off whence =>
    cases h
    exact hcount s.dev.vmas
  | scullpIoctl cmd arg env =>
    cases h
    exact hcount s.dev.vmas
  | scullpMmap area =>
    cases h
    simp only [scullpMmap]
    split_ifs
    · exact hcount s.dev.vmas
    · exact hcount (s.dev.vmas + 1)
  | scullpVmaOpen area copy =>
    cases h
    exact hcount (s.dev.vmas + 1)
  | scullpVmaClose area =>
    cases h
    exact hcount (s.dev.vmas - 1)

/-- The live blocks are the one that the device is in and those of the device, and no block was
released twice. -/
structure Accounted (s : ScullpSys) : Prop where
  sized : Sized s.dev
  sound : s.heap.Sound
  live_perm : s.heap.live.Perm (s.dev.blocks ++ [scullpDevices])

theorem Accounted.load (params : ScullpParams) : Accounted (.load params) where
  sized := .empty rfl rfl
  sound := Ledger.sound_empty.alloc
  live_perm := .refl _

theorem Accounted.step {s t : ScullpSys} {op : ScullpOp} {r : Answer} (h : Accounted s)
    (hst : s.step op = some (r, t)) : Accounted t := by
  obtain ⟨hsound, hlive⟩ := accounted_of_step h.sized hst _ h.sound h.live_perm
  exact ⟨h.sized.step hst, hsound, hlive⟩

/-- **No leak.** After every call of every run of opens, reads, writes, seeks, ioctls, mappings and
callbacks, with whatever failures, parameters, orders and positions, the live blocks are the one
that the device is in and those that are reachable from it, and no block was released twice.

Source: `ldd/scullp/main.c`, lines 117–136, 146–263 and 413–441; `ldd/scullp/mmap.c`, lines 33–45
and 106–119. -/
theorem no_leak (params : ScullpParams) (ops : List ScullpOp) :
    Always ScullpSys.step Accounted (.load params) ops :=
  always_of_invariant Accounted (fun _ _ _ _ h _ hst => h.step hst) (.load params)
    (guarded_true _ ops)

end ExKernel.Scullp
