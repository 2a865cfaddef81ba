import ExKernel.Scull.System
import ExKernel.Scullp.Growth
import Mathlib.Data.Finset.Card

/-!
# A scullp device, its files and its mappings

The state of the whole: the device, the heap its blocks come from, the module parameters, the
positions of the files and the mappings of the device that are live. The events are the methods of
the device, each taken as one step, with whatever allocations and copies fail, and the callbacks by
which the kernel says that a mapping was duplicated or has ended.

A device that is mapped is not emptied, so the pages that a process has mapped are not released
under it. The protection has several parts: a device is mapped only when its order is 0, the
callbacks count the mappings, and `scullp_trim` refuses by this count. That the caller of
`scullp_trim` ignores the refusal, and that the parameters change at any time, does no harm.

## Main definitions

* `Scullp.ScullpSys`, `Scullp.ScullpOp`, `Scullp.ScullpSys.step`.
* `Scullp.MappingCall`: the callbacks are called for live mappings.
* `Scullp.MapRep`: the invariant.
* `Scullp.Pinned`: what does not change while the device is mapped.

## Main results

* `Scullp.moved_of_step`: what one call does to the device.
* `Scullp.mapped_pages_stay`: mapped pages over all runs.

## References

* `ldd/scullp/main.c`, lines 117–136, 163–263, 269–387 and 413–441; `ldd/scullp/mmap.c`,
  lines 33–45 and 106–119.
-/

namespace ExKernel.Scullp

open Transition
open Scull (AccMode Answer AllocEnv Quantum)

/-- The device, the heap, the module parameters, the position of each file, and the live mappings of
the device. -/
structure ScullpSys where
  dev : ScullpDev
  heap : Ledger
  params : ScullpParams
  files : ℕ → ℤ
  areas : Finset ℕ

/-- The module as it is loaded with the parameters `params`; the first block is that of
`scullp_devices`. -/
def ScullpSys.load (params : ScullpParams) : ScullpSys :=
  ⟨.init params, Ledger.empty.alloc, params, fun _ => 0, ∅⟩

/-- A call of one of the methods of the device, or of one of the callbacks of a mapping; `lockIntr`
is whether taking the lock is interrupted. The mapping `copy` is a duplicate of the mapping
`area`. -/
inductive ScullpOp
  | scullpOpen (file : ℕ) (mode : AccMode) (lockIntr : Bool)
  | scullpRead (file count room : ℕ) (lockIntr : Bool) (env : AllocEnv)
  | scullpWrite (file count : ℕ) (src : UserBuffer) (lockIntr : Bool) (env : AllocEnv)
  | scullpLlseek (file : ℕ) (off : Int64) (whence : Int32)
  | scullpIoctl (cmd : UInt32) (arg : UInt64) (env : IoctlEnv)
  | scullpMmap (area : ℕ)
  | scullpVmaOpen (area copy : ℕ)
  | scullpVmaClose (area : ℕ)

/-- The system after a read or write on a file. -/
def ScullpSys.after (s : ScullpSys) (file : ℕ) (res : ScullpResult) : Answer × ScullpSys :=
  (⟨res.ret, res.bytes⟩,
    { s with dev := res.dev, heap := res.heap, files := Function.update s.files file res.fPos })

/-- One call.

Source: `ldd/scullp/main.c`, lines 117–136, 163–263 and 269–387; `ldd/scullp/mmap.c`, lines 33–45
and 106–119. -/
def ScullpSys.step (s : ScullpSys) : ScullpOp → Option (Answer × ScullpSys)
  | .scullpOpen file mode lockIntr =>
    if mode = .wronly then
      if lockIntr then some (⟨-ERESTARTSYS, []⟩, s)
      else (scullpTrim s.params s.dev s.heap).map fun out =>
        (⟨0, []⟩,
          { s with dev := out.2.1, heap := out.2.2, files := Function.update s.files file 0 })
    else some (⟨0, []⟩, { s with files := Function.update s.files file 0 })
  | .scullpRead file count room lockIntr env =>
    (scullpRead s.dev s.heap (s.files file) count room lockIntr env).map (s.after file)
  | .scullpWrite file count src lockIntr env =>
    (scullpWrite s.dev s.heap (s.files file) count src lockIntr env).map (s.after file)
  | .scullpLlseek file off whence =>
    let out := scullpLlseek s.dev (s.files file) off whence
    some (⟨out.1, []⟩, { s with files := Function.update s.files file out.2 })
  | .scullpIoctl cmd arg env =>
    let out := scullpIoctl s.params cmd arg env
    some (⟨out.ret, []⟩, { s with params := out.params })
  | .scullpMmap area =>
    let out := scullpMmap s.dev
    some (⟨out.1, []⟩,
      { s with dev := out.2, areas := if out.1 = 0 then insert area s.areas else s.areas })
  | .scullpVmaOpen _ copy =>
    some (⟨0, []⟩, { s with dev := scullpVmaOpen s.dev, areas := insert copy s.areas })
  | .scullpVmaClose area =>
    some (⟨0, []⟩, { s with dev := scullpVmaClose s.dev, areas := s.areas.erase area })

/-! ### Single steps -/

/-- A call may put a new block into the list item `n`. -/
def ScullpSys.NewBlock (s : ScullpSys) (op : ScullpOp) (n : ℕ) : Prop :=
  match op with
  | .scullpWrite file _ _ lockIntr env => Allocates s.dev (s.files file) lockIntr env n
  | _ => False

/-- What a call does to the device. -/
inductive Moved (s : ScullpSys) (op : ScullpOp) (t : ScullpSys) : Prop
  | grown (hgrown : Grown (s.NewBlock op) s.dev s.heap t.dev t.heap) (hareas : t.areas = s.areas)
  | emptied (file : ℕ) (hop : op = .scullpOpen file .wronly false) (hvmas : s.dev.vmas = 0)
      (hdev : t.dev = { s.dev with data := none, next := [], order := s.params.order,
                                   qset := s.params.qset, size := 0 })
      (hareas : t.areas = s.areas)
  | mapped (area : ℕ) (hop : op = .scullpMmap area) (horder : s.dev.order = 0)
      (hdev : t.dev = scullpVmaOpen s.dev) (hheap : t.heap = s.heap)
      (hareas : t.areas = insert area s.areas)
  | copied (area copy : ℕ) (hop : op = .scullpVmaOpen area copy)
      (hdev : t.dev = scullpVmaOpen s.dev) (hheap : t.heap = s.heap)
      (hareas : t.areas = insert copy s.areas)
  | closed (area : ℕ) (hop : op = .scullpVmaClose area)
      (hdev : t.dev = scullpVmaClose s.dev) (hheap : t.heap = s.heap)
      (hareas : t.areas = s.areas.erase area)

theorem scullpTrim_cases {params : ScullpParams} {dev dev' : ScullpDev} {heap heap' : Ledger}
    {ret : ℤ} (h : scullpTrim params dev heap = some (ret, dev', heap')) :
    (dev.vmas ≠ 0 ∧ ret = -EBUSY ∧ dev' = dev ∧ heap' = heap) ∨
    dev.vmas = 0 ∧ ret = 0 ∧ dev' = { dev with data := none, next := [], order := params.order,
                                                qset := params.qset, size := 0 } := by
  rw [scullpTrim] at h
  split_ifs at h with hvmas
  · cases h
    exact .inl ⟨hvmas, rfl, rfl, rfl⟩
  · obtain ⟨heap₁, -, h⟩ := Option.bind_eq_some_iff.mp h
    obtain ⟨heap₂, -, h⟩ := Option.map_eq_some_iff.mp h
    cases h
    exact .inr ⟨not_not.mp hvmas, rfl, rfl⟩

theorem open_cases {s t : ScullpSys} {file : ℕ} {mode : AccMode} {lockIntr : Bool} {r : Answer}
    (h : s.step (.scullpOpen file mode lockIntr) = some (r, t)) :
    (t.dev = s.dev ∧ t.heap = s.heap ∧ t.areas = s.areas) ∨
    mode = .wronly ∧ lockIntr = false ∧ s.dev.vmas = 0 ∧
      t.dev = { s.dev with data := none, next := [], order := s.params.order,
                           qset := s.params.qset, size := 0 } ∧ t.areas = s.areas := by
  simp only [ScullpSys.step] at h
  split_ifs at h with hmode hintr
  · cases h
    exact .inl ⟨rfl, rfl, rfl⟩
  · obtain ⟨⟨ret, dev, heap⟩, htrim, h⟩ := Option.map_eq_some_iff.mp h
    cases h
    rcases scullpTrim_cases htrim with ⟨-, -, hdev, hheap⟩ | ⟨hvmas, -, hdev⟩
    · exact .inl ⟨hdev, hheap, rfl⟩
    · exact .inr ⟨hmode, Bool.eq_false_iff.mpr hintr, hvmas, hdev, rfl⟩
  · cases h
    exact .inl ⟨rfl, rfl, rfl⟩

/-- **What one call does to the device.** -/
theorem moved_of_step {s t : ScullpSys} {op : ScullpOp} {r : Answer}
    (h : s.step op = some (r, t)) : Moved s op t := by
  cases op with
  | scullpOpen file mode lockIntr =>
    rcases open_cases h with ⟨hdev, hheap, hareas⟩ | ⟨rfl, rfl, hvmas, hdev, hareas⟩
    · refine .grown ?_ hareas
      rw [hdev, hheap]
      exact .refl _ _
    · exact .emptied file rfl hvmas hdev hareas
  | scullpRead file count room lockIntr env =>
    obtain ⟨res, hres, h⟩ := Option.map_eq_some_iff.mp h
    cases h
    exact .grown (Grown.read hres).1 rfl
  | scullpWrite file count src lockIntr env =>
    obtain ⟨res, hres, h⟩ := Option.map_eq_some_iff.mp h
    cases h
    exact .grown (Grown.write hres).1 rfl
  | scullpLlseek file off whence =>
    cases h
    exact .grown (.refl _ _) rfl
  | scullpIoctl cmd arg env =>
    cases h
    exact .grown (.refl _ _) rfl
  | scullpMmap area =>
    cases h
    by_cases horder : s.dev.order = 0
    · refine .mapped area rfl horder ?_ rfl ?_
      · simp [scullpMmap, horder]
      · simp [scullpMmap, horder]
    · have hrefused : scullpMmap s.dev = (-ENODEV, s.dev) := by simp [scullpMmap, horder]
      have hne : (-ENODEV : ℤ) ≠ 0 := by decide
      refine .grown ?_ ?_
      · simp only [hrefused]
        exact .refl _ _
      · simp only [hrefused]
        exact if_neg hne
  | scullpVmaOpen area copy =>
    cases h
    exact .copied area copy rfl rfl rfl rfl
  | scullpVmaClose area =>
    cases h
    exact .closed area rfl rfl rfl rfl

/-! ### Mappings -/

/-- How the kernel uses the callbacks: a new mapping is none of the live ones, and a mapping that is
duplicated or that ends is one of them. -/
def MappingCall (s : ScullpSys) : ScullpOp → Prop
  | .scullpMmap area => area ∉ s.areas
  | .scullpVmaOpen area copy => area ∈ s.areas ∧ copy ∉ s.areas
  | .scullpVmaClose area => area ∈ s.areas
  | _ => True

/-- The invariant: the count is the number of the live mappings, a device that is mapped has order
0, and the blocks of the device are live. -/
structure MapRep (s : ScullpSys) : Prop where
  vmas_eq : s.dev.vmas = s.areas.card
  order_eq : 0 < s.dev.vmas → s.dev.order = 0
  live : ∀ n idx q, s.dev.pagesAt n idx = some q → q.id ∈ s.heap.live

theorem MapRep.load (params : ScullpParams) : MapRep (.load params) where
  vmas_eq := rfl
  order_eq h := absurd h (by simp [ScullpSys.load, ScullpDev.init])
  live n idx q hq := by
    obtain ⟨dptr, hn, hentry⟩ := Option.bind_eq_some_iff.mp hq
    have hmem : dptr ∈ (ScullpSys.load params).dev.items := List.mem_of_getElem? hn
    rw [List.mem_singleton.mp hmem] at hentry
    cases hentry

theorem MapRep.step {s t : ScullpSys} {op : ScullpOp} (h : MapRep s) (hop : MappingCall s op)
    (hmoved : Moved s op t) : MapRep t := by
  cases hmoved with
  | grown hgrown hareas =>
    refine ⟨by rw [hgrown.vmas_eq, hareas, h.vmas_eq], fun hpos => ?_, fun n idx q hq => ?_⟩
    · rw [hgrown.order_eq]
      exact h.order_eq (hgrown.vmas_eq ▸ hpos)
    · rcases hgrown.pagesAt_fresh hq with ⟨old, hold, hid, -⟩ | ⟨-, hlive, -⟩
      · rw [hid]
        exact hgrown.live _ (h.live n idx old hold)
      · exact hlive
  | emptied file hop' hvmas hdev hareas =>
    refine ⟨by rw [hdev, hareas, ← h.vmas_eq], fun hpos => ?_, fun n idx q hq => ?_⟩
    · rw [hdev] at hpos
      exact absurd hpos (by rw [hvmas]; exact lt_irrefl 0)
    · rw [hdev] at hq
      obtain ⟨dptr, hn, hentry⟩ := Option.bind_eq_some_iff.mp hq
      rw [List.mem_singleton.mp (List.mem_of_getElem? hn)] at hentry
      cases hentry
  | mapped area hop' horder hdev hheap hareas =>
    subst hop'
    refine ⟨?_, fun _ => by rw [hdev]; exact horder, fun n idx q hq => ?_⟩
    · rw [hdev, hareas, Finset.card_insert_of_notMem hop, scullpVmaOpen, h.vmas_eq]
      rfl
    · rw [hheap]
      rw [hdev] at hq
      exact h.live n idx q hq
  | copied area copy hop' hdev hheap hareas =>
    subst hop'
    have hpos : 0 < s.dev.vmas := by
      rw [h.vmas_eq]
      exact_mod_cast Finset.card_pos.mpr ⟨area, hop.1⟩
    refine ⟨?_, fun _ => by rw [hdev]; exact h.order_eq hpos, fun n idx q hq => ?_⟩
    · rw [hdev, hareas, Finset.card_insert_of_notMem hop.2, scullpVmaOpen, h.vmas_eq]
      rfl
    · rw [hheap]
      rw [hdev] at hq
      exact h.live n idx q hq
  | closed area hop' hdev hheap hareas =>
    subst hop'
    refine ⟨?_, fun hpos => ?_, fun n idx q hq => ?_⟩
    · have hcard := Finset.card_erase_add_one hop
      rw [hdev, hareas, scullpVmaClose, h.vmas_eq]
      simp only
      omega
    · rw [hdev] at hpos ⊢
      refine h.order_eq ?_
      simp only [scullpVmaClose] at hpos
      omega
    · rw [hheap]
      rw [hdev] at hq
      exact h.live n idx q hq

/-- What does not change while the device is mapped, from the state `s` on: the order is 0, the
number of entries of a quantum set is the same, the data does not get less, and every block of the
device is still there: live, at the same index of the same list item. -/
structure Pinned (s t : ScullpSys) : Prop where
  order_eq : t.dev.order = 0
  qset_eq : t.dev.qset = s.dev.qset
  size_le : s.dev.size ≤ t.dev.size
  items : ∀ (n : ℕ) (dptr : ScullpItem), s.dev.items[n]? = some dptr →
    ∃ dptr', t.dev.items[n]? = some dptr' ∧ dptr'.id = dptr.id
  pages : ∀ n idx q, s.dev.pagesAt n idx = some q →
    ∃ q', t.dev.pagesAt n idx = some q' ∧ q'.id = q.id ∧ q'.size = q.size ∧ q'.id ∈ t.heap.live

theorem Pinned.refl {s : ScullpSys} (h : MapRep s) (hpos : 0 < s.dev.vmas) : Pinned s s where
  order_eq := h.order_eq hpos
  qset_eq := rfl
  size_le := le_rfl
  items _ dptr hn := ⟨dptr, hn, rfl⟩
  pages n idx q hq := ⟨q, hq, rfl, rfl, h.live n idx q hq⟩

theorem Pinned.step {s t u : ScullpSys} {op : ScullpOp} (h : Pinned s t) (hu : MapRep u)
    (hpos : 0 < t.dev.vmas) (hmoved : Moved t op u) : Pinned s u := by
  have hsame : ∀ {n}, u.dev = { t.dev with vmas := n } → u.heap = t.heap → Pinned s u := by
    intro n hdev hheap
    obtain ⟨horder, hqset, hsize, hitems, hpages⟩ := h
    refine ⟨?_, ?_, ?_, ?_, ?_⟩
    · rw [hdev]
      exact horder
    · rw [hdev]
      exact hqset
    · rw [hdev]
      exact hsize
    · rw [hdev]
      exact hitems
    · rw [hdev, hheap]
      exact hpages
  cases hmoved with
  | grown hgrown _ =>
    refine ⟨hgrown.order_eq.trans h.order_eq, hgrown.qset_eq.trans h.qset_eq,
      h.size_le.trans hgrown.size_le, fun n dptr hn => ?_, fun n idx q hq => ?_⟩
    · obtain ⟨dptr', hn', hid⟩ := h.items n dptr hn
      have hlt : n < u.dev.items.length :=
        (List.getElem?_eq_some_iff.mp hn').1.trans_le hgrown.length_le
      have hitem := hgrown.item n _ (List.getElem?_eq_getElem hlt)
      rw [hn'] at hitem
      exact ⟨_, List.getElem?_eq_getElem hlt, hitem.id_eq.trans hid⟩
    · obtain ⟨q', hq', hid, hsize, -⟩ := h.pages n idx q hq
      obtain ⟨q'', hq'', hid', hsize'⟩ := hgrown.pagesAt_kept hq'
      exact ⟨q'', hq'', hid'.trans hid, hsize'.trans hsize, hu.live n idx q'' hq''⟩
  | emptied _ _ hvmas _ _ => exact absurd hvmas hpos.ne'
  | mapped _ _ _ hdev hheap _ => exact hsame hdev hheap
  | copied _ _ _ hdev hheap _ => exact hsame hdev hheap
  | closed _ _ hdev hheap _ => exact hsame hdev hheap

/-- **Mapped pages are never released or moved.** In every run of opens, reads, writes, seeks,
ioctls, mappings and callbacks, with whatever failures, the count of the device is the number of the
live mappings. And throughout every part of the run in which the count stays positive, the order is
0, the size of a quantum set does not change, the data does not get less, and every block that the
device had at the beginning of the part is live, at the same index of the same list item.

Source: `ldd/scullp/main.c`, lines 117–136 and 413–441; `ldd/scullp/mmap.c`, lines 33–45 and
106–119. -/
theorem mapped_pages_stay (params : ScullpParams) {before period : List ScullpOp}
    (hops : Guarded ScullpSys.step MappingCall (.load params) (before ++ period))
    {answers : List Answer} {s : ScullpSys}
    (hrun : exec ScullpSys.step (.load params) before = some (answers, s)) :
    Always ScullpSys.step (fun t => t.dev.vmas = t.areas.card) (.load params) (before ++ period) ∧
      (Always ScullpSys.step (fun t => 0 < t.dev.vmas) s period →
        Always ScullpSys.step (Pinned s) s period) := by
  have hstep : ∀ s op r t, MapRep s → MappingCall s op → s.step op = some (r, t) → MapRep t :=
    fun s op r t h hop hst => h.step hop (moved_of_step hst)
  refine ⟨(always_of_invariant MapRep hstep (.load params) hops).mono fun _ h => h.vmas_eq,
    fun hpos => ?_⟩
  have hs : MapRep s := exec_invariant MapRep hstep (.load params) hops.append_left hrun
  have hguard : Guarded ScullpSys.step (fun t op => MappingCall t op ∧ 0 < t.dev.vmas) s period :=
    (hops.append_right hrun).and (hpos.guarded fun _ _ h => h)
  refine (always_of_invariant (fun t => MapRep t ∧ Pinned s t) ?_
    ⟨hs, .refl hs hpos.head⟩ hguard).mono fun _ h => h.2
  rintro t op r u ⟨ht, hpinned⟩ ⟨hop, hvmas⟩ hst
  have hmoved := moved_of_step hst
  have hu := ht.step hop hmoved
  exact ⟨hu, hpinned.step hu hvmas hmoved⟩

/-- A page is written, and the device is mapped. -/
def writeAndMap : List ScullpOp :=
  [.scullpWrite 0 1 ⟨[7], []⟩ false ⟨fun _ => true, true, some fun _ => 0⟩, .scullpMmap 1]

/-- The order is set to 1, and the device is opened for writing only. -/
def reshape : List ScullpOp :=
  [.scullpIoctl SCULLP_IOCTORDER 1 ⟨true, false, none, true⟩, .scullpOpen 1 .wronly false]

/-- The page stays when the order is set to 1 and the device is opened for writing only. -/
theorem mapped_pages_stay_reopened :
    ∃ answers s, exec ScullpSys.step (.load .default) writeAndMap = some (answers, s) ∧
      Always ScullpSys.step (Pinned s) s reshape := by
  have hops : Guarded ScullpSys.step MappingCall (.load .default) (writeAndMap ++ reshape) := by
    refine ⟨trivial, fun _ _ h => ?_⟩
    cases h
    refine ⟨Finset.notMem_empty 1, fun _ _ h => ?_⟩
    cases h
    exact ⟨trivial, fun _ _ _ => ⟨trivial, fun _ _ _ => trivial⟩⟩
  refine ⟨_, _, rfl, (mapped_pages_stay .default hops rfl).2 ?_⟩
  refine ⟨Int.zero_lt_one, fun _ _ h => ?_⟩
  cases h
  refine ⟨Int.zero_lt_one, fun _ _ h => ?_⟩
  cases h
  exact Int.zero_lt_one

end ExKernel.Scullp
