import ExKernel.Scull.System
import ExKernel.Scullp.Growth

/-!
# A scullp device of order 0 as a scull device

With blocks of one page, a scullp device is a scull device with quanta of `PAGE_SIZE` bytes: its
list items are the quantum sets, the device itself being the first one. As long as there is memory
for list items, `scullp_write` does on the one what `scull_write` does on the other with quanta that
are cleared when they are allocated; and so does `scullp_read` before the end of the data. At the
end of the data scull returns at once, and scullp follows the list and copies nothing.

So what was proved about reads and writes of scull holds for scullp.

## Main definitions

* `Scullp.ScullpDev.embed`: the device as a scull device.
* `Scullp.Plain`: all list items have order 0.

## Main results

* `Scullp.write_embed`, `Scullp.read_embed`: writes, and reads before the end of the data.
* `Scullp.read_at_end`: reads at and after the end of the data.
* `Scullp.trim_embed`: emptying the device.

## References

* `ldd/scullp/main.c`, lines 146–263 and 413–441; `ldd/scull/main.c`, lines 264–389.
-/

namespace ExKernel.Scullp

open Scull (AllocEnv DevRep IoResult ItemFits Place QArray QSet Quantum ScullDev Shaped clamp
  ensureArray ensureQuantum locate quantumAt rounds scullFollow scullReadLocked scullWriteLocked
  writeQuantum)

/-- `PAGE_SIZE` as an `int`. -/
def pageInt : Int32 := 4096

theorem pageQuantum_of_order_eq {order : Int32} (h : order = 0) :
    pageQuantum order = some pageInt := by
  rw [h]
  rfl

/-- A list item as a quantum set. -/
def ScullpItem.embed (dptr : ScullpItem) : QSet := ⟨dptr.id, dptr.data⟩

/-- A device of order 0 as a scull device. -/
def ScullpDev.embed (dev : ScullpDev) : ScullDev :=
  ⟨dev.items.map ScullpItem.embed, pageInt, dev.qset, dev.size⟩

/-- The result of a call as that of a call of scull. -/
def ScullpResult.embed (res : ScullpResult) : IoResult :=
  ⟨res.ret, res.bytes, res.fPos, res.dev.embed, res.heap⟩

/-- What the allocator has, when blocks are cleared. -/
def cleared (env : AllocEnv) : AllocEnv :=
  { env with quantum := env.quantum.map fun contents => Cells.fill contents 0 0 (pageBytes 0) }

/-- All list items have order 0. -/
structure Plain (dev : ScullpDev) : Prop where
  order_eq : dev.order = 0
  next_order : ∀ dptr ∈ dev.next, dptr.order = 0

namespace Plain

variable {dev : ScullpDev}

theorem quantum_eq (h : Plain dev) : pageQuantum dev.order = some pageInt :=
  pageQuantum_of_order_eq h.order_eq

theorem item_order (h : Plain dev) {n : ℕ} {dptr : ScullpItem} (hn : dev.items[n]? = some dptr) :
    dptr.order = 0 := by
  rcases List.mem_cons.mp (List.mem_of_getElem? hn) with rfl | hmem
  · exact h.order_eq
  · exact h.next_order dptr hmem

theorem of_items {dev' : ScullpDev} (h : Plain dev)
    (hitems : ∀ dptr' ∈ dev'.items,
      dptr'.order = 0 ∨ ∃ dptr ∈ dev.items, dptr'.order = dptr.order) :
    Plain dev' := by
  have hall : ∀ dptr' ∈ dev'.items, dptr'.order = 0 := by
    intro dptr' hmem
    rcases hitems dptr' hmem with hzero | ⟨dptr, hdptr, heq⟩
    · exact hzero
    · obtain ⟨n, hn⟩ := List.getElem?_of_mem hdptr
      rw [heq, h.item_order hn]
  exact ⟨hall _ List.mem_cons_self, fun dptr hmem => hall dptr (List.mem_cons_of_mem _ hmem)⟩

theorem grown {P : ℕ → Prop} {dev' : ScullpDev} {heap heap' : Ledger} (h : Plain dev)
    (hgrown : Grown P dev heap dev' heap') : Plain dev' := by
  refine h.of_items fun dptr' hmem => ?_
  obtain ⟨n, hn'⟩ := List.getElem?_of_mem hmem
  have horder := (hgrown.item n dptr' hn').order_eq
  cases hn : dev.items[n]? with
  | none =>
    rw [hn] at horder
    exact .inl horder
  | some dptr =>
    rw [hn] at horder
    exact .inr ⟨dptr, List.mem_of_getElem? hn, horder⟩

end Plain

/-! ### Following the list -/

/-- The items after the first, followed by one item more, are a list of quantum sets. -/
theorem follow_next_embed {answer : ℕ → Bool} (hanswer : ∀ k, answer k = true) (n : ℕ)
    (next : List ScullpItem) (heap : Ledger) :
    ∃ next' heap', scullpFollow answer (n + 1) next heap = some (next', heap') ∧
      scullFollow answer n (next.map ScullpItem.embed) heap =
        (true, next'.map ScullpItem.embed, heap') := by
  induction n generalizing next heap with
  | zero =>
    cases next with
    | nil =>
      refine ⟨[⟨heap.next, none, 0⟩], heap.alloc, ?_, Scull.scullFollow_nil_zero (hanswer 0)⟩
      simp [scullpFollow, hanswer]
    | cons dptr next => exact ⟨dptr :: next, heap, rfl, rfl⟩
  | succ n ih =>
    cases next with
    | nil =>
      obtain ⟨next', heap', hfollow, hscull⟩ := ih [] heap.alloc
      refine ⟨⟨heap.next, none, 0⟩ :: next', heap', ?_, ?_⟩
      · rw [scullpFollow, if_pos (hanswer _), hfollow]
        rfl
      · rw [List.map_nil, Scull.scullFollow_nil_succ (hanswer _)]
        rw [List.map_nil] at hscull
        rw [hscull]
        rfl
    | cons dptr next =>
      obtain ⟨next', heap', hfollow, hscull⟩ := ih next heap
      refine ⟨dptr :: next', heap', ?_, ?_⟩
      · rw [scullpFollow, hfollow]
        rfl
      · rw [List.map_cons, Scull.scullFollow_cons_succ, hscull]
        rfl

/-- **Following the list**, with memory for list items. -/
theorem follow_embed {answer : ℕ → Bool} (hanswer : ∀ k, answer k = true) (n : ℕ)
    (dev : ScullpDev) (heap : Ledger) :
    ∃ next heap', scullpFollow answer n dev.next heap = some (next, heap') ∧
      scullFollow answer n dev.embed.data heap =
        (true, ({ dev with next := next } : ScullpDev).embed.data, heap') := by
  cases n with
  | zero => exact ⟨dev.next, heap, by rw [scullpFollow], rfl⟩
  | succ n =>
    obtain ⟨next, heap', hfollow, hscull⟩ := follow_next_embed hanswer n dev.next heap
    refine ⟨next, heap', hfollow, ?_⟩
    have hcons : dev.embed.data =
        ⟨scullpDevices, dev.data⟩ :: dev.next.map ScullpItem.embed := rfl
    rw [hcons, Scull.scullFollow_cons_succ, hscull]
    rfl

/-! ### Writing -/

section Write

variable {dev : ScullpDev} {n : ℕ} {dptr : ScullpItem}

theorem getElem?_embed (dev : ScullpDev) (n : ℕ) :
    dev.embed.data[n]? = (dev.items[n]?).map ScullpItem.embed := by
  rw [ScullpDev.embed, List.getElem?_map]

theorem setData_embed (hn : dev.items[n]? = some dptr) (arr : QArray) :
    (dev.setData n arr).embed = dev.embed.setArray n dptr.embed arr := by
  simp only [ScullpDev.embed, ScullDev.setArray, items_setData hn, setData_qset, setData_size,
    List.map_set]
  rfl

theorem setData_setData (dev : ScullpDev) (n : ℕ) (arr arr' : QArray) :
    (dev.setData n arr).setData n arr' = dev.setData n arr' := by
  cases n with
  | zero => rfl
  | succ n =>
    simp only [ScullpDev.setData, List.modify_modify_eq]
    rfl

/-- A block of one page that is missing is allocated as a quantum that is cleared. -/
theorem ensurePages_zero (answer : Option (ℤ → UInt8)) (entry : Option Quantum) (heap : Ledger) :
    ensurePages 0 answer entry heap = ensureQuantum pageInt
      (answer.map fun contents => Cells.fill contents 0 0 (pageBytes 0)) entry heap := rfl

/-- The copy of a write into a block that has been put into its place. -/
theorem writePages_embed {heap : Ledger} {fPos : ℤ} {place : Place} {arr : QArray} {q : Quantum}
    (hn : dev.items[rounds place.item]? = some dptr) (count : ℕ) (src : UserBuffer) :
    (writePages pageInt
      (dev.setData (rounds place.item)
        { arr with cells := Function.update arr.cells place.sPos (some q) }) heap fPos place
      { arr with cells := Function.update arr.cells place.sPos (some q) } q count src).map
        ScullpResult.embed =
      writeQuantum pageInt dev.embed heap fPos place dptr.embed arr q count src := by
  have hsize : ∀ arr, (dev.setData (rounds place.item) arr).size = dev.embed.size :=
    setData_size dev _
  simp only [writePages, writeQuantum, setData_setData, Function.update_idem, hsize]
  split_ifs with hin hcopy hlt
  · simp only [Option.map_some, ScullpResult.embed, ← setData_embed hn]
    rfl
  · simp only [Option.map_some, ScullpResult.embed, ← setData_embed hn]
    rfl
  · simp only [Option.map_some, ScullpResult.embed, ← setData_embed hn]
  · rfl

/-- **A write**, with memory for list items, is one of scull with quanta that are cleared. -/
theorem write_embed (h : Plain dev) {env : AllocEnv} (hnode : ∀ k, env.node k = true)
    (heap : Ledger) (fPos : ℤ) (count : ℕ) (src : UserBuffer) :
    scullWriteLocked pageInt dev.qset dev.embed heap fPos count src (cleared env) =
      (scullpWrite dev heap fPos count src false env).map ScullpResult.embed := by
  rw [scullpWrite, h.quantum_eq, Option.bind_some, scullWriteLocked]
  simp only [Bool.false_eq_true, if_false]
  cases locate pageInt dev.qset fPos with
  | none => rfl
  | some place =>
    obtain ⟨next, heap₁, hfollow, hscull⟩ := follow_embed hnode (rounds place.item) dev heap
    obtain ⟨dptr, hn⟩ := exists_item_of_follow hfollow
    have hplain : Plain { dev with next := next } :=
      h.grown (Grown.follow (P := fun _ => True) hfollow)
    have hdptr : ({ dev with next := next } : ScullpDev).embed.data[rounds place.item]? =
        some dptr.embed := by
      rw [getElem?_embed, hn]
      rfl
    have hdev : ({ dev.embed with data := ({ dev with next := next } : ScullpDev).embed.data } :
        ScullDev) = ({ dev with next := next } : ScullpDev).embed := rfl
    have hpages : ∀ entry heap, ensureQuantum pageInt (cleared env).quantum entry heap =
        ensurePages dptr.order env.quantum entry heap := by
      intro entry heap
      rw [hplain.item_order hn, ensurePages_zero]
      rfl
    have hnode' : (cleared env).node = env.node := rfl
    have harray' : (cleared env).array = env.array := rfl
    have hitem : dptr.embed.data = dptr.data := rfl
    simp only [Option.bind_some, reachPages, hfollow, hnode', hscull, hdptr, hn, if_true, hdev,
      harray', hitem, hpages]
    generalize ensureArray dev.qset env.array dptr.data heap₁ = array
    obtain ⟨none | arr, heap₂⟩ := array
    · rfl
    · simp only
      split_ifs with hin
      · generalize ensurePages dptr.order env.quantum (arr.cells place.sPos) heap₂ = entry
        obtain ⟨none | q, heap₃⟩ := entry
        · simp only [Option.bind_some, Option.map_some, ScullpResult.embed, setData_embed hn]
        · simp only [Option.bind_some]
          exact (writePages_embed hn count src).symm
      · rfl

end Write

/-! ### Reading -/

section Read

variable {dev : ScullpDev} {env : AllocEnv}

/-- **A read before the end of the data**, with memory for list items, is one of scull. -/
theorem read_embed (h : Plain dev) (hnode : ∀ k, env.node k = true) (heap : Ledger) {fPos : ℤ}
    (hpos : sizeT fPos < dev.size) (count room : ℕ) :
    scullReadLocked pageInt dev.qset dev.embed heap fPos count room env =
      (scullpRead dev heap fPos count room false env).map ScullpResult.embed := by
  have hend : ¬ sizeT fPos ≥ dev.embed.size := not_le.mpr hpos
  have hend' : ¬ sizeT fPos > dev.size := not_lt.mpr hpos.le
  rw [scullpRead, h.quantum_eq, Option.bind_some, scullReadLocked, if_neg hend]
  simp only [Bool.false_eq_true, if_false, if_neg hend']
  cases locate pageInt dev.qset fPos with
  | none => rfl
  | some place =>
    obtain ⟨next, heap₁, hfollow, hscull⟩ := follow_embed hnode (rounds place.item) dev heap
    obtain ⟨dptr, hn⟩ := exists_item_of_follow hfollow
    have hdptr : ({ dev with next := next } : ScullpDev).embed.data[rounds place.item]? =
        some dptr.embed := by
      rw [getElem?_embed, hn]
      rfl
    have hdev : ({ dev.embed with data := ({ dev with next := next } : ScullpDev).embed.data } :
        ScullDev) = ({ dev with next := next } : ScullpDev).embed := rfl
    have hitem : dptr.embed.data = dptr.data := rfl
    have hcount : Scull.upToSize dev.embed fPos count = upToSize dev fPos count := rfl
    simp only [Option.bind_some, hfollow, hscull, hdptr, hn, if_true, hdev, hitem, hcount]
    cases dptr.data with
    | none => rfl
    | some arr =>
      simp only
      split_ifs with hin
      · cases arr.cells place.sPos with
        | none => rfl
        | some q =>
          simp only
          split_ifs with hinside
          · cases copyToUser q.cells place.qPos
                (clamp pageInt place.qPos (upToSize dev fPos count)) room <;> rfl
          · rfl
      · rfl

/-- **A read at the end of the data** or after it returns nothing. It may append list items, but
leaves all blocks. -/
theorem read_at_end (h : Plain dev) (hrep : DevRep dev.embed) (hnode : ∀ k, env.node k = true)
    (heap : Ledger) {p count : ℕ} (hfit : ItemFits dev.embed p) (hend : dev.size ≤ p)
    (hcount : count ≤ maxRwCount) (room : ℕ) :
    ∃ res, scullpRead dev heap p count room false env = some res ∧ res.ret = 0 ∧ res.bytes = [] ∧
      res.fPos = p ∧ res.dev.size = dev.size ∧ DevRep res.dev.embed ∧
      ∀ k, quantumAt dev.embed.s res.dev.embed.data k = quantumAt dev.embed.s dev.embed.data k := by
  obtain ⟨hlt, -, -⟩ := hrep.pos_bounds hfit
  have hsize : sizeT (p : ℤ) = p := sizeT_natCast (by omega)
  rw [scullpRead, h.quantum_eq, Option.bind_some, hsize]
  simp only [Bool.false_eq_true, if_false]
  by_cases hafter : p > dev.size
  · rw [if_pos hafter]
    exact ⟨_, rfl, rfl, rfl, rfl, rfl, hrep, fun _ => rfl⟩
  rw [if_neg hafter]
  -- Exactly at the end the count becomes 0, and the list is followed.
  have hzero : upToSize dev p count = 0 := by
    have hpeq : (p : ℤ) = dev.size := by omega
    unfold maxRwCount at hcount
    rw [upToSize, ← Nat.cast_add, sizeT_natCast (by omega), hpeq, sub_self]
    split_ifs with hmore
    · rfl
    · omega
  have hsPos : p / dev.embed.q % dev.embed.s < dev.embed.s :=
    Nat.mod_lt _ hrep.geometry.toNat_qset_pos
  have hlocate : locate pageInt dev.qset p = some ⟨_, (p / dev.embed.q % dev.embed.s : ℕ),
      (p % dev.embed.q : ℕ)⟩ := Scull.locate_eq hrep.geometry p
  rw [hlocate, Option.bind_some]
  generalize Int32.ofInt _ = item
  obtain ⟨next, heap₁, hfollow, hscull⟩ := follow_embed hnode (rounds item) dev heap
  obtain ⟨dptr, hn⟩ := exists_item_of_follow hfollow
  have hdptr : ({ dev with next := next } : ScullpDev).embed.data[rounds item]? =
      some dptr.embed := by
    rw [getElem?_embed, hn]
    rfl
  obtain ⟨hshape, hlen, harrays, -, -⟩ :=
    Scull.scullFollow_kept hrep.shaped env.node (rounds item) heap
  rw [hscull] at hshape hlen harrays
  have hat := Scull.quantumAt_congr dev.embed.s harrays
  have hrep' : DevRep ({ dev with next := next } : ScullpDev).embed :=
    ⟨hrep.geometry, hshape, fun hpos => (hrep.covered hpos).trans_le hlen, hrep.size_lt⟩
  have hitem : dptr.embed.data = dptr.data := rfl
  simp only [hfollow, Option.bind_some, hn, hzero]
  rcases hshape.entry_cases hdptr hsPos with ⟨hdata, -⟩ | ⟨arr, hdata, hin, -, -⟩
  · rw [hitem] at hdata
    rw [hdata]
    exact ⟨_, rfl, rfl, rfl, rfl, rfl, hrep', hat⟩
  · rw [hitem] at hdata
    simp only [hdata, if_pos hin]
    cases arr.cells ((p / dev.embed.q % dev.embed.s : ℕ) : ℤ) with
    | none => exact ⟨_, rfl, rfl, rfl, rfl, rfl, hrep', hat⟩
    | some q =>
      have hclamp : ∀ qPos, clamp pageInt qPos 0 = 0 := fun qPos => if_neg (Nat.not_lt_zero _)
      have hinside : ∀ qPos, q.Contains qPos 0 := fun qPos => .inl rfl
      simp only [hclamp, if_pos (hinside _), copyToUser, Nat.zero_le, if_true, Cells.load_zero]
      refine ⟨_, rfl, rfl, rfl, ?_, rfl, hrep', hat⟩
      simp only [Nat.cast_zero, add_zero]
      exact loffT_natCast hlt

end Read

/-! ### Emptying the device -/

theorem freeData_of_size {qset : ℕ} {data : Option QArray} (heap : Ledger)
    (h : ∀ arr, data = some arr → arr.size = qset) :
    ∃ heap', freeData qset data heap = some heap' := by
  cases data with
  | none => exact ⟨heap, rfl⟩
  | some arr => exact ⟨_, by rw [freeData, if_pos (h arr rfl).ge]⟩

theorem freeNext_of_size {qset : ℕ} {next : List ScullpItem} (heap : Ledger)
    (h : ∀ dptr ∈ next, ∀ arr, dptr.data = some arr → arr.size = qset) :
    ∃ heap', freeNext qset next heap = some heap' := by
  induction next generalizing heap with
  | nil => exact ⟨heap, rfl⟩
  | cons dptr next ih =>
    obtain ⟨heap₁, hfree⟩ := freeData_of_size heap (h dptr List.mem_cons_self)
    obtain ⟨heap₂, hrest⟩ := ih (heap₁.free dptr.id) fun d hd => h d (List.mem_cons_of_mem _ hd)
    exact ⟨heap₂, by rw [freeNext, hfree, Option.bind_some, hrest]⟩

/-- **Emptying a device** that is not mapped. -/
theorem trim_embed {dev : ScullpDev} (hrep : DevRep dev.embed) (hvmas : dev.vmas = 0)
    (params : ScullpParams) (heap : Ledger) :
    ∃ heap', scullpTrim params dev heap = some (0,
      { dev with
        data := none, next := [], order := params.order, qset := params.qset, size := 0 },
      heap') := by
  have hsize : ∀ dptr ∈ dev.items, ∀ arr, dptr.data = some arr →
      arr.size = dev.qset.toInt.toNat := by
    intro dptr hmem arr harr
    exact (hrep.shaped dptr.embed (List.mem_map_of_mem hmem) arr harr).1
  obtain ⟨heap₁, hfree⟩ := freeData_of_size heap (hsize _ List.mem_cons_self)
  obtain ⟨heap₂, hrest⟩ :=
    freeNext_of_size heap₁ fun dptr hmem => hsize dptr (List.mem_cons_of_mem _ hmem)
  refine ⟨heap₂, ?_⟩
  rw [scullpTrim, if_neg (not_not.mpr hvmas)]
  simp only at hfree
  rw [hfree, Option.bind_some, hrest]
  rfl

end ExKernel.Scullp
