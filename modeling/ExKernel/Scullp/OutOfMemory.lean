import ExKernel.Scullp.Mapping

/-!
# Writes that run out of memory

A write may need list items, an array and a block. When there is no memory for the array or for the
block it returns `-ENOMEM`, and what it has appended to the list by then does no harm: it leaves the
position and the size, and no later read can tell. But `scullp_follow` does not look whether it got
the list item that it asked for, and clears it at once.

## Main definitions

* `Scullp.Extended`: a system that differs from another by a longer list and by arrays without
  blocks.
* `Scullp.Looks`: the reads and seeks of a run.
* `Scullp.Survives`: what is expected of a write when memory is short.

## Main results

* `Scullp.Extended.step`: reads and seeks answer alike and keep the relation.
* `Scullp.survives_iff`: when a write survives that memory is short.
* `Scullp.node_allocation_unchecked`: one that does not.

## References

* `ldd/scullp/main.c`, lines 146–263.
-/

namespace ExKernel.Scullp

open Transition
open Scull (AllocEnv Answer Place locate readEntry rounds)

/-! ### Reads and seeks on two systems -/

/-- The system `s'` has the blocks, the size and the positions of `s`, and a list that is not
shorter. -/
structure Extended (s s' : ScullpSys) : Prop where
  inShape : InShape s.dev
  inShape' : InShape s'.dev
  order_eq : s.dev.order = 0
  order_eq' : s'.dev.order = 0
  qset_pos : 1 ≤ s.dev.qset.toInt
  qset_eq : s'.dev.qset = s.dev.qset
  size_eq : s'.dev.size = s.dev.size
  pagesAt_eq : ∀ n i, s'.dev.pagesAt n i = s.dev.pagesAt n i
  length_le : s.dev.next.length ≤ s'.dev.next.length
  files_eq : s'.files = s.files

/-- A call is a read or a seek, and a read is one that the file system layer passes on: its position
is not negative. -/
def Looks (s : ScullpSys) : ScullpOp → Prop
  | .scullpRead file .. => 0 ≤ s.files file
  | .scullpLlseek .. => True
  | _ => False

namespace Extended

variable {s s' : ScullpSys}

/-- Following the two lists and moving the same position keeps the relation. -/
theorem after (h : Extended s s') {answer : ℕ → Bool} {n file : ℕ} {next next' : List ScullpItem}
    {heap heap' : Ledger} {res res' : ScullpResult}
    (hfollow : scullpFollow answer n s.dev.next s.heap = some (next, heap))
    (hfollow' : scullpFollow answer n s'.dev.next s'.heap = some (next', heap'))
    (hdev : res.dev = { s.dev with next := next })
    (hdev' : res'.dev = { s'.dev with next := next' })
    (hpos : res'.fPos = res.fPos) : Extended (s.after file res).2 (s'.after file res').2 := by
  have hgrown : Grown (fun _ => True) s.dev s.heap { s.dev with next := next } heap :=
    .follow hfollow
  have hgrown' : Grown (fun _ => True) s'.dev s'.heap { s'.dev with next := next' } heap' :=
    .follow hfollow'
  refine ⟨?_, ?_, ?_, ?_, ?_, ?_, ?_, fun n i => ?_, ?_, ?_⟩
  all_goals simp only [ScullpSys.after, hdev, hdev']
  · exact h.inShape.grown hgrown (h.inShape.sized.follow hfollow)
  · exact h.inShape'.grown hgrown' (h.inShape'.sized.follow hfollow')
  · exact h.order_eq
  · exact h.order_eq'
  · exact h.qset_pos
  · exact h.qset_eq
  · exact h.size_eq
  · rw [pagesAt_follow hfollow, pagesAt_follow hfollow', h.pagesAt_eq]
  · rw [scullpFollow_length hfollow, scullpFollow_length hfollow']
    exact max_le_max_right n h.length_le
  · rw [h.files_eq, hpos]

theorem after_self (h : Extended s s') {file : ℕ} {res res' : ScullpResult}
    (hdev : res.dev = s.dev) (hdev' : res'.dev = s'.dev) (hpos : res'.fPos = res.fPos) :
    Extended (s.after file res).2 (s'.after file res').2 :=
  h.after (scullpFollow_of_le (fun _ => true) s.heap (Nat.zero_le _))
    (scullpFollow_of_le (fun _ => true) s'.heap (Nat.zero_le _)) hdev hdev' hpos

/-- **A read** that returns answers alike in the extended system, and keeps the relation. -/
theorem read (h : Extended s s') (file : ℕ) {p count room : ℕ} {lockIntr : Bool} {env : AllocEnv}
    {res : ScullpResult} (hres : scullpRead s.dev s.heap p count room lockIntr env = some res) :
    ∃ res', scullpRead s'.dev s'.heap p count room lockIntr env = some res' ∧
      res'.ret = res.ret ∧ res'.bytes = res.bytes ∧
      Extended (s.after file res).2 (s'.after file res').2 := by
  have hquantum := pageQuantum_of_order_eq h.order_eq
  have hquantum' := pageQuantum_of_order_eq h.order_eq'
  rcases exists_follow_of_read hres with
    ⟨hwhy, -⟩ | ⟨rfl, hsize, quantum, place, next, heap, hsome, hplace, hfollow⟩
  · cases lockIntr with
    | true =>
      cases hres.symm.trans (scullpRead_interrupted hquantum _ _ _ _ _)
      exact ⟨_, scullpRead_interrupted hquantum' _ _ _ _ _, rfl, rfl, h.after_self rfl rfl rfl⟩
    | false =>
      have hend := hwhy.resolve_left Bool.false_ne_true
      cases hres.symm.trans (scullpRead_after_end hquantum hend _ _ _ _)
      rw [← h.size_eq] at hend
      exact ⟨_, scullpRead_after_end hquantum' hend _ _ _ _, rfl, rfl, h.after_self rfl rfl rfl⟩
  cases hquantum.symm.trans hsome
  obtain ⟨res₁, hres₁, hdev, -, hread⟩ :=
    h.inShape.read h.order_eq h.qset_pos hsize hplace hfollow count room
  cases hres.symm.trans hres₁
  have hwalks : Walks env s'.dev (rounds place.item) := by
    intro k hk
    have hlen := h.length_le
    exact (scullpFollow_isSome env.node _ s.dev.next s.heap).mp (by rw [hfollow]; rfl) k (by omega)
  obtain ⟨next', heap', hfollow'⟩ := hwalks.exists_follow s'.heap
  have hplace' : locate pageInt s'.dev.qset p = some place := by rwa [h.qset_eq]
  have hpos' : 1 ≤ s'.dev.qset.toInt := by
    rw [h.qset_eq]
    exact h.qset_pos
  obtain ⟨res', hres', hdev', -, hread'⟩ :=
    h.inShape'.read h.order_eq' hpos' (by rwa [h.size_eq]) hplace' hfollow' count room
  have hcut : upToSize s'.dev p count = upToSize s.dev p count := by
    rw [upToSize, h.size_eq, upToSize]
  rw [h.pagesAt_eq, hcut, ← hread] at hread'
  simp only [Prod.mk.injEq] at hread'
  exact ⟨res', hres', hread'.1, hread'.2.1, h.after hfollow hfollow' hdev hdev' hread'.2.2⟩

/-- **Reads and seeks** that return answer alike in the extended system, and keep the relation. -/
theorem step (h : Extended s s') {op : ScullpOp} (hop : Looks s op) {r : Answer} {t : ScullpSys}
    (hst : s.step op = some (r, t)) : ∃ t', s'.step op = some (r, t') ∧ Extended t t' := by
  cases op with
  | scullpRead file count room lockIntr env =>
    obtain ⟨p, hp⟩ := Int.eq_ofNat_of_zero_le hop
    obtain ⟨res, hres, heq⟩ := Option.map_eq_some_iff.mp hst
    cases heq
    rw [hp] at hres
    obtain ⟨res', hres', hret, hbytes, hext⟩ := h.read file hres
    refine ⟨_, ?_, hext⟩
    rw [ScullpSys.step, h.files_eq, hp]
    refine (congrArg (Option.map (s'.after file)) hres').trans ?_
    simp only [Option.map_some, ScullpSys.after, hret, hbytes]
  | scullpLlseek file off whence =>
    have hseek : scullpLlseek s'.dev (s'.files file) off whence =
        scullpLlseek s.dev (s.files file) off whence := by
      rw [scullpLlseek, h.files_eq, h.size_eq, scullpLlseek]
    have hst' : s'.step (.scullpLlseek file off whence) =
        some (⟨(scullpLlseek s.dev (s.files file) off whence).1, []⟩, { s' with
          files :=
            Function.update s'.files file (scullpLlseek s.dev (s.files file) off whence).2 }) := by
      rw [ScullpSys.step, hseek]
    cases hst
    refine ⟨_, hst', ?_⟩
    refine ⟨h.inShape, h.inShape', h.order_eq, h.order_eq', h.qset_pos, h.qset_eq, h.size_eq,
      h.pagesAt_eq, h.length_le, ?_⟩
    simp only [h.files_eq]
  | scullpOpen => exact hop.elim
  | scullpWrite => exact hop.elim
  | scullpIoctl => exact hop.elim
  | scullpMmap => exact hop.elim
  | scullpVmaOpen => exact hop.elim
  | scullpVmaClose => exact hop.elim

/-- Every sequence of reads and seeks that returns answers alike in the extended system. -/
theorem exec (h : Extended s s') {later : List ScullpOp}
    (hlater : Guarded ScullpSys.step Looks s later) {answers : List Answer} {u : ScullpSys}
    (hrun : Transition.exec ScullpSys.step s later = some (answers, u)) :
    ∃ u', Transition.exec ScullpSys.step s' later = some (answers, u') ∧ Extended u u' := by
  refine exec_forward Extended (G := Looks) (fun t t' op r v hR hop hst => ?_) h hlater hrun
  exact hR.step hop hst

end Extended

/-! ### Writes -/

/-- What is expected of a write when memory is short. It never follows a null pointer in the list;
and when an allocation that it needs fails, it returns `-ENOMEM` and leaves the positions, the size,
and a system in which every sequence of reads and seeks that returns without the call returns, with
the same answers. -/
structure Survives (s : ScullpSys) (file count : ℕ) (src : UserBuffer) (lockIntr : Bool)
    (env : AllocEnv) : Prop where
  follows : lockIntr = false → ∀ place, locate pageInt s.dev.qset (s.files file) = some place →
    (scullpFollow env.node (rounds place.item) s.dev.next s.heap).isSome
  unharmed : lockIntr = false → ∀ place, locate pageInt s.dev.qset (s.files file) = some place →
    ¬ (Walks env s.dev (rounds place.item) ∧
      Supplies env s.dev (rounds place.item) place.sPos) →
    ∃ t, s.step (.scullpWrite file count src lockIntr env) = some (⟨-ENOMEM, []⟩, t) ∧
      t.files = s.files ∧ t.dev.size = s.dev.size ∧
      ∀ later, Guarded ScullpSys.step Looks s later → ∀ answers u,
        exec ScullpSys.step s later = some (answers, u) →
        ∃ u', exec ScullpSys.step t later = some (answers, u')

/-- A write that fails for want of an array or a block extends the system. -/
theorem Starved.extended {s : ScullpSys} {file count : ℕ} {src : UserBuffer} {env : AllocEnv}
    {res : ScullpResult} (h : Starved s.dev (s.files file) res) (hs : InShape s.dev)
    (horder : s.dev.order = 0) (hqset : 1 ≤ s.dev.qset.toInt)
    (hres : scullpWrite s.dev s.heap (s.files file) count src false env = some res) :
    Extended s (s.after file res).2 := by
  have hgrown := (Grown.write hres).1
  refine ⟨hs, hs.grown hgrown (hs.sized.write hres), horder, hgrown.order_eq.trans horder, hqset,
    hgrown.qset_eq, h.size_eq, h.pagesAt_eq, ?_, ?_⟩
  · exact Nat.le_of_succ_le_succ hgrown.length_le
  · simp only [ScullpSys.after, h.fPos_eq, Function.update_eq_self]

/-- **When a write survives that memory is short.** In every state that a run of calls and stores
reaches, with a device of order 0 and at least one entry in a quantum set, for every position that
is not negative, every count and every pattern of failures: a write survives exactly if it is
interrupted, or there is memory for every list item that the list lacks up to that of its position.

Source: `ldd/scullp/main.c`, lines 146–157 and 211–263. -/
theorem survives_iff {params : ScullpParams} {ops : List MapOp} {answers : List Answer}
    {s : ScullpSys} (hrun : exec ScullpSys.mapStep (.load params) ops = some (answers, s))
    (horder : s.dev.order = 0) (hqset : 1 ≤ s.dev.qset.toInt) {file : ℕ}
    (hpos : 0 ≤ s.files file) (count : ℕ) (src : UserBuffer) (lockIntr : Bool) (env : AllocEnv) :
    Survives s file count src lockIntr env ↔
      lockIntr = true ∨ ∀ place, locate pageInt s.dev.qset (s.files file) = some place →
        ∀ k, k + s.dev.next.length < rounds place.item → env.node k = true := by
  have hs := inShape_of_run hrun
  constructor
  · intro h
    cases lockIntr with
    | true => exact .inl rfl
    | false =>
      exact .inr fun place hplace =>
        (scullpFollow_isSome env.node _ s.dev.next s.heap).mp (h.follows rfl place hplace)
  · intro hwhy
    refine ⟨fun hintr place hplace => ?_, fun hintr place hplace hlacks => ?_⟩
    · refine (scullpFollow_isSome env.node _ s.dev.next s.heap).mpr ?_
      exact hwhy.resolve_left (by rw [hintr]; exact Bool.false_ne_true) place hplace
    · have hwalks : Walks env s.dev (rounds place.item) :=
        hwhy.resolve_left (by rw [hintr]; exact Bool.false_ne_true) place hplace
      subst hintr
      obtain ⟨p, hp⟩ := Int.eq_ofNat_of_zero_le hpos
      obtain ⟨next, heap, hfollow⟩ := hwalks.exists_follow s.heap
      obtain ⟨res, hres, hcases⟩ := hs.write horder hqset (hp ▸ hplace) hfollow count src
      rw [← hp] at hres hcases
      rcases hcases with ⟨hstarved, -⟩ | ⟨-, hsupplies⟩
      · have hext := hstarved.extended hs horder hqset hres
        refine ⟨(s.after file res).2, ?_, hext.files_eq, hext.size_eq, ?_⟩
        · rw [ScullpSys.step, hres]
          simp only [Option.map_some, ScullpSys.after, hstarved.ret_eq, hstarved.bytes_eq]
        · intro later hlater answers' u hlaterRun
          obtain ⟨u', hrun', -⟩ := hext.exec hlater hlaterRun
          exact ⟨u', hrun'⟩
      · exact absurd ⟨hwalks, hsupplies⟩ hlacks

/-- A write that finds no memory for its block survives. -/
theorem survives_iff_no_block :
    ∃ answers s, exec ScullpSys.mapStep (.load .default) ([.scullpLlseek 0 4096000 0].map .call) =
        some (answers, s) ∧
      Survives s 0 1 ⟨[7], []⟩ false ⟨fun _ => true, true, none⟩ :=
  ⟨_, _, rfl, (@survives_iff .default ([.scullpLlseek 0 4096000 0].map .call) _ _ rfl rfl
    (by decide) 0 (by decide) _ _ _ _).mpr (.inr fun _ _ _ _ => rfl)⟩

/-- A write into the third list item that finds no memory for the second one does not: it follows a
null pointer. -/
theorem node_allocation_unchecked :
    ∃ answers s, exec ScullpSys.mapStep (.load .default) ([.scullpLlseek 0 4096000 0].map .call) =
        some (answers, s) ∧
      ¬ Survives s 0 1 ⟨[7], []⟩ false ⟨fun _ => false, true, some fun _ => 0⟩ ∧
      s.step (.scullpWrite 0 1 ⟨[7], []⟩ false ⟨fun _ => false, true, some fun _ => 0⟩) = none := by
  refine ⟨_, _, rfl, fun h => ?_, rfl⟩
  have hsome := h.follows rfl _ rfl
  exact absurd hsome (by decide)

end ExKernel.Scullp
