import ExKernel.Pipe.WakeUp

/-!
# Deadlocks of the pipe

A reader waits for a byte and a writer for space. A buffer of two bytes or more always has the one
or the other, so the two do not wait at once, as long as nobody sleeps through a wake-up; with a
single byte, which is kept free, there is never either. An open that empties the pipe wakes up
nobody: a writer then sleeps on, and whoever reads afterwards goes to sleep as well, whatever the
size of the buffer.

## Main definitions

* `Pipe.Deadlocked`: a reader and a writer are asleep, and nobody is left to wake them up.

## Main results

* `Pipe.Coherent.eq_one_of_deadlocked`: what a deadlock that no open brought about says of the size.
* `Pipe.deadlock_iff`: the sizes of the buffer with which there are deadlocks.

## References

* `ldd/scull/pipe.c`, lines 64–93, 121–181 and 184–229.
-/

namespace ExKernel.Pipe

open Transition

/-- A reader and a writer are asleep, and everybody else is asleep as well or in no call. -/
structure Deadlocked {n : ℕ} (w : World n) : Prop where
  reader : ∃ p, (w.procs p).AsleepOn .inq
  writer : ∃ p, (w.procs p).AsleepOn .outq
  rest : ∀ p, (w.procs p).task = .idle ∨ ∃ queue, (w.procs p).AsleepOn queue

/-! ### No deadlock -/

section Steps

variable {n : ℕ} {w w' : World n} {params : Scull.Params}

theorem Task.sleeps_iff {task : Task} :
    task.sleeps = true ↔ ∃ f t, task = .transfer .asleep f t := by
  constructor
  · intro h
    cases task with
    | transfer pc f t =>
      cases pc with
      | asleep => exact ⟨f, t, rfl⟩
      | _ => cases h
    | _ => cases h
  · rintro ⟨f, t, rfl⟩
    rfl

theorem Deadlocked.quiet (h : Deadlocked w) (queue : Queue) (p : Fin n) :
    (w.procs p).task.wakesNext ≠ some queue := by
  rcases h.rest p with hidle | ⟨queue', hsleeps, -⟩
  · rw [hidle]
    nofun
  · obtain ⟨f, t, htask⟩ := Task.sleeps_iff.mp hsleeps
    rw [htask]
    cases t <;> nofun

/-- A writer sleeps only on a pipe with a buffer that is not empty: an empty one has less than no
space, which is not none. -/
def SleepsOnBuffer (params : Scull.Params) (w : World n) : Prop :=
  ∀ p, (w.procs p).task.sleeps = true → (w.procs p).task.queue = some .outq → params.pBuffer ≠ 0

theorem Coherent.sleepsOnBuffer_step (h : Coherent params w) (hw : SleepsOnBuffer params w)
    {e : Event n} {r : Option ℤ} (hst : w.step e = some (r, w')) : SleepsOnBuffer params w' := by
  rcases World.step_cases hst with ⟨p, call, task, -, -, hbegin, -, rfl⟩ |
    ⟨p, signal, out, -, hrun, -, rfl⟩
  · intro q hsleeps hqueue
    by_cases hqp : q = p
    · subst hqp
      simp only [Function.update_self] at hsleeps
      rw [World.sleeps_begin hbegin] at hsleeps
      cases hsleeps
    · simp only [Function.update_of_ne hqp] at hsleeps hqueue
      exact hw q hsleeps hqueue
  · intro q hsleeps hqueue
    simp only [task_wakeUp] at hsleeps hqueue
    by_cases hqp : q = p
    · subst hqp
      rw [Function.update_self] at hsleeps hqueue
      obtain ⟨f, t, htask'⟩ := Task.sleeps_iff.mp hsleeps
      obtain ⟨_, htask, hblocked⟩ : ∃ pc, (w.procs q).task = .transfer pc f t ∧
          t.blocked w.sys.dev = true := by
        cases (Proc.run_cases hrun).2 with
        | ended hidle => cases hidle.symm.trans htask'
        | opening _ _ hopening => cases hopening.symm.trans htask'
        | closing _ _ hclosing => cases hclosing.symm.trans htask'
        | transfer _ htask htransfer _ hsleep =>
          cases htransfer.symm.trans htask'
          exact ⟨_, htask, (hsleep rfl).2⟩
      rw [htask'] at hqueue
      rintro hzero
      obtain ⟨b, hb⟩ := h.buffer_isSome htask
      have hsome : w.sys.dev.buffer.isSome := Option.isSome_iff_exists.mpr ⟨b, hb⟩
      have hend : w.sys.dev.bufEnd = 0 := by
        rw [h.end_eq hsome, hzero]
        rfl
      have hspace := spacefree_of_end_eq_zero (h.steady.regular hsome) hend
      cases t with
      | read => cases hqueue
      | write =>
        simp only [Request.blocked, hspace, decide_eq_true_eq] at hblocked
        omega
    · rw [Function.update_of_ne hqp] at hsleeps hqueue
      exact hw q hsleeps hqueue

theorem not_asleepOn_load {queue : Queue} (p : Fin n) :
    ¬ ((World.load n params).procs p).AsleepOn queue := fun h => by cases h.1

theorem sleepsOnBuffer_always (n : ℕ) (params : Scull.Params) (es : List (Event n)) :
    Always World.step (fun w => Coherent params w ∧ SleepsOnBuffer params w) (.load n params) es :=
  always_of_invariant _ (fun _ _ _ _ h _ hst => ⟨h.1.step hst, h.1.sleepsOnBuffer_step h.2 hst⟩)
    ⟨coherent_load n params, fun _ hsleeps => by cases hsleeps⟩ (guarded_true _ es)

/-- Where every open is heard, no wake-up is lost on either queue. -/
theorem heard_always {es : List (Event n)}
    (hguarded : Guarded World.step OpenHeard (.load n params) es) :
    Always World.step (fun w => Coherent params w ∧ Heard .inq w ∧ Heard .outq w)
      (.load n params) es := by
  refine always_of_invariant _ (fun w e r w' h hopen hst => ?_) ⟨coherent_load n params,
    fun ⟨p, hp⟩ => absurd hp (not_asleepOn_load p), fun ⟨p, hp⟩ => absurd hp (not_asleepOn_load p)⟩
    hguarded
  obtain ⟨hinv, hinq, houtq⟩ := h
  exact ⟨hinv.step hst, hinq.step hinv nofun hst, houtq.step hinv (fun _ => hopen) hst⟩

theorem Coherent.end_pos (h : Coherent params w) (hw : SleepsOnBuffer params w) {p : Fin n}
    (hp : (w.procs p).AsleepOn .outq) :
    Regular w.sys.dev ∧ w.sys.dev.bufEnd = params.pBuffer.toInt ∧ 0 < params.pBuffer.toInt := by
  obtain ⟨f, t, htask⟩ := Task.sleeps_iff.mp hp.1
  obtain ⟨b, hb⟩ := h.buffer_isSome htask
  have hsome : w.sys.dev.buffer.isSome := Option.isSome_iff_exists.mpr ⟨b, hb⟩
  have hregular := h.steady.regular hsome
  have hend := h.end_eq hsome
  have hnonneg := hregular.end_nonneg
  have hne : params.pBuffer.toInt ≠ 0 := fun h0 => hw p hp.1 hp.2.1 (Int32.toInt_inj.mp h0)
  exact ⟨hregular, hend, by omega⟩

/-- **A deadlock in which every wake-up was heard.** The pipe is empty and full at once, so the
buffer has the one byte that is kept free. -/
theorem Coherent.eq_one_of_deadlocked (h : Coherent params w) (hw : SleepsOnBuffer params w)
    (hinq : Heard .inq w) (houtq : Heard .outq w) (hdead : Deadlocked w) : params.pBuffer = 1 := by
  have hempty : ¬ Queue.inq.Ready w.sys.dev := fun hready => by
    obtain ⟨q, hq⟩ := hinq hdead.reader hready
    exact hdead.quiet .inq q hq
  have hfull : ¬ Queue.outq.Ready w.sys.dev := fun hready => by
    obtain ⟨q, hq⟩ := houtq hdead.writer hready
    exact hdead.quiet .outq q hq
  obtain ⟨p, hp⟩ := hdead.writer
  obtain ⟨hregular, hend, hpos⟩ := h.end_pos hw hp
  have heq : w.sys.dev.rp = w.sys.dev.wp := not_not.mp hempty
  have hspace := spacefree_eq_ite hregular (by omega)
  rw [if_pos heq.le, heq, sub_self] at hspace
  simp only [Queue.Ready] at hfull
  refine Int32.toInt_inj.mp ?_
  have hone : (1 : Int32).toInt = 1 := rfl
  omega

end Steps

/-! ### Runs into a deadlock -/

section Alone

variable {n : ℕ} {w : World n} {sys sys' : PipeSys} {p : Fin n} {f : OpenFile} {t : Request}
  {es : List (Event n)} {P : World n → Prop}

/-- The processes, of which `p` is as given. -/
def World.with (w : World n) (sys : PipeSys) (locked : Bool) (p : Fin n) (proc : Proc) : World n :=
  ⟨sys, locked, Function.update w.procs p proc⟩

/-- The run goes on to a state with `P`. -/
def Leads (w : World n) (es : List (Event n)) (P : World n → Prop) : Prop :=
  ∃ rs u, exec World.step w es = some (rs, u) ∧ P u

theorem Leads.run {proc proc' : Proc} {locked locked' signal : Bool} {ret : Option ℤ}
    (hrun : proc.run sys locked signal = some ⟨proc', sys', locked', none, ret⟩)
    (h : Leads (w.with sys' locked' p proc') es P) :
    Leads (w.with sys locked p proc) (.run p signal :: es) P := by
  refine exists_exec_cons (r := ret) ?_ h
  simp only [World.step, World.with, Function.update_self, hrun, Option.map_some,
    Function.update_idem]
  rfl

theorem wakeUp_eq_self {wakes : Option Queue} {procs : Fin n → Proc}
    (hawake : ∀ q, (procs q).queued = false) : wakeUp wakes procs = procs := by
  funext q
  unfold wakeUp
  split_ifs
  · rw [← hawake q]
  · rfl

theorem Leads.wakes {proc proc' : Proc} {locked locked' signal : Bool} {ret : Option ℤ}
    {queue : Queue} (hawake : ∀ q, (w.procs q).queued = false) (hproc : proc'.queued = false)
    (hrun : proc.run sys locked signal = some ⟨proc', sys', locked', some queue, ret⟩)
    (h : Leads (w.with sys' locked' p proc') es P) :
    Leads (w.with sys locked p proc) (.run p signal :: es) P := by
  refine exists_exec_cons (r := ret) ?_ h
  simp only [World.step, World.with, Function.update_self, hrun, Option.map_some,
    Function.update_idem]
  rw [wakeUp_eq_self]
  intro q
  by_cases hqp : q = p
  · rw [hqp, Function.update_self]
    exact hproc
  · rw [Function.update_of_ne hqp]
    exact hawake q

theorem Leads.start {call : Call} {task : Task} (hidle : (w.procs p).task = .idle)
    (hbegin : w.begin call = some task)
    (h : Leads (w.with w.sys w.locked p ⟨task, false, false⟩) es P) :
    Leads w (.start p call :: es) P := by
  refine exists_exec_cons (r := none) ?_ h
  simp only [World.step, hidle, hbegin]
  rfl

theorem World.begin_open {filp : ℕ} {mode : FMode} {answer : Option (ℤ → UInt8)}
    (hfiles : ∀ f ∈ w.sys.files, f.filp ≠ filp)
    (hcalls : ∀ q, (w.procs q).task.filp ≠ some filp) :
    w.begin (.scullPOpen filp mode answer) = some (.opening .lock filp mode answer) :=
  if_pos ⟨hfiles, hcalls⟩

theorem World.begin_transfer (hf : f ∈ w.sys.files) (hmode : t.permitted f.mode = true)
    (hcalls : ∀ q, (w.procs q).task.filp = some f.filp → (w.procs q).task.isTransfer = true) :
    w.begin (.transfer f t) = some (.transfer .lock f t) :=
  if_pos ⟨hf, hmode, hcalls⟩

theorem Leads.opens {filp : ℕ} {mode : FMode} {answer : Option (ℤ → UInt8)} {r : Reply}
    (hfree : w.locked = false) (hidle : (w.procs p).task = .idle)
    (hbegin : w.begin (.scullPOpen filp mode answer) = some (.opening .lock filp mode answer))
    (hst : w.sys.step (.scullPOpen false filp mode answer) = some (r, sys'))
    (h : Leads (w.with sys' false p ⟨.idle, false, false⟩) es P) :
    Leads w (.start p (.scullPOpen filp mode answer) :: .run p false :: .run p false ::
      .run p false :: .run p false :: es) P := by
  have hbody : Proc.run ⟨.opening .body filp mode answer, true, false⟩ w.sys true false =
      some ⟨⟨.opening (.unlock (r.ret.getD 0)) filp mode answer, true, false⟩, sys', true, none,
        none⟩ := by
    simp only [Proc.run, Proc.runSection, hst, Option.map_some]
  refine Leads.start hidle hbegin ?_
  rw [hfree]
  refine Leads.run rfl ?_
  refine Leads.run hbody ?_
  refine Leads.run rfl ?_
  exact Leads.run rfl h

theorem Leads.writes {nonblock : Bool} {count : ℕ} {src : UserBuffer} {r : Reply}
    {dev' : ScullPipe} (hfree : w.locked = false) (hidle : (w.procs p).task = .idle)
    (hawake : ∀ q, (w.procs q).queued = false)
    (hbegin : w.begin (.transfer f (.write nonblock count src)) =
      some (.transfer .lock f (.write nonblock count src)))
    (hspace : spacefree w.sys.dev ≠ 0)
    (hcopy : (Request.write nonblock count src).copy w.sys.dev = some (r, dev'))
    (hret : 0 ≤ r.ret.getD 0)
    (h : Leads (w.with { w.sys with dev := dev' } false p ⟨.idle, false, false⟩) es P) :
    Leads w (.start p (.transfer f (.write nonblock count src)) :: .run p false :: .run p false ::
      .run p false :: .run p false :: .run p false :: .run p false :: es) P := by
  have htest : Proc.run ⟨.transfer .test f (.write nonblock count src), true, false⟩ w.sys true
      false = some ⟨⟨.transfer .copy f (.write nonblock count src), true, false⟩, w.sys, true, none,
        none⟩ := by
    simp [Proc.run, Proc.runTransfer, Proc.runTransfer.goto, Request.blocked, hspace]
  have hcopied : Proc.run ⟨.transfer .copy f (.write nonblock count src), true, false⟩ w.sys true
      false = some ⟨⟨.transfer (.unlockDone (r.ret.getD 0)) f (.write nonblock count src), true,
        false⟩, { w.sys with dev := dev' }, true, none, none⟩ := by
    simp [Proc.run, Proc.runTransfer, hcopy, not_lt.mpr hret]
  refine Leads.start hidle hbegin ?_
  rw [hfree]
  refine Leads.run rfl ?_
  refine Leads.run htest ?_
  refine Leads.run hcopied ?_
  refine Leads.run rfl ?_
  refine Leads.wakes hawake rfl rfl ?_
  exact Leads.run rfl h

theorem Leads.writerSleeps {count : ℕ} {src : UserBuffer} (hfree : w.locked = false)
    (hidle : (w.procs p).task = .idle)
    (hbegin : w.begin (.transfer f (.write false count src)) =
      some (.transfer .lock f (.write false count src)))
    (hspace : spacefree w.sys.dev = 0)
    (h : Leads (w.with w.sys false p ⟨.transfer .asleep f (.write false count src), false, true⟩)
      es P) :
    Leads w (.start p (.transfer f (.write false count src)) :: .run p false :: .run p false ::
      .run p false :: .run p false :: .run p false :: .run p false :: es) P := by
  have htest : ∀ owns queued locked, Proc.run ⟨.transfer .test f (.write false count src), owns,
      queued⟩ w.sys locked false = some ⟨⟨.transfer .unlockWait f (.write false count src), owns,
        queued⟩, w.sys, locked, none, none⟩ := by
    simp [Proc.run, Proc.runTransfer, Proc.runTransfer.goto, Request.blocked, hspace]
  have hlast : ∀ owns queued locked, Proc.run ⟨.transfer (.lastTest false) f
      (.write false count src), owns, queued⟩ w.sys locked false = some ⟨⟨.transfer .asleep f
        (.write false count src), owns, queued⟩, w.sys, locked, none, none⟩ := by
    simp [Proc.run, Proc.runTransfer, Proc.runTransfer.goto, Request.blocked, hspace]
  refine Leads.start hidle hbegin ?_
  rw [hfree]
  refine Leads.run rfl ?_
  refine Leads.run (htest true false true) ?_
  refine Leads.run rfl ?_
  refine Leads.run rfl ?_
  refine Leads.run rfl ?_
  exact Leads.run (hlast false true false) h

theorem Leads.readerSleeps {count room : ℕ} (hfree : w.locked = false)
    (hidle : (w.procs p).task = .idle)
    (hbegin : w.begin (.transfer f (.read false count room)) =
      some (.transfer .lock f (.read false count room)))
    (hempty : w.sys.dev.rp = w.sys.dev.wp)
    (h : Leads (w.with w.sys false p ⟨.transfer .asleep f (.read false count room), false, true⟩)
      es P) :
    Leads w (.start p (.transfer f (.read false count room)) :: .run p false :: .run p false ::
      .run p false :: .run p false :: .run p false :: .run p false :: .run p false :: es) P := by
  have htest : Proc.run ⟨.transfer .test f (.read false count room), true, false⟩ w.sys true
      false = some ⟨⟨.transfer .unlockWait f (.read false count room), true, false⟩, w.sys, true,
        none, none⟩ := by
    simp [Proc.run, Proc.runTransfer, Proc.runTransfer.goto, Request.blocked, hempty]
  have hwait : Proc.run ⟨.transfer .waitTest f (.read false count room), false, false⟩ w.sys false
      false = some ⟨⟨.transfer .prepare f (.read false count room), false, false⟩, w.sys, false,
        none, none⟩ := by
    simp [Proc.run, Proc.runTransfer, Proc.runTransfer.goto, Request.blocked, hempty]
  have hlast : Proc.run ⟨.transfer (.lastTest false) f (.read false count room), false, true⟩ w.sys
      false false = some ⟨⟨.transfer .asleep f (.read false count room), false, true⟩, w.sys, false,
        none, none⟩ := by
    simp [Proc.run, Proc.runTransfer, Proc.runTransfer.goto, Request.blocked, hempty]
  refine Leads.start hidle hbegin ?_
  rw [hfree]
  refine Leads.run rfl ?_
  refine Leads.run htest ?_
  refine Leads.run rfl ?_
  refine Leads.run rfl ?_
  refine Leads.run hwait ?_
  refine Leads.run rfl ?_
  exact Leads.run hlast h

end Alone

/-! ### The buffer sizes with deadlocks -/

section Sizes

variable {n : ℕ} {params : Scull.Params}

/-- The file of the first open. -/
def firstFile : OpenFile := ⟨0, ⟨true, true⟩, 0⟩

/-- The device after the first open, by which the buffer is allocated. -/
def firstOpen (params : Scull.Params) : PipeSys where
  dev := ScullPipe.zero.opened params.pBuffer ⟨true, true⟩
    ⟨0, params.pBuffer.toInt.toNat, fun _ => 0⟩
  heap := Ledger.empty.alloc
  params := params
  files := [firstFile]

theorem step_firstOpen (hN : 0 < params.pBuffer.toInt) :
    (PipeSys.load params).step (.scullPOpen false 0 ⟨true, true⟩ (some fun _ => 0)) =
      some (.code 0, firstOpen params) := by
  have hneg : ¬ params.pBuffer.toInt < 0 := hN.le.not_gt
  simp [PipeSys.step, PipeSys.load, scullPOpenLocked, ScullPipe.zero, kmalloc, hneg, firstOpen,
    filesAfterOpen, ScullPipe.opened, firstFile, Ledger.empty]

/-- With one byte: after an open, a write and a read sleep at once. -/
def oneByteRun (opener writer reader : Fin n) : List (Event n) :=
  .start opener (.scullPOpen 0 ⟨true, true⟩ (some fun _ => 0)) :: .run opener false ::
    .run opener false :: .run opener false :: .run opener false ::
    .start writer (.transfer firstFile (.write false 1 ⟨[7], []⟩)) :: .run writer false ::
    .run writer false :: .run writer false :: .run writer false :: .run writer false ::
    .run writer false ::
    .start reader (.transfer firstFile (.read false 1 1)) :: .run reader false ::
    .run reader false :: .run reader false :: .run reader false :: .run reader false ::
    .run reader false :: .run reader false :: []

theorem three_processes (q : Fin 3) : q = 0 ∨ q = 1 ∨ q = 2 := by
  omega

theorem exec_oneByteRun (hone : params.pBuffer = 1) :
    Leads (.load 3 params) (oneByteRun 0 1 2) Deadlocked := by
  have hspace : spacefree (firstOpen params).dev = 0 := by
    rw [spacefree, if_pos (by rfl)]
    simp only [firstOpen, ScullPipe.opened, hone]
    rfl
  refine Leads.opens rfl rfl (World.begin_open (fun _ hf => absurd hf List.not_mem_nil)
    fun _ => (Option.some_ne_none _).symm) (step_firstOpen (by rw [hone]; decide)) ?_
  refine Leads.writerSleeps rfl rfl (World.begin_transfer (List.mem_singleton_self _) rfl ?_)
    hspace ?_
  · intro q hq
    rcases three_processes q with rfl | rfl | rfl
    · exact absurd hq (Option.some_ne_none _).symm
    · exact absurd hq (Option.some_ne_none _).symm
    · exact absurd hq (Option.some_ne_none _).symm
  refine Leads.readerSleeps rfl rfl (World.begin_transfer (List.mem_singleton_self _) rfl ?_) rfl ?_
  · intro q hq
    rcases three_processes q with rfl | rfl | rfl
    · exact absurd hq (Option.some_ne_none _).symm
    · rfl
    · exact absurd hq (Option.some_ne_none _).symm
  refine ⟨[], _, rfl, ⟨2, rfl, rfl, rfl⟩, ⟨1, rfl, rfl, rfl⟩, ?_⟩
  intro q
  rcases three_processes q with rfl | rfl | rfl
  · exact .inl rfl
  · exact .inr ⟨.outq, rfl, rfl, rfl⟩
  · exact .inr ⟨.inq, rfl, rfl, rfl⟩

/-- With more bytes: a write fills the pipe, a second one sleeps, an open empties the pipe, and a
read sleeps. -/
def reopenRun (opener writer reader : Fin n) (N : ℕ) : List (Event n) :=
  .start opener (.scullPOpen 0 ⟨true, true⟩ (some fun _ => 0)) :: .run opener false ::
    .run opener false :: .run opener false :: .run opener false ::
    .start opener (.transfer firstFile (.write false (N - 1) ⟨List.replicate (N - 1) 7, []⟩)) ::
    .run opener false :: .run opener false :: .run opener false :: .run opener false ::
    .run opener false :: .run opener false ::
    .start writer (.transfer firstFile (.write false 1 ⟨[7], []⟩)) :: .run writer false ::
    .run writer false :: .run writer false :: .run writer false :: .run writer false ::
    .run writer false ::
    .start opener (.scullPOpen 1 ⟨true, true⟩ none) :: .run opener false :: .run opener false ::
    .run opener false :: .run opener false ::
    .start reader (.transfer firstFile (.read false 1 1)) :: .run reader false ::
    .run reader false :: .run reader false :: .run reader false :: .run reader false ::
    .run reader false :: .run reader false :: []

/-- The device after the write that fills the buffer. -/
def filled (params : Scull.Params) : ScullPipe :=
  { (firstOpen params).dev with
    buffer := some ⟨0, params.pBuffer.toInt.toNat, Cells.store (fun _ => 0) 0
      (List.replicate (params.pBuffer.toInt.toNat - 1) 7)⟩
    wp := params.pBuffer.toInt - 1 }

theorem spacefree_firstOpen (hpos : 0 < params.pBuffer.toInt) :
    spacefree (firstOpen params).dev = params.pBuffer.toInt - 1 := by
  have hregular : Regular (firstOpen params).dev := regular_opened _ _ _ hpos.le
  rw [spacefree_eq_ite hregular (by exact hpos.ne'), if_pos (by exact le_rfl)]
  simp only [firstOpen, ScullPipe.opened]
  omega

theorem copy_firstOpen {N : ℕ} (hN : params.pBuffer.toInt = N) (htwo : 2 ≤ N) :
    (Request.write false (N - 1) ⟨List.replicate (N - 1) 7, []⟩).copy (firstOpen params).dev =
      some ({ ret := some ((N - 1 : ℕ) : ℤ), data := List.replicate (N - 1) 7, len := N - 1 },
        filled params) := by
  have hmax := params.pBuffer.toInt_lt
  have hspace : spacefree (firstOpen params).dev = params.pBuffer.toInt - 1 :=
    spacefree_firstOpen (by omega)
  have hcount : writeCount (firstOpen params).dev (N - 1) = N - 1 := by
    rw [writeCount, hspace, if_pos (by exact le_rfl)]
    simp only [firstOpen, ScullPipe.opened, hN]
    rw [sizeT_of_nonneg (by omega) (by omega), sizeT_of_nonneg (by omega) (by omega)]
    omega
  have hcopied : copyFromUser (fun _ => 0) 0 ⟨List.replicate (N - 1) 7, []⟩ (N - 1) =
      (true, Cells.store (fun _ => 0) 0 (List.replicate (N - 1) 7)) := by
    simp [copyFromUser]
  have hadvance : RingBuffer.advance params.pBuffer.toInt 0 (N - 1) = params.pBuffer.toInt - 1 := by
    rw [RingBuffer.advance, if_neg (by omega)]
    omega
  have hlocked : scullPWriteLocked (firstOpen params).dev
      ⟨0, params.pBuffer.toInt.toNat, fun _ => 0⟩ (N - 1) ⟨List.replicate (N - 1) 7, []⟩ =
        ({ ret := some ((N - 1 : ℕ) : ℤ), data := List.replicate (N - 1) 7, len := N - 1 },
          filled params) := by
    rw [scullPWriteLocked, hcount]
    simp only [firstOpen, ScullPipe.opened, hcopied, hadvance, List.take_replicate, min_self,
      if_true, filled]
    rw [show params.pBuffer.toInt.toNat - 1 = N - 1 by omega]
  exact congrArg some hlocked

theorem spacefree_filled (htwo : 2 ≤ params.pBuffer.toInt) : spacefree (filled params) = 0 := by
  have hregular : Regular (filled params) :=
    ⟨rfl, .inl ⟨le_rfl, by simp only [filled, firstOpen, ScullPipe.opened]; omega,
      by simp only [filled]; omega, by simp only [filled, firstOpen, ScullPipe.opened]; omega⟩⟩
  rw [spacefree_eq_ite hregular (by simp only [filled, firstOpen, ScullPipe.opened]; omega)]
  simp only [filled, firstOpen, ScullPipe.opened]
  split_ifs <;> omega

theorem exec_reopenRun {N : ℕ} (hN : params.pBuffer.toInt = N) (htwo : 2 ≤ N) :
    Leads (.load 3 params) (reopenRun 0 1 2 N) Deadlocked := by
  have hspace : spacefree (firstOpen params).dev = params.pBuffer.toInt - 1 :=
    spacefree_firstOpen (by omega)
  refine Leads.opens rfl rfl (World.begin_open (fun _ hf => absurd hf List.not_mem_nil)
    fun _ => (Option.some_ne_none _).symm) (step_firstOpen (by omega)) ?_
  refine Leads.writes rfl rfl ?_ (World.begin_transfer (List.mem_singleton_self _) rfl ?_)
    (by exact (by omega : spacefree (firstOpen params).dev ≠ 0)) (copy_firstOpen hN htwo) ?_ ?_
  · intro q
    rcases three_processes q with rfl | rfl | rfl
    · rfl
    · rfl
    · rfl
  · intro q hq
    rcases three_processes q with rfl | rfl | rfl
    · exact absurd hq (Option.some_ne_none _).symm
    · exact absurd hq (Option.some_ne_none _).symm
    · exact absurd hq (Option.some_ne_none _).symm
  · exact Int.natCast_nonneg _
  refine Leads.writerSleeps rfl rfl (World.begin_transfer (List.mem_singleton_self _) rfl ?_)
    (spacefree_filled (by omega)) ?_
  · intro q hq
    rcases three_processes q with rfl | rfl | rfl
    · exact absurd hq (Option.some_ne_none _).symm
    · exact absurd hq (Option.some_ne_none _).symm
    · exact absurd hq (Option.some_ne_none _).symm
  refine Leads.opens rfl rfl (World.begin_open ?_ ?_) rfl ?_
  · intro f hf
    rw [List.mem_singleton.mp hf]
    exact Nat.zero_ne_one
  · intro q
    rcases three_processes q with rfl | rfl | rfl
    · exact (Option.some_ne_none _).symm
    · exact fun h => Nat.zero_ne_one (Option.some.inj h)
    · exact (Option.some_ne_none _).symm
  refine Leads.readerSleeps rfl rfl
    (World.begin_transfer (List.mem_cons_of_mem _ (List.mem_singleton_self _)) rfl ?_) rfl ?_
  · intro q hq
    rcases three_processes q with rfl | rfl | rfl
    · exact absurd hq (Option.some_ne_none _).symm
    · rfl
    · exact absurd hq (Option.some_ne_none _).symm
  refine ⟨[], _, rfl, ⟨2, rfl, rfl, rfl⟩, ⟨1, rfl, rfl, rfl⟩, ?_⟩
  intro q
  rcases three_processes q with rfl | rfl | rfl
  · exact .inl rfl
  · exact .inr ⟨.outq, rfl, rfl, rfl⟩
  · exact .inr ⟨.inq, rfl, rfl, rfl⟩

/-- With one byte every open leaves no space, so no wake-up is lost. -/
theorem guarded_openHeard (hone : params.pBuffer = 1) {n : ℕ} (es : List (Event n)) :
    Guarded World.step OpenHeard (.load n params) es := by
  have hinv : Always World.step (Coherent params) (.load n params) es :=
    always_of_invariant (Coherent params) (fun _ _ _ _ h _ hst => h.step hst)
      (coherent_load n params) (guarded_true _ es)
  refine hinv.guarded fun w e h => ?_
  rintro p signal filp mode answer - - -
  right
  rw [h.steady.params_eq, hone]
  exact le_rfl

end Sizes

/-- **Deadlocks of the pipe.** With a buffer of one byte there is a run of opens, releases, reads
and writes that ends with a reader and a writer asleep and nobody to wake them up, and with any
other size there is none in which every open is heard. With opens that are not heard there is one
whenever the buffer has a byte.

Source: `ldd/scull/pipe.c`, lines 64–93, 121–181 and 184–229. -/
theorem deadlock_iff (params : Scull.Params) :
    ((∃ (n : ℕ) (es : List (Event n)) (rs : List (Option ℤ)) (w : World n),
        Guarded World.step OpenHeard (.load n params) es ∧
          exec World.step (.load n params) es = some (rs, w) ∧ Deadlocked w) ↔
      params.pBuffer = 1) ∧
    ((∃ (n : ℕ) (es : List (Event n)) (rs : List (Option ℤ)) (w : World n),
        exec World.step (.load n params) es = some (rs, w) ∧ Deadlocked w) ↔
      0 < params.pBuffer.toInt) := by
  refine ⟨⟨?_, fun hone => ?_⟩, ⟨?_, fun hpos => ?_⟩⟩
  · rintro ⟨n, es, rs, w, hguarded, hrun, hdead⟩
    obtain ⟨hinv, hsleeps⟩ := (sleepsOnBuffer_always n params es).last hrun
    obtain ⟨-, hinq, houtq⟩ := (heard_always hguarded).last hrun
    exact hinv.eq_one_of_deadlocked hsleeps hinq houtq hdead
  · obtain ⟨rs, w, hrun, hdead⟩ := exec_oneByteRun hone
    exact ⟨3, oneByteRun 0 1 2, rs, w, guarded_openHeard hone _, hrun, hdead⟩
  · rintro ⟨n, es, rs, w, hrun, hdead⟩
    obtain ⟨hinv, hsleeps⟩ := (sleepsOnBuffer_always n params es).last hrun
    obtain ⟨p, hp⟩ := hdead.writer
    exact (hinv.end_pos hsleeps hp).2.2
  · obtain hone | htwo : params.pBuffer.toInt = 1 ∨ 2 ≤ params.pBuffer.toInt := by omega
    · obtain ⟨rs, w, hrun, hdead⟩ := exec_oneByteRun (Int32.toInt_inj.mp hone)
      exact ⟨3, oneByteRun 0 1 2, rs, w, hrun, hdead⟩
    · obtain ⟨N, hN⟩ := Int.eq_ofNat_of_zero_le hpos.le
      obtain ⟨rs, w, hrun, hdead⟩ := exec_reopenRun hN (by omega)
      exact ⟨3, reopenRun 0 1 2 N, rs, w, hrun, hdead⟩

end ExKernel.Pipe
