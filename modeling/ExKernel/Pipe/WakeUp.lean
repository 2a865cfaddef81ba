import ExKernel.Pipe.Protocol

/-!
# Wake-ups

A reader sleeps on `inq` until there is data and a writer on `outq` until there is space. Both test
once more when they are already on the queue, so whoever makes the pipe ready afterwards finds them
there, and the methods that move the pointers wake up the other queue after they have done so. The
one exception is an open: it empties the pipe, and wakes up nobody. A writer that sleeps on a full
pipe then sleeps on, although there is space.

## Main definitions

* `Pipe.Proc.AsleepOn`, `Pipe.Task.wakesNext`, `Pipe.Queue.Ready`.
* `Pipe.Heard`: nobody is asleep on a queue for which the pipe is ready, unless a process is about
  to wake it up.
* `Pipe.OpenHeard`: an open finds no writer asleep, or one that is about to be woken up.

## Main results

* `Pipe.Coherent.becomes_ready`: the steps that make the pipe ready.
* `Pipe.no_lost_wake_up`: no wake-up of readers is lost, and one of writers only by an open.
* `Pipe.open_loses_wake_up`: a run in which it is.

## References

* `ldd/scull/pipe.c`, lines 64–93, 121–181 and 191–229.
-/

namespace ExKernel.Pipe

open Transition

/-- What the processes on a queue wait for: data for readers, space for writers. -/
def Queue.Ready (dev : ScullPipe) : Queue → Prop
  | .inq => dev.rp ≠ dev.wp
  | .outq => 0 < spacefree dev

/-- The process is in `schedule()`. -/
def Task.sleeps : Task → Bool
  | transfer .asleep .. => true
  | _ => false

/-- The process is asleep on a queue: it is in `schedule()` and was not woken up. -/
def Proc.AsleepOn (queue : Queue) (proc : Proc) : Prop :=
  proc.task.sleeps = true ∧ proc.task.queue = some queue ∧ proc.queued = true

/-- The queue that a process is about to wake up, having moved its pointer. -/
def Task.wakesNext : Task → Option Queue
  | transfer (.unlockDone _) _ (.read ..) => some .outq
  | transfer (.unlockDone _) _ (.write ..) => some .inq
  | transfer (.wake _) _ (.read ..) => some .outq
  | transfer (.wake _) _ (.write ..) => some .inq
  | _ => none

/-- If a process is asleep on the queue and the pipe is ready for it, some process is about to wake
the queue up. -/
def Heard {n : ℕ} (queue : Queue) (w : World n) : Prop :=
  (∃ p, (w.procs p).AsleepOn queue) → queue.Ready w.sys.dev →
    ∃ q, (w.procs q).task.wakesNext = some queue

/-- An open that has the lock finds no writer asleep, or finds a process that is about to wake up
the writers, or gives the pipe a buffer without room for a byte. -/
def OpenHeard {n : ℕ} (w : World n) (e : Event n) : Prop :=
  ∀ p signal filp mode answer, e = .run p signal →
    (w.procs p).task = .opening .body filp mode answer →
    (∃ q, (w.procs q).AsleepOn .outq) →
    (∃ q, (w.procs q).task.wakesNext = some .outq) ∨ w.sys.params.pBuffer.toInt ≤ 1

/-! ### Single steps -/

/-- A process goes to sleep only after it has found the pipe not ready for it. -/
theorem Proc.not_ready_of_sleeps {proc : Proc} {sys : PipeSys} {locked signal : Bool}
    {out : Outcome} {queue : Queue} (h : proc.run sys locked signal = some out)
    (hsleeps : out.proc.task.sleeps = true) (hqueue : out.proc.task.queue = some queue) :
    ¬ queue.Ready out.sys.dev := by
  cases (Proc.run_cases h).2 with
  | ended hidle => rw [hidle] at hsleeps; cases hsleeps
  | opening _ _ htask' => rw [htask'] at hsleeps; cases hsleeps
  | closing _ _ htask' => rw [htask'] at hsleeps; cases hsleeps
  | @transfer _ pc' f t _ _ htask' _ hsleep =>
    rw [htask'] at hsleeps hqueue
    obtain rfl : pc' = .asleep := by
      cases pc' <;> first | rfl | cases hsleeps
    obtain ⟨hsys, hblocked⟩ := hsleep rfl
    rw [hsys]
    cases t with
    | read =>
      cases hqueue
      simpa [Queue.Ready, Request.blocked] using hblocked
    | write =>
      cases hqueue
      have : spacefree sys.dev = 0 := by simpa [Request.blocked] using hblocked
      simp [Queue.Ready, this]

/-- A process that is about to wake up a queue stays so until it does. -/
theorem Proc.wakesNext_run {proc : Proc} {sys : PipeSys} {locked signal : Bool} {out : Outcome}
    {queue : Queue} (h : proc.run sys locked signal = some out)
    (hnext : proc.task.wakesNext = some queue) :
    out.proc.task.wakesNext = some queue ∨ out.wakes = some queue := by
  cases htask : proc.task with
  | idle => simp [htask, Task.wakesNext] at hnext
  | opening => simp [htask, Task.wakesNext] at hnext
  | closing => simp [htask, Task.wakesNext] at hnext
  | transfer pc f t =>
    simp only [run, htask] at h
    rw [htask] at hnext
    cases pc with
    | unlockDone ret =>
      cases h
      exact Or.inl (by cases t <;> exact hnext)
    | wake ret =>
      cases h
      exact Or.inr (by cases t <;> exact hnext)
    | _ => cases t <;> cases hnext

/-- A copy that fails leaves the pointers where they are, and one that succeeds is followed by a
wake-up of the other side. -/
theorem Proc.run_copy {proc : Proc} {sys : PipeSys} {locked signal : Bool} {out : Outcome}
    {f : OpenFile} {t : Request} (h : proc.run sys locked signal = some out)
    (htask : proc.task = .transfer .copy f t) :
    (∀ queue : Queue, queue.Ready out.sys.dev ↔ queue.Ready sys.dev) ∨
      ∃ ret, out.proc.task = .transfer (.unlockDone ret) f t := by
  simp only [run, htask] at h
  obtain ⟨⟨r, dev'⟩, hcopy, heq⟩ := Option.map_eq_some_iff.mp h
  cases heq
  by_cases hret : r.ret.getD 0 < 0
  · left
    have hsame : dev'.rp = sys.dev.rp ∧ dev'.wp = sys.dev.wp ∧
        dev'.buffersize = sys.dev.buffersize := by
      cases t with
      | read nonblock count room =>
        obtain ⟨b, -, heq⟩ := Option.map_eq_some_iff.mp hcopy
        simp only [scullPReadLocked] at heq
        split at heq
        · cases heq
          exact ⟨rfl, rfl, rfl⟩
        · cases heq
          simp only [Option.getD_some] at hret
          omega
      | write nonblock count src =>
        obtain ⟨b, -, heq⟩ := Option.map_eq_some_iff.mp hcopy
        simp only [scullPWriteLocked] at heq
        split_ifs at heq
        · cases heq
          simp only [Option.getD_some] at hret
          omega
        · cases heq
          exact ⟨rfl, rfl, rfl⟩
    intro queue
    obtain ⟨hrp, hwp, hsize⟩ := hsame
    cases queue <;> simp [Queue.Ready, spacefree, hrp, hwp, hsize]
  · exact Or.inr ⟨r.ret.getD 0, by simp [hret]⟩

theorem ready_opened (dev : ScullPipe) {pBuffer : Int32} (mode : FMode) (b : Block UInt8)
    (hsize : 0 ≤ pBuffer.toInt) (queue : Queue) :
    queue.Ready (dev.opened pBuffer mode b) ↔ queue = .outq ∧ 1 < pBuffer.toInt := by
  cases queue with
  | inq => simp [Queue.Ready, ScullPipe.opened]
  | outq =>
    have hmax := pBuffer.toInt_lt
    have hsf : spacefree (dev.opened pBuffer mode b) = pBuffer.toInt - 1 := by
      rw [spacefree, if_pos (by rfl)]
      simp only [ScullPipe.opened]
      rw [Int32.toInt_sub, Int.bmod_eq_of_le] <;> simp only [Int32.reduceToInt] <;> omega
    simp only [Queue.Ready, hsf, true_and]
    omega

/-- An open leaves a device without a buffer as it is, or gives it the pointers of an empty pipe. -/
theorem Steady.open_cases {params : Scull.Params} {s s' : PipeSys} (h : Steady params s) {filp : ℕ}
    {mode : FMode} {answer : Option (ℤ → UInt8)} {r : Reply}
    (hst : s.step (.scullPOpen false filp mode answer) = some (r, s')) :
    (s.dev.buffer = none ∧ s'.dev = s.dev) ∨
      ∃ b, s'.dev = s.dev.opened s.params.pBuffer mode b ∧ 0 ≤ s.params.pBuffer.toInt := by
  simp only [PipeSys.step, Bool.false_eq_true, ite_false, Option.some_inj, Prod.mk.injEq] at hst
  obtain ⟨-, rfl⟩ := hst
  rcases scullPOpenLocked_cases s.params.pBuffer mode answer s.dev s.heap with
    ⟨hb, heq⟩ | ⟨b, hb, heq⟩ | ⟨contents, -, hsize, -, heq⟩
  · exact Or.inl ⟨hb, by rw [heq]⟩
  · refine Or.inr ⟨b, by rw [heq], ?_⟩
    have hsome : s.dev.buffer.isSome := Option.isSome_iff_exists.mpr ⟨b, hb⟩
    have hreg := h.regular hsome
    rw [h.params_eq, ← h.size_eq hsome, ← hreg.end_eq]
    exact hreg.end_nonneg
  · exact Or.inr ⟨_, by rw [heq], hsize⟩

theorem asleepOn_wakeUp {n : ℕ} {wakes : Option Queue} {procs : Fin n → Proc} {q : Fin n}
    {queue : Queue} (h : (wakeUp wakes procs q).AsleepOn queue) :
    (procs q).AsleepOn queue ∧ wakes ≠ some queue := by
  unfold wakeUp at h
  split at h
  · cases h.2.2
  · rename_i hwakes
    refine ⟨h, fun heq => hwakes ?_⟩
    rw [heq]
    exact ⟨rfl, h.2.1⟩

section Steps

variable {n : ℕ} {w w' : World n} {params : Scull.Params} {queue : Queue}

/-- A pipe without space that a writer nevertheless finds not full has no room for a byte, and a
copy to it leaves it so. -/
theorem Coherent.not_ready_of_write (h : Coherent params w) {p : Fin n} {signal : Bool}
    {out : Outcome} {f : OpenFile} {nonblock : Bool} {count : ℕ} {src : UserBuffer}
    (hrun : (w.procs p).run w.sys w.locked signal = some out)
    (htask : (w.procs p).task = .transfer .copy f (.write nonblock count src))
    (hbefore : ¬ Queue.outq.Ready w.sys.dev) : ¬ Queue.outq.Ready out.sys.dev := by
  obtain ⟨b, hb⟩ := h.buffer_isSome htask
  have hsome : w.sys.dev.buffer.isSome := Option.isSome_iff_exists.mpr ⟨b, hb⟩
  have hreg := h.steady.regular hsome
  have h0 : w.sys.dev.bufEnd = 0 := by
    by_contra h0
    have hnonneg := spacefree_nonneg hreg h0 hb
    have hne : spacefree w.sys.dev ≠ 0 := by simpa [Request.blocked] using h.ready p _ _ htask
    simp only [Queue.Ready] at hbefore
    omega
  obtain ⟨hf, hperm⟩ := h.transfers p _ f _ htask
  cases (Proc.run_cases hrun).1 with
  | keep hsys => exact hsys ▸ hbefore
  | opened hp => rw [htask] at hp; cases hp
  | released hp => rw [htask] at hp; cases hp
  | copied hp hcopy hsys =>
    rw [htask] at hp
    cases hp
    rw [← Request.exec_toTransfer (h.ready p _ _ htask)] at hcopy
    obtain ⟨hreg', hsame, -⟩ := Transfer.exec_spec hreg hcopy
    have := spacefree_of_end_eq_zero hreg' (hsame.end_eq.trans h0)
    simp only [Queue.Ready, hsys]
    omega

/-- **What makes the pipe ready.** After a step that makes the pipe ready for a queue, the process
that made it is about to wake the queue up, or has opened the pipe. -/
theorem Coherent.becomes_ready (h : Coherent params w) {p : Fin n} {signal : Bool} {out : Outcome}
    (hrun : (w.procs p).run w.sys w.locked signal = some out)
    (hbefore : ¬ queue.Ready w.sys.dev) (hafter : queue.Ready out.sys.dev) :
    out.proc.task.wakesNext = some queue ∨
      queue = .outq ∧ 1 < w.sys.params.pBuffer.toInt ∧
        ∃ filp mode answer, (w.procs p).task = .opening .body filp mode answer := by
  cases (Proc.run_cases hrun).1 with
  | keep hsys =>
    rw [hsys] at hafter
    exact absurd hafter hbefore
  | @opened filp mode answer r htask hst =>
    rcases h.steady.open_cases hst with ⟨-, hdev⟩ | ⟨b, hdev, hsize⟩
    · rw [hdev] at hafter
      exact absurd hafter hbefore
    · rw [hdev, ready_opened _ _ _ hsize] at hafter
      exact Or.inr ⟨hafter.1, hafter.2, filp, mode, answer, htask⟩
  | @released f r htask hst =>
    simp only [PipeSys.step] at hst
    split_ifs at hst
    rw [Option.some_inj, Prod.mk.injEq] at hst
    rw [← hst.2] at hafter
    obtain ⟨hsize, -, hrp, hwp⟩ := released_eq f.mode w.sys.dev w.sys.heap
    cases queue with
    | inq =>
      simp only [Queue.Ready, hrp, hwp] at hafter
      exact absurd hafter hbefore
    | outq =>
      simp only [Queue.Ready, spacefree, hsize, hrp, hwp] at hafter
      exact absurd hafter hbefore
  | @copied f t r dev' htask hcopy hsys =>
    rcases Proc.run_copy hrun htask with hiff | ⟨ret, htask'⟩
    · exact absurd ((hiff queue).mp hafter) hbefore
    · refine Or.inl ?_
      rw [htask']
      have hready := h.ready p f t htask
      cases t with
      | read =>
        cases queue with
        | inq => simp_all [Queue.Ready, Request.blocked]
        | outq => rfl
      | write =>
        cases queue with
        | inq => rfl
        | outq => exact absurd hafter (h.not_ready_of_write hrun htask hbefore)

/-- The beginning of a call puts nobody to sleep and keeps every promise of a wake-up. -/
theorem Heard.start (h : Heard queue w) {p : Fin n} {task : Task}
    (hidle : (w.procs p).task = .idle) (hawake : task.sleeps = false) :
    Heard queue { w with procs := Function.update w.procs p ⟨task, false, false⟩ } := by
  rintro ⟨q, hq⟩ hready
  have hqp : q ≠ p := by
    rintro rfl
    simp only [Function.update_self, Proc.AsleepOn, hawake] at hq
    cases hq.1
  simp only [Function.update_of_ne hqp] at hq
  obtain ⟨q', hq'⟩ := h ⟨q, hq⟩ hready
  have hqp' : q' ≠ p := by
    rintro rfl
    rw [hidle] at hq'
    cases hq'
  exact ⟨q', by simpa only [Function.update_of_ne hqp'] using hq'⟩

/-- A step of a process leaves no wake-up of the queue unheard, unless it is an open that makes
space for a sleeping writer. -/
theorem Heard.run (h : Heard queue w) (hinv : Coherent params w) {p : Fin n} {signal : Bool}
    {out : Outcome} (hrun : (w.procs p).run w.sys w.locked signal = some out)
    (hopen : queue = .outq → OpenHeard w (.run p signal)) :
    Heard queue
      ⟨out.sys, out.locked, wakeUp out.wakes (Function.update w.procs p out.proc)⟩ := by
  rintro ⟨q, hq⟩ hready
  obtain ⟨hq, hwakes⟩ := asleepOn_wakeUp hq
  simp only [task_wakeUp]
  have hqp : q ≠ p := by
    rintro rfl
    rw [Function.update_self] at hq
    exact Proc.not_ready_of_sleeps hrun hq.1 hq.2.1 hready
  rw [Function.update_of_ne hqp] at hq
  -- A process that was about to wake up the queue still is: it has not done so in this step.
  have hkeep : (∃ q', (w.procs q').task.wakesNext = some queue) →
      ∃ q', (Function.update w.procs p out.proc q').task.wakesNext = some queue := by
    rintro ⟨q', hq'⟩
    refine ⟨q', ?_⟩
    by_cases hqp' : q' = p
    · subst hqp'
      rw [Function.update_self]
      exact (Proc.wakesNext_run hrun hq').resolve_right hwakes
    · rwa [Function.update_of_ne hqp']
  by_cases hbefore : queue.Ready w.sys.dev
  · exact hkeep (h ⟨q, hq⟩ hbefore)
  · rcases hinv.becomes_ready hrun hbefore hready with
      hnext | ⟨rfl, hsize, filp, mode, answer, htask⟩
    · exact ⟨p, by rwa [Function.update_self]⟩
    · rcases hopen rfl p signal filp mode answer rfl htask ⟨q, hq⟩ with hnext | hle
      · exact hkeep hnext
      · omega

theorem World.sleeps_begin {call : Call} {task : Task} (h : w.begin call = some task) :
    task.sleeps = false := by
  cases call <;> simp only [World.begin] at h <;> split_ifs at h <;> cases h <;> rfl

theorem Heard.step (h : Heard queue w) (hinv : Coherent params w) {e : Event n} {r : Option ℤ}
    (hopen : queue = .outq → OpenHeard w e) (hst : w.step e = some (r, w')) : Heard queue w' := by
  rcases World.step_cases hst with ⟨p, call, task, -, hidle, hbegin, -, rfl⟩ |
    ⟨p, signal, out, rfl, hrun, -, rfl⟩
  · exact h.start hidle (World.sleeps_begin hbegin)
  · exact h.run hinv hrun hopen

/-- **An open that is not heard.** After an open that found a writer asleep, nobody about to wake it
up and room for a byte, the writer is asleep on a pipe with space. -/
theorem Coherent.openHeard_of_heard (h : Coherent params w) {e : Event n} {r : Option ℤ}
    (hst : w.step e = some (r, w')) (hheard : Heard .outq w') : OpenHeard w e := by
  rintro p signal filp mode answer rfl htask ⟨q, hq⟩
  by_contra hnot
  rw [not_or, not_exists, not_le] at hnot
  obtain ⟨hquiet, hsize⟩ := hnot
  rcases World.step_cases hst with ⟨_, _, _, heq, -⟩ | ⟨_, _, out, heq, hrun, -, rfl⟩
  · cases heq
  cases heq
  have hqp : q ≠ p := by
    rintro rfl
    rw [Proc.AsleepOn, htask] at hq
    cases hq.1
  -- The sleeping writer has its file open, so there is a buffer and the open succeeds.
  have hbuffer : ∃ b, w.sys.dev.buffer = some b := by
    cases hq' : (w.procs q).task with
    | transfer pc f t => exact h.buffer_isSome hq'
    | _ =>
      rw [Proc.AsleepOn, hq'] at hq
      cases hq.1
  obtain ⟨b, hb⟩ := hbuffer
  simp only [Proc.run, htask, Proc.runSection] at hrun
  obtain ⟨res, hopen, hout⟩ := Option.map_eq_some_iff.mp hrun
  subst hout
  have hready : Queue.outq.Ready res.2.dev := by
    rcases h.steady.open_cases hopen with ⟨hnone, -⟩ | ⟨b', hdev, hpos⟩
    · rw [hb] at hnone
      cases hnone
    · rw [hdev, ready_opened _ _ _ hpos]
      exact ⟨rfl, hsize⟩
  obtain ⟨q', hq'⟩ := hheard ⟨q, by simpa [wakeUp, hqp] using hq⟩ hready
  rw [task_wakeUp] at hq'
  by_cases hqp' : q' = p
  · subst hqp'
    rw [Function.update_self] at hq'
    cases hq'
  · rw [Function.update_of_ne hqp'] at hq'
    exact hquiet q' hq'

end Steps

/-- **No lost wake-up.** In every interleaving of opens, releases, reads and writes of any number of
processes: in no state is a reader asleep on `inq` with data in the pipe and nobody about to wake
the queue up. The same holds for writers on `outq` and space in the pipe, in all states of the
interleaving, if and only if every open finds no writer asleep, or somebody about to wake it up, or
leaves no space.

Source: `ldd/scull/pipe.c`, lines 64–93, 121–181 and 191–229. -/
theorem no_lost_wake_up (params : Scull.Params) {n : ℕ} {es : List (Event n)}
    {rs : List (Option ℤ)} {w : World n}
    (hrun : exec World.step (.load n params) es = some (rs, w)) :
    Always World.step (Heard .inq) (.load n params) es ∧
      (Always World.step (Heard .outq) (.load n params) es ↔
        Guarded World.step OpenHeard (.load n params) es) := by
  have hload : ∀ queue, Heard queue (.load n params) := by
    rintro queue ⟨p, hp⟩
    cases hp.1
  have hheard : ∀ queue (G : World n → Event n → Prop),
      (∀ w e, G w e → queue = .outq → OpenHeard w e) → Guarded World.step G (.load n params) es →
      Always World.step (Heard queue) (.load n params) es := by
    intro queue G hG hguarded
    refine (always_of_invariant (fun w => Coherent params w ∧ Heard queue w) ?_
      ⟨coherent_load n params, hload queue⟩ hguarded).mono fun _ h => h.2
    intro s e r t h hs hst
    exact ⟨h.1.step hst, h.2.step h.1 (hG s e hs) hst⟩
  refine ⟨hheard .inq (fun _ _ => True) (by simp) (guarded_true _ _), fun h => ?_,
    hheard .outq OpenHeard fun _ _ h _ => h⟩
  have hinv : Always World.step (Coherent params) (.load n params) es :=
    always_of_invariant (Coherent params) (fun _ _ _ _ h _ hst => h.step hst)
      (coherent_load n params) (guarded_true _ es)
  exact (hinv.and h).guarded_of_next
    (fun _ _ _ _ hs hst ht => hs.1.openHeard_of_heard hst ht.2) hrun

/-- With a buffer of two bytes: a process opens the pipe and fills it, and a second one goes to
sleep in a write on the same file. -/
def sleepingWriter : List (Event 2) :=
  [.start 0 (.scullPOpen 0 ⟨true, true⟩ (some fun _ => 0)), .run 0 false, .run 0 false,
    .run 0 false, .run 0 false,
    .start 0 (.transfer ⟨0, ⟨true, true⟩, 0⟩ (.write false 1 ⟨[7], []⟩)), .run 0 false,
    .run 0 false, .run 0 false, .run 0 false, .run 0 false, .run 0 false,
    .start 1 (.transfer ⟨0, ⟨true, true⟩, 0⟩ (.write false 1 ⟨[8], []⟩)), .run 1 false,
    .run 1 false, .run 1 false, .run 1 false, .run 1 false, .run 1 false]

/-- The run up to the sleep of the second process. -/
theorem no_lost_wake_up_sleeping :
    Always World.step (Heard .inq) (.load 2 ⟨Scull.SCULL_QUANTUM, Scull.SCULL_QSET, 2⟩)
      sleepingWriter := by
  have hsome : (exec World.step (.load 2 ⟨Scull.SCULL_QUANTUM, Scull.SCULL_QSET, 2⟩)
      sleepingWriter).isSome := rfl
  obtain ⟨⟨rs, w⟩, hrun⟩ := Option.isSome_iff_exists.mp hsome
  exact (no_lost_wake_up _ hrun).1

/-- The first process then opens the pipe once more: the pipe is empty, the writer is asleep, and
nobody is about to wake it up. -/
theorem open_loses_wake_up :
    ∃ rs w, exec World.step (.load 2 ⟨Scull.SCULL_QUANTUM, Scull.SCULL_QSET, 2⟩)
        (sleepingWriter ++ [.start 0 (.scullPOpen 1 ⟨true, false⟩ none), .run 0 false,
          .run 0 false, .run 0 false, .run 0 false]) = some (rs, w) ∧
      (w.procs 1).AsleepOn .outq ∧ spacefree w.sys.dev = 1 ∧ (w.procs 0).task = .idle ∧
      ∀ q, (w.procs q).task.wakesNext ≠ some .outq :=
  ⟨_, _, rfl, ⟨rfl, rfl, rfl⟩, by decide, rfl, by decide⟩

end ExKernel.Pipe
