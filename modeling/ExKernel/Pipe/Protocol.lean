import ExKernel.Pipe.Bounds
import Mathlib.Logic.Function.Basic

/-!
# The blocking protocol of the pipe

Any number of processes run the methods of the device at once. A process takes the lock, tests the
pipe, and if it has to wait releases the lock and sleeps on one of the two wait queues; when it runs
on it takes the lock and tests again. This file has every such step as a transition of its own, and
runs are arbitrary interleavings of the steps of the processes.

The mutex is the flag `locked`; whether a process owns it is recorded with the process, set when the
process takes the lock and cleared when it releases it, and neither step looks at the other record.
A process is on a wait queue from `prepare_to_wait` until it is woken up or calls `finish_wait`. A
process in `schedule()` may run on at any time, so wake-ups may be spurious; signals are part of the
event.

## Main definitions

* `Pipe.Request`, `Pipe.PC`, `Pipe.Task`, `Pipe.Proc`: what a process is doing.
* `Pipe.Proc.run`: the next step of a process.
* `Pipe.World`, `Pipe.Event`, `Pipe.World.step`: all processes, and the steps of the system.
* `Pipe.Coherent`: the invariant.
* `Pipe.OneOwner`, `Pipe.Orderly`: what the protocol guarantees in a state and at a step.

## Main results

* `Pipe.Coherent.step`: every step preserves the invariant.
* `Pipe.blocking_protocol`: the protocol is kept, a writer with a buffer of no bytes excepted.

## References

* `ldd/scull/pipe.c`, lines 64–229.
-/

namespace ExKernel.Pipe

open Transition

/-! ### What a process is doing -/

/-- A call of `scull_p_read` or `scull_p_write`: whether the file is open with `O_NONBLOCK`, and the
arguments. -/
inductive Request
  | read (nonblock : Bool) (count room : ℕ)
  | write (nonblock : Bool) (count : ℕ) (src : UserBuffer)

namespace Request

/-- The file system layer passes on a read only on a file open for reading, and a write only on one
open for writing. -/
def permitted (mode : FMode) : Request → Bool
  | read .. => mode.read
  | write .. => mode.write

/-- Whether the file is open with `O_NONBLOCK`. -/
def nonblock : Request → Bool
  | read nonblock .. => nonblock
  | write nonblock .. => nonblock

/-- The condition of the waiting loop: nothing to read, or full.

Source: `ldd/scull/pipe.c`, lines 129 and 166. -/
def blocked (dev : ScullPipe) : Request → Bool
  | read .. => dev.rp = dev.wp
  | write .. => spacefree dev = 0

/-- The copy and the update of the pointer.

Source: `ldd/scull/pipe.c`, lines 141–151 and 206–219. -/
def copy (dev : ScullPipe) : Request → Option (Reply × ScullPipe)
  | read _ count room => dev.buffer.map fun b => scullPReadLocked dev b count room
  | write _ count src => dev.buffer.map fun b => scullPWriteLocked dev b count src

/-- The request as one atomic call. -/
def toTransfer : Request → Transfer
  | read nonblock count room => .read ⟨false, nonblock, false⟩ count room
  | write nonblock count src => .write ⟨false, nonblock, false⟩ count src

theorem permitted_toTransfer (mode : FMode) (t : Request) :
    t.toTransfer.permitted mode = t.permitted mode := by
  cases t <;> rfl

/-- On a pipe that is ready the copy is what the atomic call does. -/
theorem exec_toTransfer {dev : ScullPipe} {t : Request} (h : t.blocked dev = false) :
    t.toTransfer.exec dev = t.copy dev := by
  cases t with
  | read nonblock count room =>
    have hne : dev.rp ≠ dev.wp := by simpa [blocked] using h
    simp [toTransfer, Transfer.exec, scullPRead, copy, hne]
  | write nonblock count src =>
    have hne : spacefree dev ≠ 0 := by simpa [blocked] using h
    simp [toTransfer, Transfer.exec, scullPWrite, copy, hne]

end Request

/-- Where a process is in `scull_p_read`, or in `scull_p_write` and `scull_getwritespace`. -/
inductive PC
  /-- At `mutex_lock_interruptible`, for the first time or again. -/
  | lock
  /-- At the condition of the waiting loop. -/
  | test
  /-- At `mutex_unlock` in the body of the loop. -/
  | unlockWait
  /-- At the test of `O_NONBLOCK`. -/
  | nonblock
  /-- A reader at the test that `wait_event_interruptible` makes before it queues. -/
  | waitTest
  /-- At `prepare_to_wait`. -/
  | prepare
  /-- At the test of a process that is on the queue; a reader may have seen a signal. -/
  | lastTest (intr : Bool)
  /-- In `schedule()`. -/
  | asleep
  /-- At `finish_wait`. -/
  | finish
  /-- A writer at `signal_pending`. -/
  | signal
  /-- At the copy. -/
  | copy
  /-- At `mutex_unlock` after a copy that failed. -/
  | unlockFault (ret : ℤ)
  /-- At `mutex_unlock` after the update of the pointer. -/
  | unlockDone (ret : ℤ)
  /-- At `wake_up_interruptible`. -/
  | wake (ret : ℤ)
  /-- At the return. -/
  | leave (ret : ℤ)

/-- Where a process is in `scull_p_open` or `scull_p_release`, which run one section under the
lock. -/
inductive SectionPC
  | lock
  | body
  | unlock (ret : ℤ)
  | leave (ret : ℤ)

/-- What a process is doing on the device. -/
inductive Task
  | idle
  | opening (pc : SectionPC) (filp : ℕ) (mode : FMode) (answer : Option (ℤ → UInt8))
  | closing (pc : SectionPC) (f : OpenFile)
  | transfer (pc : PC) (f : OpenFile) (t : Request)

/-- The two wait queues. -/
inductive Queue
  | inq
  | outq
  deriving DecidableEq

namespace Task

/-- The file that a call is about. -/
def filp : Task → Option ℕ
  | idle => none
  | opening _ filp _ _ => some filp
  | closing _ f => some f.filp
  | transfer _ f _ => some f.filp

/-- The process is in a read or write. -/
def isTransfer : Task → Bool
  | transfer .. => true
  | _ => false

/-- The queue on which the process waits, if it does. -/
def queue : Task → Option Queue
  | transfer _ _ (.read ..) => some .inq
  | transfer _ _ (.write ..) => some .outq
  | _ => none

/-- The process is between taking and releasing the lock. -/
def holds : Task → Bool
  | opening .body .. => true
  | opening (.unlock _) .. => true
  | closing .body _ => true
  | closing (.unlock _) _ => true
  | transfer .test .. => true
  | transfer .unlockWait .. => true
  | transfer .copy .. => true
  | transfer (.unlockFault _) .. => true
  | transfer (.unlockDone _) .. => true
  | _ => false

/-- The process is at a `mutex_unlock`. -/
def unlocks : Task → Bool
  | opening (.unlock _) .. => true
  | closing (.unlock _) _ => true
  | transfer .unlockWait .. => true
  | transfer (.unlockFault _) .. => true
  | transfer (.unlockDone _) .. => true
  | _ => false

end Task

/-- A process: what it is doing, whether it owns the lock, and whether it is on its wait queue and
has not been woken up since it went there. -/
structure Proc where
  task : Task
  owns : Bool
  queued : Bool

/-! ### The next step of a process -/

/-- What a step of a process leaves: the process, the device with its files, the mutex, the queue
that is woken up, and the value that a call returns. -/
structure Outcome where
  proc : Proc
  sys : PipeSys
  locked : Bool
  wakes : Option Queue := none
  ret : Option ℤ := none

/-- The next step of a process in a section under the lock that makes the call `op`; `intr` is
whether taking the lock is interrupted.

Source: `ldd/scull/pipe.c`, lines 71–92 and 103–113. -/
def Proc.runSection (proc : Proc) (sys : PipeSys) (locked intr : Bool) (op : PipeOp)
    (task : SectionPC → Task) : SectionPC → Option Outcome
  | .lock =>
    if intr then some ⟨{ proc with task := task (.leave (-ERESTARTSYS)) }, sys, locked, none, none⟩
    else if locked then none
    else some ⟨{ proc with task := task .body, owns := true }, sys, true, none, none⟩
  | .body => (sys.step op).map fun out =>
    ⟨{ proc with task := task (.unlock (out.1.ret.getD 0)) }, out.2, locked, none, none⟩
  | .unlock ret =>
    some ⟨{ proc with task := task (.leave ret), owns := false }, sys, false, none, none⟩
  | .leave ret => some ⟨{ proc with task := .idle }, sys, locked, none, some ret⟩

/-- The next step of a process in a read or write.

Source: `ldd/scull/pipe.c`, lines 126–157, 166–180 and 197–228. -/
def Proc.runTransfer (proc : Proc) (sys : PipeSys) (locked signal : Bool) (f : OpenFile)
    (t : Request) : PC → Option Outcome
  | .lock =>
    if signal then goto (.leave (-ERESTARTSYS))
    else if locked then none
    else some ⟨{ proc with task := .transfer .test f t, owns := true }, sys, true, none, none⟩
  | .test => if t.blocked sys.dev then goto .unlockWait else goto .copy
  | .unlockWait => unlock .nonblock
  | .nonblock =>
    if t.nonblock then goto (.leave (-EAGAIN))
    else match t with
      | .read .. => goto .waitTest
      | .write .. => goto .prepare
  | .waitTest => if t.blocked sys.dev then goto .prepare else goto .lock
  | .prepare => match t with
    -- A reader with a signal pending is not queued; a writer looks for signals only afterwards.
    | .read .. => enqueue (!signal) (.lastTest signal)
    | .write .. => enqueue true (.lastTest false)
  | .lastTest intr =>
    if t.blocked sys.dev then
      if intr then goto (.leave (-ERESTARTSYS)) else goto .asleep
    else goto .finish
  | .asleep => match t with
    | .read .. => goto .prepare
    | .write .. => goto .finish
  | .finish => match t with
    | .read .. => enqueue false .lock
    | .write .. => enqueue false .signal
  | .signal => if signal then goto (.leave (-ERESTARTSYS)) else goto .lock
  | .copy => (t.copy sys.dev).map fun out =>
    let ret := out.1.ret.getD 0
    let pc := if ret < 0 then .unlockFault ret else .unlockDone ret
    ⟨{ proc with task := .transfer pc f t }, { sys with dev := out.2 }, locked, none, none⟩
  | .unlockFault ret => unlock (.leave ret)
  | .unlockDone ret => unlock (.wake ret)
  | .wake ret =>
    let queue := match t with
      | .read .. => .outq
      | .write .. => .inq
    some ⟨{ proc with task := .transfer (.leave ret) f t }, sys, locked, some queue, none⟩
  | .leave ret => some ⟨{ proc with task := .idle }, sys, locked, none, some ret⟩
where
  /-- Go on at `pc`. -/
  goto (pc : PC) : Option Outcome :=
    some ⟨{ proc with task := .transfer pc f t }, sys, locked, none, none⟩
  /-- Release the lock and go on at `pc`. -/
  unlock (pc : PC) : Option Outcome :=
    some ⟨{ proc with task := .transfer pc f t, owns := false }, sys, false, none, none⟩
  /-- Go on at `pc`, on the wait queue or off it. -/
  enqueue (queued : Bool) (pc : PC) : Option Outcome :=
    some ⟨{ proc with task := .transfer pc f t, queued := queued }, sys, locked, none, none⟩

/-- The next step of a process. Closing a file takes the lock without looking at signals. -/
def Proc.run (proc : Proc) (sys : PipeSys) (locked signal : Bool) : Option Outcome :=
  match proc.task with
  | .idle => none
  | .opening pc filp mode answer =>
    proc.runSection sys locked signal (.scullPOpen false filp mode answer)
      (fun pc => .opening pc filp mode answer) pc
  | .closing pc f =>
    proc.runSection sys locked false (.scullPRelease f) (fun pc => .closing pc f) pc
  | .transfer pc f t => proc.runTransfer sys locked signal f t pc

/-! ### All processes -/

/-- The device with its files, the mutex, and `n` processes. -/
structure World (n : ℕ) where
  sys : PipeSys
  locked : Bool
  procs : Fin n → Proc

/-- The module as it is loaded with the parameters `params`, with every process idle. -/
def World.load (n : ℕ) (params : Scull.Params) : World n :=
  ⟨.load params, false, fun _ => ⟨.idle, false, false⟩⟩

/-- A call that a process may begin. -/
inductive Call
  | scullPOpen (filp : ℕ) (mode : FMode) (answer : Option (ℤ → UInt8))
  | scullPRelease (f : OpenFile)
  | transfer (f : OpenFile) (t : Request)

/-- An event: an idle process begins a call, or a process makes its next step, with a signal pending
or not. -/
inductive Event (n : ℕ)
  | start (p : Fin n) (call : Call)
  | run (p : Fin n) (signal : Bool)

/-- The task with which a call begins, if it can begin: a file is opened under a new identity; reads
and writes are made on open files that nobody is opening or closing; and a file is released when no
call on it is under way. -/
def World.begin (w : World n) : Call → Option Task
  | .scullPOpen filp mode answer =>
    if (∀ f ∈ w.sys.files, f.filp ≠ filp) ∧ ∀ q, (w.procs q).task.filp ≠ some filp then
      some (.opening .lock filp mode answer)
    else none
  | .scullPRelease f =>
    if f ∈ w.sys.files ∧ ∀ q, (w.procs q).task.filp ≠ some f.filp then some (.closing .lock f)
    else none
  | .transfer f t =>
    if f ∈ w.sys.files ∧ t.permitted f.mode ∧
        ∀ q, (w.procs q).task.filp = some f.filp → (w.procs q).task.isTransfer then
      some (.transfer .lock f t)
    else none

/-- Waking up a queue: everybody is taken off it. -/
def wakeUp {n : ℕ} (wakes : Option Queue) (procs : Fin n → Proc) : Fin n → Proc := fun q =>
  if wakes.isSome ∧ (procs q).task.queue = wakes then { procs q with queued := false }
  else procs q

/-- One step of the system. -/
def World.step {n : ℕ} (w : World n) : Event n → Option (Option ℤ × World n)
  | .start p call =>
    match (w.procs p).task, w.begin call with
    | .idle, some task =>
      some (none, { w with procs := Function.update w.procs p ⟨task, false, false⟩ })
    | _, _ => none
  | .run p signal => ((w.procs p).run w.sys w.locked signal).map fun out =>
    (out.ret, ⟨out.sys, out.locked, wakeUp out.wakes (Function.update w.procs p out.proc)⟩)

/-! ### Single steps -/

/-- The effect of a step on the lock: none, or the process takes it while it is free, or the process
releases it at a `mutex_unlock`. -/
inductive LockMove (proc : Proc) (locked : Bool) (out : Outcome) : Prop
  | stay (howns : out.proc.owns = proc.owns) (hlocked : out.locked = locked)
      (hholds : out.proc.task.holds = proc.task.holds) (hunlocks : proc.task.unlocks = false)
  | take (hfree : locked = false) (howns : out.proc.owns = true) (hlocked : out.locked = true)
      (hholds : out.proc.task.holds = true) (hheld : proc.task.holds = false)
      (hunlocks : proc.task.unlocks = false)
  | drop (howns : out.proc.owns = false) (hlocked : out.locked = false)
      (hholds : out.proc.task.holds = false) (hheld : proc.task.holds = true)

theorem Proc.runSection_lockMove {proc : Proc} {sys : PipeSys} {locked intr : Bool} {op : PipeOp}
    {task : SectionPC → Task} {pc : SectionPC} {out : Outcome} (htask : proc.task = task pc)
    (hlock : (task .lock).holds = false ∧ (task .lock).unlocks = false)
    (hbody : (task .body).holds = true ∧ (task .body).unlocks = false)
    (hunlock : ∀ ret, (task (.unlock ret)).holds = true)
    (hleave : ∀ ret, (task (.leave ret)).holds = false ∧ (task (.leave ret)).unlocks = false)
    (h : proc.runSection sys locked intr op task pc = some out) : LockMove proc locked out := by
  cases pc with
  | lock =>
    simp only [runSection] at h
    split_ifs at h with hintr hlocked
    · cases h
      exact .stay rfl rfl (by rw [htask, hlock.1]; exact (hleave _).1) (htask ▸ hlock.2)
    · cases h
      exact .take (by simpa using hlocked) rfl rfl hbody.1 (htask ▸ hlock.1) (htask ▸ hlock.2)
  | body =>
    obtain ⟨res, -, heq⟩ := Option.map_eq_some_iff.mp h
    cases heq
    exact .stay rfl rfl (by rw [htask, hbody.1]; exact hunlock _) (htask ▸ hbody.2)
  | unlock ret =>
    cases h
    exact .drop rfl rfl (hleave ret).1 (htask ▸ hunlock ret)
  | leave ret =>
    cases h
    exact .stay rfl rfl (by rw [htask, (hleave ret).1]; rfl) (htask ▸ (hleave ret).2)

theorem Proc.runTransfer_lockMove {proc : Proc} {sys : PipeSys} {locked signal : Bool}
    {f : OpenFile} {t : Request} {pc : PC} {out : Outcome} (htask : proc.task = .transfer pc f t)
    (h : proc.runTransfer sys locked signal f t pc = some out) : LockMove proc locked out := by
  cases pc with
  | lock =>
    simp only [runTransfer, runTransfer.goto] at h
    split_ifs at h with hintr hlocked
    · cases h
      exact .stay rfl rfl (by rw [htask]; rfl) (by rw [htask]; rfl)
    · cases h
      exact .take (by simpa using hlocked) rfl rfl rfl (by rw [htask]; rfl) (by rw [htask]; rfl)
  | unlockWait =>
    cases h
    exact .drop rfl rfl rfl (by rw [htask]; rfl)
  | unlockFault ret =>
    cases h
    exact .drop rfl rfl rfl (by rw [htask]; rfl)
  | unlockDone ret =>
    cases h
    exact .drop rfl rfl rfl (by rw [htask]; rfl)
  | copy =>
    obtain ⟨res, -, heq⟩ := Option.map_eq_some_iff.mp h
    cases heq
    refine .stay rfl rfl ?_ (by rw [htask]; rfl)
    rw [htask]
    simp only
    split_ifs <;> rfl
  | _ =>
    cases t <;> simp only [runTransfer, runTransfer.goto, runTransfer.enqueue] at h <;>
      (try split_ifs at h) <;> cases h <;>
      exact .stay rfl rfl (by rw [htask]; rfl) (by rw [htask]; rfl)

/-- **Steps and the lock.** -/
theorem Proc.run_lockMove {proc : Proc} {sys : PipeSys} {locked signal : Bool} {out : Outcome}
    (h : proc.run sys locked signal = some out) : LockMove proc locked out := by
  cases htask : proc.task with
  | idle => simp [run, htask] at h
  | opening pc filp mode answer =>
    simp only [run, htask] at h
    exact runSection_lockMove htask ⟨rfl, rfl⟩ ⟨rfl, rfl⟩ (fun _ => rfl) (fun _ => ⟨rfl, rfl⟩) h
  | closing pc f =>
    simp only [run, htask] at h
    exact runSection_lockMove htask ⟨rfl, rfl⟩ ⟨rfl, rfl⟩ (fun _ => rfl) (fun _ => ⟨rfl, rfl⟩) h
  | transfer pc f t =>
    simp only [run, htask] at h
    exact runTransfer_lockMove htask h

/-- The effect of a step on the device and its files: none, or that of the section of an open or of
a release, or that of a copy. -/
inductive SysMove (proc : Proc) (sys : PipeSys) (out : Outcome) : Prop
  | keep (hsys : out.sys = sys)
  | opened {filp : ℕ} {mode : FMode} {answer : Option (ℤ → UInt8)} {r : Reply}
      (htask : proc.task = .opening .body filp mode answer)
      (hst : sys.step (.scullPOpen false filp mode answer) = some (r, out.sys))
  | released {f : OpenFile} {r : Reply} (htask : proc.task = .closing .body f)
      (hst : sys.step (.scullPRelease f) = some (r, out.sys))
  | copied {f : OpenFile} {t : Request} {r : Reply} {dev' : ScullPipe}
      (htask : proc.task = .transfer .copy f t) (hcopy : t.copy sys.dev = some (r, dev'))
      (hsys : out.sys = { sys with dev := dev' })

/-- What a step makes of the task: a call returns, or goes on with the same file; the section of a
release is entered only from its start, a copy only from a test that the pipe passed, and sleep only
from one that it did not. -/
inductive TaskMove (proc : Proc) (sys : PipeSys) (out : Outcome) : Prop
  | ended (htask : out.proc.task = .idle)
  | opening {pc pc' : SectionPC} {filp : ℕ} {mode : FMode} {answer : Option (ℤ → UInt8)}
      (hret : out.ret = none) (htask : proc.task = .opening pc filp mode answer)
      (htask' : out.proc.task = .opening pc' filp mode answer)
  | closing {pc pc' : SectionPC} {f : OpenFile} (hret : out.ret = none)
      (htask : proc.task = .closing pc f) (htask' : out.proc.task = .closing pc' f)
      (hlock : pc' ≠ .lock) (hbody : pc' = .body → pc = .lock)
  | transfer {pc pc' : PC} {f : OpenFile} {t : Request} (hret : out.ret = none)
      (htask : proc.task = .transfer pc f t) (htask' : out.proc.task = .transfer pc' f t)
      (hcopy : pc' = .copy → pc = .test ∧ t.blocked sys.dev = false)
      (hsleep : pc' = .asleep → out.sys = sys ∧ t.blocked sys.dev = true)

theorem TaskMove.of_transfer {proc : Proc} {sys : PipeSys} {out : Outcome} {pc' : PC} {f : OpenFile}
    {t : Request} (h : TaskMove proc sys out) (hout : out.proc.task = .transfer pc' f t) :
    ∃ pc, proc.task = .transfer pc f t ∧
      (pc' = .copy → pc = .test ∧ t.blocked sys.dev = false) := by
  cases h with
  | ended hidle => cases hidle.symm.trans hout
  | opening _ _ htask' => cases htask'.symm.trans hout
  | closing _ _ htask' => cases htask'.symm.trans hout
  | transfer _ htask htask' hcopy =>
    cases htask'.symm.trans hout
    exact ⟨_, htask, hcopy⟩

theorem TaskMove.of_closing {proc : Proc} {sys : PipeSys} {out : Outcome} {pc' : SectionPC}
    {f : OpenFile} (h : TaskMove proc sys out) (hout : out.proc.task = .closing pc' f) :
    ∃ pc, proc.task = .closing pc f ∧ pc' ≠ .lock ∧ (pc' = .body → pc = .lock) := by
  cases h with
  | ended hidle => cases hidle.symm.trans hout
  | opening _ _ htask' => cases htask'.symm.trans hout
  | transfer _ _ htask' => cases htask'.symm.trans hout
  | closing _ htask htask' hlock hbody =>
    cases htask'.symm.trans hout
    exact ⟨_, htask, hlock, hbody⟩

theorem TaskMove.filp_eq {proc : Proc} {sys : PipeSys} {out : Outcome} (h : TaskMove proc sys out) :
    out.proc.task.filp = none ∨ out.proc.task.filp = proc.task.filp := by
  cases h with
  | ended hidle => exact Or.inl (by rw [hidle]; rfl)
  | opening _ htask htask' => exact Or.inr (by rw [htask, htask']; rfl)
  | closing _ htask htask' => exact Or.inr (by rw [htask, htask']; rfl)
  | transfer _ htask htask' => exact Or.inr (by rw [htask, htask']; rfl)

theorem Proc.runSection_cases {proc : Proc} {sys : PipeSys} {locked intr : Bool} {op : PipeOp}
    {task : SectionPC → Task} {pc : SectionPC} {out : Outcome}
    (h : proc.runSection sys locked intr op task pc = some out) :
    (out.sys = sys ∨ pc = .body ∧ ∃ r, sys.step op = some (r, out.sys)) ∧
      (out.proc.task = .idle ∨ out.ret = none ∧
        ∃ pc', out.proc.task = task pc' ∧ pc' ≠ .lock ∧ (pc' = .body → pc = .lock)) := by
  cases pc with
  | lock =>
    simp only [runSection] at h
    split_ifs at h
    · cases h
      exact ⟨Or.inl rfl, Or.inr ⟨rfl, _, rfl, by simp, fun _ => rfl⟩⟩
    · cases h
      exact ⟨Or.inl rfl, Or.inr ⟨rfl, _, rfl, by simp, fun _ => rfl⟩⟩
  | body =>
    obtain ⟨res, hst, heq⟩ := Option.map_eq_some_iff.mp h
    cases heq
    exact ⟨Or.inr ⟨rfl, _, hst⟩, Or.inr ⟨rfl, _, rfl, by simp, by simp⟩⟩
  | unlock ret =>
    cases h
    exact ⟨Or.inl rfl, Or.inr ⟨rfl, _, rfl, by simp, by simp⟩⟩
  | leave ret =>
    cases h
    exact ⟨Or.inl rfl, Or.inl rfl⟩

theorem Proc.runTransfer_cases {proc : Proc} {sys : PipeSys} {locked signal : Bool}
    {f : OpenFile} {t : Request} {pc : PC} {out : Outcome}
    (h : proc.runTransfer sys locked signal f t pc = some out) :
    (out.sys = sys ∨ pc = .copy ∧
      ∃ r dev', t.copy sys.dev = some (r, dev') ∧ out.sys = { sys with dev := dev' }) ∧
    (out.proc.task = .idle ∨ out.ret = none ∧ ∃ pc', out.proc.task = .transfer pc' f t ∧
      (pc' = .copy → pc = .test ∧ t.blocked sys.dev = false) ∧
      (pc' = .asleep → out.sys = sys ∧ t.blocked sys.dev = true)) := by
  cases pc with
  | test =>
    simp only [runTransfer, runTransfer.goto] at h
    split_ifs at h with hblocked
    · cases h
      exact ⟨Or.inl rfl, Or.inr ⟨rfl, _, rfl, by simp, by simp⟩⟩
    · cases h
      exact ⟨Or.inl rfl, Or.inr ⟨rfl, _, rfl, fun _ => ⟨rfl, by simpa using hblocked⟩, by simp⟩⟩
  | lastTest intr =>
    simp only [runTransfer, runTransfer.goto] at h
    split_ifs at h with hblocked hintr
    · cases h
      exact ⟨Or.inl rfl, Or.inr ⟨rfl, _, rfl, by simp, by simp⟩⟩
    · cases h
      exact ⟨Or.inl rfl, Or.inr ⟨rfl, _, rfl, by simp, fun _ => ⟨rfl, hblocked⟩⟩⟩
    · cases h
      exact ⟨Or.inl rfl, Or.inr ⟨rfl, _, rfl, by simp, by simp⟩⟩
  | copy =>
    obtain ⟨⟨r, dev'⟩, hcopy, heq⟩ := Option.map_eq_some_iff.mp h
    cases heq
    refine ⟨Or.inr ⟨rfl, r, dev', hcopy, rfl⟩, Or.inr ⟨rfl, _, rfl, ?_⟩⟩
    split_ifs <;> simp
  | leave ret =>
    cases h
    exact ⟨Or.inl rfl, Or.inl rfl⟩
  | _ =>
    cases t <;>
      simp only [runTransfer, runTransfer.goto, runTransfer.unlock, runTransfer.enqueue] at h <;>
      (try split_ifs at h) <;> cases h <;>
      exact ⟨Or.inl rfl, Or.inr ⟨rfl, _, rfl, by simp, by simp⟩⟩

/-- **Steps, the device and the task.** -/
theorem Proc.run_cases {proc : Proc} {sys : PipeSys} {locked signal : Bool} {out : Outcome}
    (h : proc.run sys locked signal = some out) :
    SysMove proc sys out ∧ TaskMove proc sys out := by
  cases htask : proc.task with
  | idle => simp [run, htask] at h
  | opening pc filp mode answer =>
    simp only [run, htask] at h
    obtain ⟨hsys, hnext⟩ := runSection_cases h
    constructor
    · rcases hsys with hsys | ⟨rfl, r, hst⟩
      · exact .keep hsys
      · exact .opened htask hst
    · rcases hnext with hidle | ⟨hret, pc', hpc', -⟩
      · exact .ended hidle
      · exact .opening hret htask hpc'
  | closing pc f =>
    simp only [run, htask] at h
    obtain ⟨hsys, hnext⟩ := runSection_cases h
    constructor
    · rcases hsys with hsys | ⟨rfl, r, hst⟩
      · exact .keep hsys
      · exact .released htask hst
    · rcases hnext with hidle | ⟨hret, pc', hpc', hlock, hbody⟩
      · exact .ended hidle
      · exact .closing hret htask hpc' hlock hbody
  | transfer pc f t =>
    simp only [run, htask] at h
    obtain ⟨hsys, hnext⟩ := runTransfer_cases h
    constructor
    · rcases hsys with hsys | ⟨rfl, r, dev', hcopy, hsys⟩
      · exact .keep hsys
      · exact .copied htask hcopy hsys
    · rcases hnext with hidle | ⟨hret, pc', hpc', hcopy, hsleep⟩
      · exact .ended hidle
      · exact .transfer hret htask hpc' hcopy hsleep

/-- Only a process between taking and releasing the lock changes the device or its files. -/
theorem SysMove.sys_eq_or_holds {proc : Proc} {sys : PipeSys} {out : Outcome}
    (h : SysMove proc sys out) : out.sys = sys ∨ proc.task.holds = true := by
  cases h with
  | keep hsys => exact Or.inl hsys
  | opened htask => exact Or.inr (by rw [htask]; rfl)
  | released htask => exact Or.inr (by rw [htask]; rfl)
  | copied htask => exact Or.inr (by rw [htask]; rfl)

section Steps

variable {n : ℕ} {w w' : World n} {e : Event n} {r : Option ℤ}

@[simp] theorem task_wakeUp (wakes : Option Queue) (procs : Fin n → Proc) (q : Fin n) :
    (wakeUp wakes procs q).task = (procs q).task := by
  unfold wakeUp
  split <;> rfl

@[simp] theorem owns_wakeUp (wakes : Option Queue) (procs : Fin n → Proc) (q : Fin n) :
    (wakeUp wakes procs q).owns = (procs q).owns := by
  unfold wakeUp
  split <;> rfl

/-- **What one step of the system can be.** -/
theorem World.step_cases (h : w.step e = some (r, w')) :
    (∃ p call task, e = .start p call ∧ (w.procs p).task = .idle ∧ w.begin call = some task ∧
      r = none ∧ w' = { w with procs := Function.update w.procs p ⟨task, false, false⟩ }) ∨
    (∃ p signal out, e = .run p signal ∧ (w.procs p).run w.sys w.locked signal = some out ∧
      r = out.ret ∧
      w' = ⟨out.sys, out.locked, wakeUp out.wakes (Function.update w.procs p out.proc)⟩) := by
  cases e with
  | start p call =>
    simp only [step] at h
    split at h
    · rename_i task hidle hbegin
      cases h
      exact Or.inl ⟨p, call, task, rfl, hidle, hbegin, rfl, rfl⟩
    · cases h
  | run p signal =>
    obtain ⟨out, hrun, heq⟩ := Option.map_eq_some_iff.mp h
    cases heq
    exact Or.inr ⟨p, signal, out, rfl, hrun, rfl, rfl⟩

theorem World.holds_begin {call : Call} {task : Task} (h : w.begin call = some task) :
    task.holds = false := by
  cases call <;> simp only [World.begin] at h <;> split_ifs at h <;> cases h <;> rfl

/-! ### The owner of the lock -/

/-- A process owns the lock exactly between taking and releasing it; two processes never own it at
once, and while one does it is locked. -/
structure Owned (w : World n) : Prop where
  owns_eq : ∀ p, (w.procs p).owns = (w.procs p).task.holds
  unique : ∀ p q, (w.procs p).owns = true → (w.procs q).owns = true → p = q
  locked_of : ∀ p, (w.procs p).owns = true → w.locked = true

theorem owned_load (n : ℕ) (params : Scull.Params) : Owned (.load n params) where
  owns_eq _ := rfl
  unique _ _ h := by cases h
  locked_of _ h := by cases h

theorem Owned.step (h : Owned w) (hst : w.step e = some (r, w')) : Owned w' := by
  rcases World.step_cases hst with ⟨p, call, task, -, hidle, hbegin, -, rfl⟩ |
    ⟨p, signal, out, -, hrun, -, rfl⟩
  · have hother : ∀ q, (Function.update w.procs p ⟨task, false, false⟩ q).owns = true →
        (w.procs q).owns = true := by
      intro q hq
      by_cases hqp : q = p
      · subst hqp
        simp at hq
      · rwa [Function.update_of_ne hqp] at hq
    refine ⟨fun q => ?_, fun q q' hq hq' => h.unique q q' (hother q hq) (hother q' hq'),
      fun q hq => h.locked_of q (hother q hq)⟩
    by_cases hqp : q = p
    · subst hqp
      simp [World.holds_begin hbegin]
    · simp only [Function.update_of_ne hqp]
      exact h.owns_eq q
  · have hmove := Proc.run_lockMove hrun
    have hself := h.owns_eq p
    have howns : ∀ q, (wakeUp out.wakes (Function.update w.procs p out.proc) q).owns = true →
        q = p ∧ out.proc.owns = true ∨ q ≠ p ∧ (w.procs q).owns = true := by
      intro q hq
      rw [owns_wakeUp] at hq
      by_cases hqp : q = p
      · subst hqp
        exact Or.inl ⟨rfl, by simpa using hq⟩
      · exact Or.inr ⟨hqp, by rwa [Function.update_of_ne hqp] at hq⟩
    have howns_eq : ∀ q, (wakeUp out.wakes (Function.update w.procs p out.proc) q).owns =
        (wakeUp out.wakes (Function.update w.procs p out.proc) q).task.holds := by
      intro q
      simp only [owns_wakeUp, task_wakeUp]
      by_cases hqp : q = p
      · subst hqp
        rw [Function.update_self]
        cases hmove with
        | stay howns _ hholds => rw [howns, hholds, hself]
        | take _ howns _ hholds => rw [howns, hholds]
        | drop howns _ hholds => rw [howns, hholds]
      · rw [Function.update_of_ne hqp]
        exact h.owns_eq q
    cases hmove with
    | stay hstay hlocked =>
      have hback : ∀ q, (wakeUp out.wakes (Function.update w.procs p out.proc) q).owns = true →
          (w.procs q).owns = true := by
        intro q hq
        rcases howns q hq with ⟨rfl, ho⟩ | ⟨-, ho⟩
        · rwa [hstay] at ho
        · exact ho
      exact ⟨howns_eq, fun q q' hq hq' => h.unique q q' (hback q hq) (hback q' hq'),
        fun q hq => hlocked.trans (h.locked_of q (hback q hq))⟩
    | take hfree _ hlocked =>
      -- The lock was free, so nobody owned it, and now only `p` does.
      have honly : ∀ q, (wakeUp out.wakes (Function.update w.procs p out.proc) q).owns = true →
          q = p := by
        intro q hq
        rcases howns q hq with ⟨rfl, -⟩ | ⟨-, ho⟩
        · rfl
        · rw [h.locked_of q ho] at hfree
          cases hfree
      exact ⟨howns_eq, fun q q' hq hq' => (honly q hq).trans (honly q' hq').symm,
        fun _ _ => hlocked⟩
    | drop hout _ _ hheld =>
      have hnone : ∀ q, (wakeUp out.wakes (Function.update w.procs p out.proc) q).owns ≠ true := by
        intro q hq
        rcases howns q hq with ⟨rfl, ho⟩ | ⟨hqp, ho⟩
        · rw [hout] at ho
          cases ho
        · exact hqp (h.unique q p ho (hself.trans hheld))
      exact ⟨howns_eq, fun q _ hq => absurd hq (hnone q), fun q hq => absurd hq (hnone q)⟩

/-- A step of a process leaves the device alone while another one owns the lock. -/
theorem Owned.sys_eq {p q : Fin n} {signal : Bool} {out : Outcome} (h : Owned w)
    (hrun : (w.procs p).run w.sys w.locked signal = some out) (hqp : q ≠ p)
    (hq : (w.procs q).task.holds = true) : out.sys = w.sys := by
  rcases (Proc.run_cases hrun).1.sys_eq_or_holds with hsys | hp
  · exact hsys
  · exact absurd (h.unique q p ((h.owns_eq q).trans hq) ((h.owns_eq p).trans hp)) hqp

/-! ### The device and its files -/

/-- The invariant: the owner of the lock is as it should be; a process in a read or write is on a
file that is open in the mode it needs, and one that is about to release a file has it to itself; a
process at the copy has found the pipe ready; and the device with its files is in the state that
complete calls leave it in. -/
structure Coherent (params : Scull.Params) (w : World n) : Prop extends Owned w where
  steady : Steady params w.sys
  transfers : ∀ p pc f t, (w.procs p).task = .transfer pc f t →
    f ∈ w.sys.files ∧ t.permitted f.mode = true
  closings : ∀ p pc f, (w.procs p).task = .closing pc f → pc = .lock ∨ pc = .body →
    ∀ q, q ≠ p → (w.procs q).task.filp ≠ some f.filp
  ready : ∀ p f t, (w.procs p).task = .transfer .copy f t → t.blocked w.sys.dev = false

theorem coherent_load (n : ℕ) (params : Scull.Params) : Coherent params (.load n params) where
  toOwned := owned_load n params
  steady := .load params
  transfers _ _ _ _ h := by cases h
  closings _ _ _ h := by cases h
  ready _ _ _ h := by cases h

/-- A step keeps the files that are open, the one it releases excepted. -/
theorem SysMove.mem_files {proc : Proc} {sys : PipeSys} {out : Outcome} (h : SysMove proc sys out)
    {f : OpenFile} (hf : f ∈ sys.files) (hne : ∀ g, proc.task = .closing .body g → f ≠ g) :
    f ∈ out.sys.files := by
  cases h with
  | keep hsys => exact hsys ▸ hf
  | opened _ hst =>
    simp only [PipeSys.step, Bool.false_eq_true, ite_false, Option.some_inj, Prod.mk.injEq] at hst
    rw [← hst.2]
    simp only [filesAfterOpen]
    split
    · split_ifs
      · exact List.mem_cons_of_mem _ hf
      · exact hf
    · exact hf
  | released htask hst =>
    simp only [PipeSys.step] at hst
    split_ifs at hst
    rw [Option.some_inj, Prod.mk.injEq] at hst
    rw [← hst.2]
    exact (List.mem_erase_of_ne (hne _ htask)).mpr hf
  | copied _ _ hsys => exact hsys ▸ hf

namespace Coherent

variable {params : Scull.Params}

/-- **Steps and complete calls.** A step of a process leaves the device and its files as they are,
or does to them what a complete call does. -/
theorem run_eq_or_step (h : Coherent params w) {p : Fin n} {signal : Bool} {out : Outcome}
    (hrun : (w.procs p).run w.sys w.locked signal = some out) :
    out.sys = w.sys ∨ ∃ op r, (∀ cmd arg env, op ≠ .scullIoctl cmd arg env) ∧
      w.sys.step op = some (r, out.sys) := by
  cases (Proc.run_cases hrun).1 with
  | keep hsys => exact Or.inl hsys
  | opened _ hst => exact Or.inr ⟨_, _, by simp, hst⟩
  | released _ hst => exact Or.inr ⟨_, _, by simp, hst⟩
  | @copied f t r dev' htask hcopy hsys =>
    obtain ⟨hf, hperm⟩ := h.transfers p _ f t htask
    rw [← Request.exec_toTransfer (h.ready p f t htask)] at hcopy
    refine Or.inr ⟨.transfer f t.toTransfer, r, by simp, ?_⟩
    simp [PipeSys.step, hf, Request.permitted_toTransfer, hperm, hcopy, hsys]

theorem start (h : Coherent params w) {p : Fin n} {call : Call} {task : Task}
    (howned : Owned { w with procs := Function.update w.procs p ⟨task, false, false⟩ })
    (hbegin : w.begin call = some task) :
    Coherent params { w with procs := Function.update w.procs p ⟨task, false, false⟩ } := by
  have htask : ∀ q, (Function.update w.procs p ⟨task, false, false⟩ q).task =
      if q = p then task else (w.procs q).task := by
    intro q
    by_cases hqp : q = p
    · subst hqp
      simp
    · simp [hqp]
  refine ⟨howned, h.steady, fun q pc f t hq => ?_, fun q pc f hq hpc q' hq' => ?_,
    fun q f t hq => ?_⟩
  · rw [htask] at hq
    split_ifs at hq with hqp
    · subst hq
      cases call <;> simp only [World.begin] at hbegin <;> split_ifs at hbegin with hcond <;>
        cases hbegin
      exact ⟨hcond.1, hcond.2.1⟩
    · exact h.transfers q pc f t hq
  · rw [htask] at hq ⊢
    split_ifs at hq ⊢ with hqp' hqp hqp
    · exact absurd (hqp'.trans hqp.symm) hq'
    · have hfilp : (w.procs q).task.filp = some f.filp := by rw [hq]; rfl
      cases call <;> simp only [World.begin] at hbegin <;> split_ifs at hbegin with hcond <;>
        cases hbegin
      · intro heq
        exact hcond.2 q (hfilp.trans heq.symm)
      · intro heq
        exact hcond.2 q (hfilp.trans heq.symm)
      · intro heq
        have := hcond.2.2 q (hfilp.trans heq.symm)
        rw [hq] at this
        cases this
    · subst hq
      cases call <;> simp only [World.begin] at hbegin <;> split_ifs at hbegin with hcond <;>
        cases hbegin
      exact hcond.2 q'
    · exact h.closings q pc f hq hpc q' hq'
  · rw [htask] at hq
    split_ifs at hq with hqp
    · subst hq
      cases call <;> simp only [World.begin] at hbegin <;> split_ifs at hbegin <;> cases hbegin
    · exact h.ready q f t hq

/-- The next step of a process preserves the invariant. -/
theorem run (h : Coherent params w) {p : Fin n} {signal : Bool} {out : Outcome}
    (hrun : (w.procs p).run w.sys w.locked signal = some out)
    (howned : Owned ⟨out.sys, out.locked, wakeUp out.wakes (Function.update w.procs p out.proc)⟩) :
    Coherent params
      ⟨out.sys, out.locked, wakeUp out.wakes (Function.update w.procs p out.proc)⟩ := by
  obtain ⟨hsys, hmove⟩ := Proc.run_cases hrun
  have htask : ∀ q, (wakeUp out.wakes (Function.update w.procs p out.proc) q).task =
      if q = p then out.proc.task else (w.procs q).task := by
    intro q
    rw [task_wakeUp]
    by_cases hqp : q = p
    · subst hqp
      simp
    · simp [hqp]
  have hsteady : Steady params out.sys := by
    rcases h.run_eq_or_step hrun with heq | ⟨op, r, hop, hst⟩
    · exact heq ▸ h.steady
    · exact h.steady.step hop hst
  refine ⟨howned, hsteady, fun q pc f t hq => ?_, fun q pc f hq hpc q' hq' => ?_,
    fun q f t hq => ?_⟩
  · rw [htask] at hq
    split_ifs at hq with hqp
    · obtain ⟨pc₀, hold, -⟩ := hmove.of_transfer hq
      obtain ⟨hf, hperm⟩ := h.transfers p pc₀ f t hold
      exact ⟨hsys.mem_files hf (by rw [hold]; simp), hperm⟩
    · obtain ⟨hf, hperm⟩ := h.transfers q pc f t hq
      refine ⟨hsys.mem_files hf fun g hg hfg => ?_, hperm⟩
      refine h.closings p .body g hg (Or.inr rfl) q hqp ?_
      rw [hq, hfg]
      rfl
  · rw [htask] at hq ⊢
    split_ifs at hq ⊢ with hqp' hqp hqp
    · exact absurd (hqp'.trans hqp.symm) hq'
    · have hold := h.closings q pc f hq hpc p (Ne.symm hqp)
      rcases hmove.filp_eq with hnone | hsame
      · simp [hnone]
      · rwa [hsame]
    · obtain ⟨pc₀, hold, hlock, hbody⟩ := hmove.of_closing hq
      have hpc' := hpc.resolve_left hlock
      exact h.closings p pc₀ f hold (Or.inl (hbody hpc')) q' hqp'
    · exact h.closings q pc f hq hpc q' hq'
  · rw [htask] at hq
    split_ifs at hq with hqp
    · obtain ⟨pc₀, hold, hcopy⟩ := hmove.of_transfer hq
      obtain ⟨rfl, hready⟩ := hcopy rfl
      cases hsys with
      | keep hsys => rw [hsys]; exact hready
      | opened hp => rw [hold] at hp; cases hp
      | released hp => rw [hold] at hp; cases hp
      | copied hp => rw [hold] at hp; cases hp
    · -- Another process at the copy owns the lock, so this step left the device alone.
      rw [h.sys_eq hrun hqp (by rw [hq]; rfl)]
      exact h.ready q f t hq

/-- **The invariant.** Every step preserves it. -/
theorem step (h : Coherent params w) (hst : w.step e = some (r, w')) : Coherent params w' := by
  have howned := h.toOwned.step hst
  rcases World.step_cases hst with ⟨p, call, task, -, -, hbegin, -, rfl⟩ |
    ⟨p, signal, out, -, hrun, -, rfl⟩
  · exact h.start howned hbegin
  · exact h.run hrun howned

/-- A process in a read or write has a buffer to copy from or to. -/
theorem buffer_isSome (h : Coherent params w) {p : Fin n} {pc : PC} {f : OpenFile} {t : Request}
    (htask : (w.procs p).task = .transfer pc f t) : ∃ b, w.sys.dev.buffer = some b := by
  obtain ⟨hf, hperm⟩ := h.transfers p pc f t htask
  rw [← Request.permitted_toTransfer] at hperm
  obtain ⟨b, hb, -⟩ := h.steady.held f hf (Transfer.active_of_permitted hperm)
  exact ⟨b, hb⟩

theorem end_eq (h : Coherent params w) (hb : w.sys.dev.buffer.isSome) :
    w.sys.dev.bufEnd = params.pBuffer.toInt := by
  rw [(h.steady.regular hb).end_eq, h.steady.size_eq hb]

end Coherent

/-! ### The protocol -/

/-- No two processes own the lock. -/
def OneOwner (w : World n) : Prop :=
  ∀ p q, (w.procs p).owns = true → (w.procs q).owns = true → p = q

/-- What the protocol demands of a step: only the owner of the lock moves `rp` and `wp`; a process
unlocks only a lock that it owns; a process that leaves a call does not own the lock; and a reader
copies only from a pipe that is not empty. -/
def Orderly (w : World n) (e : Event n) : Prop :=
  ∀ r w', w.step e = some (r, w') →
    ((w'.sys.dev.rp ≠ w.sys.dev.rp ∨ w'.sys.dev.wp ≠ w.sys.dev.wp) →
      ∃ p signal, e = .run p signal ∧ (w.procs p).owns = true) ∧
    ∀ p signal, e = .run p signal →
      ((w.procs p).task.unlocks = true → (w.procs p).owns = true) ∧
      (r.isSome → (w'.procs p).owns = false) ∧
      ∀ f nonblock count room, (w.procs p).task = .transfer .copy f (.read nonblock count room) →
        w.sys.dev.rp ≠ w.sys.dev.wp

/-- A writer copies only to a pipe with free space. -/
def WriterHasSpace (w : World n) (e : Event n) : Prop :=
  ∀ p signal f nonblock count src, e = .run p signal →
    (w.procs p).task = .transfer .copy f (.write nonblock count src) → 0 < spacefree w.sys.dev

theorem Task.holds_of_unlocks {task : Task} (h : task.unlocks = true) : task.holds = true := by
  cases task with
  | idle => cases h
  | opening pc => cases pc <;> simp_all [unlocks, holds]
  | closing pc => cases pc <;> simp_all [unlocks, holds]
  | transfer pc => cases pc <;> simp_all [unlocks, holds]

theorem Coherent.orderly {params : Scull.Params} (h : Coherent params w) (e : Event n) :
    Orderly w e := by
  intro r w' hst
  have howned := h.toOwned.step hst
  rcases World.step_cases hst with ⟨p, call, task, rfl, -, -, -, rfl⟩ |
    ⟨p, signal, out, rfl, hrun, rfl, rfl⟩
  · exact ⟨by simp, by simp⟩
  · obtain ⟨hsys, hmove⟩ := Proc.run_cases hrun
    constructor
    · intro hmoved
      refine ⟨p, signal, rfl, ?_⟩
      rcases hsys.sys_eq_or_holds with heq | hholds
      · simp [heq] at hmoved
      · exact (h.owns_eq p).trans hholds
    · rintro q _ ⟨⟩
      refine ⟨fun hunlocks => (h.owns_eq p).trans (Task.holds_of_unlocks hunlocks),
        fun hret => ?_, fun f nonblock count room htask => ?_⟩
      · cases hmove with
        | ended hidle =>
          rw [howned.owns_eq]
          simp [hidle, Task.holds]
        | opening hnone => simp [hnone] at hret
        | closing hnone => simp [hnone] at hret
        | transfer hnone => simp [hnone] at hret
      · simpa [Request.blocked] using h.ready p _ _ htask

/-- With a buffer of at least one byte the pipe that a writer finds not full has free space. -/
theorem Coherent.writerHasSpace {params : Scull.Params} (h : Coherent params w)
    (hN : params.pBuffer ≠ 0) (e : Event n) : WriterHasSpace w e := by
  intro p signal f nonblock count src _ htask
  obtain ⟨b, hb⟩ := h.buffer_isSome htask
  have hsome : w.sys.dev.buffer.isSome := Option.isSome_iff_exists.mpr ⟨b, hb⟩
  have hreg := h.steady.regular hsome
  have h0 : w.sys.dev.bufEnd ≠ 0 := by
    rw [h.end_eq hsome]
    intro h0
    exact hN (Int32.toInt_inj.mp h0)
  have hne : spacefree w.sys.dev ≠ 0 := by simpa [Request.blocked] using h.ready p _ _ htask
  have hnonneg := spacefree_nonneg hreg h0 hb
  omega

end Steps

/-- A process opens the pipe for writing and writes, up to the copy. -/
def writeUpToCopy : List (Event 1) :=
  [.start 0 (.scullPOpen 0 ⟨false, true⟩ (some fun _ => 0)), .run 0 false, .run 0 false,
    .run 0 false, .run 0 false,
    .start 0 (.transfer ⟨0, ⟨false, true⟩, 0⟩ (.write false 1 ⟨[7], []⟩)), .run 0 false,
    .run 0 false]

/-- With a buffer of no bytes the process arrives at the copy, with less than no space. -/
theorem exec_writeUpToCopy (quantum qset : Int32) :
    ∃ rs w, exec World.step (.load 1 ⟨quantum, qset, 0⟩) writeUpToCopy = some (rs, w) ∧
      (w.procs 0).task = .transfer .copy ⟨0, ⟨false, true⟩, 0⟩ (.write false 1 ⟨[7], []⟩) ∧
      spacefree w.sys.dev = -1 :=
  ⟨_, _, rfl, rfl, rfl⟩

/-- **The blocking protocol.** In every interleaving of any number of processes: no two own the
lock, only its owner moves the pointers, nobody unlocks a lock that it does not own or leaves a call
with it, and a reader copies only from a pipe that is not empty. That moreover a writer copies only
to a pipe with free space holds for all interleavings if and only if the buffer size is not zero:
the loop that waits for space takes the free space of an empty buffer, which is negative, for room.

Source: `ldd/scull/pipe.c`, lines 64–229. -/
theorem blocking_protocol (params : Scull.Params) :
    (∀ (n : ℕ) (es : List (Event n)), Always World.step OneOwner (.load n params) es ∧
      Guarded World.step Orderly (.load n params) es) ∧
    ((∀ (n : ℕ) (es : List (Event n)), Always World.step OneOwner (.load n params) es ∧
        Guarded World.step Orderly (.load n params) es ∧
        Guarded World.step WriterHasSpace (.load n params) es) ↔
      params.pBuffer ≠ 0) := by
  have hinv : ∀ (n : ℕ) (es : List (Event n)),
      Always World.step (Coherent params) (.load n params) es := fun n es =>
    always_of_invariant (Coherent params) (fun _ _ _ _ h _ hst => h.step hst)
      (coherent_load n params) (guarded_true _ es)
  have horderly : ∀ (n : ℕ) (es : List (Event n)),
      Always World.step OneOwner (.load n params) es ∧
        Guarded World.step Orderly (.load n params) es := fun n es =>
    ⟨(hinv n es).mono fun _ h => h.unique, (hinv n es).guarded fun _ e h => h.orderly e⟩
  refine ⟨horderly, fun h hN => ?_, fun hN n es => ?_⟩
  · obtain ⟨rs, w, hrun, htask, hsf⟩ := exec_writeUpToCopy params.quantum params.qset
    rw [show (⟨params.quantum, params.qset, 0⟩ : Scull.Params) = params by rw [← hN]] at hrun
    have hspace :=
      (h 1 (writeUpToCopy ++ [.run 0 false])).2.2.of_exec hrun 0 false _ _ _ _ rfl htask
    omega
  · exact ⟨(horderly n es).1, (horderly n es).2,
      (hinv n es).guarded fun _ e h => h.writerHasSpace hN e⟩

/-- The module is loaded with a buffer size of zero, and a writer copies although there is no free
space. -/
theorem writer_copies_without_space :
    ∃ rs w, exec World.step (.load 1 ⟨Scull.SCULL_QUANTUM, Scull.SCULL_QSET, 0⟩) writeUpToCopy =
        some (rs, w) ∧
      (w.procs 0).task = .transfer .copy ⟨0, ⟨false, true⟩, 0⟩ (.write false 1 ⟨[7], []⟩) ∧
      ¬ 0 < spacefree w.sys.dev :=
  ⟨_, _, rfl, rfl, by decide⟩

end ExKernel.Pipe
