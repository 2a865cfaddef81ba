import ExKernel.Pipe.WakeUp

/-!
# Signals for asynchronous readers

A process that does not want to sleep has the kernel send it a signal when there is data. Its file
is put on a queue of the device, which a write signals after it has woken up the readers, and the
release of the file takes it off the queue before anything else. Neither of this is done under the
lock of the device.

The queue is added to the blocking protocol, whose steps it leaves as they are. The signal comes
last in a write: between the copy and the signal other processes read, write, open and register, and
a file that is told of data may find the pipe empty. But it is not left untold.

## Main definitions

* `Pipe.AsyncWorld`, `Pipe.AsyncEvent`, `Pipe.AsyncWorld.step`: the protocol with the queue.
* `Pipe.Enlisted`: the invariant of the queue.
* `Pipe.Task.signalsLater`: a write that has still to signal the queue.

## Main results

* `Pipe.Enlisted.step`: every step preserves the invariant.
* `Pipe.signalled_files_open`: no signal goes to a file that is not open.
* `Pipe.no_lost_sigio`: no file is left untold of data.

## References

* `ldd/scull/pipe.c`, lines 64–114, 121–229 and 256–261.
-/

namespace ExKernel.Pipe

open Transition

/-! ### The queue -/

/-- `fasync_helper`, which puts a file on a queue once, or takes it off. -/
def fasyncHelper (filp : ℕ) (mode : Bool) (queue : List ℕ) : List ℕ :=
  if mode then if filp ∈ queue then queue else filp :: queue else queue.erase filp

/-- `scull_p_fasync`.

Source: `ldd/scull/pipe.c`, lines 256–261. -/
def scullPFasync (filp : ℕ) (mode : Bool) (asyncQueue : List ℕ) : List ℕ :=
  fasyncHelper filp mode asyncQueue

/-- The processes and the device, with the files in `async_queue`. -/
structure AsyncWorld (n : ℕ) where
  world : World n
  asyncQueue : List ℕ

/-- The module as it is loaded. -/
def AsyncWorld.load (n : ℕ) (params : Scull.Params) : AsyncWorld n := ⟨.load n params, []⟩

/-- A step of the protocol, or a `fcntl` that turns the signals for a file on or off. -/
inductive AsyncEvent (n : ℕ)
  | step (e : Event n)
  | fasync (filp : ℕ) (mode : Bool)

/-- What takes a file off the queue: its release, and a `fcntl`. -/
def AsyncEvent.takesOff {n : ℕ} (filp : ℕ) : AsyncEvent n → Bool
  | .step (.start _ (.scullPRelease f)) => f.filp = filp
  | .step _ => false
  | .fasync filp' mode => filp' = filp && !mode

/-- A write that has stored its bytes and has still to signal the queue, which it does when it has
woken up the readers and before it returns. -/
def Task.signalsLater : Task → Bool
  | transfer (.unlockDone ret) _ (.write ..) => 0 ≤ ret
  | transfer (.wake ret) _ (.write ..) => 0 ≤ ret
  | transfer (.leave ret) _ (.write ..) => 0 ≤ ret
  | _ => false

/-- The write is at `kill_fasync`.

Source: `ldd/scull/pipe.c`, lines 225–226. -/
def Task.signals : Task → Bool
  | transfer (.leave ret) _ (.write ..) => 0 ≤ ret
  | _ => false

namespace AsyncWorld

variable {n : ℕ}

/-- The files that a step of the protocol signals. -/
def killFasync (w : AsyncWorld n) : Event n → List ℕ
  | .run p _ => if (w.world.procs p).task.signals then w.asyncQueue else []
  | .start .. => []

/-- The queue after a step of the protocol: a release takes its file off it first.

Source: `ldd/scull/pipe.c`, lines 101–102. -/
def queueAfter (w : AsyncWorld n) : Event n → List ℕ
  | .start _ (.scullPRelease f) => scullPFasync f.filp false w.asyncQueue
  | _ => w.asyncQueue

/-- A `fcntl` is made on an open file that nobody is opening or releasing. -/
def MayFasync (w : AsyncWorld n) (filp : ℕ) : Prop :=
  (∃ f ∈ w.world.sys.files, f.filp = filp) ∧
    ∀ q, (w.world.procs q).task.filp = some filp → (w.world.procs q).task.isTransfer = true

instance (w : AsyncWorld n) (filp : ℕ) : Decidable (w.MayFasync filp) :=
  inferInstanceAs (Decidable (_ ∧ _))

/-- One step: the value that a call returns, the files that are signalled, and what is left. -/
def step (w : AsyncWorld n) : AsyncEvent n → Option ((Option ℤ × List ℕ) × AsyncWorld n)
  | .step e => (w.world.step e).map fun out =>
    ((out.1, w.killFasync e), ⟨out.2, w.queueAfter e⟩)
  | .fasync filp mode =>
    if w.MayFasync filp then
      some ((none, []), { w with asyncQueue := scullPFasync filp mode w.asyncQueue })
    else none

end AsyncWorld

/-! ### Who is on the queue -/

/-- The invariant of the queue: the protocol is kept; no file is on the queue twice; every file that
is on it is open, and nobody is releasing it; and a write that is past its copy has stored its
bytes. -/
structure Enlisted {n : ℕ} (params : Scull.Params) (w : AsyncWorld n) : Prop where
  coherent : Coherent params w.world
  nodup : w.asyncQueue.Nodup
  isOpen : ∀ filp ∈ w.asyncQueue, ∃ f ∈ w.world.sys.files, f.filp = filp
  closings : ∀ p pc f, (w.world.procs p).task = .closing pc f → f.filp ∉ w.asyncQueue
  stored : ∀ p, (w.world.procs p).task.wakesNext = some .inq →
    (w.world.procs p).task.signalsLater = true

section Steps

variable {n : ℕ} {w w' : AsyncWorld n} {params : Scull.Params}

theorem enlisted_load (n : ℕ) (params : Scull.Params) : Enlisted params (.load n params) where
  coherent := coherent_load n params
  nodup := List.nodup_nil
  isOpen _ h := absurd h List.not_mem_nil
  closings _ _ _ h := by cases h
  stored _ h := by cases h

theorem mem_fasyncHelper {filp filp' : ℕ} {mode : Bool} {queue : List ℕ}
    (h : filp' ∈ fasyncHelper filp mode queue) : filp' ∈ queue ∨ mode = true ∧ filp' = filp := by
  unfold fasyncHelper at h
  split_ifs at h with hmode hmem
  · exact .inl h
  · exact (List.mem_cons.mp h).elim (fun heq => .inr ⟨hmode, heq⟩) .inl
  · exact .inl (List.mem_of_mem_erase h)

theorem nodup_fasyncHelper {filp : ℕ} {mode : Bool} {queue : List ℕ} (h : queue.Nodup) :
    (fasyncHelper filp mode queue).Nodup := by
  unfold fasyncHelper
  split_ifs with hmode hmem
  · exact h
  · exact List.nodup_cons.mpr ⟨hmem, h⟩
  · exact h.erase filp

theorem AsyncWorld.mem_queueAfter {e : Event n} {filp : ℕ} (h : filp ∈ w.queueAfter e) :
    filp ∈ w.asyncQueue := by
  unfold queueAfter at h
  split at h
  · exact (mem_fasyncHelper h).elim id fun hmode => absurd hmode.1 Bool.false_ne_true
  · exact h

theorem AsyncWorld.nodup_queueAfter {e : Event n} (h : w.asyncQueue.Nodup) :
    (w.queueAfter e).Nodup := by
  unfold queueAfter
  split
  · exact nodup_fasyncHelper h
  · exact h

/-- A write that goes on to wake up the readers has stored its bytes. -/
theorem Proc.signalsLater_of_wakesNext {proc : Proc} {sys : PipeSys} {locked signal : Bool}
    {out : Outcome} (h : proc.run sys locked signal = some out)
    (hbefore : proc.task.wakesNext = some .inq → proc.task.signalsLater = true)
    (hafter : out.proc.task.wakesNext = some .inq) : out.proc.task.signalsLater = true := by
  cases htask : proc.task with
  | idle => simp [run, htask] at h
  | opening pc filp mode answer =>
    simp only [run, htask] at h
    rcases (runSection_cases h).2 with hidle | ⟨-, pc', hpc', -⟩
    · rw [hidle] at hafter
      cases hafter
    · rw [hpc'] at hafter
      cases hafter
  | closing pc f =>
    simp only [run, htask] at h
    rcases (runSection_cases h).2 with hidle | ⟨-, pc', hpc', -⟩
    · rw [hidle] at hafter
      cases hafter
    · rw [hpc'] at hafter
      cases hafter
  | transfer pc f t =>
    simp only [run, htask] at h
    rw [htask] at hbefore
    cases pc with
    | copy =>
      obtain ⟨⟨r, dev'⟩, -, heq⟩ := Option.map_eq_some_iff.mp h
      cases heq
      by_cases hret : r.ret.getD 0 < 0
      · simp only [if_pos hret] at hafter
        cases hafter
      · simp only [if_neg hret] at hafter ⊢
        cases t with
        | read => cases hafter
        | write => exact decide_eq_true (not_lt.mp hret)
    | unlockDone ret =>
      cases h
      cases t with
      | read => cases hafter
      | write => exact hbefore rfl
    | _ =>
      cases t <;>
        simp only [runTransfer, runTransfer.goto, runTransfer.unlock, runTransfer.enqueue] at h <;>
        (try split_ifs at h) <;> cases h <;> cases hafter

/-- **Who is on the queue.** Every step preserves the invariant. -/
theorem Enlisted.step (h : Enlisted params w) {e : AsyncEvent n} {r : Option ℤ × List ℕ}
    (hst : w.step e = some (r, w')) : Enlisted params w' := by
  cases e with
  | fasync filp mode =>
    simp only [AsyncWorld.step] at hst
    split_ifs at hst with hmay
    cases hst
    refine ⟨h.coherent, nodup_fasyncHelper h.nodup, fun filp' hmem => ?_,
      fun p pc f htask hmem => ?_, h.stored⟩
    · rcases mem_fasyncHelper hmem with hmem | ⟨-, rfl⟩
      · exact h.isOpen filp' hmem
      · exact hmay.1
    · rcases mem_fasyncHelper hmem with hmem | ⟨-, heq⟩
      · exact h.closings p pc f htask hmem
      · have htransfer := hmay.2 p (by rw [htask, ← heq]; rfl)
        rw [htask] at htransfer
        cases htransfer
  | step e =>
    obtain ⟨⟨ret, world'⟩, hworld, heq⟩ := Option.map_eq_some_iff.mp hst
    cases heq
    rcases World.step_cases hworld with ⟨p, call, task, rfl, -, hbegin, -, rfl⟩ |
      ⟨p, signal, out, rfl, hrun, -, rfl⟩
    · refine ⟨h.coherent.step hworld, ?_,
        fun filp hmem => h.isOpen filp (AsyncWorld.mem_queueAfter hmem),
        fun q pc f htask hmem => ?_, fun q hnext => ?_⟩
      · exact AsyncWorld.nodup_queueAfter h.nodup
      · by_cases hqp : q = p
        · subst hqp
          simp only [Function.update_self] at htask
          subst htask
          cases call with
          | scullPRelease g =>
            simp only [World.begin] at hbegin
            split_ifs at hbegin
            cases hbegin
            exact h.nodup.not_mem_erase hmem
          | scullPOpen =>
            simp only [World.begin] at hbegin
            split_ifs at hbegin
            cases hbegin
          | transfer =>
            simp only [World.begin] at hbegin
            split_ifs at hbegin
            cases hbegin
        · simp only [Function.update_of_ne hqp] at htask
          exact h.closings q pc f htask (AsyncWorld.mem_queueAfter hmem)
      · by_cases hqp : q = p
        · subst hqp
          simp only [Function.update_self] at hnext
          cases call <;> simp only [World.begin] at hbegin <;> split_ifs at hbegin <;>
            cases hbegin <;> cases hnext
        · simp only [Function.update_of_ne hqp] at hnext ⊢
          exact h.stored q hnext
    · refine ⟨h.coherent.step hworld, h.nodup, fun filp hmem => ?_, fun q pc f htask hmem => ?_,
        fun q hnext => ?_⟩
      · obtain ⟨f, hf, rfl⟩ := h.isOpen filp hmem
        refine ⟨f, (Proc.run_cases hrun).1.mem_files hf fun g htask heq => ?_, rfl⟩
        exact h.closings p _ g htask (heq ▸ hmem)
      · simp only [task_wakeUp] at htask
        by_cases hqp : q = p
        · subst hqp
          rw [Function.update_self] at htask
          obtain ⟨pc', htask', -⟩ := (Proc.run_cases hrun).2.of_closing htask
          exact h.closings q pc' f htask' hmem
        · rw [Function.update_of_ne hqp] at htask
          exact h.closings q pc f htask hmem
      · simp only [task_wakeUp] at hnext ⊢
        by_cases hqp : q = p
        · subst hqp
          rw [Function.update_self] at hnext ⊢
          exact Proc.signalsLater_of_wakesNext hrun (h.stored q) hnext
        · rw [Function.update_of_ne hqp] at hnext ⊢
          exact h.stored q hnext

/-! ### Who is told -/

/-- If there is data, some write has still to signal the queue. -/
def Promised (w : AsyncWorld n) : Prop :=
  Queue.inq.Ready w.world.sys.dev → ∃ p, (w.world.procs p).task.signalsLater = true

/-- A write that has still to signal the queue does so in its next step, or goes on. -/
theorem Proc.signalsLater_run {proc : Proc} {sys : PipeSys} {locked signal : Bool} {out : Outcome}
    (h : proc.run sys locked signal = some out) (hlater : proc.task.signalsLater = true) :
    proc.task.signals = true ∨ out.proc.task.signalsLater = true := by
  cases htask : proc.task with
  | transfer pc f t =>
    simp only [run, htask] at h
    rw [htask] at hlater
    cases t with
    | read => cases pc <;> cases hlater
    | write =>
      cases pc with
      | unlockDone ret =>
        cases h
        exact .inr hlater
      | wake ret =>
        cases h
        exact .inr hlater
      | leave ret => exact .inl hlater
      | _ => cases hlater
  | _ =>
    rw [htask] at hlater
    cases hlater

/-- **One step of the protocol** leaves no file on the queue untold: it signals the queue, or keeps
the promise to do so. -/
theorem Enlisted.promised_step (h : Enlisted params w) {e : AsyncEvent n} {r : Option ℤ × List ℕ}
    (hst : w.step e = some (r, w')) (hpromised : Promised w) {filp : ℕ}
    (hmem : filp ∈ w.asyncQueue) : filp ∈ r.2 ∨ Promised w' := by
  have hafter := h.step hst
  cases e with
  | fasync filp mode =>
    simp only [AsyncWorld.step] at hst
    split_ifs at hst
    cases hst
    exact .inr hpromised
  | step e =>
    obtain ⟨⟨ret, world'⟩, hworld, heq⟩ := Option.map_eq_some_iff.mp hst
    cases heq
    rcases World.step_cases hworld with ⟨p, call, task, rfl, hidle, -, -, rfl⟩ |
      ⟨p, signal, out, rfl, hrun, -, rfl⟩
    · refine .inr fun hready => ?_
      obtain ⟨q, hq⟩ := hpromised hready
      have hqp : q ≠ p := by
        rintro rfl
        rw [hidle] at hq
        cases hq
      exact ⟨q, by simpa only [Function.update_of_ne hqp] using hq⟩
    · by_cases hlater : ∃ q, (w.world.procs q).task.signalsLater = true
      · obtain ⟨q, hq⟩ := hlater
        by_cases hqp : q = p
        · subst hqp
          rcases Proc.signalsLater_run hrun hq with hsignals | hq'
          · left
            simp only [AsyncWorld.killFasync, if_pos hsignals]
            exact hmem
          · exact .inr fun _ => ⟨q, by simpa only [task_wakeUp, Function.update_self] using hq'⟩
        · refine .inr fun _ => ⟨q, ?_⟩
          simpa only [task_wakeUp, Function.update_of_ne hqp] using hq
      · -- There was no data: if there is now, this step has stored it.
        refine .inr fun hready => ?_
        rcases h.coherent.becomes_ready hrun (fun hdata => hlater (hpromised hdata)) hready with
          hnext | ⟨hqueue, -⟩
        · exact ⟨p, hafter.stored p (by simpa only [task_wakeUp, Function.update_self] using hnext)⟩
        · cases hqueue

/-- A file stays on the queue until something takes it off. -/
theorem AsyncWorld.mem_asyncQueue_step {e : AsyncEvent n} {r : Option ℤ × List ℕ} {filp : ℕ}
    (hst : w.step e = some (r, w')) (hmem : filp ∈ w.asyncQueue)
    (hstays : e.takesOff filp = false) : filp ∈ w'.asyncQueue := by
  have herase : ∀ filp', (decide (filp' = filp)) = false → filp ∈ w.asyncQueue.erase filp' :=
    fun filp' hne => (List.mem_erase_of_ne (Ne.symm (of_decide_eq_false hne))).mpr hmem
  cases e with
  | fasync filp' mode =>
    simp only [AsyncWorld.step] at hst
    split_ifs at hst
    cases hst
    simp only [scullPFasync, fasyncHelper]
    split_ifs with hmode hin
    · exact hmem
    · exact List.mem_cons_of_mem filp' hmem
    · rw [AsyncEvent.takesOff, Bool.eq_false_iff.mpr hmode, Bool.not_false, Bool.and_true] at hstays
      exact herase filp' hstays
  | step e =>
    obtain ⟨out, -, heq⟩ := Option.map_eq_some_iff.mp hst
    cases heq
    simp only [queueAfter]
    split
    · exact herase _ hstays
    · exact hmem

/-- A part of a run over which a file stays on the queue signals it, or keeps the promise. -/
theorem Enlisted.promised_run {es : List (AsyncEvent n)} {rs : List (Option ℤ × List ℕ)}
    (h : Enlisted params w) (hrun : exec AsyncWorld.step w es = some (rs, w'))
    (hpromised : Promised w) {filp : ℕ} (hmem : filp ∈ w.asyncQueue)
    (hstays : ∀ e ∈ es, e.takesOff filp = false) : (∃ r ∈ rs, filp ∈ r.2) ∨ Promised w' := by
  induction es generalizing w rs with
  | nil =>
    cases hrun
    exact .inr hpromised
  | cons e es ih =>
    obtain ⟨r, t, rs, hst, hrest, rfl⟩ := exec_cons_eq_some.mp hrun
    have hmem' := AsyncWorld.mem_asyncQueue_step hst hmem (hstays e List.mem_cons_self)
    have hstays' := fun d hd => hstays d (List.mem_cons_of_mem e hd)
    rcases h.promised_step hst hpromised hmem with htold | hpromised'
    · exact .inl ⟨r, List.mem_cons_self, htold⟩
    · rcases ih (h.step hst) hrest hpromised' hmem' hstays' with ⟨r', hr', htold⟩ | hpromised''
      · exact .inl ⟨r', List.mem_cons_of_mem r hr', htold⟩
      · exact .inr hpromised''

end Steps

theorem enlisted_always (params : Scull.Params) {n : ℕ} (es : List (AsyncEvent n)) :
    Always AsyncWorld.step (Enlisted params) (.load n params) es :=
  always_of_invariant _ (fun _ _ _ _ h _ hst => h.step hst) (enlisted_load n params)
    (guarded_true _ es)

/-- **No signal goes to a file that is not open.** In every interleaving of opens, releases, reads,
writes and registrations by any number of processes, a file that a step signals is open, and nobody
is releasing it.

Source: `ldd/scull/pipe.c`, lines 97–114, 221–228 and 256–261. -/
theorem signalled_files_open (params : Scull.Params) {n : ℕ} (es : List (AsyncEvent n)) :
    Guarded AsyncWorld.step (fun w e => ∀ r w', w.step e = some (r, w') → ∀ filp ∈ r.2,
      (∃ f ∈ w.world.sys.files, f.filp = filp) ∧
        ∀ p pc f, (w.world.procs p).task = .closing pc f → f.filp ≠ filp) (.load n params) es := by
  refine (enlisted_always params es).guarded fun w e h r w' hst filp hmem => ?_
  have hqueue : filp ∈ w.asyncQueue := by
    cases e with
    | fasync =>
      simp only [AsyncWorld.step] at hst
      split_ifs at hst
      cases hst
      exact absurd hmem List.not_mem_nil
    | step e =>
      obtain ⟨out, -, heq⟩ := Option.map_eq_some_iff.mp hst
      cases heq
      simp only [AsyncWorld.killFasync] at hmem
      split at hmem
      · split_ifs at hmem
        · exact hmem
        · exact absurd hmem List.not_mem_nil
      · exact absurd hmem List.not_mem_nil
  exact ⟨h.isOpen filp hqueue, fun p pc f htask heq => h.closings p pc f htask (heq ▸ hqueue)⟩

/-- **No file is left untold of data.** Let a file be on the queue while the pipe is empty, and let
nothing take it off over any part of an interleaving. If there is data afterwards, the file was
signalled in this part, or a write has stored its bytes and has still to signal the queue.

Source: `ldd/scull/pipe.c`, lines 64–93, 121–229 and 256–261. -/
theorem no_lost_sigio (params : Scull.Params) {n : ℕ} {es es' : List (AsyncEvent n)}
    {rs rs' : List (Option ℤ × List ℕ)} {w w' : AsyncWorld n} {filp : ℕ}
    (hrun : exec AsyncWorld.step (.load n params) es = some (rs, w))
    (hmem : filp ∈ w.asyncQueue) (hempty : w.world.sys.dev.rp = w.world.sys.dev.wp)
    (hrun' : exec AsyncWorld.step w es' = some (rs', w'))
    (hstays : ∀ e ∈ es', e.takesOff filp = false)
    (hdata : w'.world.sys.dev.rp ≠ w'.world.sys.dev.wp) :
    (∃ r ∈ rs', filp ∈ r.2) ∨ ∃ p, (w'.world.procs p).task.signalsLater = true := by
  have h : Enlisted params w := (enlisted_always params es).last hrun
  rcases h.promised_run hrun' (fun hready => absurd hempty hready) hmem hstays with
    htold | hpromised
  · exact .inl htold
  · exact .inr (hpromised hdata)

/-- A process opens the pipe and turns the signals for its file on. -/
def enlisting (p : Fin n) : List (AsyncEvent n) :=
  [.step (.start p (.scullPOpen 0 ⟨true, true⟩ (some fun _ => 0))), .step (.run p false),
    .step (.run p false), .step (.run p false), .step (.run p false), .fasync 0 true]

/-- It then writes a byte. -/
def writing (p : Fin n) : List (AsyncEvent n) :=
  [.step (.start p (.transfer ⟨0, ⟨true, true⟩, 0⟩ (.write false 1 ⟨[7], []⟩))),
    .step (.run p false), .step (.run p false), .step (.run p false), .step (.run p false),
    .step (.run p false), .step (.run p false)]

theorem no_lost_sigio_one_write :
    ∃ rs w rs' w', exec AsyncWorld.step (.load 1 .default) (enlisting 0) = some (rs, w) ∧
      exec AsyncWorld.step w (writing 0) = some (rs', w') ∧
      ((∃ r ∈ rs', 0 ∈ r.2) ∨ ∃ p, (w'.world.procs p).task.signalsLater = true) :=
  ⟨_, _, _, _, rfl, rfl, @no_lost_sigio .default 1 (enlisting 0) (writing 0) _ _ _ _ 0 rfl
    List.mem_cons_self rfl rfl (by decide) (by decide)⟩

end ExKernel.Pipe
