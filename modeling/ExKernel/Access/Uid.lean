import ExKernel.Access.Single

/-!
# The devices with an owner

The devices `sculluid` and `scullwuid` can be opened any number of times by one user: who opens the
device while nobody has it open becomes its owner, and then it opens for the owner, for who has the
owner as effective user, and for who may override access checks. Others get `-EBUSY` from the first
device, and sleep on the second until it is free or theirs, or get `-EAGAIN` with `O_NONBLOCK`.

The sections under the spinlock are single steps. The test that `wait_event_interruptible` makes is
made without the lock, and each variable that it reads is read in a step of its own; an evaluation
that meets a section half way reads the count as before the section and the owner as after it, which
it also does when the section is one step between the two reads. A process in `schedule()` may run
on at any time, so wake-ups may be spurious, and signals are part of the event.

A process here is one file: who opens the device twice is two processes. The count is not bounded,
as there are never as many files as an `int` can count.

## Main definitions

* `Uid.Cred`, `Uid.UidDev`: who opens, and the count and the owner of a device.
* `Uid.scullUBusy`, `Uid.scullWAvailable`: the two forms of the rule of admission.
* `Uid.scullUOpen`, `Uid.scullWOpen`, `Uid.UidDev.drop`: calls that do not sleep, as a whole.
* `Uid.Kind`, `Uid.PC`, `Uid.Phase`, `Uid.World`, `Uid.World.step`: the protocol.
* `Uid.Owned`: the invariant of the ownership.
* `Uid.Alert`: the invariant of the wake-ups.

## Main results

* `Uid.Owned.step`, `Uid.Alert.step`: every step preserves the invariants.
* `Uid.ownership`: who has the device open, over all interleavings, and that the two devices admit
  the same opens.
* `Uid.no_lost_wake_up_on_wuid`: nobody sleeps on a device that is available to him, unless a
  process is about to wake him up.

## References

* `ldd/scull/access.c`, lines 98–136 and 159–210.
-/

namespace ExKernel.Uid

open Transition Scull Single

/-! ### The rule of admission -/

/-- Who makes a call: `current_uid()`, `current_euid()` and `capable(CAP_DAC_OVERRIDE)`. -/
structure Cred where
  uid : UInt32
  euid : UInt32
  dacOverride : Bool

/-- The count and the owner of a device: `scull_u_count` and `scull_u_owner`, or `scull_w_count` and
`scull_w_owner`. -/
structure UidDev where
  count : ℤ
  owner : UInt32

/-- The device as it is loaded. -/
def UidDev.init : UidDev := ⟨0, 0⟩

/-- The condition under which `scull_u_open` is refused.

Source: `ldd/scull/access.c`, lines 108–111. -/
def scullUBusy (dev : UidDev) (c : Cred) : Bool :=
  dev.count ≠ 0 && dev.owner ≠ c.uid && dev.owner ≠ c.euid && !c.dacOverride

/-- `scull_w_available`.

Source: `ldd/scull/access.c`, lines 165–171. -/
def scullWAvailable (dev : UidDev) (c : Cred) : Bool :=
  dev.count = 0 || dev.owner = c.uid || dev.owner = c.euid || c.dacOverride

/-- What both devices do on admission: a free device is grabbed, and the count goes up.

Source: `ldd/scull/access.c`, lines 116–119 and 186–188. -/
def UidDev.grab (dev : UidDev) (c : Cred) : UidDev :=
  ⟨dev.count + 1, if dev.count = 0 then c.uid else dev.owner⟩

/-- What both devices do on release.

Source: `ldd/scull/access.c`, lines 133 and 203. -/
def UidDev.drop (dev : UidDev) : UidDev := { dev with count := dev.count - 1 }

/-- `scull_u_open`, but for the emptying of a device that is opened write-only.

Source: `ldd/scull/access.c`, lines 103–128. -/
def scullUOpen (dev : UidDev) (c : Cred) : ℤ × UidDev :=
  if scullUBusy dev c then (-EBUSY, dev) else (0, dev.grab c)

/-- `scull_w_open` with `O_NONBLOCK`, but for the emptying of a device that is opened write-only.

Source: `ldd/scull/access.c`, lines 174–196. -/
def scullWOpen (dev : UidDev) (c : Cred) : ℤ × UidDev :=
  if !scullWAvailable dev c then (-EAGAIN, dev) else (0, dev.grab c)

theorem scullUBusy_eq (dev : UidDev) (c : Cred) : scullUBusy dev c = !scullWAvailable dev c := by
  simp [scullUBusy, scullWAvailable, Bool.and_assoc]

/-! ### The protocol -/

/-- The two devices. -/
inductive Kind
  | sculluid
  | scullwuid

/-- A call of open: who makes it, whether with `O_NONBLOCK`, and the access mode. -/
structure Opener where
  cred : Cred
  nonblock : Bool
  mode : AccMode

/-- The variable that an evaluation of `scull_w_available` reads next. -/
inductive Reading
  | count
  | uid
  | euid

/-- Where a process is in `scull_u_open` or `scull_w_open`. -/
inductive PC
  /-- At `spin_lock`. -/
  | lock
  /-- At the test of `O_NONBLOCK`. -/
  | nonblock
  /-- In the test that `wait_event_interruptible` makes before it queues. -/
  | waitTest (next : Reading)
  /-- At `prepare_to_wait_event`. -/
  | prepare
  /-- In the test of a process that has been at `prepare_to_wait_event`, and may have seen a
  signal. -/
  | lastTest (intr : Bool) (next : Reading)
  /-- In `schedule()`. -/
  | asleep
  /-- At `finish_wait`. -/
  | finish
  /-- After the section under the lock that admits the process. -/
  | rest
  /-- At the return of an open that was not admitted. -/
  | leave (ret : ℤ)

/-- What a process is doing on the device. -/
inductive Phase
  | idle
  | opening (pc : PC) (o : Opener)
  /-- With the device open, and in no call. -/
  | holding (o : Opener)
  /-- At the `spin_lock` of a release. -/
  | releasing (o : Opener)
  /-- At the `wake_up_interruptible_sync` of a release. -/
  | waking
  /-- At the return of a release. -/
  | released

/-- A process: what it is doing, and whether it is on the wait queue and has not been woken up since
it went there. -/
structure Proc where
  phase : Phase
  queued : Bool

/-- The count and the owner of the device, the bare device with the heap of its blocks, and `n`
processes. -/
structure World (n : ℕ) where
  dev : UidDev
  bare : ScullDev × Ledger
  procs : Fin n → Proc

/-- The module as it is loaded. -/
def World.load (n : ℕ) (bare : ScullDev × Ledger) : World n :=
  ⟨.init, bare, fun _ => ⟨.idle, false⟩⟩

/-- What a step of a process leaves: the process, the device, whether it wakes up the queue, and the
value that a call returns. -/
structure Outcome where
  proc : Proc
  dev : UidDev
  bare : ScullDev × Ledger
  wakes : Bool := false
  ret : Option ℤ := none

/-- One read of an evaluation of `scull_w_available` without the lock: what it reads next, or the
value of the expression.

Source: `ldd/scull/access.c`, lines 165–171. -/
def Reading.read (dev : UidDev) (c : Cred) : Reading → Reading ⊕ Bool
  | count => if dev.count = 0 then .inr true else .inl uid
  | uid => if dev.owner = c.uid then .inr true else .inl euid
  | euid => if dev.owner = c.euid then .inr true else .inr c.dacOverride

/-- The next step of a process in an open; `signal` is whether a signal is pending.

Source: `ldd/scull/access.c`, lines 107–127 and 178–195. -/
def Proc.runOpen (params : Params) (K : Kind) (proc : Proc) (dev : UidDev)
    (bare : ScullDev × Ledger) (signal : Bool) (o : Opener) : PC → Option Outcome
  | .lock => match K with
    | .sculluid =>
      if scullUBusy dev o.cred then goto (.leave (-EBUSY)) else grant
    | .scullwuid =>
      if !scullWAvailable dev o.cred then goto .nonblock else grant
  | .nonblock => if o.nonblock then goto (.leave (-EAGAIN)) else goto (.waitTest .count)
  | .waitTest next => match next.read dev o.cred with
    | .inl next => goto (.waitTest next)
    | .inr true => goto .lock
    | .inr false => goto .prepare
  | .prepare =>
    -- A process with a signal pending is not queued.
    some ⟨⟨.opening (.lastTest signal .count) o, !signal⟩, dev, bare, false, none⟩
  | .lastTest intr next => match next.read dev o.cred with
    | .inl next => goto (.lastTest intr next)
    | .inr true => goto .finish
    | .inr false => if intr then goto (.leave (-ERESTARTSYS)) else goto .asleep
  | .asleep => goto .prepare
  | .finish => some ⟨⟨.opening .lock o, false⟩, dev, bare, false, none⟩
  | .rest => (bareOpen params o.mode bare).map fun bare =>
    ⟨{ proc with phase := .holding o }, dev, bare, false, some 0⟩
  | .leave ret => some ⟨{ proc with phase := .idle }, dev, bare, false, some ret⟩
where
  /-- Go on at `pc`. -/
  goto (pc : PC) : Option Outcome :=
    some ⟨{ proc with phase := .opening pc o }, dev, bare, false, none⟩
  /-- The rest of the section under the lock. -/
  grant : Option Outcome :=
    some ⟨{ proc with phase := .opening .rest o }, dev.grab o.cred, bare, false, none⟩

/-- The next step of a process in a call.

Source: `ldd/scull/access.c`, lines 103–136 and 174–210. -/
def Proc.run (params : Params) (K : Kind) (proc : Proc) (dev : UidDev) (bare : ScullDev × Ledger)
    (signal : Bool) : Option Outcome :=
  match proc.phase with
  | .idle => none
  | .opening pc o => proc.runOpen params K dev bare signal o pc
  | .holding _ => none
  | .releasing _ =>
    -- `scullwuid` decides from the count that it has read under the lock whether to wake up.
    let phase := match K with
      | .sculluid => .released
      | .scullwuid => if dev.drop.count = 0 then .waking else .released
    some ⟨{ proc with phase := phase }, dev.drop, bare, false, none⟩
  | .waking => some ⟨{ proc with phase := .released }, dev, bare, true, none⟩
  | .released => some ⟨{ proc with phase := .idle }, dev, bare, false, some 0⟩

/-- An event: an idle process calls open, a process with the device open calls release, or a process
makes its next step. -/
inductive Event (n : ℕ)
  | startOpen (p : Fin n) (o : Opener)
  | startRelease (p : Fin n)
  | run (p : Fin n) (signal : Bool)

/-- Waking up the queue: everybody is taken off it. -/
def wakeUp {n : ℕ} (wakes : Bool) (procs : Fin n → Proc) : Fin n → Proc := fun q =>
  if wakes then { procs q with queued := false } else procs q

/-- One step of the system. -/
def World.step {n : ℕ} (params : Params) (K : Kind) (w : World n) :
    Event n → Option (Option ℤ × World n)
  | .startOpen p o =>
    match (w.procs p).phase with
    | .idle =>
      some (none, { w with procs := Function.update w.procs p ⟨.opening .lock o, false⟩ })
    | _ => none
  | .startRelease p =>
    match (w.procs p).phase with
    | .holding o =>
      some (none, { w with procs := Function.update w.procs p ⟨.releasing o, false⟩ })
    | _ => none
  | .run p signal => ((w.procs p).run params K w.dev w.bare signal).map fun out =>
    (out.ret, ⟨out.dev, out.bare, wakeUp out.wakes (Function.update w.procs p out.proc)⟩)

/-! ### Single steps -/

/-- Who has the device open, if the process is between its admission and its release. -/
def Phase.holder : Phase → Option Opener
  | opening .rest o => some o
  | holding o => some o
  | releasing o => some o
  | _ => none

/-- What a step does to the device: nothing; a process is admitted; or a process releases it, and
will wake up the queue of `scullwuid` if nobody has the device open any more. -/
inductive DevMove (K : Kind) (dev : UidDev) (phase : Phase) (dev' : UidDev) (phase' : Phase) : Prop
  | stay (hdev : dev' = dev) (hholder : phase'.holder = phase.holder)
  | grant (o : Opener) (hbefore : phase.holder = none)
      (havailable : scullWAvailable dev o.cred = true) (hdev : dev' = dev.grab o.cred)
      (hphase : phase' = .opening .rest o)
  | drop (o : Opener) (hbefore : phase.holder = some o) (hdev : dev' = dev.drop)
      (hphase : phase' = .waking ∨ phase' = .released)
      (hwaking : K = .scullwuid → dev'.count = 0 → phase' = .waking)

theorem Proc.runOpen_devMove {params : Params} {K : Kind} {proc : Proc} {dev : UidDev}
    {bare : ScullDev × Ledger} {signal : Bool} {o : Opener} {pc : PC} {out : Outcome}
    (h : proc.runOpen params K dev bare signal o pc = some out) :
    DevMove K dev (.opening pc o) out.dev out.proc.phase := by
  cases pc with
  | lock =>
    cases K with
    | sculluid =>
      simp only [runOpen, runOpen.goto, runOpen.grant, scullUBusy_eq] at h
      split_ifs at h with hbusy
      · cases h
        exact .stay rfl rfl
      · cases h
        exact .grant o rfl (by simpa using hbusy) rfl rfl
    | scullwuid =>
      simp only [runOpen, runOpen.goto, runOpen.grant] at h
      split_ifs at h with hbusy
      · cases h
        exact .stay rfl rfl
      · cases h
        exact .grant o rfl (by simpa using hbusy) rfl rfl
  | rest =>
    obtain ⟨bare', -, rfl⟩ := Option.map_eq_some_iff.mp h
    exact .stay rfl rfl
  | waitTest next =>
    simp only [runOpen, runOpen.goto] at h
    split at h <;> cases h <;> exact .stay rfl rfl
  | lastTest intr next =>
    simp only [runOpen, runOpen.goto] at h
    split at h <;> (try split_ifs at h) <;> cases h <;> exact .stay rfl rfl
  | nonblock =>
    simp only [runOpen, runOpen.goto] at h
    split_ifs at h <;> cases h <;> exact .stay rfl rfl
  | _ =>
    cases h
    exact .stay rfl rfl

theorem Proc.run_devMove {params : Params} {K : Kind} {proc : Proc} {dev : UidDev}
    {bare : ScullDev × Ledger} {signal : Bool} {out : Outcome}
    (h : proc.run params K dev bare signal = some out) :
    DevMove K dev proc.phase out.dev out.proc.phase := by
  unfold run at h
  split at h
  · cases h
  · rename_i pc o hphase
    rw [hphase]
    exact runOpen_devMove h
  · cases h
  · rename_i o hphase
    cases h
    refine .drop o (by rw [hphase]; rfl) rfl ?_ ?_
    · cases K with
      | sculluid => exact .inr rfl
      | scullwuid =>
        dsimp only
        split_ifs
        · exact .inl rfl
        · exact .inr rfl
    · rintro rfl hzero
      exact if_pos hzero
  · rename_i hphase
    cases h
    exact .stay rfl (by rw [hphase]; rfl)
  · rename_i hphase
    cases h
    exact .stay rfl (by rw [hphase]; rfl)

/-- What the reads of an evaluation have found before `next`. -/
def Reading.Passed (dev : UidDev) (c : Cred) : Reading → Prop
  | count => True
  | uid => dev.count ≠ 0
  | euid => dev.count ≠ 0 ∧ dev.owner ≠ c.uid

/-- What a process that has been at `prepare_to_wait_event` has found in its last test. -/
def Phase.Found (dev : UidDev) : Phase → Prop
  | opening (.lastTest _ next) o => next.Passed dev o.cred
  | opening .asleep o => scullWAvailable dev o.cred = false
  | _ => True

theorem Reading.read_next {dev : UidDev} {c : Cred} {next next' : Reading}
    (h : next.read dev c = .inl next') (hpassed : next.Passed dev c) : next'.Passed dev c := by
  cases next with
  | count =>
    simp only [read] at h
    split_ifs at h with hcount
    cases h
    exact hcount
  | uid =>
    simp only [read] at h
    split_ifs at h with howner
    cases h
    exact ⟨hpassed, howner⟩
  | euid =>
    simp only [read] at h
    split_ifs at h

theorem Reading.read_false {dev : UidDev} {c : Cred} {next : Reading}
    (h : next.read dev c = .inr false) (hpassed : next.Passed dev c) :
    scullWAvailable dev c = false := by
  cases next with
  | count =>
    simp only [read] at h
    split_ifs at h
    cases h
  | uid =>
    simp only [read] at h
    split_ifs at h
    cases h
  | euid =>
    simp only [read] at h
    split_ifs at h with howner
    · cases h
    · simp only [Sum.inr.injEq] at h
      simp [scullWAvailable, hpassed.1, hpassed.2, howner, h]

/-- A process that has been at `prepare_to_wait_event` knows what it has found, as long as the
device does not change. -/
theorem Proc.runOpen_found {params : Params} {K : Kind} {proc : Proc} {dev : UidDev}
    {bare : ScullDev × Ledger} {signal : Bool} {o : Opener} {pc : PC} {out : Outcome}
    (h : proc.runOpen params K dev bare signal o pc = some out)
    (hfound : proc.queued = true → (Phase.opening pc o).Found dev)
    (hqueued : out.proc.queued = true) : out.proc.phase.Found dev := by
  cases pc with
  | lastTest intr next =>
    simp only [runOpen, runOpen.goto] at h
    split at h
    · rename_i next' hread
      cases h
      exact Reading.read_next hread (hfound hqueued)
    · cases h
      trivial
    · rename_i hread
      split_ifs at h
      · cases h
        trivial
      · cases h
        exact Reading.read_false hread (hfound hqueued)
  | prepare =>
    cases h
    trivial
  | lock =>
    cases K <;> simp only [runOpen, runOpen.goto, runOpen.grant] at h <;> split_ifs at h <;>
      cases h <;> trivial
  | rest =>
    obtain ⟨bare', -, rfl⟩ := Option.map_eq_some_iff.mp h
    trivial
  | waitTest next =>
    simp only [runOpen, runOpen.goto] at h
    split at h <;> cases h <;> trivial
  | nonblock =>
    simp only [runOpen, runOpen.goto] at h
    split_ifs at h <;> cases h <;> trivial
  | _ =>
    cases h
    trivial

theorem Proc.run_found {params : Params} {K : Kind} {proc : Proc} {dev : UidDev}
    {bare : ScullDev × Ledger} {signal : Bool} {out : Outcome}
    (h : proc.run params K dev bare signal = some out)
    (hfound : proc.queued = true → proc.phase.Found dev) (hqueued : out.proc.queued = true) :
    out.proc.phase.Found dev := by
  unfold run at h
  split at h
  · cases h
  · rename_i pc o hphase
    rw [hphase] at hfound
    exact runOpen_found h hfound hqueued
  · cases h
  · cases h
    cases K with
    | sculluid => trivial
    | scullwuid =>
      dsimp only
      split_ifs <;> trivial
  · cases h
    trivial
  · cases h
    trivial

/-- What a step of the system does: one process moves, and perhaps wakes up the queue. -/
structure Moves {n : ℕ} (K : Kind) (w : World n) (p : Fin n) (proc : Proc) (wakes : Bool)
    (w' : World n) : Prop where
  procs_eq : w'.procs = wakeUp wakes (Function.update w.procs p proc)
  dev_move : DevMove K w.dev (w.procs p).phase w'.dev proc.phase
  found : ((w.procs p).queued = true → (w.procs p).phase.Found w.dev) → proc.queued = true →
    proc.phase.Found w.dev
  waking : (w.procs p).phase = .waking → wakes = true

theorem World.step_moves {n : ℕ} {params : Params} {K : Kind} {w w' : World n} {e : Event n}
    {r : Option ℤ} (h : w.step params K e = some (r, w')) :
    ∃ p proc wakes, Moves K w p proc wakes w' := by
  cases e with
  | startOpen p o =>
    simp only [World.step] at h
    split at h
    · rename_i hphase
      cases h
      exact ⟨p, _, false, rfl, .stay rfl (by rw [hphase]; rfl), fun _ _ => trivial,
        fun hwaking => by rw [hphase] at hwaking; cases hwaking⟩
    · cases h
  | startRelease p =>
    simp only [World.step] at h
    split at h
    · rename_i o hphase
      cases h
      exact ⟨p, _, false, rfl, .stay rfl (by rw [hphase]; rfl), fun _ _ => trivial,
        fun hwaking => by rw [hphase] at hwaking; cases hwaking⟩
    · cases h
  | run p signal =>
    obtain ⟨out, hrun, heq⟩ := Option.map_eq_some_iff.mp h
    cases heq
    refine ⟨p, out.proc, out.wakes, rfl, Proc.run_devMove hrun, Proc.run_found hrun, ?_⟩
    intro hwaking
    simp only [Proc.run, hwaking] at hrun
    cases hrun
    rfl

/-! ### Ownership -/

/-- The process has the device open. -/
def Proc.holds (proc : Proc) : Bool := proc.phase.holder.isSome

/-- The count is the number of open files, and the owner is the user or the effective user of
everybody who has the device open and may not override access checks. -/
structure Owned {n : ℕ} (w : World n) : Prop where
  count_eq : w.dev.count = census Proc.holds w.procs
  owner : ∀ p o, (w.procs p).phase.holder = some o → o.cred.dacOverride = false →
    w.dev.owner = o.cred.uid ∨ w.dev.owner = o.cred.euid

theorem wakeUp_phase {n : ℕ} (wakes : Bool) (procs : Fin n → Proc) (q : Fin n) :
    (wakeUp wakes procs q).phase = (procs q).phase := by
  unfold wakeUp
  split_ifs <;> rfl

theorem census_wakeUp {n : ℕ} (wakes : Bool) (procs : Fin n → Proc) :
    census Proc.holds (wakeUp wakes procs) = census Proc.holds procs := by
  simp only [census_eq_sum, Proc.holds, wakeUp_phase]

namespace Owned

variable {n : ℕ} {K : Kind} {w w' : World n}

theorem load (bare : ScullDev × Ledger) : Owned (World.load n bare) where
  count_eq := by
    rw [(census_eq_zero_iff _ _).mpr fun _ => rfl]
    rfl
  owner p o hholder := by cases hholder

theorem holder_eq_none (hw : Owned w) (hzero : w.dev.count = 0) (q : Fin n) :
    (w.procs q).phase.holder = none := by
  have hcount := hw.count_eq
  have hnone := (census_eq_zero_iff Proc.holds w.procs).mp (by omega) q
  simpa [Proc.holds] using hnone

theorem owner_eq {phase phase' : Phase} {dev dev' : UidDev} (h : DevMove K dev phase dev' phase')
    (hcount : dev.count ≠ 0) : dev'.owner = dev.owner := by
  cases h with
  | stay hdev => rw [hdev]
  | grant o _ _ hdev =>
    rw [hdev]
    exact if_neg hcount
  | drop o _ hdev =>
    rw [hdev]
    rfl

/-- Every step preserves the invariant. -/
theorem step {params : Params} {e : Event n} {r : Option ℤ} (hw : Owned w)
    (h : w.step params K e = some (r, w')) : Owned w' := by
  obtain ⟨p, proc, wakes, hmove⟩ := World.step_moves h
  have hcensus := census_update Proc.holds w.procs p proc
  rw [← census_wakeUp wakes, ← hmove.procs_eq] at hcensus
  have hcount := hw.count_eq
  have hholder : ∀ q o, (w'.procs q).phase.holder = some o →
      (q = p ∧ proc.phase.holder = some o) ∨ (w.procs q).phase.holder = some o := by
    intro q o hq
    rw [hmove.procs_eq, wakeUp_phase] at hq
    by_cases hqp : q = p
    · subst hqp
      rw [Function.update_self] at hq
      exact .inl ⟨rfl, hq⟩
    · rw [Function.update_of_ne hqp] at hq
      exact .inr hq
  cases hmove.dev_move with
  | stay hdev hsame =>
    refine ⟨?_, ?_⟩
    · simp only [Proc.holds, hsame] at hcensus
      rw [hdev]
      omega
    · intro q o hq
      rw [hdev]
      rcases hholder q o hq with ⟨rfl, hp⟩ | hq'
      · rw [hsame] at hp
        exact hw.owner q o hp
      · exact hw.owner q o hq'
  | grant o hbefore havailable hdev hphase =>
    have hafter : proc.phase.holder = some o := by rw [hphase]; rfl
    refine ⟨?_, ?_⟩
    · simp only [Proc.holds, hbefore, hafter, Option.isSome_none, Option.isSome_some,
        Bool.toNat_false, Bool.toNat_true] at hcensus
      rw [hdev]
      simp only [UidDev.grab]
      omega
    · intro q o' hq hcap
      by_cases hzero : w.dev.count = 0
      · rcases hholder q o' hq with ⟨rfl, hp⟩ | hq'
        · rw [hafter] at hp
          cases hp
          rw [hdev]
          exact .inl (if_pos hzero)
        · rw [hw.holder_eq_none hzero] at hq'
          cases hq'
      · rw [owner_eq hmove.dev_move hzero]
        rcases hholder q o' hq with ⟨rfl, hp⟩ | hq'
        · rw [hafter] at hp
          cases hp
          simpa [scullWAvailable, hzero, hcap] using havailable
        · exact hw.owner q o' hq' hcap
  | drop o hbefore hdev hphase =>
    have hafter : proc.phase.holder = none := by rcases hphase with hp | hp <;> rw [hp] <;> rfl
    refine ⟨?_, ?_⟩
    · simp only [Proc.holds, hbefore, hafter, Option.isSome_none, Option.isSome_some,
        Bool.toNat_false, Bool.toNat_true] at hcensus
      rw [hdev]
      simp only [UidDev.drop]
      omega
    · intro q o' hq
      rw [hdev]
      rcases hholder q o' hq with ⟨rfl, hp⟩ | hq'
      · rw [hafter] at hp
        cases hp
      · exact hw.owner q o' hq'

theorem always (params : Params) (K : Kind) (bare : ScullDev × Ledger) (es : List (Event n)) :
    Always (World.step params K) Owned (World.load n bare) es :=
  always_of_invariant Owned (fun _ _ _ _ hw _ hst => hw.step hst) (load bare) (guarded_true _ es)

end Owned

/-- A step from a state in which somebody has the device open leaves the owner. -/
def OwnerKept {n : ℕ} (params : Params) (K : Kind) (w : World n) (e : Event n) : Prop :=
  ∀ r w', w.step params K e = some (r, w') → 0 < w.dev.count → w'.dev.owner = w.dev.owner

theorem ownerKept {n : ℕ} (params : Params) (K : Kind) (w : World n) (e : Event n) :
    OwnerKept params K w e := by
  intro r w' h hcount
  obtain ⟨p, proc, wakes, hmove⟩ := World.step_moves h
  exact Owned.owner_eq hmove.dev_move (by omega)

/-! ### Calls that do not sleep -/

/-- A call, as a whole, on a device that nobody sleeps on. -/
inductive Call
  | scullOpen (c : Cred)
  | scullRelease

/-- A call on `sculluid`. -/
def sculluidStep (dev : UidDev) : Call → Option (ℤ × UidDev)
  | .scullOpen c => some (scullUOpen dev c)
  | .scullRelease => some (0, dev.drop)

/-- A call on `scullwuid`, where opens are with `O_NONBLOCK`. -/
def scullwuidStep (dev : UidDev) : Call → Option (ℤ × UidDev)
  | .scullOpen c => some (scullWOpen dev c)
  | .scullRelease => some (0, dev.drop)

/-- Both calls succeed, or both are refused, each with its error. -/
def SameAnswer (u w : ℤ) : Prop := (u = 0 ∧ w = 0) ∨ (u = -EBUSY ∧ w = -EAGAIN)

theorem scullWOpen_eq (dev : UidDev) (c : Cred) :
    (scullWOpen dev c).2 = (scullUOpen dev c).2 ∧
      SameAnswer (scullUOpen dev c).1 (scullWOpen dev c).1 := by
  rw [scullUOpen, scullWOpen, scullUBusy_eq]
  split_ifs
  · exact ⟨rfl, .inr ⟨rfl, rfl⟩⟩
  · exact ⟨rfl, .inl ⟨rfl, rfl⟩⟩

theorem exec_sculluid_scullwuid (dev : UidDev) (calls : List Call) :
    ∃ us ws dev', exec sculluidStep dev calls = some (us, dev') ∧
      exec scullwuidStep dev calls = some (ws, dev') ∧ List.Forall₂ SameAnswer us ws := by
  induction calls generalizing dev with
  | nil => exact ⟨[], [], dev, rfl, rfl, .nil⟩
  | cons call calls ih =>
    cases call with
    | scullOpen c =>
      obtain ⟨hdev, hsame⟩ := scullWOpen_eq dev c
      obtain ⟨us, ws, dev', hu, hw, hall⟩ := ih (scullUOpen dev c).2
      rw [← hdev] at hw
      exact ⟨(scullUOpen dev c).1 :: us, (scullWOpen dev c).1 :: ws, dev',
        exec_cons_eq_some.mpr ⟨_, (scullUOpen dev c).2, us, rfl, hu, rfl⟩,
        exec_cons_eq_some.mpr ⟨_, (scullWOpen dev c).2, ws, rfl, hw, rfl⟩, .cons hsame hall⟩
    | scullRelease =>
      obtain ⟨us, ws, dev', hu, hw, hall⟩ := ih dev.drop
      exact ⟨_ :: us, _ :: ws, dev', exec_cons_eq_some.mpr ⟨_, _, us, rfl, hu, rfl⟩,
        exec_cons_eq_some.mpr ⟨_, _, ws, rfl, hw, rfl⟩, .cons (.inl ⟨rfl, rfl⟩) hall⟩

section Solo

variable {n : ℕ} {params : Params} {w : World n} {p : Fin n} {o : Opener}
  {bare : ScullDev × Ledger}

/-- An open of `sculluid` by a process that runs alone is the call as a whole. -/
theorem exec_open_sculluid (hidle : (w.procs p).phase = .idle)
    (hbare : bareOpen params o.mode w.bare = some bare) :
    ∃ w', exec (World.step params .sculluid) w [.startOpen p o, .run p false, .run p false] =
        some ([none, none, some (scullUOpen w.dev o.cred).1], w') ∧
      w'.dev = (scullUOpen w.dev o.cred).2 := by
  cases hbusy : scullUBusy w.dev o.cred <;>
    simp [exec, World.step, hidle, Proc.run, Proc.runOpen, Proc.runOpen.goto, Proc.runOpen.grant,
      wakeUp, scullUOpen, hbusy, hbare]

/-- An open of `scullwuid` with `O_NONBLOCK` by a process that runs alone is the call as a whole. -/
theorem exec_open_scullwuid (hidle : (w.procs p).phase = .idle)
    (hbare : bareOpen params o.mode w.bare = some bare) (hnonblock : o.nonblock = true) :
    ∃ es rs w', exec (World.step params .scullwuid) w (.startOpen p o :: es) = some (rs, w') ∧
      (∀ e ∈ es, e = .run p false) ∧ rs.getLast? = some (some (scullWOpen w.dev o.cred).1) ∧
      w'.dev = (scullWOpen w.dev o.cred).2 := by
  cases havailable : scullWAvailable w.dev o.cred with
  | true =>
    refine ⟨[.run p false, .run p false], ?_⟩
    simp [exec, World.step, hidle, Proc.run, Proc.runOpen, Proc.runOpen.grant, wakeUp, scullWOpen,
      havailable, hbare]
  | false =>
    refine ⟨[.run p false, .run p false, .run p false], ?_⟩
    simp [exec, World.step, hidle, Proc.run, Proc.runOpen, Proc.runOpen.goto, wakeUp, scullWOpen,
      havailable, hnonblock]

end Solo

/-- **Ownership of the uid devices.** In every interleaving of opens and releases by processes with
any credentials, on either device, the count is the number of open files, the owner does not change
while it is positive, and the owner is the user or the effective user of everybody who has the
device open and may not override access checks. The two devices admit the same opens, when those of
the second one are with `O_NONBLOCK`, and keep the same count and owner. -/
theorem ownership :
    (∀ (params : Params) (K : Kind) (n : ℕ) (bare : ScullDev × Ledger) (es : List (Event n)),
      Always (World.step params K) Owned (World.load n bare) es ∧
        Guarded (World.step params K) (OwnerKept params K) (World.load n bare) es) ∧
    ∀ (dev : UidDev) (calls : List Call), ∃ us ws dev',
      exec sculluidStep dev calls = some (us, dev') ∧
        exec scullwuidStep dev calls = some (ws, dev') ∧ List.Forall₂ SameAnswer us ws := by
  refine ⟨fun params K n bare es => ⟨Owned.always params K bare es, ?_⟩, exec_sculluid_scullwuid⟩
  exact (Owned.always params K bare es).guarded fun w e _ => ownerKept params K w e

/-! ### Wake-ups -/

section WakeUps

variable {n : ℕ} {w w' : World n}

/-- The process is asleep on the queue: it is in `schedule()` and was not woken up. -/
def Proc.Asleep (proc : Proc) (o : Opener) : Prop :=
  proc.phase = .opening .asleep o ∧ proc.queued = true

/-- Some process is about to wake up the queue, or what the processes on the queue have found in
their last test still holds. -/
def Alert (w : World n) : Prop :=
  (∃ q, (w.procs q).phase = .waking) ∨
    ∀ q, (w.procs q).queued = true → (w.procs q).phase.Found w.dev

/-- What a process has found stays, as long as the device does not become free and the owner does
not change. -/
theorem Phase.Found.mono {dev dev' : UidDev} {phase : Phase} (h : phase.Found dev)
    (hdev : dev.count ≠ 0 → dev'.count ≠ 0 ∧ dev'.owner = dev.owner) : phase.Found dev' := by
  unfold Phase.Found at h ⊢
  split at h
  · rename_i intr next o
    cases next with
    | count => trivial
    | uid => exact (hdev h).1
    | euid =>
      obtain ⟨hcount, howner⟩ := hdev h.1
      exact ⟨hcount, howner ▸ h.2⟩
  · rename_i o
    have hcount : dev.count ≠ 0 := by
      rintro hzero
      simp [scullWAvailable, hzero] at h
    obtain ⟨hcount', howner⟩ := hdev hcount
    simp only [scullWAvailable, hcount, hcount', howner] at h ⊢
    exact h
  · trivial

theorem Alert.load (bare : ScullDev × Ledger) : Alert (World.load n bare) :=
  .inr fun _ hqueued => by cases hqueued

/-- Every step of `scullwuid` preserves the invariant. -/
theorem Alert.step {params : Params} {e : Event n} {r : Option ℤ} (hw : Alert w) (howned : Owned w)
    (h : w.step params .scullwuid e = some (r, w')) : Alert w' := by
  obtain ⟨p, proc, wakes, hmove⟩ := World.step_moves h
  cases wakes with
  | true =>
    right
    intro q hq
    rw [hmove.procs_eq] at hq
    simp [wakeUp] at hq
  | false =>
    have hprocs : w'.procs = Function.update w.procs p proc := by
      rw [hmove.procs_eq]
      funext q
      simp [wakeUp]
    rcases hw with ⟨q, hq⟩ | hfound
    · have hqp : q ≠ p := by
        rintro rfl
        cases hmove.waking hq
      exact .inl ⟨q, by rw [hprocs, Function.update_of_ne hqp]; exact hq⟩
    · -- It is enough that the device stays as the processes on the queue have found it.
      have hstays : (∀ q, (w.procs q).phase.Found w.dev → (w.procs q).phase.Found w'.dev) →
          (proc.queued = true → proc.phase.Found w'.dev) → Alert w' := by
        intro hothers hself
        right
        intro q hq
        rw [hprocs] at hq ⊢
        by_cases hqp : q = p
        · subst hqp
          rw [Function.update_self] at hq ⊢
          exact hself hq
        · rw [Function.update_of_ne hqp] at hq ⊢
          exact hothers q (hfound q hq)
      have hnonneg : 0 ≤ w.dev.count := by
        have hcount := howned.count_eq
        omega
      cases hmove.dev_move with
      | stay hdev _ =>
        rw [hdev] at hstays
        exact hstays (fun q hq => hq) (hmove.found (hfound p))
      | grant o _ _ hdev hphase =>
        refine hstays (fun q hq => hq.mono fun hcount => ?_) fun _ => by rw [hphase]; trivial
        rw [hdev]
        exact ⟨by simp only [UidDev.grab]; omega, if_neg hcount⟩
      | drop o _ hdev hphase hwaking =>
        by_cases hzero : w'.dev.count = 0
        · exact .inl ⟨p, by rw [hprocs, Function.update_self]; exact hwaking rfl hzero⟩
        · refine hstays (fun q hq => hq.mono fun _ => ⟨hzero, by rw [hdev]; rfl⟩) fun _ => ?_
          rcases hphase with hp | hp <;> rw [hp] <;> trivial

/-- **No lost wake-up on `scullwuid`.** In every interleaving of opens and releases by processes
with any credentials, nobody is asleep on the queue of a device that is available to him, unless a
release is about to wake up the queue. -/
theorem no_lost_wake_up_on_wuid (params : Params) (n : ℕ) (bare : ScullDev × Ledger)
    (es : List (Event n)) :
    Always (World.step params .scullwuid) (fun w => ∀ p o, (w.procs p).Asleep o →
      scullWAvailable w.dev o.cred = true → ∃ q, (w.procs q).phase = .waking)
      (World.load n bare) es := by
  have halways : Always (World.step params .scullwuid) (fun w => Owned w ∧ Alert w)
      (World.load n bare) es :=
    always_of_invariant _ (fun _ _ _ _ hw _ hst => ⟨hw.1.step hst, hw.2.step hw.1 hst⟩)
      ⟨.load bare, .load bare⟩ (guarded_true _ es)
  refine halways.mono ?_
  rintro w ⟨-, halert⟩ p o ⟨hphase, hqueued⟩ havailable
  rcases halert with hwaking | hfound
  · exact hwaking
  · have hnot := hfound p hqueued
    rw [hphase] at hnot
    rw [Phase.Found, havailable] at hnot
    cases hnot

end WakeUps

end ExKernel.Uid
