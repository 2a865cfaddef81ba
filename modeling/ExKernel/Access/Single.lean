import ExKernel.Lib.Census
import ExKernel.Scull.System

/-!
# The single-open devices

Two drivers let one process at a time open their device, by the same protocol on an atomic counter
that starts at 1. An open decrements the counter; if this does not bring it to 0, the open fails and
increments it again. A release increments it. The decrement with its test and the two increments are
steps of their own, and runs are arbitrary interleavings of the steps of any number of processes.

The two drivers differ in what an open does once it has the device: `scull_s_open` empties it if it
is opened write-only, `virtual_device_open` does nothing more.

A process that has a file open does not open another one here: who opens the device twice is two
processes. The counter is not bounded, as there are never as many processes as an `int` can count.

## Main definitions

* `Single.Driver`, `Single.scullSngl`, `Single.virtualDevice`: the two drivers.
* `Single.Phase`, `Single.World`, `Single.Event`, `Single.World.step`: the protocol.
* `Single.Exclusive`: what the counter counts, and that there is at most one holder.
* `Single.Watched`: the protocol with a record of who has seen a holder.

## Main results

* `Single.Exclusive.step`: every step preserves the invariant.
* `Single.single_open_exclusion`: the invariant over all interleavings.
* `Single.busy_when_held`: when an open that is refused has seen a holder.
* `Single.busy_though_free`: an open that is refused by a device that nobody holds.

## References

* `ldd/scull/access.c`, lines 52–75; `m_modules/char_dev/md5_dev.c`, lines 30 and 102–121.
-/

namespace ExKernel.Single

open Transition Scull

/-! ### The protocol -/

/-- What is particular to a driver: what an open does to the device once it has it. -/
structure Driver (σ : Type*) where
  rest : AccMode → σ → Option σ

/-- What the devices with access control copy from the open of the bare scull device, without its
lock: a write-only open empties the device.

Source: `ldd/scull/access.c`, lines 64–68, 122–127 and 191–195. -/
def bareOpen (params : Params) (mode : AccMode) (s : ScullDev × Ledger) :
    Option (ScullDev × Ledger) :=
  if mode = .wronly then scullTrim params s.1 s.2 else some s

/-- The single-open scull device, with the heap of its blocks. -/
def scullSngl (params : Params) : Driver (ScullDev × Ledger) := ⟨bareOpen params⟩

/-- The device of the MD5 module, of which an open touches nothing but the counter.

Source: `m_modules/char_dev/md5_dev.c`, lines 111–112. -/
def virtualDevice : Driver Unit where
  rest _ s := some s

/-- Where a process is. -/
inductive Phase
  | idle
  /-- At `atomic_dec_and_test`. -/
  | opening (mode : AccMode)
  /-- At the `atomic_inc` of an open whose decrement did not bring the counter to 0. -/
  | failed
  /-- At `return -EBUSY`. -/
  | refused
  /-- In the rest of an open that has the device. -/
  | granted (mode : AccMode)
  /-- With the device open, and in no call. -/
  | holding
  /-- At the `atomic_inc` of a release. -/
  | releasing
  /-- At the return of a release. -/
  | released
  deriving DecidableEq

namespace Phase

/-- The process holds the device: it has decremented the counter to 0 and has not released it. -/
def holds : Phase → Bool
  | granted _ | holding | releasing => true
  | _ => false

/-- The process is in an open that failed, and has not incremented the counter again. -/
def hasFailed : Phase → Bool
  | failed => true
  | _ => false

/-- The process is at `atomic_dec_and_test`. -/
def atDecrement : Phase → Bool
  | opening _ => true
  | _ => false

/-- The process is in an open or release. -/
def inCall : Phase → Bool
  | idle | holding => false
  | _ => true

end Phase

/-- The counter, the device, and `n` processes. -/
structure World (σ : Type*) (n : ℕ) where
  counter : ℤ
  dev : σ
  phase : Fin n → Phase

variable {σ : Type*} {n : ℕ}

/-- The module as it is loaded: the counter is 1, and nobody uses the device. -/
def World.load (n : ℕ) (dev : σ) : World σ n := ⟨1, dev, fun _ => .idle⟩

/-- An event: an idle process calls open, a process with the device open calls release, or a process
makes its next step. -/
inductive Event (n : ℕ)
  | startOpen (p : Fin n) (mode : AccMode)
  | startRelease (p : Fin n)
  | run (p : Fin n)

/-- The process of an event. -/
def Event.proc : Event n → Fin n
  | startOpen p _ => p
  | startRelease p => p
  | run p => p

/-- The next step of a process that is in a call, with the value that the call returns.

Source: `ldd/scull/access.c`, lines 59–74; `m_modules/char_dev/md5_dev.c`, lines 106–120. -/
def World.run (D : Driver σ) (w : World σ n) (p : Fin n) : Option (Option ℤ × World σ n) :=
  match w.phase p with
  | .opening mode =>
    let counter := w.counter - 1
    let phase := if counter = 0 then .granted mode else .failed
    some (none, { w with counter := counter, phase := Function.update w.phase p phase })
  | .failed =>
    some (none, { w with counter := w.counter + 1, phase := Function.update w.phase p .refused })
  | .refused => some (some (-EBUSY), { w with phase := Function.update w.phase p .idle })
  | .granted mode => (D.rest mode w.dev).map fun dev =>
    (some 0, { w with dev := dev, phase := Function.update w.phase p .holding })
  | .releasing =>
    some (none, { w with counter := w.counter + 1, phase := Function.update w.phase p .released })
  | .released => some (some 0, { w with phase := Function.update w.phase p .idle })
  | .idle => none
  | .holding => none

/-- One step of the system. -/
def World.step (D : Driver σ) (w : World σ n) : Event n → Option (Option ℤ × World σ n)
  | .startOpen p mode =>
    if w.phase p = .idle then
      some (none, { w with phase := Function.update w.phase p (.opening mode) })
    else none
  | .startRelease p =>
    if w.phase p = .holding then
      some (none, { w with phase := Function.update w.phase p .releasing })
    else none
  | .run p => w.run D p

/-! ### Exclusion -/

/-- The number of processes that hold the device. -/
def World.holders (w : World σ n) : ℕ := census Phase.holds w.phase

/-- The number of failed opens that have not incremented the counter again. -/
def World.failures (w : World σ n) : ℕ := census Phase.hasFailed w.phase

/-- The next phase of a process that finds the counter at `c`. -/
inductive Phase.Next (c : ℤ) : Phase → Phase → Prop
  | call (mode : AccMode) : Next c .idle (.opening mode)
  | take (mode : AccMode) (hc : c = 1) : Next c (.opening mode) (.granted mode)
  | fail (mode : AccMode) (hc : c ≠ 1) : Next c (.opening mode) .failed
  | repair : Next c .failed .refused
  | refuse : Next c .refused .idle
  | finish (mode : AccMode) : Next c (.granted mode) .holding
  | close : Next c .holding .releasing
  | release : Next c .releasing .released
  | leave : Next c .released .idle

/-- What a step does: one process goes to its next phase, the counter changes by what this does to
holders and failures, and `-EBUSY` is returned from the phase in which an open is refused. -/
structure Moves (w : World σ n) (p : Fin n) (a : Phase) (r : Option ℤ) (w' : World σ n) : Prop where
  next : (w.phase p).Next w.counter a
  phase_eq : w'.phase = Function.update w.phase p a
  counter_eq : w'.counter + (a.holds.toNat + a.hasFailed.toNat : ℕ) =
    w.counter + ((w.phase p).holds.toNat + (w.phase p).hasFailed.toNat : ℕ)
  busy : r = some (-EBUSY) → w.phase p = .refused

theorem Moves.of_next {w : World σ n} {p : Fin n} {b a : Phase} {r : Option ℤ} {counter : ℤ}
    {dev : σ} (hb : w.phase p = b) (hnext : b.Next w.counter a)
    (hcounter : counter + (a.holds.toNat + a.hasFailed.toNat : ℕ) =
      w.counter + (b.holds.toNat + b.hasFailed.toNat : ℕ)) (hr : r ≠ some (-EBUSY)) :
    Moves w p a r ⟨counter, dev, Function.update w.phase p a⟩ where
  next := by rw [hb]; exact hnext
  phase_eq := rfl
  counter_eq := by rw [hb]; exact hcounter
  busy h := absurd h hr

theorem World.run_moves {D : Driver σ} {w w' : World σ n} {p : Fin n} {r : Option ℤ}
    (h : w.run D p = some (r, w')) : ∃ a, Moves w p a r w' := by
  unfold World.run at h
  split at h
  · rename_i mode hphase
    cases h
    by_cases hzero : w.counter - 1 = 0
    · rw [if_pos hzero]
      exact ⟨_, .of_next hphase (.take mode (by omega)) (by simp [Phase.holds, Phase.hasFailed])
        (by simp)⟩
    · rw [if_neg hzero]
      exact ⟨_, .of_next hphase (.fail mode (by omega)) (by simp [Phase.holds, Phase.hasFailed])
        (by simp)⟩
  · rename_i hphase
    cases h
    exact ⟨_, .of_next hphase .repair (by simp [Phase.holds, Phase.hasFailed]) (by simp)⟩
  · rename_i hphase
    cases h
    refine ⟨.idle, ?_, rfl, ?_, fun _ => hphase⟩
    · rw [hphase]
      exact .refuse
    · rw [hphase]
      rfl
  · rename_i mode hphase
    obtain ⟨dev, -, heq⟩ := Option.map_eq_some_iff.mp h
    cases heq
    exact ⟨_, .of_next hphase (.finish mode) rfl (by simp [EBUSY])⟩
  · rename_i hphase
    cases h
    exact ⟨_, .of_next hphase .release (by simp [Phase.holds, Phase.hasFailed]) (by simp)⟩
  · rename_i hphase
    cases h
    exact ⟨_, .of_next hphase .leave rfl (by simp [EBUSY])⟩
  · cases h
  · cases h

theorem World.step_moves {D : Driver σ} {w w' : World σ n} {e : Event n} {r : Option ℤ}
    (h : w.step D e = some (r, w')) : ∃ a, Moves w e.proc a r w' := by
  cases e with
  | startOpen p mode =>
    simp only [World.step] at h
    split_ifs at h with hphase
    cases h
    exact ⟨_, .of_next hphase (.call mode) rfl (by simp)⟩
  | startRelease p =>
    simp only [World.step] at h
    split_ifs at h with hphase
    cases h
    exact ⟨_, .of_next hphase .close rfl (by simp)⟩
  | run p => exact World.run_moves h

theorem Phase.Next.taken {c : ℤ} {b a : Phase} (h : b.Next c a) (ha : a.holds = true) :
    b.holds = true ∨ c = 1 := by
  cases h with
  | take mode hc => exact .inr hc
  | finish mode => exact .inl rfl
  | close => exact .inl rfl
  | _ => cases ha

/-- The counter counts the holders and the failures down from 1, and there is at most one holder. -/
structure Exclusive (w : World σ n) : Prop where
  counter_eq : w.counter = 1 - w.holders - w.failures
  holders_le : w.holders ≤ 1

namespace Exclusive

theorem load (n : ℕ) (dev : σ) : Exclusive (World.load n dev) := by
  have hholders : (World.load n dev).holders = 0 := (census_eq_zero_iff _ _).mpr fun _ => rfl
  have hfailures : (World.load n dev).failures = 0 := (census_eq_zero_iff _ _).mpr fun _ => rfl
  refine ⟨?_, by omega⟩
  rw [hholders, hfailures]
  rfl

/-- Every step preserves the invariant. -/
theorem step {D : Driver σ} {w w' : World σ n} {e : Event n} {r : Option ℤ} (hw : Exclusive w)
    (h : w.step D e = some (r, w')) : Exclusive w' := by
  obtain ⟨a, hmove⟩ := World.step_moves h
  have hholders := census_update Phase.holds w.phase e.proc a
  have hfailures := census_update Phase.hasFailed w.phase e.proc a
  rw [← hmove.phase_eq] at hholders hfailures
  change w'.holders + _ = w.holders + _ at hholders
  change w'.failures + _ = w.failures + _ at hfailures
  have hcounter := hmove.counter_eq
  have hbefore := hw.counter_eq
  refine ⟨by omega, ?_⟩
  have hle := hw.holders_le
  cases ha : a.holds with
  | false =>
    rw [ha, Bool.toNat_false] at hholders
    omega
  | true =>
    rw [ha, Bool.toNat_true] at hholders
    rcases hmove.next.taken ha with hheld | hone
    · rw [hheld, Bool.toNat_true] at hholders
      omega
    · omega

theorem unique {w : World σ n} (hw : Exclusive w) {p q : Fin n} (hp : (w.phase p).holds = true)
    (hq : (w.phase q).holds = true) : p = q :=
  (census_le_one_iff _ _).mp hw.holders_le p q hp hq

theorem always (D : Driver σ) (dev : σ) (es : List (Event n)) :
    Always (World.step D) Exclusive (World.load n dev) es :=
  always_of_invariant Exclusive (fun _ _ _ _ hw _ hst => hw.step hst) (load n dev)
    (guarded_true _ es)

end Exclusive

/-- Somebody holds the device. -/
def World.Held (w : World σ n) : Prop := ∃ p, (w.phase p).holds = true

instance (w : World σ n) : Decidable w.Held :=
  inferInstanceAs (Decidable (∃ p, (w.phase p).holds = true))

theorem World.held_iff {w : World σ n} : w.Held ↔ 0 < w.holders := (census_pos_iff _ _).symm

/-- Nobody is in an open or release. -/
def World.Quiet (w : World σ n) : Prop := ∀ p, (w.phase p).inCall = false

theorem World.Quiet.failures_eq {w : World σ n} (hw : w.Quiet) : w.failures = 0 := by
  refine (census_eq_zero_iff _ _).mpr fun p => ?_
  have hp := hw p
  cases hphase : w.phase p with
  | failed =>
    rw [hphase] at hp
    cases hp
  | _ => rfl

/-- What the protocol guarantees in every state. -/
structure Guarantee (w : World σ n) : Prop where
  counter_eq : w.counter = 1 - w.holders - w.failures
  unique : ∀ p q, (w.phase p).holds = true → (w.phase q).holds = true → p = q
  free : w.Quiet → ¬ w.Held → w.counter = 1
  held : w.Quiet → w.Held → w.counter = 0

theorem Exclusive.guarantee {w : World σ n} (hw : Exclusive w) : Guarantee w where
  counter_eq := hw.counter_eq
  unique p q hp hq := hw.unique hp hq
  free hquiet hfree := by
    have hfailures := hquiet.failures_eq
    have hcounter := hw.counter_eq
    rw [World.held_iff] at hfree
    omega
  held hquiet hheld := by
    have hfailures := hquiet.failures_eq
    have hcounter := hw.counter_eq
    have hle := hw.holders_le
    rw [World.held_iff] at hheld
    omega

/-- **Single-open exclusion.** In every interleaving of the opens and releases of any number of
processes, on either device, the counter is 1 less the holders and less the failed opens that have
not incremented it again, at most one process holds the device, and when nobody is in a call the
counter is 1 or 0 according to whether the device is held. -/
theorem single_open_exclusion (params : Params) (dev : ScullDev × Ledger) (n : ℕ)
    (es : List (Event n)) :
    Always (World.step (scullSngl params)) Guarantee (World.load n dev) es ∧
      Always (World.step virtualDevice) Guarantee (World.load n ()) es :=
  ⟨(Exclusive.always (scullSngl params) dev es).mono fun _ hw => hw.guarantee,
    (Exclusive.always virtualDevice () es).mono fun _ hw => hw.guarantee⟩

/-! ### Refused opens -/

/-- The protocol with a record of who has seen a holder: `seen p` is whether somebody has held the
device at some moment since the last call of open by `p` began. -/
structure Watched (σ : Type*) (n : ℕ) where
  world : World σ n
  seen : Fin n → Bool

/-- The module as it is loaded. -/
def Watched.load (n : ℕ) (dev : σ) : Watched σ n := ⟨.load n dev, fun _ => false⟩

/-- The event is the beginning of an open by `q`. -/
def Event.opens (q : Fin n) : Event n → Bool
  | startOpen p _ => decide (p = q)
  | _ => false

/-- One step of the system. The record of a process begins anew with an open, and the state after
the step is added to everybody's. -/
def Watched.step (D : Driver σ) (s : Watched σ n) (e : Event n) :
    Option (Option ℤ × Watched σ n) :=
  (s.world.step D e).map fun out =>
    (out.1, ⟨out.2, fun q => (s.seen q && !e.opens q) || decide out.2.Held⟩)

/-- An open that returns `-EBUSY` at this step has seen a holder. -/
def BusyWhenHeld (D : Driver σ) (s : Watched σ n) (e : Event n) : Prop :=
  (s.step D e).map Prod.fst = some (some (-EBUSY)) → s.seen e.proc = true

/-- An open that makes its `atomic_dec_and_test` at this step does so while no other open is between
its failed decrement and its increment, or has seen a holder. -/
def NoFailureInFlight (s : Watched σ n) : Event n → Prop
  | .run p => (s.world.phase p).atDecrement = true → s.world.failures = 0 ∨ s.seen p = true
  | _ => True

instance (D : Driver σ) (s : Watched σ n) (e : Event n) : Decidable (BusyWhenHeld D s e) :=
  inferInstanceAs (Decidable (_ → _))

instance (s : Watched σ n) : (e : Event n) → Decidable (NoFailureInFlight s e)
  | .run p => inferInstanceAs
    (Decidable ((s.world.phase p).atDecrement = true → s.world.failures = 0 ∨ s.seen p = true))
  | .startOpen _ _ => isTrue trivial
  | .startRelease _ => isTrue trivial

/-- Every open whose decrement has failed has seen a holder. -/
def FailuresJustified (s : Watched σ n) : Prop :=
  ∀ p, s.world.phase p = .failed → s.seen p = true

/-- Every open that is to return `-EBUSY` has seen a holder. -/
def RefusalsJustified (s : Watched σ n) : Prop :=
  ∀ p, s.world.phase p = .refused → s.seen p = true

/-- Everybody has seen a holder who is there now. -/
structure Aware (s : Watched σ n) : Prop where
  exclusive : Exclusive s.world
  aware : s.world.Held → ∀ q, s.seen q = true

theorem Aware.load (n : ℕ) (dev : σ) : Aware (Watched.load n dev) where
  exclusive := .load n dev
  aware := by
    rintro ⟨p, hp⟩
    cases hp

theorem Watched.step_spec {D : Driver σ} {s t : Watched σ n} {e : Event n} {r : Option ℤ}
    (h : s.step D e = some (r, t)) : s.world.step D e = some (r, t.world) ∧
      t.seen = fun q => (s.seen q && !e.opens q) || decide t.world.Held := by
  obtain ⟨out, hout, heq⟩ := Option.map_eq_some_iff.mp h
  cases heq
  exact ⟨hout, rfl⟩

theorem Aware.step {D : Driver σ} {s t : Watched σ n} {e : Event n} {r : Option ℤ}
    (hs : Aware s) (h : s.step D e = some (r, t)) : Aware t := by
  obtain ⟨hworld, hseen⟩ := Watched.step_spec h
  refine ⟨hs.exclusive.step hworld, fun hheld q => ?_⟩
  rw [hseen]
  simp [hheld]

/-- Who has seen a holder keeps the record until the next open. -/
theorem Watched.seen_of_step {D : Driver σ} {s t : Watched σ n} {e : Event n} {r : Option ℤ}
    {q : Fin n} (h : s.step D e = some (r, t)) (hq : s.seen q = true)
    (hphase : s.world.phase q ≠ .idle) : t.seen q = true := by
  obtain ⟨hworld, hseen⟩ := Watched.step_spec h
  have hopens : e.opens q = false := by
    cases e with
    | startOpen p mode =>
      simp only [World.step] at hworld
      split_ifs at hworld with hidle
      simp only [Event.opens, decide_eq_false_iff_not]
      rintro rfl
      exact hphase hidle
    | _ => rfl
  rw [hseen]
  simp [hq, hopens]

/-- A process whose decrement fails has seen a holder, or finds another open between its failed
decrement and its increment. -/
theorem Aware.seen_of_fail {s : Watched σ n} {p : Fin n} (hs : Aware s) (hc : s.world.counter ≠ 1)
    (hfair : s.world.failures = 0 ∨ s.seen p = true) : s.seen p = true := by
  rcases hfair with hnone | hseen
  · -- The counter is not 1 because of a holder, and everybody sees him.
    refine hs.aware (World.held_iff.mpr ?_) p
    have hcounter := hs.exclusive.counter_eq
    omega
  · exact hseen

theorem World.step_of_atDecrement {D : Driver σ} {w w' : World σ n} {e : Event n} {r : Option ℤ}
    (h : w.step D e = some (r, w')) (hphase : (w.phase e.proc).atDecrement = true) :
    e = .run e.proc := by
  cases e with
  | startOpen p m =>
    simp only [World.step, Event.proc] at h hphase
    split_ifs at h with hidle
    rw [hidle] at hphase
    cases hphase
  | startRelease p =>
    simp only [World.step, Event.proc] at h hphase
    split_ifs at h with hholding
    rw [hholding] at hphase
    cases hphase
  | run p => rfl

/-- No step leaves an open that has failed, or is refused, without a holder that it has seen. -/
theorem justified_step {D : Driver σ} {s t : Watched σ n} {e : Event n} {r : Option ℤ}
    (hs : Aware s) (hfailures : FailuresJustified s) (hrefusals : RefusalsJustified s)
    (hfair : NoFailureInFlight s e) (h : s.step D e = some (r, t)) :
    FailuresJustified t ∧ RefusalsJustified t := by
  obtain ⟨hworld, -⟩ := Watched.step_spec h
  obtain ⟨a, hmove⟩ := World.step_moves hworld
  have hnext := hmove.next
  constructor
  · intro p hp
    rw [hmove.phase_eq] at hp
    by_cases hproc : p = e.proc
    · subst hproc
      rw [Function.update_self] at hp
      subst hp
      obtain ⟨mode, hopening, hc⟩ : ∃ mode, s.world.phase e.proc = .opening mode ∧
          s.world.counter ≠ 1 := by
        generalize s.world.phase e.proc = b at hnext
        cases hnext with
        | fail mode hc => exact ⟨mode, rfl, hc⟩
      have hdec : (s.world.phase e.proc).atDecrement = true := by rw [hopening]; rfl
      rw [World.step_of_atDecrement hworld hdec] at hfair
      exact Watched.seen_of_step h (hs.seen_of_fail hc (hfair hdec)) (by simp [hopening])
    · rw [Function.update_of_ne hproc] at hp
      exact Watched.seen_of_step h (hfailures p hp) (by simp [hp])
  · intro p hp
    rw [hmove.phase_eq] at hp
    by_cases hproc : p = e.proc
    · subst hproc
      rw [Function.update_self] at hp
      subst hp
      have hfailed : s.world.phase e.proc = .failed := by
        generalize s.world.phase e.proc = b at hnext
        cases hnext
        rfl
      exact Watched.seen_of_step h (hfailures _ hfailed) (by simp [hfailed])
    · rw [Function.update_of_ne hproc] at hp
      exact Watched.seen_of_step h (hrefusals p hp) (by simp [hp])

/-- A decrement that fails although nobody was seen to hold the device leaves an open that has
failed without having seen a holder. -/
theorem Aware.noFailureInFlight {D : Driver σ} {s : Watched σ n} {e : Event n} (hs : Aware s)
    (hnext : ∀ r t, s.step D e = some (r, t) → FailuresJustified t) : NoFailureInFlight s e := by
  cases e with
  | startOpen p mode => trivial
  | startRelease p => trivial
  | run p =>
    intro hdec
    by_contra! hbad
    obtain ⟨hfailures, hseen⟩ := hbad
    have hcounter := hs.exclusive.counter_eq
    have hfree : s.world.holders = 0 := by
      by_contra hne
      exact hseen (hs.aware (World.held_iff.mpr (Nat.pos_of_ne_zero hne)) p)
    have hzero : ¬ s.world.counter - 1 = 0 := by omega
    have hrun : s.world.step D (.run p) = some (none, ⟨s.world.counter - 1, s.world.dev,
        Function.update s.world.phase p .failed⟩) := by
      cases hphase : s.world.phase p with
      | opening mode => simp only [World.step, World.run, hphase, if_neg hzero]
      | _ =>
        rw [hphase] at hdec
        cases hdec
    have hp := hnext _ _ (Option.map_eq_some_iff.mpr ⟨_, hrun, rfl⟩) p (Function.update_self ..)
    have hheld : World.Held ⟨s.world.counter - 1, s.world.dev,
        Function.update s.world.phase p .failed⟩ := by
      simpa [hseen] using hp
    have hpos := World.held_iff.mp hheld
    have hupdate := census_update Phase.holds s.world.phase p .failed
    rw [show census Phase.holds s.world.phase = 0 from hfree] at hupdate
    simp only [World.holders] at hpos
    simp only [Phase.holds, Bool.toNat_false] at hupdate
    omega

/-- What holds in every state of a run in which no open makes its decrement while another one is
between its failed decrement and its increment, unless it has seen a holder. -/
theorem justified_always (D : Driver σ) (dev : σ) {es : List (Event n)}
    (hfair : Guarded (Watched.step D) NoFailureInFlight (Watched.load n dev) es) :
    Always (Watched.step D) (fun s => Aware s ∧ FailuresJustified s ∧ RefusalsJustified s)
      (Watched.load n dev) es := by
  refine always_of_invariant _ ?_ ⟨.load n dev, ?_, ?_⟩ hfair
  · rintro s e r t ⟨haware, hfailures, hrefusals⟩ hG hst
    exact ⟨haware.step hst, justified_step haware hfailures hrefusals hG hst⟩
  · intro p hp
    cases hp
  · intro p hp
    cases hp

/-- **When an open is refused by a device that somebody holds.** In every interleaving of opens and
releases, every open whose decrement fails has seen a holder if and only if no open makes its
decrement while another one is between its failed decrement and its increment, unless it has seen a
holder; and then every open that returns `-EBUSY` has seen a holder. -/
theorem busy_when_held (D : Driver σ) (dev : σ) (n : ℕ) (es : List (Event n)) :
    (Guarded (Watched.step D) NoFailureInFlight (Watched.load n dev) es ↔
      Always (Watched.step D) FailuresJustified (Watched.load n dev) es) ∧
    (Guarded (Watched.step D) NoFailureInFlight (Watched.load n dev) es →
      Guarded (Watched.step D) (BusyWhenHeld D) (Watched.load n dev) es) := by
  refine ⟨⟨fun hfair => (justified_always D dev hfair).mono fun _ hs => hs.2.1, fun hjust => ?_⟩,
    fun hfair => (justified_always D dev hfair).guarded ?_⟩
  · have haware : Always (Watched.step D) Aware (Watched.load n dev) es :=
      always_of_invariant Aware (fun _ _ _ _ hs _ hst => hs.step hst) (.load n dev)
        (guarded_true _ es)
    exact (haware.and hjust).guarded_of_steps fun s e hs hnext =>
      hs.1.noFailureInFlight fun r t hst => (hnext r t hst).2
  · rintro s e ⟨-, -, hrefusals⟩ hbusy
    obtain ⟨⟨r, t⟩, hst, rfl⟩ := Option.map_eq_some_iff.mp hbusy
    obtain ⟨a, hmove⟩ := World.step_moves (Watched.step_spec hst).1
    exact hrefusals _ (hmove.busy rfl)

/-- An open while another process has the device open: it is refused, and has seen the holder. -/
def busyRun : List (Event 2) :=
  let p : Fin 2 := ⟨0, Nat.two_pos⟩
  let q : Fin 2 := ⟨1, Nat.one_lt_two⟩
  [.startOpen p .rdwr, .run p, .run p, .startOpen q .rdonly, .run q, .run q, .run q]

/-- The refused open of `busyRun`, on both devices. -/
theorem busy_when_held_refused :
    Guarded (Watched.step virtualDevice) (BusyWhenHeld virtualDevice) (Watched.load 2 ()) busyRun ∧
    Guarded (Watched.step (scullSngl .default)) (BusyWhenHeld (scullSngl .default))
      (Watched.load 2 (ScullDev.init .default, Ledger.empty)) busyRun ∧
    (exec (Watched.step virtualDevice) (Watched.load 2 ()) busyRun).map Prod.fst =
      some [none, none, some 0, none, none, none, some (-EBUSY)] :=
  ⟨(busy_when_held virtualDevice () 2 busyRun).2 (by decide),
    (busy_when_held (scullSngl .default) (ScullDev.init .default, Ledger.empty) 2 busyRun).2
      (by decide), by decide⟩

/-- A process releases the device while the open of a second one has failed and has not incremented
the counter again; then a third one opens the device. -/
def spuriousRun : List (Event 3) :=
  [.startOpen 0 .rdwr, .run 0, .run 0, .startOpen 1 .rdwr, .run 1, .startRelease 0, .run 0, .run 0,
    .startOpen 2 .rdwr, .run 2, .run 2, .run 2]

/-- **An open is refused though nobody holds the device.** -/
theorem busy_though_free :
    ¬ Guarded (Watched.step virtualDevice) (BusyWhenHeld virtualDevice) (Watched.load 3 ())
      spuriousRun ∧
    ¬ Guarded (Watched.step (scullSngl .default)) (BusyWhenHeld (scullSngl .default))
      (Watched.load 3 (ScullDev.init .default, Ledger.empty)) spuriousRun := by
  constructor <;> decide

end ExKernel.Single
