import ExKernel.Lib.Kernel
import ExKernel.Lib.Transition
import Mathlib.Data.List.Perm.Basic

/-!
# Deferred reads and writes

A request that is not synchronous is not served at once: its arguments are put into a work record,
the caller is told that it was queued, and a callback serves it later from what the record says. The
record has a field for the iterator of the request, which the callback reads and nothing writes, so
what is there is what the allocator left in the memory. When there is no record the function returns
a variable that was never assigned.

The functions that move the data are outside of the driver; here a call of one of them is its
arguments. Iterators are known by their addresses, and the memory that the callback finds at an
address is part of the event: it may not be an iterator at all.

## Main definitions

* `Async.scullReadIter`, `Async.scullWriteIter`, `Async.scullDoDeferredOp`: the functions.
* `Async.AsyncSys`: the requests that were accepted, the records that wait and the calls that were
  made.
* `Async.AsSynchronous`: what is expected of a run.
* `Async.Carries`: the condition on a request under which a run does it.

## Main results

* `Async.once_of_exec`: every request that was accepted waits or was served, and not twice.
* `Async.deferred_io_exact`: when deferred requests are served like synchronous ones.

## References

* `ldd/scull-shared/scull-async.c`, lines 37–88.
-/

namespace ExKernel.Async

open Transition

/-! ### The functions -/

def EIOCBQUEUED : ℤ := 529

/-- The address of an iterator. -/
abbrev IovIter := ℕ

/-- The data direction of an iterator. -/
inductive Direction
  | read
  | write
deriving DecidableEq

/-- A control block: its address, and whether it is a synchronous one. -/
structure Kiocb where
  addr : ℕ
  sync : Bool
deriving DecidableEq

/-- A call of `generic_file_read_iter` or `generic_file_write_iter`. -/
structure Call where
  function : Direction
  iocb : Kiocb
  iter : IovIter
deriving DecidableEq

/-- A work record.

Source: `ldd/scull-shared/scull-async.c`, lines 37–41. -/
structure AsyncWork where
  iocb : Kiocb
  tofrom : IovIter

/-- What a request finds: the field `tofrom` in the memory of a new record, or `none` if there is no
memory; the variable `result` as it is on the stack; and the result of the function that moves the
data. -/
structure Env where
  kmalloc : Option IovIter
  result : Int32
  generic : Int64

/-- What becomes of a request. -/
inductive Outcome
  | called (call : Call) (ret : Int64)
  | queued (stuff : AsyncWork)
  | failed (result : Int32)

/-- The value that is returned. -/
def Outcome.ret : Outcome → ℤ
  | .called _ ret => ret.toInt
  | .queued _ => -EIOCBQUEUED
  | .failed result => result.toInt

/-- `scull_do_deferred_op`, where `rw` is what `iov_iter_rw` finds at an address. There is no call
if it finds no memory there.

Source: `ldd/scull-shared/scull-async.c`, lines 46–55. -/
def scullDoDeferredOp (rw : IovIter → Option Direction) (stuff : AsyncWork) : Option Call :=
  (rw stuff.tofrom).map fun direction =>
    if direction = .write then ⟨.write, stuff.iocb, stuff.tofrom⟩
    else ⟨.read, stuff.iocb, stuff.tofrom⟩

/-- `scull_defer_op`. The argument `tofrom` is not used.

Source: `ldd/scull-shared/scull-async.c`, lines 58–70. -/
def scullDeferOp (iocb : Kiocb) (_tofrom : IovIter) (env : Env) : Outcome :=
  match env.kmalloc with
  | none => .failed env.result
  | some garbage => .queued { iocb, tofrom := garbage }

/-- `scull_read_iter`.

Source: `ldd/scull-shared/scull-async.c`, lines 73–80. -/
def scullReadIter (iocb : Kiocb) (to_ : IovIter) (env : Env) : Outcome :=
  if iocb.sync then .called ⟨.read, iocb, to_⟩ env.generic else scullDeferOp iocb to_ env

/-- `scull_write_iter`.

Source: `ldd/scull-shared/scull-async.c`, lines 82–88. -/
def scullWriteIter (iocb : Kiocb) (from_ : IovIter) (env : Env) : Outcome :=
  if iocb.sync then .called ⟨.write, iocb, from_⟩ env.generic else scullDeferOp iocb from_ env

/-! ### Sequences of requests -/

/-- A request of either kind. -/
structure Request where
  direction : Direction
  iocb : Kiocb
  iter : IovIter

namespace Request

/-- The function of the driver that the request goes to. -/
def submit (r : Request) (env : Env) : Outcome :=
  match r.direction with
  | .read => scullReadIter r.iocb r.iter env
  | .write => scullWriteIter r.iocb r.iter env

/-- The call that serves the request. -/
def call (r : Request) : Call := ⟨r.direction, r.iocb, r.iter⟩

theorem submit_of_sync {r : Request} (h : r.iocb.sync = true) (env : Env) :
    r.submit env = .called r.call env.generic := by
  obtain ⟨direction, iocb, iter⟩ := r
  cases direction with
  | read => exact if_pos h
  | write => exact if_pos h

theorem submit_of_not_sync {r : Request} (h : ¬ r.iocb.sync = true) (env : Env) :
    r.submit env = scullDeferOp r.iocb r.iter env := by
  obtain ⟨direction, iocb, iter⟩ := r
  cases direction with
  | read => exact if_neg h
  | write => exact if_neg h

end Request

/-- The requests that were accepted, in their order; the records that wait and the calls that were
made from records, each with the number of its request. -/
structure AsyncSys where
  accepted : List Request
  pending : List (ℕ × AsyncWork)
  log : List (ℕ × Call)

/-- No request yet. -/
def AsyncSys.start : AsyncSys := ⟨[], [], []⟩

/-- A request comes, or the callback runs on one of the records that wait. -/
inductive Event
  | submit (r : Request) (env : Env)
  | work (k : ℕ) (rw : IovIter → Option Direction)

/-- What is seen of an event. -/
inductive Reply
  | submitted (outcome : Outcome)
  | served (call : Call)

/-- One event. -/
def AsyncSys.step (s : AsyncSys) : Event → Option (Reply × AsyncSys)
  | .submit r env =>
    match r.submit env with
    | .called call ret => some (.submitted (.called call ret), s)
    | .queued stuff => some (.submitted (.queued stuff),
        { s with
          accepted := s.accepted ++ [r]
          pending := s.pending ++ [(s.accepted.length, stuff)] })
    | .failed result => some (.submitted (.failed result), s)
  | .work k rw => s.pending[k]?.bind fun p => (scullDoDeferredOp rw p.2).map fun call =>
      (.served call, { s with pending := s.pending.eraseIdx k, log := s.log ++ [(p.1, call)] })

/-- What the callback is promised: it runs on a record that waits, and the iterators of all requests
that wait are in memory, with the direction of the function that got them. -/
def Kept (s : AsyncSys) : Event → Prop
  | .submit _ _ => True
  | .work k rw => k < s.pending.length ∧
    ∀ p ∈ s.pending, ∀ r, s.accepted[p.1]? = some r → rw r.iter = some r.direction

/-- A request that is not synchronous gets a record, and the memory of the record happens to hold
the address of its own iterator. -/
def Carries (_ : AsyncSys) : Event → Prop
  | .submit r env => r.iocb.sync = false → env.kmalloc = some r.iter
  | .work _ _ => True

/-- Every request that was accepted waits or was served, and only once; and it was served by the
call that the synchronous branch makes. -/
structure ServedAlike (s : AsyncSys) : Prop where
  once : (s.pending.map Prod.fst ++ s.log.map Prod.fst).Perm (List.range s.accepted.length)
  alike : ∀ p ∈ s.log, ∃ r, s.accepted[p.1]? = some r ∧ p.2 = r.call

/-- The value that a request returns does not depend on what is on the stack. -/
def Definite (_ : AsyncSys) : Event → Prop
  | .submit r env => ∀ result, (r.submit { env with result }).ret = (r.submit env).ret
  | .work _ _ => True

/-- **What is expected of a run**: all callbacks find the memory that they read, requests are served
like synchronous ones in every state, and all answers are definite. -/
def AsSynchronous (events : List Event) : Prop :=
  (∃ out, exec AsyncSys.step .start events = some out) ∧
    Always AsyncSys.step ServedAlike .start events ∧
    Guarded AsyncSys.step Definite .start events

/-! ### Single events -/

/-- What an event can do. -/
inductive Moved (s : AsyncSys) : Event → AsyncSys → Prop
  | answered {r : Request} {env : Env} (h : r.iocb.sync = true ∨ env.kmalloc = none) :
    Moved s (.submit r env) s
  | queued {r : Request} {env : Env} {garbage : IovIter} (hsync : ¬ r.iocb.sync = true)
      (hkmalloc : env.kmalloc = some garbage) :
    Moved s (.submit r env) { s with
      accepted := s.accepted ++ [r]
      pending := s.pending ++ [(s.accepted.length, ⟨r.iocb, garbage⟩)] }
  | served {k : ℕ} {rw : IovIter → Option Direction} {p : ℕ × AsyncWork} {call : Call}
      (hp : s.pending[k]? = some p) (hcall : scullDoDeferredOp rw p.2 = some call) :
    Moved s (.work k rw)
      { s with pending := s.pending.eraseIdx k, log := s.log ++ [(p.1, call)] }

section Single

variable {s t : AsyncSys} {e : Event} {reply : Reply}

theorem moved_of_step (h : s.step e = some (reply, t)) : Moved s e t := by
  cases e with
  | submit r env =>
    by_cases hsync : r.iocb.sync = true
    · rw [AsyncSys.step, Request.submit_of_sync hsync] at h
      cases h
      exact .answered (.inl hsync)
    · rw [AsyncSys.step, Request.submit_of_not_sync hsync, scullDeferOp] at h
      cases hkmalloc : env.kmalloc with
      | none =>
        rw [hkmalloc] at h
        cases h
        exact .answered (.inr hkmalloc)
      | some garbage =>
        rw [hkmalloc] at h
        cases h
        exact .queued hsync hkmalloc
  | work k rw =>
    obtain ⟨p, hp, hmap⟩ := Option.bind_eq_some_iff.mp h
    obtain ⟨call, hcall, heq⟩ := Option.map_eq_some_iff.mp hmap
    cases heq
    exact .served hp hcall

theorem exists_step_submit (s : AsyncSys) (r : Request) (env : Env) :
    ∃ reply t, s.step (.submit r env) = some (reply, t) := by
  simp only [AsyncSys.step]
  cases r.submit env with
  | called call ret => exact ⟨_, _, rfl⟩
  | queued stuff => exact ⟨_, _, rfl⟩
  | failed result => exact ⟨_, _, rfl⟩

theorem scullDoDeferredOp_iter {rw : IovIter → Option Direction} {stuff : AsyncWork} {call : Call}
    (h : scullDoDeferredOp rw stuff = some call) : call.iter = stuff.tofrom := by
  obtain ⟨direction, -, rfl⟩ := Option.map_eq_some_iff.mp h
  split_ifs <;> rfl

/-- A record with the iterator of its request is served like the request. -/
theorem scullDoDeferredOp_eq_call {rw : IovIter → Option Direction} {r : Request}
    (h : rw r.iter = some r.direction) :
    scullDoDeferredOp rw ⟨r.iocb, r.iter⟩ = some r.call := by
  rw [scullDoDeferredOp, h, Option.map_some]
  cases hdirection : r.direction with
  | read => simp [Request.call, hdirection]
  | write => simp [Request.call, hdirection]

/-- **Once.** An event of any kind leaves every request that was accepted waiting or served, and not
twice. -/
theorem Moved.once (h : Moved s e t)
    (hs : (s.pending.map Prod.fst ++ s.log.map Prod.fst).Perm (List.range s.accepted.length)) :
    (t.pending.map Prod.fst ++ t.log.map Prod.fst).Perm (List.range t.accepted.length) := by
  cases h with
  | answered h => exact hs
  | queued hsync hkmalloc =>
    simp only [List.map_append, List.map_cons, List.map_nil, List.length_append,
      List.length_singleton, List.range_succ]
    rw [List.append_assoc]
    refine (List.perm_append_comm.append_left _).trans ?_
    rw [← List.append_assoc]
    exact hs.append_right _
  | served hp hcall =>
    rename_i k rw p call
    obtain ⟨hk, rfl⟩ := List.getElem?_eq_some_iff.mp hp
    have hpick := (List.getElem_cons_eraseIdx_perm hk).map Prod.fst
    simp only [List.map_append, List.map_cons, List.map_nil] at hpick ⊢
    refine List.Perm.trans ?_ (List.Perm.trans (hpick.append_right _) hs)
    rw [← List.append_assoc, List.cons_append]
    exact List.perm_append_singleton _ _

end Single

/-! ### The invariant -/

/-- What holds in every state of a run in which all requests carry their iterators: requests are
served alike, and the records that wait have the arguments of their requests. -/
structure AsyncRep (s : AsyncSys) : Prop extends ServedAlike s where
  carried : ∀ p ∈ s.pending, ∃ r, s.accepted[p.1]? = some r ∧ p.2 = ⟨r.iocb, r.iter⟩

namespace AsyncRep

variable {s t : AsyncSys} {e : Event}

theorem start : AsyncRep .start where
  once := List.Perm.refl _
  alike := by simp [AsyncSys.start]
  carried := by simp [AsyncSys.start]

/-- **One event** that carries the iterator keeps the invariant. -/
theorem of_moved (hs : AsyncRep s) (hkept : Kept s e) (hcarries : Carries s e) (h : Moved s e t) :
    AsyncRep t := by
  have honce := h.once hs.once
  cases h with
  | answered h => exact hs
  | @queued r env garbage hsync hkmalloc =>
    have hgarbage : garbage = r.iter := by
      have heq := hcarries (by simpa using hsync)
      exact Option.some.inj (hkmalloc.symm.trans heq)
    refine ⟨⟨honce, fun p hp => ?_⟩, fun p hp => ?_⟩
    · obtain ⟨r', hr', hcall⟩ := hs.alike p hp
      exact ⟨r', List.getElem?_append_left (List.getElem?_eq_some_iff.mp hr').1 ▸ hr', hcall⟩
    · rcases List.mem_append.mp hp with hp | hp
      · obtain ⟨r', hr', hwork⟩ := hs.carried p hp
        exact ⟨r', List.getElem?_append_left (List.getElem?_eq_some_iff.mp hr').1 ▸ hr', hwork⟩
      · rw [List.mem_singleton.mp hp, hgarbage]
        exact ⟨r, List.getElem?_concat_length, rfl⟩
  | @served k rw p call hp hcall =>
    have hmem : p ∈ s.pending := List.mem_of_getElem? hp
    obtain ⟨r, hr, hwork⟩ := hs.carried p hmem
    rw [hwork, scullDoDeferredOp_eq_call (hkept.2 p hmem r hr)] at hcall
    cases hcall
    refine ⟨⟨honce, fun q hq => ?_⟩, fun q hq => hs.carried q (List.mem_of_mem_eraseIdx hq)⟩
    rcases List.mem_append.mp hq with hq | hq
    · exact hs.alike q hq
    · rw [List.mem_singleton.mp hq]
      exact ⟨r, hr, rfl⟩

theorem exists_step (hs : AsyncRep s) (hkept : Kept s e) :
    ∃ reply t, s.step e = some (reply, t) := by
  cases e with
  | submit r env => exact exists_step_submit s r env
  | work k rw =>
    have hk : k < s.pending.length := hkept.1
    have hp := List.getElem?_eq_getElem hk
    have hmem := List.mem_of_getElem? hp
    obtain ⟨r, hr, hwork⟩ := hs.carried _ hmem
    have hcall : scullDoDeferredOp rw s.pending[k].2 = some r.call := by
      rw [hwork, scullDoDeferredOp_eq_call (hkept.2 _ hmem r hr)]
    simp only [AsyncSys.step, hp, Option.bind_some, hcall, Option.map_some]
    exact ⟨_, _, rfl⟩

end AsyncRep

theorem Carries.definite {s : AsyncSys} {e : Event} (h : Carries s e) : Definite s e := by
  cases e with
  | submit r env =>
    intro result
    by_cases hsync : r.iocb.sync = true
    · rw [Request.submit_of_sync hsync, Request.submit_of_sync hsync]
    · rw [Request.submit_of_not_sync hsync, Request.submit_of_not_sync hsync, scullDeferOp,
        scullDeferOp, h (by simpa using hsync)]
  | work k rw => trivial

/-! ### Whole runs -/

section Run

variable {s t : AsyncSys} {events : List Event} {replies : List Reply}

/-- **Once, in whole runs**, whatever the records hold. -/
theorem once_of_exec (hrun : exec AsyncSys.step .start events = some (replies, t)) :
    (t.pending.map Prod.fst ++ t.log.map Prod.fst).Perm (List.range t.accepted.length) :=
  exec_invariant
    (fun u : AsyncSys => (u.pending.map Prod.fst ++ u.log.map Prod.fst).Perm
      (List.range u.accepted.length))
    (fun _ _ _ _ hu _ hst => (moved_of_step hst).once hu) (List.Perm.refl _)
    (guarded_true _ _) hrun

theorem accepted_of_exec (hrun : exec AsyncSys.step s events = some (replies, t)) {i : ℕ}
    {r : Request} (hr : s.accepted[i]? = some r) : t.accepted[i]? = some r := by
  refine exec_invariant (fun u : AsyncSys => u.accepted[i]? = some r) ?_ hr (guarded_true _ _) hrun
  intro u e reply v hu _ hst
  cases moved_of_step hst with
  | answered h => exact hu
  | queued hsync hkmalloc =>
    exact (List.getElem?_append_left (List.getElem?_eq_some_iff.mp hu).1).trans hu
  | served hp hcall => exact hu

/-- A record that waits is served with the iterator that is in it, or still waits at the end. -/
theorem pending_or_served (hrun : exec AsyncSys.step s events = some (replies, t))
    {p : ℕ × AsyncWork} (hp : p ∈ s.pending) :
    p ∈ t.pending ∨ ∃ call, (p.1, call) ∈ t.log ∧ call.iter = p.2.tofrom := by
  refine exec_invariant (fun u : AsyncSys =>
    p ∈ u.pending ∨ ∃ call, (p.1, call) ∈ u.log ∧ call.iter = p.2.tofrom) ?_ (.inl hp)
    (guarded_true _ _) hrun
  intro u e reply v hu _ hst
  cases moved_of_step hst with
  | answered h => exact hu
  | queued hsync hkmalloc => exact hu.imp_left (List.mem_append_left _)
  | @served k rw q call hq hcall =>
    rcases hu with hin | ⟨call', hlog, hiter⟩
    · obtain ⟨hk, rfl⟩ := List.getElem?_eq_some_iff.mp hq
      rcases List.mem_cons.mp ((List.getElem_cons_eraseIdx_perm hk).mem_iff.mpr hin) with rfl | hin
      · exact .inr ⟨call, List.mem_append_right _ (List.mem_singleton_self _),
          scullDoDeferredOp_iter hcall⟩
      · exact .inl hin
    · exact .inr ⟨call', List.mem_append_left _ hlog, hiter⟩

/-- In a run that leaves no record waiting, requests that were served like synchronous ones and had
definite answers have carried their iterators. -/
theorem carries_of_servedAlike (hrun : exec AsyncSys.step s events = some (replies, t))
    (hpending : t.pending = []) (ht : ServedAlike t)
    (hdefinite : Guarded AsyncSys.step Definite s events) :
    Guarded AsyncSys.step Carries s events := by
  induction events generalizing s replies with
  | nil => trivial
  | cons e events ih =>
    obtain ⟨reply, u, rest, hst, hrest, rfl⟩ := exec_cons_eq_some.mp hrun
    refine ⟨?_, fun reply' u' hst' => ?_⟩
    · cases moved_of_step hst with
      | @answered r env h =>
        intro hsync
        -- Without a record the answer is what is on the stack.
        have hnone := h.resolve_left (by simp [hsync])
        have hfailed : ∀ result,
            r.submit { env with result } = .failed result := fun result => by
          rw [Request.submit_of_not_sync (by simp [hsync]), scullDeferOp, hnone]
        have hzero := hdefinite.1 0
        have hone := hdefinite.1 1
        rw [hfailed] at hzero hone
        exact absurd (hzero.trans hone.symm) (by decide)
      | @queued r env garbage hsync hkmalloc =>
        intro _
        rcases pending_or_served hrest (List.mem_append_right _ (List.mem_singleton_self _)) with
          hin | ⟨call, hlog, hiter⟩
        · rw [hpending] at hin
          cases hin
        · obtain ⟨r', hr', hcall⟩ := ht.alike _ hlog
          have hr := accepted_of_exec hrest List.getElem?_concat_length
          cases hr.symm.trans hr'
          have hgarbage : r.iter = garbage := (congrArg Call.iter hcall).symm.trans hiter
          rw [hkmalloc, hgarbage]
      | served hp hcall => trivial
    · rw [hst] at hst'
      cases hst'
      exact ih hrest (hdefinite.2 reply u hst)

end Run

/-- **When deferred requests are served like synchronous ones.** In every run, with any number of
requests of either kind and callbacks in any order: if every request that is not synchronous gets a
record, and the memory of the record happens to hold the address of its own iterator, then every
request that is accepted is served once and by the call that the synchronous branch makes, and all
answers are definite. And only then, in a run that leaves no record waiting.

Source: `ldd/scull-shared/scull-async.c`, lines 37–88. -/
theorem deferred_io_exact (events : List Event)
    (hkept : Guarded AsyncSys.step Kept .start events) :
    (Guarded AsyncSys.step Carries .start events → AsSynchronous events) ∧
    ∀ replies t, exec AsyncSys.step .start events = some (replies, t) → t.pending = [] →
      AsSynchronous events → Guarded AsyncSys.step Carries .start events := by
  constructor
  · intro hcarries
    have hguard := hkept.and hcarries
    obtain ⟨replies, t, hrun, -⟩ := exec_progress AsyncRep (fun s e hs he => by
      obtain ⟨reply, u, hst⟩ := hs.exists_step he.1
      exact ⟨reply, u, hst, hs.of_moved he.1 he.2 (moved_of_step hst)⟩) .start hguard
    refine ⟨⟨_, hrun⟩, ?_, hcarries.mono fun _ _ h => h.definite⟩
    exact (always_of_invariant AsyncRep
      (fun _ _ _ _ hs he hst => hs.of_moved he.1 he.2 (moved_of_step hst)) .start hguard).mono
      fun _ hs => hs.toServedAlike
  · intro replies t hrun hpending h
    exact carries_of_servedAlike hrun hpending (h.2.1.last hrun) h.2.2

/-- A read with the iterator 7 and a write with the iterator 8, served in the opposite order. -/
theorem deferred_io_exact_two :
    AsSynchronous
      [.submit ⟨.read, ⟨1, false⟩, 7⟩ ⟨some 7, 0, 0⟩,
        .submit ⟨.write, ⟨2, false⟩, 8⟩ ⟨some 8, 0, 0⟩,
        .work 1 fun a => if a = 8 then some .write else some .read,
        .work 0 fun a => if a = 8 then some .write else some .read] := by
  refine (deferred_io_exact _ ?_).1 ?_
  · refine ⟨trivial, fun _ _ h => ?_⟩
    cases h
    refine ⟨trivial, fun _ _ h => ?_⟩
    cases h
    refine ⟨⟨by decide, fun p hp r hr => ?_⟩, fun _ _ h => ?_⟩
    · rcases List.mem_pair.mp hp with rfl | rfl
      · cases hr
        rfl
      · cases hr
        rfl
    · cases h
      refine ⟨⟨by decide, fun p hp r hr => ?_⟩, fun _ _ _ => trivial⟩
      rw [List.mem_singleton.mp hp] at hr
      cases hr
      rfl
  · refine ⟨fun _ => rfl, fun _ _ h => ?_⟩
    cases h
    refine ⟨fun _ => rfl, fun _ _ h => ?_⟩
    cases h
    refine ⟨trivial, fun _ _ h => ?_⟩
    cases h
    exact ⟨trivial, fun _ _ _ => trivial⟩

/-- A read with the iterator 7 gets a record that holds 9, where there is an iterator of a write: it
is served as a write with that. Where the record holds a null pointer nothing is served, and where
there is no record the answer is what is on the stack. -/
theorem deferred_io_inexact :
    Guarded AsyncSys.step Kept .start
        [.submit ⟨.read, ⟨1, false⟩, 7⟩ ⟨some 9, 0, 0⟩,
          .work 0 fun a => if a = 7 then some .read else some .write] ∧
      ¬ AsSynchronous
        [.submit ⟨.read, ⟨1, false⟩, 7⟩ ⟨some 9, 0, 0⟩,
          .work 0 fun a => if a = 7 then some .read else some .write] ∧
      ¬ AsSynchronous
        [.submit ⟨.read, ⟨1, false⟩, 7⟩ ⟨some 0, 0, 0⟩,
          .work 0 fun a => if a = 7 then some .read else none] ∧
      ¬ AsSynchronous [.submit ⟨.read, ⟨1, false⟩, 7⟩ ⟨none, 0, 0⟩] := by
  refine ⟨?_, ?_, ?_, ?_⟩
  · refine ⟨trivial, fun _ _ h => ?_⟩
    cases h
    refine ⟨⟨by decide, fun p hp r hr => ?_⟩, fun _ _ _ => trivial⟩
    rw [List.mem_singleton.mp hp] at hr
    cases hr
    rfl
  · rintro ⟨-, halways, -⟩
    obtain ⟨r, hr, hcall⟩ := (halways.last rfl).alike _ List.mem_cons_self
    cases hr
    exact absurd hcall (by decide)
  · rintro ⟨⟨out, hout⟩, -⟩
    cases hout
  · rintro ⟨-, -, hdefinite⟩
    exact absurd (hdefinite.1 1) (by decide)

end ExKernel.Async
