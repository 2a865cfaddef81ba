import ExKernel.Pipe.Fifo

/-!
# What poll promises

`scull_p_poll` reports a pipe as readable when it is not empty, and as writable when it has space.
The two methods decide by the same tests whether they have to wait; but how much they transfer is
computed by other clamps, by the distance of the pointers and by the end of the buffer. None of the
clamps is 0 when the test has found the pipe ready, wherever the pointers are, so what poll reports
is what a call that does not block will find.

## Main definitions

* `Pipe.scullPPoll`: the method, with `Pipe.Reports` for the bits of its result.
* `Pipe.CallEnv.Prompt`: a call that does not block and is not interrupted.
* `Pipe.Transfers`: a call returns a number from 1 to its count.

## Main results

* `Pipe.readCount_pos`, `Pipe.writeCount_pos`: a transfer on a pipe that is ready moves something.
* `Pipe.poll_is_truthful`: poll and the two methods, in every state of a pipe.

## References

* `ldd/scull/pipe.c`, lines 121–250.
-/

namespace ExKernel.Pipe

open Transition

/-- `POLLIN`. -/
def POLLIN : UInt32 := 0x1

/-- `POLLOUT`. -/
def POLLOUT : UInt32 := 0x4

/-- `POLLRDNORM`. -/
def POLLRDNORM : UInt32 := 0x40

/-- `POLLWRNORM`. -/
def POLLWRNORM : UInt32 := 0x100

/-- `scull_p_poll`.

Source: `ldd/scull/pipe.c`, lines 231–250. -/
def scullPPoll (dev : ScullPipe) : UInt32 :=
  let mask := if dev.rp ≠ dev.wp then 0 ||| (POLLIN ||| POLLRDNORM) else 0
  if spacefree dev ≠ 0 then mask ||| (POLLOUT ||| POLLWRNORM) else mask

/-- A mask has a bit. -/
def Reports (mask bit : UInt32) : Prop := mask &&& bit ≠ 0

instance (mask bit : UInt32) : Decidable (Reports mask bit) := inferInstanceAs (Decidable (_ ≠ _))

theorem reports_pollin_iff (dev : ScullPipe) :
    Reports (scullPPoll dev) POLLIN ↔ dev.rp ≠ dev.wp := by
  unfold scullPPoll
  by_cases hdata : dev.rp = dev.wp <;> by_cases hspace : spacefree dev = 0 <;>
    simp only [hdata, hspace, ne_eq, not_true_eq_false, not_false_eq_true, if_true, if_false,
      iff_true, iff_false] <;> decide

theorem reports_pollout_iff (dev : ScullPipe) :
    Reports (scullPPoll dev) POLLOUT ↔ spacefree dev ≠ 0 := by
  unfold scullPPoll
  by_cases hdata : dev.rp = dev.wp <;> by_cases hspace : spacefree dev = 0 <;>
    simp only [hdata, hspace, ne_eq, not_true_eq_false, not_false_eq_true, if_true, if_false,
      iff_true, iff_false] <;> decide

/-! ### Calls that do not block -/

/-- A call on a file that is open with `O_NONBLOCK`, which gets the lock. -/
structure CallEnv.Prompt (env : CallEnv) : Prop where
  lockIntr_eq : env.lockIntr = false
  nonblock_eq : env.nonblock = true

/-- A call returns a number from 1 to its count. -/
def Transfers (out : Option (Reply × ScullPipe)) (count : ℕ) : Prop :=
  ∃ r dev n, out = some (r, dev) ∧ r.ret = some ((n : ℕ) : ℤ) ∧ 1 ≤ n ∧ n ≤ count

/-- A call returns `-EAGAIN`, and changes nothing. -/
def TriesAgain (dev : ScullPipe) (out : Option (Reply × ScullPipe)) : Prop :=
  out = some (.code (-EAGAIN), dev)

theorem Transfers.not_triesAgain {dev : ScullPipe} {out : Option (Reply × ScullPipe)} {count : ℕ}
    (h : Transfers out count) : ¬ TriesAgain dev out := by
  obtain ⟨r, dev', n, rfl, hret, hpos, -⟩ := h
  intro heq
  cases heq
  have hn : (-EAGAIN : ℤ) = n := Option.some.inj hret
  rw [EAGAIN] at hn
  omega

/-- A call that transfers exactly when the pipe is ready, and otherwise is to be tried again. -/
theorem transfers_iff {dev : ScullPipe} {out : Option (Reply × ScullPipe)} {count : ℕ}
    {ready : Prop} (hready : ready → Transfers out count) (hnot : ¬ ready → TriesAgain dev out) :
    (ready ↔ Transfers out count) ∧ (¬ ready ↔ TriesAgain dev out) := by
  by_cases h : ready
  · exact ⟨iff_of_true h (hready h), iff_of_false (not_not.mpr h) (hready h).not_triesAgain⟩
  · exact ⟨iff_of_false h fun ht => ht.not_triesAgain (hnot h), iff_of_true h (hnot h)⟩

theorem ret_ne_zero {dev dev' : ScullPipe} {out : Option (Reply × ScullPipe)} {count : ℕ}
    {r : Reply} (h : Transfers out count ∨ TriesAgain dev out) (hout : out = some (r, dev')) :
    r.ret ≠ some 0 := by
  rcases h with ⟨r', dev'', n, hout', hret, hpos, -⟩ | hagain
  · rw [hout] at hout'
    cases hout'
    rw [hret, Ne, Option.some_inj]
    omega
  · rw [hout] at hagain
    cases hagain
    decide

section Ready

variable {dev : ScullPipe} {env : CallEnv} {count : ℕ}

/-- A read of a pipe with data copies at least one byte. -/
theorem readCount_pos (h : Regular dev) (hne : dev.rp ≠ dev.wp) (hcount : 1 ≤ count) :
    1 ≤ readCount dev count ∧ readCount dev count ≤ count := by
  have hr := h.inRange ⟨0, 0, fun _ => 0⟩ (h.end_ne_zero hne)
  obtain ⟨h1, h2, h3, h4⟩ : 0 ≤ dev.rp ∧ dev.rp < dev.bufEnd ∧ 0 ≤ dev.wp ∧ dev.wp < dev.bufEnd :=
    ⟨hr.rp_nonneg, hr.rp_lt, hr.wp_nonneg, hr.wp_lt⟩
  have hend := h.end_eq
  have hmax := dev.buffersize.toInt_lt
  rw [readCount]
  split_ifs with hlt
  · rw [sizeT_of_nonneg (by omega) (by omega)]
    omega
  · rw [sizeT_of_nonneg (by omega) (by omega)]
    omega

/-- A write to a pipe with space copies at least one byte. -/
theorem writeCount_pos (h : Regular dev) (h0 : dev.bufEnd ≠ 0) (hspace : spacefree dev ≠ 0)
    (hcount : 1 ≤ count) : 1 ≤ writeCount dev count ∧ writeCount dev count ≤ count := by
  have hr := h.inRange ⟨0, 0, fun _ => 0⟩ h0
  obtain ⟨h1, h2, h3, h4⟩ : 0 ≤ dev.rp ∧ dev.rp < dev.bufEnd ∧ 0 ≤ dev.wp ∧ dev.wp < dev.bufEnd :=
    ⟨hr.rp_nonneg, hr.rp_lt, hr.wp_nonneg, hr.wp_lt⟩
  have hend := h.end_eq
  have hmax := dev.buffersize.toInt_lt
  have hfree := spacefree_eq_ite h h0
  -- One cell stays free, so the space is that between the pointers less one.
  have hpos : 1 ≤ spacefree dev ∧ spacefree dev < 2 ^ 31 := by
    split_ifs at hfree <;> omega
  rw [writeCount, sizeT_of_nonneg (by omega) (by omega)]
  split_ifs with hge
  · rw [sizeT_of_nonneg (by omega) (by omega)]
    omega
  · rw [if_neg (by omega)] at hfree
    rw [sizeT_of_nonneg (by omega) (by omega)]
    omega

/-- A read that does not block: it transfers when there is data, and is to be tried again when there
is none. -/
theorem read_iff (h : Regular dev) (hb : dev.buffer.isSome) (henv : env.Prompt) {room : ℕ}
    (hcount : 1 ≤ count) (hroom : count ≤ room) :
    (dev.rp ≠ dev.wp ↔ Transfers (scullPRead dev env count room) count) ∧
      (¬ dev.rp ≠ dev.wp ↔ TriesAgain dev (scullPRead dev env count room)) := by
  obtain ⟨b, hb⟩ := Option.isSome_iff_exists.mp hb
  refine transfers_iff (fun hne => ?_) fun heq => ?_
  · obtain ⟨hpos, hle⟩ := readCount_pos h hne hcount
    have hcall : scullPRead dev env count room = some (scullPReadLocked dev b count room) := by
      rw [scullPRead, henv.lockIntr_eq, if_neg Bool.false_ne_true, if_neg hne, hb, Option.map_some]
    have hret : (scullPReadLocked dev b count room).1.ret =
        some ((readCount dev count : ℕ) : ℤ) := by
      rw [scullPReadLocked, copyToUser, if_pos (hle.trans hroom)]
    exact ⟨_, _, readCount dev count, hcall, hret, hpos, hle⟩
  · rw [TriesAgain, scullPRead, henv.lockIntr_eq, if_neg Bool.false_ne_true,
      if_pos (not_not.mp heq), notReady, henv.nonblock_eq, if_pos rfl]

/-- A write that does not block: it transfers when there is space, and is to be tried again when
there is none. -/
theorem write_iff (h : Regular dev) (h0 : dev.bufEnd ≠ 0) (hb : dev.buffer.isSome)
    (henv : env.Prompt) {src : UserBuffer} (hcount : 1 ≤ count) (hsrc : count ≤ src.bytes.length) :
    (spacefree dev ≠ 0 ↔ Transfers (scullPWrite dev env count src) count) ∧
      (¬ spacefree dev ≠ 0 ↔ TriesAgain dev (scullPWrite dev env count src)) := by
  obtain ⟨b, hb⟩ := Option.isSome_iff_exists.mp hb
  refine transfers_iff (fun hne => ?_) fun heq => ?_
  · obtain ⟨hpos, hle⟩ := writeCount_pos h h0 hne hcount
    have hcopy : writeCount dev count ≤ src.bytes.length := hle.trans hsrc
    have hcall : scullPWrite dev env count src = some (scullPWriteLocked dev b count src) := by
      rw [scullPWrite, henv.lockIntr_eq, if_neg Bool.false_ne_true, if_neg hne, hb, Option.map_some]
    have hret : (scullPWriteLocked dev b count src).1.ret =
        some ((writeCount dev count : ℕ) : ℤ) := by
      simp only [scullPWriteLocked, copyFromUser, if_pos hcopy, if_true]
    exact ⟨_, _, writeCount dev count, hcall, hret, hpos, hle⟩
  · rw [TriesAgain, scullPWrite, henv.lockIntr_eq, if_neg Bool.false_ne_true,
      if_pos (not_not.mp heq), notReady, henv.nonblock_eq, if_pos rfl]

end Ready

/-- **Poll tells the truth.** After an open with the buffer size `N ≥ 1`, and with no further open,
every sequence of read and write calls comes to its end; and in the state that it leaves, for every
call that does not block, with any count that is not 0 and an accessible buffer: poll reports
`POLLIN` exactly when a read returns a number from 1 to its count, and otherwise the read returns
`-EAGAIN`; it reports `POLLOUT` exactly when a write does so; and none of them returns 0.

Source: `ldd/scull/pipe.c`, lines 121–250. -/
theorem poll_is_truthful {N : Int32} (hN : 1 ≤ N.toInt) {mode : FMode}
    {answer : Option (ℤ → UInt8)} {dev₀ dev : ScullPipe} {heap₀ heap : Ledger}
    (hopen : scullPOpenLocked N mode answer dev₀ heap₀ = (0, dev, heap)) (calls : List Transfer) :
    ∃ replies dev', exec Transfer.exec dev calls = some (replies, dev') ∧
      ∀ env : CallEnv, env.Prompt → ∀ count, 1 ≤ count →
        (∀ room, count ≤ room →
          (Reports (scullPPoll dev') POLLIN ↔ Transfers (scullPRead dev' env count room) count) ∧
          (¬ Reports (scullPPoll dev') POLLIN ↔
            TriesAgain dev' (scullPRead dev' env count room)) ∧
          ∀ r dev'', scullPRead dev' env count room = some (r, dev'') → r.ret ≠ some 0) ∧
        ∀ src : UserBuffer, count ≤ src.bytes.length →
          (Reports (scullPPoll dev') POLLOUT ↔ Transfers (scullPWrite dev' env count src) count) ∧
          (¬ Reports (scullPPoll dev') POLLOUT ↔
            TriesAgain dev' (scullPWrite dev' env count src)) ∧
          ∀ r dev'', scullPWrite dev' env count src = some (r, dev'') → r.ret ≠ some 0 := by
  obtain ⟨b, rfl⟩ := exists_opened hopen
  have hsome : (dev₀.opened N mode b).buffer.isSome := rfl
  obtain ⟨replies, dev', hrun, hreg, hsame, -⟩ :=
    exec_conserves (regular_opened dev₀ mode b (by omega)) hsome calls
  have hend : dev'.bufEnd = N.toInt := hsame.end_eq
  have hsome' := buffer_isSome_of_sameBuffer hsame hsome
  refine ⟨replies, dev', hrun, fun env henv count hcount =>
    ⟨fun room hroom => ?_, fun src hsrc => ?_⟩⟩
  · obtain ⟨hin, hout⟩ := read_iff hreg hsome' henv hcount hroom
    rw [reports_pollin_iff]
    exact ⟨hin, hout, fun r dev'' =>
      ret_ne_zero ((em (dev'.rp ≠ dev'.wp)).imp hin.mp hout.mp)⟩
  · obtain ⟨hin, hout⟩ := write_iff hreg (by omega) hsome' henv hcount hsrc
    rw [reports_pollout_iff]
    exact ⟨hin, hout, fun r dev'' =>
      ret_ne_zero ((em (spacefree dev' ≠ 0)).imp hin.mp hout.mp)⟩

/-- A pipe of three bytes that was filled, and is polled: it reports data and no space. -/
theorem poll_is_truthful_full :
    ∃ replies dev', exec Transfer.exec (ScullPipe.zero.opened 3 ⟨true, true⟩ ⟨0, 3, fun _ => 0⟩)
        [.write ⟨false, true, false⟩ 2 ⟨[1, 2], []⟩] = some (replies, dev') ∧
      Transfers (scullPRead dev' ⟨false, true, false⟩ 5 5) 5 ∧
      TriesAgain dev' (scullPWrite dev' ⟨false, true, false⟩ 1 ⟨[3], []⟩) := by
  have hopen : scullPOpenLocked 3 ⟨true, true⟩ (some fun _ => 0) .zero .empty =
      (0, ScullPipe.zero.opened 3 ⟨true, true⟩ ⟨0, 3, fun _ => 0⟩, Ledger.empty.alloc) := rfl
  obtain ⟨replies, dev', hrun, hpoll⟩ := poll_is_truthful (by decide) hopen
    [.write ⟨false, true, false⟩ 2 ⟨[1, 2], []⟩]
  cases hrun
  obtain ⟨-, hwrite⟩ := hpoll ⟨false, true, false⟩ ⟨rfl, rfl⟩ 1 le_rfl
  refine ⟨_, _, rfl, ?_, ?_⟩
  · exact (((hpoll ⟨false, true, false⟩ ⟨rfl, rfl⟩ 5 (by decide)).1 5 le_rfl).1).mp (by decide)
  · exact ((hwrite ⟨[3], []⟩ (by decide)).2.1).mp (by decide)

end ExKernel.Pipe
