import ExKernel.Pipe.Bounds

/-!
# Opening a pipe that is in use

Every successful open sets both pointers to the beginning of the buffer, also when other processes
have the pipe open. It thereby drops whatever is unread, so it disturbs nobody exactly when nothing
is. As long as every open of a pipe that is in use finds it empty, the fifo law holds from the
allocation of the buffer to its release, over all further opens and releases.

## Main definitions

* `Pipe.Session`: the pipe with the bytes accepted and delivered since its buffer was allocated.
* `Pipe.ReopenEmpty`: an open of a pipe in use finds it empty.

## Main results

* `Pipe.reopen_keeps_unread_iff`: when an open keeps the unread bytes, and when the fifo law holds
  over opens and releases.
* `Pipe.reopen_drops_unread`: an open by a second process drops an unread byte.

## References

* `ldd/scull/pipe.c`, lines 64–229.
-/

namespace ExKernel.Pipe

open Transition

/-- A file is open for reading or writing. -/
def PipeSys.inUse (s : PipeSys) : Prop := ∃ f ∈ s.files, f.active = true

/-- The pipe with, for the record, the bytes that it accepted and delivered since its buffer was
allocated. -/
structure Session where
  sys : PipeSys
  accepted : List UInt8
  delivered : List UInt8

namespace Session

/-- The session of a module that is loaded. -/
def load (params : Scull.Params) : Session := ⟨.load params, [], []⟩

/-- The record after a call: an open of a pipe without a buffer begins a new one. -/
def record (s : Session) (r : Reply) (sys : PipeSys) : PipeOp → Session
  | .scullPOpen .. =>
    if s.sys.dev.buffer.isSome then ⟨sys, s.accepted, s.delivered⟩ else ⟨sys, [], []⟩
  | .scullPRelease _ => ⟨sys, s.accepted, s.delivered⟩
  | .transfer _ t => ⟨sys, s.accepted ++ t.accepted r, s.delivered ++ t.delivered r⟩
  | .scullIoctl .. => ⟨sys, s.accepted, s.delivered⟩

/-- One call, with the record kept. -/
def step (s : Session) (op : PipeOp) : Option (Reply × Session) :=
  (s.sys.step op).map fun out => (out.1, s.record out.1 out.2 op)

theorem step_eq_some {s s' : Session} {op : PipeOp} {r : Reply} (h : s.step op = some (r, s')) :
    ∃ sys', s.sys.step op = some (r, sys') ∧ s' = s.record r sys' op ∧ s'.sys = sys' := by
  obtain ⟨⟨r', sys'⟩, hst, heq⟩ := Option.map_eq_some_iff.mp h
  cases heq
  refine ⟨sys', hst, rfl, ?_⟩
  cases op <;> simp only [record]
  split_ifs <;> rfl

end Session

/-- An open that gets the lock while a file is open for reading or writing finds the pipe empty. -/
def ReopenEmpty (s : Session) : PipeOp → Prop
  | .scullPOpen false _ _ _ => s.sys.inUse → s.sys.dev.rp = s.sys.dev.wp
  | _ => True

/-! ### Where the pointers can be -/

/-- The device is regular; or its recorded size is negative, as an open leaves it after an ioctl
stored such a size while there was a buffer, and then `wp` never wraps. -/
def Placed (dev : ScullPipe) : Prop :=
  Regular dev ∨ (dev.bufEnd < 0 ∧ 0 ≤ dev.rp ∧ dev.rp ≤ dev.wp)

theorem placed_opened (dev : ScullPipe) (pBuffer : Int32) (mode : FMode) (b : Block UInt8) :
    Placed (dev.opened pBuffer mode b) := by
  rcases lt_or_ge pBuffer.toInt 0 with hneg | hpos
  · exact Or.inr ⟨hneg, le_rfl, le_rfl⟩
  · exact Or.inl (regular_opened dev mode b hpos)

theorem Placed.unread_eq_nil_iff {dev : ScullPipe} (h : Placed dev) {b : Block UInt8}
    (hb : dev.buffer = some b) : dev.unread = [] ↔ dev.rp = dev.wp := by
  rcases h with h | ⟨-, -, hle⟩
  · exact Pipe.unread_eq_nil_iff h hb
  · have hlen : ((dev.ring b).queue.length : ℤ) = dev.wp - dev.rp :=
      RingBuffer.length_queue_of_le hle
    rw [unread_of_buffer hb, ← List.length_eq_zero_iff]
    omega

theorem Placed.transfer {dev dev' : ScullPipe} (h : Placed dev) {t : Transfer} {r : Reply}
    (hexec : t.exec dev = some (r, dev')) : Placed dev' := by
  rcases h with h | ⟨hneg, hrp, hle⟩
  · exact Or.inl (t.exec_spec h hexec).1
  refine Or.inr ?_
  have hadv : ∀ (x : ℤ) (n : ℕ), 0 ≤ x → RingBuffer.advance dev.bufEnd x n = x + n := by
    intro x n hx
    rw [RingBuffer.advance, if_neg (by omega)]
  rcases t.exec_cases hexec with ⟨rfl, -, -⟩ | ⟨_, count, room, b, -, hne, -, heq⟩ |
    ⟨_, count, src, b, -, -, -, heq⟩
  · exact ⟨hneg, hrp, hle⟩
  · have hcount : dev.rp + (readCount dev count : ℤ) ≤ dev.wp := by
      have := sizeT_le (x := dev.wp - dev.rp) (by omega)
      rw [readCount, if_pos (by omega)]
      omega
    simp only [scullPReadLocked] at heq
    split at heq
    · cases heq
      exact ⟨hneg, hrp, hle⟩
    · cases heq
      simp only [hadv _ _ hrp]
      exact ⟨hneg, by omega, hcount⟩
  · simp only [scullPWriteLocked] at heq
    split_ifs at heq
    · cases heq
      simp only [hadv _ _ (hrp.trans hle)]
      exact ⟨hneg, hrp, by omega⟩
    · cases heq
      exact ⟨hneg, hrp, hle⟩

/-- In every state of every run the pointers of a device with a buffer are where they can be. -/
theorem placed_step {s s' : PipeSys} (h : Lifetime s ∧ (s.dev.buffer.isSome → Placed s.dev))
    {op : PipeOp} {r : Reply} (hst : s.step op = some (r, s')) :
    Lifetime s' ∧ (s'.dev.buffer.isSome → Placed s'.dev) := by
  refine ⟨h.1.step hst, ?_⟩
  rcases PipeSys.step_cases hst with ⟨_, _, _, _, -, -, rfl⟩ | ⟨_, mode, _, b, -, -, rfl⟩ |
    ⟨_, mode, contents, -, -, -, rfl⟩ | ⟨f, -, hf, rfl⟩ | ⟨f, t, dev', -, -, -, hexec, rfl⟩ |
    ⟨_, _, _, -, rfl⟩
  · exact h.2
  · exact fun _ => placed_opened _ _ _ _
  · exact fun _ => placed_opened _ _ _ _
  · intro hsome
    have hplaced : Placed s.dev := by
      rcases h.1.release_cases hf with ⟨-, hbuf, -⟩ | ⟨-, hbuf, -⟩
      · simp [hbuf] at hsome
      · exact h.2 (by simpa [hbuf] using hsome)
    obtain ⟨hsize, hend, hrp, hwp⟩ := released_eq f.mode s.dev s.heap
    rcases hplaced with hreg | hneg
    · exact Or.inl ⟨by rw [hend, hsize]; exact hreg.end_eq,
        by rw [hend, hrp, hwp]; exact hreg.place⟩
    · exact Or.inr (by rw [hend, hrp, hwp]; exact hneg)
  · intro hsome
    have hblock := congrArg Option.isSome (t.sameBuffer hexec).block_eq
    rw [Option.isSome_map, Option.isSome_map] at hblock
    exact (h.2 (hblock ▸ hsome)).transfer hexec
  · exact h.2

/-! ### The fifo law over opens and releases -/

/-- The fifo law, with what carries it over opens and releases while the parameters stay `params`: a
device that is not in use is empty. -/
structure Lawful (params : Scull.Params) (s : Session) : Prop where
  steady : Steady params s.sys
  idle : s.sys.dev.buffer.isSome → ¬ s.sys.inUse → s.sys.dev.rp = s.sys.dev.wp
  law : s.sys.dev.buffer.isSome → s.accepted = s.delivered ++ s.sys.dev.unread

namespace Lawful

variable {params : Scull.Params} {s s' : Session}

theorem load (params : Scull.Params) : Lawful params (.load params) where
  steady := .load params
  idle h := absurd h (by simp [Session.load, PipeSys.load, ScullPipe.zero])
  law h := absurd h (by simp [Session.load, PipeSys.load, ScullPipe.zero])

/-- Nothing is unread when an open that meets the condition finds a buffer. -/
theorem unread_eq_nil (h : Lawful params s) {b : Block UInt8} (hb : s.sys.dev.buffer = some b)
    (hempty : s.sys.inUse → s.sys.dev.rp = s.sys.dev.wp) : s.sys.dev.unread = [] := by
  have hsome : s.sys.dev.buffer.isSome := Option.isSome_iff_exists.mpr ⟨b, hb⟩
  rw [unread_eq_nil_iff (h.steady.regular hsome) hb]
  by_cases huse : s.sys.inUse
  · exact hempty huse
  · exact h.idle hsome huse

/-- An open that begins with nothing unread, of a device with or without a buffer. -/
theorem opened {pBuffer : Int32} {b : Block UInt8} {mode : FMode} {sys' : PipeSys}
    {acc del : List UInt8} (hsteady : Steady params sys')
    (hdev : sys'.dev = s.sys.dev.opened pBuffer mode b) (hlaw : acc = del) :
    Lawful params ⟨sys', acc, del⟩ where
  steady := hsteady
  idle _ _ := by
    rw [hdev]
    rfl
  law _ := by
    rw [hdev, unread_opened, List.append_nil, hlaw]

/-- A release: the buffer goes, and with it all that is to be shown, or another file keeps it. -/
theorem release (h : Lawful params s) {f : OpenFile} (hf : f ∈ s.sys.files) {sys' : PipeSys}
    (hsteady : Steady params sys') (hsys : sys' = { s.sys with
      dev := (scullPReleaseLocked f.mode s.sys.dev s.sys.heap).1
      heap := (scullPReleaseLocked f.mode s.sys.dev s.sys.heap).2
      files := s.sys.files.erase f }) :
    Lawful params ⟨sys', s.accepted, s.delivered⟩ := by
  obtain ⟨-, hend, hrp, hwp⟩ := released_eq f.mode s.sys.dev s.sys.heap
  subst hsys
  rcases h.steady.release_cases hf with ⟨-, hbuf, -⟩ | ⟨⟨g, hg, hact⟩, hbuf, -⟩
  · have hnone : ¬ (scullPReleaseLocked f.mode s.sys.dev s.sys.heap).1.buffer.isSome := by
      simp [hbuf]
    exact ⟨hsteady, fun h' => absurd h' hnone, fun h' => absurd h' hnone⟩
  · have hunread :
        (scullPReleaseLocked f.mode s.sys.dev s.sys.heap).1.unread = s.sys.dev.unread := by
      simp only [ScullPipe.unread, ScullPipe.ring, hbuf, hend, hrp, hwp]
    refine ⟨hsteady, fun _ hidle => ?_, fun h' => ?_⟩
    · exact absurd ⟨g, hg, hact⟩ hidle
    · rw [hunread]
      exact h.law (hbuf ▸ h')

/-- A read or write adds to the record what it adds to the pipe and takes from it. -/
theorem transfer (h : Lawful params s) {f : OpenFile} {t : Transfer} (hf : f ∈ s.sys.files)
    (hperm : t.permitted f.mode) {r : Reply} {dev' : ScullPipe}
    (hexec : t.exec s.sys.dev = some (r, dev')) 
    (hsteady : Steady params { s.sys with dev := dev' }) :
    Lawful params ⟨{ s.sys with dev := dev' }, s.accepted ++ t.accepted r,
      s.delivered ++ t.delivered r⟩ := by
  have hact := t.active_of_permitted hperm
  obtain ⟨b, hb, -⟩ := h.steady.held f hf hact
  have hsome : s.sys.dev.buffer.isSome := Option.isSome_iff_exists.mpr ⟨b, hb⟩
  obtain ⟨-, -, hq⟩ := t.exec_spec (h.steady.regular hsome) hexec
  refine ⟨hsteady, fun _ hidle => ?_, fun _ => ?_⟩
  · exact absurd ⟨f, hf, hact⟩ hidle
  · calc s.accepted ++ t.accepted r
        = s.delivered ++ (s.sys.dev.unread ++ t.accepted r) := by
          rw [h.law hsome, List.append_assoc]
      _ = s.delivered ++ t.delivered r ++ dev'.unread := by rw [hq, List.append_assoc]

/-- Every call other than an ioctl that meets the condition keeps the fifo law. -/
theorem step (h : Lawful params s) {op : PipeOp} {r : Reply} (hempty : ReopenEmpty s op)
    (hop : ∀ cmd arg env, op ≠ .scullIoctl cmd arg env) (hst : s.step op = some (r, s')) :
    Lawful params s' := by
  obtain ⟨sys', hsys, rfl, -⟩ := Session.step_eq_some hst
  have hsteady := h.steady.step hop hsys
  rcases PipeSys.step_cases hsys with ⟨lockIntr, _, mode, answer, rfl, -, rfl⟩ |
    ⟨_, mode, answer, b, rfl, hb, rfl⟩ | ⟨_, mode, contents, rfl, hb, -, rfl⟩ | ⟨f, rfl, hf, heq⟩ |
    ⟨f, t, dev', rfl, hf, hperm, hexec, rfl⟩ | ⟨cmd, arg, env, rfl, -⟩
  · rw [Session.record]
    split_ifs with hsome
    · exact h
    · exact ⟨h.steady, h.idle, fun h' => absurd h' hsome⟩
  · have hsome : s.sys.dev.buffer.isSome := Option.isSome_iff_exists.mpr ⟨b, hb⟩
    have hlaw := h.law hsome
    rw [h.unread_eq_nil hb hempty, List.append_nil] at hlaw
    rw [Session.record, if_pos hsome]
    exact opened hsteady rfl hlaw
  · rw [Session.record, if_neg (by simp [hb])]
    exact opened hsteady rfl rfl
  · exact h.release hf hsteady heq
  · exact h.transfer hf hperm hexec hsteady
  · exact absurd rfl (hop cmd arg env)

end Lawful

/-- **Opening a pipe that is in use.** In every state that a run of opens, releases, reads, writes
and ioctls reaches with a file open for reading or writing, a further successful open keeps the
unread bytes if and only if the pointers meet; and in every run of opens, releases, reads and writes
in which every open of a pipe in use finds the pointers together, the bytes accepted since the
buffer was allocated are the bytes delivered since then followed by the unread bytes.

Source: `ldd/scull/pipe.c`, lines 64–229. -/
theorem reopen_keeps_unread_iff (params : Scull.Params) {ops : List PipeOp}
    {replies : List Reply} {s : Session}
    (hrun : exec Session.step (.load params) ops = some (replies, s)) :
    (s.sys.inUse → ∀ (lockIntr : Bool) (filp : ℕ) (mode : FMode) (answer : Option (ℤ → UInt8))
      (r : Reply) (s' : PipeSys),
      s.sys.step (.scullPOpen lockIntr filp mode answer) = some (r, s') →
      r.ret = some 0 → (s'.dev.unread = s.sys.dev.unread ↔ s.sys.dev.rp = s.sys.dev.wp)) ∧
    ((∀ op ∈ ops, ∀ cmd arg env, op ≠ .scullIoctl cmd arg env) →
      Guarded Session.step ReopenEmpty (.load params) ops → s.sys.dev.buffer.isSome →
      s.accepted = s.delivered ++ s.sys.dev.unread) := by
  constructor
  · rintro ⟨f, hf, hact⟩ lockIntr filp mode answer r s' hst hret
    obtain ⟨hlife, hplaced⟩ : Lifetime s.sys ∧ (s.sys.dev.buffer.isSome → Placed s.sys.dev) :=
      exec_invariant (G := fun _ _ => True)
        (fun s : Session => Lifetime s.sys ∧ (s.sys.dev.buffer.isSome → Placed s.sys.dev))
        (fun _ _ _ _ h _ hst => by
          obtain ⟨sys', hsys, -, rfl⟩ := Session.step_eq_some hst
          exact placed_step h hsys)
        ⟨.load params, fun h => absurd h (by simp [Session.load, PipeSys.load, ScullPipe.zero])⟩
        (guarded_true _ _) hrun
    obtain ⟨b, hb, -⟩ := hlife.held f hf hact
    have hempty := (hplaced (Option.isSome_iff_exists.mpr ⟨b, hb⟩)).unread_eq_nil_iff hb
    cases lockIntr with
    | true =>
      cases hst
      cases hret
    | false =>
      simp only [PipeSys.step, Bool.false_eq_true, ite_false, scullPOpenLocked, hb] at hst
      cases hst
      simp only [unread_opened]
      rw [← hempty, eq_comm]
  · intro hops hG hsome
    have h := exec_invariant (Lawful params)
      (fun _ _ _ _ h hG hst => h.step hG.2 hG.1 hst) (.load params)
      ((guarded_of_forall_mem hops _).and hG) hrun
    exact h.law hsome

/-- Two opens, a write and a read, with the second open made while the pipe is empty. -/
theorem reopen_keeps_unread_empty :
    ∃ replies s, exec Session.step (.load .default)
        [.scullPOpen false 0 ⟨true, false⟩ (some fun _ => 0),
          .scullPOpen false 1 ⟨false, true⟩ none,
          .transfer ⟨1, ⟨false, true⟩, 0⟩ (.write ⟨false, false, false⟩ 2 ⟨[7, 8], []⟩),
          .transfer ⟨0, ⟨true, false⟩, 0⟩ (.read ⟨false, false, false⟩ 1 1)] = some (replies, s) ∧
      s.accepted = s.delivered ++ s.sys.dev.unread := by
  have hsome : (exec Session.step (.load .default)
      [.scullPOpen false 0 ⟨true, false⟩ (some fun _ => 0), .scullPOpen false 1 ⟨false, true⟩ none,
        .transfer ⟨1, ⟨false, true⟩, 0⟩ (.write ⟨false, false, false⟩ 2 ⟨[7, 8], []⟩),
        .transfer ⟨0, ⟨true, false⟩, 0⟩ (.read ⟨false, false, false⟩ 1 1)]).isSome := by
    decide
  obtain ⟨⟨replies, s⟩, hrun⟩ := Option.isSome_iff_exists.mp hsome
  refine ⟨replies, s, hrun, (reopen_keeps_unread_iff .default hrun).2 (by simp) ?_ ?_⟩
  · refine ⟨fun _ => rfl, fun _ _ h => ?_⟩
    cases h
    refine ⟨fun _ => rfl, fun _ _ h => ?_⟩
    cases h
    exact ⟨trivial, fun _ _ _ => ⟨trivial, fun _ _ _ => trivial⟩⟩
  · cases hrun
    rfl

/-- A process writes a byte, a second one opens the pipe, and the byte is gone. -/
theorem reopen_drops_unread :
    ∃ replies s r s', exec Session.step (.load .default)
        [.scullPOpen false 0 ⟨true, true⟩ (some fun _ => 0),
          .transfer ⟨0, ⟨true, true⟩, 0⟩ (.write ⟨false, false, false⟩ 1 ⟨[7], []⟩)] =
        some (replies, s) ∧
      s.sys.files = [⟨0, ⟨true, true⟩, 0⟩] ∧
      s.sys.step (.scullPOpen false 1 ⟨true, false⟩ none) = some (r, s') ∧ r.ret = some 0 ∧
      s.sys.dev.unread = [7] ∧ s'.dev.unread = [] :=
  ⟨_, _, _, _, rfl, rfl, rfl, rfl, by decide, by decide⟩

end ExKernel.Pipe
