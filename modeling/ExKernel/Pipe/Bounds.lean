import ExKernel.Pipe.System

/-!
# Accesses to the pipe buffer

Reads and writes copy at `rp` and `wp`, within the bounds that `buffersize` and `end` give them.
These bounds are those of the block as long as the recorded size is the size that the block was
allocated with. Every open records the current value of the module parameter, also an open that
finds a buffer in place, and the ioctl method may change the parameter at any time; so the condition
is that an open of a pipe that has a buffer finds in the parameter the size of that buffer.

## Main definitions

* `Pipe.Describes`: the recorded size and end describe the block.
* `Pipe.AccessInBuffer`: what a call copies lies in the block.
* `Pipe.ReopenFits`: an open that finds a buffer finds its size in the module parameter.

## Main results

* `Pipe.Steady.step`: while nobody changes the parameters the recorded size stays right.
* `Pipe.Transfer.contains`: on a device that describes its block, one call stays in the block.
* `Pipe.buffer_bounds`: the condition is exact for the recorded bounds, and enough for the accesses.
* `Pipe.access_beyond_buffer`: without it a write goes past the end of the block.

## References

* `ldd/scull/pipe.c`, lines 64–114 and 121–229; `ldd/scull/main.c`, lines 497–508.
-/

namespace ExKernel.Pipe

open Transition

/-- The recorded size and the recorded end are those of the block of the buffer. -/
def Describes (dev : ScullPipe) : Prop :=
  ∀ b, dev.buffer = some b → dev.buffersize.toInt = b.size ∧ dev.bufEnd = b.size

/-- A read or write of an open file is not stuck, and the range of offsets that it copies from or to
lies in the block of the buffer. -/
def AccessInBuffer (s : PipeSys) : PipeOp → Prop
  | .transfer f t => f ∈ s.files → t.permitted f.mode → ∃ r s' b,
      s.step (.transfer f t) = some (r, s') ∧ s.dev.buffer = some b ∧ b.Contains r.off r.len
  | _ => True

/-- An open that gets the lock and finds a buffer finds the size of its block in the module
parameter. -/
def ReopenFits (s : PipeSys) : PipeOp → Prop
  | .scullPOpen false _ _ _ => ∀ b, s.dev.buffer = some b → s.params.pBuffer.toInt = b.size
  | _ => True

/-! ### One call -/

/-- The range that a read or write copies lies in the block that the device describes. -/
theorem Transfer.contains {dev dev' : ScullPipe} (h : Regular dev) {b : Block UInt8}
    (hb : dev.buffer = some b) (hend : dev.bufEnd = b.size) {t : Transfer} {r : Reply}
    (hexec : t.exec dev = some (r, dev')) : b.Contains r.off r.len := by
  rcases exec_cases hexec with ⟨-, -, hlen⟩ | ⟨_, count, room, b', -, hne, hb', heq⟩ |
    ⟨_, count, src, b', -, -, hb', heq⟩
  · exact Or.inl hlen
  · have hr := h.inRange b (h.end_ne_zero hne)
    have hle := (readCount_le h hb hne count).2
    rw [scullPReadLocked] at heq
    split at heq <;> cases heq <;> exact Or.inr ⟨hr.rp_nonneg, hend ▸ hle⟩
  · have hcount : b.Contains dev.wp (writeCount dev count) := by
      by_cases h0 : dev.bufEnd = 0
      · exact Or.inl (writeCount_of_end_eq_zero h h0 count)
      · exact Or.inr ⟨(h.inRange b h0).wp_nonneg, hend ▸ (writeCount_le h h0 hb count).2⟩
    simp only [scullPWriteLocked] at heq
    split_ifs at heq <;> cases heq <;> exact hcount

/-! ### Runs -/

/-- The lifetime invariant, and a device with a buffer is regular and describes its block. -/
structure Fitted (s : PipeSys) : Prop extends Lifetime s where
  regular : s.dev.buffer.isSome → Regular s.dev
  describes : Describes s.dev

theorem fitted_load (params : Scull.Params) : Fitted (.load params) where
  toLifetime := .load params
  regular h := absurd h (by simp [PipeSys.load, ScullPipe.zero])
  describes b hb := absurd hb (by simp [PipeSys.load, ScullPipe.zero])

theorem describes_opened_iff (dev : ScullPipe) (pBuffer : Int32) (mode : FMode)
    (b : Block UInt8) : Describes (dev.opened pBuffer mode b) ↔ pBuffer.toInt = b.size := by
  simp [Describes, ScullPipe.opened]

namespace Fitted

variable {s s' : PipeSys}

/-- A call on an open file is served and keeps the device regular and described. -/
theorem transfer (h : Fitted s) {f : OpenFile} {t : Transfer} (hf : f ∈ s.files)
    (hperm : t.permitted f.mode) :
    ∃ r dev' b, t.exec s.dev = some (r, dev') ∧ s.dev.buffer = some b ∧ b.Contains r.off r.len ∧
      Fitted { s with dev := dev' } := by
  obtain ⟨b, hb, -⟩ := h.held f hf (t.active_of_permitted hperm)
  have hsome : s.dev.buffer.isSome := Option.isSome_iff_exists.mpr ⟨b, hb⟩
  obtain ⟨r, dev', hexec⟩ := t.exec_isSome hsome
  obtain ⟨hreg, hsame, -⟩ := t.exec_spec (h.regular hsome) hexec
  refine ⟨r, dev', b, hexec, hb, t.contains (h.regular hsome) hb (h.describes b hb).2 hexec,
    h.toLifetime.transfer hsame, fun _ => hreg, fun b' hb' => ?_⟩
  change dev'.buffer = some b' at hb'
  have hblock := hsame.block_eq
  rw [hb, hb', Option.map_some, Option.map_some, Option.some_inj, Prod.mk.injEq] at hblock
  rw [hblock.2, hsame.buffersize_eq, hsame.end_eq]
  exact h.describes b hb

/-- Every call that meets the condition keeps the recorded bounds right. -/
theorem step (h : Fitted s) {op : PipeOp} {r : Reply} (hop : ReopenFits s op)
    (hst : s.step op = some (r, s')) : Fitted s' := by
  have hlife := h.toLifetime.step hst
  rcases PipeSys.step_cases hst with ⟨_, _, _, _, -, -, rfl⟩ | ⟨_, mode, _, b, rfl, hb, rfl⟩ |
    ⟨_, mode, contents, -, hb, hsize, rfl⟩ | ⟨f, -, hf, rfl⟩ |
    ⟨f, t, dev', -, hf, hperm, hexec, rfl⟩ | ⟨_, _, _, -, rfl⟩
  · exact h
  · have hfit : s.params.pBuffer.toInt = b.size := hop b hb
    exact ⟨hlife, fun _ => regular_opened s.dev mode b (by omega),
      (describes_opened_iff _ _ _ _).mpr hfit⟩
  · refine ⟨hlife, fun _ => regular_opened s.dev mode _ hsize,
      (describes_opened_iff _ _ _ _).mpr ?_⟩
    exact (Int.toNat_of_nonneg hsize).symm
  · have hkeep : ∀ x, (scullPReleaseLocked f.mode s.dev s.heap).1.buffer = some x →
        s.dev.buffer = some x := by
      intro x hx
      rcases h.release_cases hf with ⟨-, hbuf, -⟩ | ⟨-, hbuf, -⟩
      · rw [hbuf] at hx
        cases hx
      · exact hbuf ▸ hx
    have hsame := released_eq f.mode s.dev s.heap
    refine ⟨hlife, fun hsome => ?_, fun b hb => ?_⟩
    · obtain ⟨x, hx⟩ := Option.isSome_iff_exists.mp hsome
      have hreg := h.regular (Option.isSome_iff_exists.mpr ⟨x, hkeep x hx⟩)
      exact ⟨by rw [hsame.1, hsame.2.1]; exact hreg.end_eq,
        by rw [hsame.2.1, hsame.2.2.1, hsame.2.2.2]; exact hreg.place⟩
    · rw [hsame.1, hsame.2.1]
      exact h.describes b (hkeep b hb)
  · obtain ⟨r', e, b, hexec', -, -, hfit⟩ := h.transfer hf hperm
    rw [hexec] at hexec'
    cases hexec'
    exact hfit
  · exact ⟨hlife, h.regular, h.describes⟩

theorem accessInBuffer (h : Fitted s) (op : PipeOp) : AccessInBuffer s op := by
  cases op with
  | transfer f t =>
    intro hf hperm
    obtain ⟨r, dev', b, hexec, hb, hin, -⟩ := h.transfer hf hperm
    refine ⟨r, { s with dev := dev' }, b, ?_, hb, hin⟩
    simp [PipeSys.step, hf, hperm, hexec]
  | _ => trivial

end Fitted

/-! ### Runs that leave the parameters alone -/

/-- The invariant of runs in which nobody changes the parameters `params`: a device with a buffer
has the size that they give. -/
structure Steady (params : Scull.Params) (s : PipeSys) : Prop extends Fitted s where
  params_eq : s.params = params
  size_eq : s.dev.buffer.isSome → s.dev.buffersize = params.pBuffer

namespace Steady

variable {params : Scull.Params} {s s' : PipeSys}

theorem load (params : Scull.Params) : Steady params (.load params) where
  toFitted := fitted_load params
  params_eq := rfl
  size_eq h := absurd h (by simp [PipeSys.load, ScullPipe.zero])

theorem reopenFits (h : Steady params s) (op : PipeOp) : ReopenFits s op := by
  cases op with
  | scullPOpen lockIntr filp mode answer =>
    cases lockIntr with
    | true => trivial
    | false =>
      intro b hb
      rw [h.params_eq, ← h.size_eq (Option.isSome_iff_exists.mpr ⟨b, hb⟩)]
      exact (h.describes b hb).1
  | _ => trivial

/-- Every call other than an ioctl preserves the invariant. -/
theorem step (h : Steady params s) {op : PipeOp} {r : Reply}
    (hop : ∀ cmd arg env, op ≠ .scullIoctl cmd arg env) (hst : s.step op = some (r, s')) :
    Steady params s' := by
  have hfit := h.toFitted.step (h.reopenFits op) hst
  rcases PipeSys.step_cases hst with ⟨_, _, _, _, -, -, rfl⟩ | ⟨_, mode, _, b, -, -, rfl⟩ |
    ⟨_, mode, contents, -, -, -, rfl⟩ | ⟨f, -, hf, rfl⟩ | ⟨f, t, dev', -, -, -, hexec, rfl⟩ |
    ⟨cmd, arg, env, rfl, -⟩
  · exact h
  · exact ⟨hfit, h.params_eq, fun _ => congrArg Scull.Params.pBuffer h.params_eq⟩
  · exact ⟨hfit, h.params_eq, fun _ => congrArg Scull.Params.pBuffer h.params_eq⟩
  · refine ⟨hfit, h.params_eq, fun hsome => ?_⟩
    refine (released_eq f.mode s.dev s.heap).1.trans (h.size_eq ?_)
    rcases h.release_cases hf with ⟨-, hbuf, -⟩ | ⟨-, hbuf, -⟩
    · simp [hbuf] at hsome
    · exact hbuf ▸ hsome
  · refine ⟨hfit, h.params_eq, fun hsome => ?_⟩
    have hsame := t.sameBuffer hexec
    have hblock := congrArg Option.isSome hsame.block_eq
    rw [Option.isSome_map, Option.isSome_map] at hblock
    exact hsame.buffersize_eq.trans (h.size_eq (hblock ▸ hsome))
  · exact absurd rfl (hop cmd arg env)

end Steady

/-! ### The condition is exact -/

/-- An open after which the device describes its block found the size of the block. -/
theorem reopenFits_of_describes {s s' : PipeSys} {op : PipeOp} {r : Reply}
    (hst : s.step op = some (r, s')) (h : Describes s'.dev) : ReopenFits s op := by
  rcases PipeSys.step_cases hst with ⟨lockIntr, _, mode, answer, rfl, hor, rfl⟩ |
    ⟨_, mode, _, b, rfl, hb, rfl⟩ | ⟨_, mode, contents, rfl, hb, -, -⟩ | ⟨f, rfl, -, -⟩ |
    ⟨f, t, dev', rfl, -⟩ | ⟨_, _, _, rfl, -⟩
  · rcases hor with rfl | hb
    · trivial
    · cases lockIntr with
      | true => trivial
      | false =>
        intro b' hb'
        rw [hb] at hb'
        cases hb'
  · intro b' hb'
    rw [hb] at hb'
    cases hb'
    exact (describes_opened_iff _ _ _ _).mp h
  · intro b' hb'
    rw [hb] at hb'
    cases hb'
  · trivial
  · trivial
  · trivial

/-- **The bounds of the buffer.** Over every run of opens and releases by any number of processes,
of reads and writes, and of ioctls with any argument: the recorded size and end describe the block
of the buffer in every state if and only if every open that finds a buffer finds the size of its
block in the module parameter; and then no read or write is stuck or copies from or to an offset
outside the block.

Source: `ldd/scull/pipe.c`, lines 64–229; `ldd/scull/main.c`, lines 497–508. -/
theorem buffer_bounds (params : Scull.Params) {ops : List PipeOp} {replies : List Reply}
    {s : PipeSys} (hrun : exec PipeSys.step (.load params) ops = some (replies, s)) :
    (Always PipeSys.step (fun s => Describes s.dev) (.load params) ops ↔
      Guarded PipeSys.step ReopenFits (.load params) ops) ∧
    (Guarded PipeSys.step ReopenFits (.load params) ops →
      Guarded PipeSys.step AccessInBuffer (.load params) ops) := by
  have hfit : Guarded PipeSys.step ReopenFits (.load params) ops →
      Always PipeSys.step Fitted (.load params) ops :=
    always_of_invariant Fitted (fun _ _ _ _ h hop hst => h.step hop hst) (fitted_load params)
  refine ⟨⟨?_, fun hG => (hfit hG).mono fun _ h => h.describes⟩,
    fun hG => (hfit hG).guarded fun _ op h => h.accessInBuffer op⟩
  exact Always.guarded_of_next (fun _ _ _ _ _ => reopenFits_of_describes) hrun

/-- A run that meets the condition: a pipe that is opened twice with the same size and written. -/
theorem buffer_bounds_two_opens :
    Guarded PipeSys.step AccessInBuffer (.load .default)
      [.scullPOpen false 0 ⟨true, false⟩ (some fun _ => 0), .scullPOpen false 1 ⟨false, true⟩ none,
        .transfer ⟨1, ⟨false, true⟩, 0⟩ (.write ⟨false, false, false⟩ 3 ⟨[1, 2, 3], []⟩)] := by
  have hsome : (exec PipeSys.step (.load .default)
      [.scullPOpen false 0 ⟨true, false⟩ (some fun _ => 0), .scullPOpen false 1 ⟨false, true⟩ none,
        .transfer ⟨1, ⟨false, true⟩, 0⟩
          (.write ⟨false, false, false⟩ 3 ⟨[1, 2, 3], []⟩)]).isSome := by
    decide
  obtain ⟨⟨replies, s⟩, hrun⟩ := Option.isSome_iff_exists.mp hsome
  refine (buffer_bounds .default hrun).2 ⟨?_, fun _ _ h => ?_⟩
  · intro b hb
    cases hb
  · cases h
    refine ⟨?_, fun _ _ h => ?_⟩
    · intro b hb
      cases hb
      rfl
    · cases h
      exact ⟨trivial, fun _ _ _ => trivial⟩

/-- The size of a pipe of two bytes is set to eight, the pipe is opened once more, and a write of
four bytes goes past the end of the block. -/
theorem access_beyond_buffer :
    ∃ replies s r s' b, exec PipeSys.step (.load .default)
        [.scullIoctl Scull.SCULL_P_IOCTSIZE 2 ⟨true, false, none, true⟩,
          .scullPOpen false 0 ⟨true, true⟩ (some fun _ => 0),
          .scullIoctl Scull.SCULL_P_IOCTSIZE 8 ⟨true, false, none, true⟩,
          .scullPOpen false 1 ⟨true, true⟩ none] = some (replies, s) ∧
      s.step (.transfer ⟨0, ⟨true, true⟩, 0⟩
        (.write ⟨false, false, false⟩ 4 ⟨[1, 2, 3, 4], []⟩)) = some (r, s') ∧
      s.dev.buffer = some b ∧ b.size = 2 ∧ r.off = 0 ∧ r.len = 4 ∧ ¬ Describes s.dev ∧
      ¬ b.Contains r.off r.len := by
  refine ⟨_, _, _, _, _, rfl, rfl, rfl, rfl, rfl, by decide, fun h => ?_, by decide⟩
  exact absurd (h _ rfl).1 (by decide)

end ExKernel.Pipe
