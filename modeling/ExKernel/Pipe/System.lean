import ExKernel.Pipe.Fifo

/-!
# The pipe and its files

The state of the whole: the device, the heap its buffer comes from, the module parameters and the
files that are open on the device. The events are the four methods of the device, each taken as one
step, and the ioctl method; a file that is not open cannot be used, and the file system layer lets
only a file open for reading be read and only one open for writing be written.

The second half is about the lifetime of the buffer: reads and writes rely on `dev->buffer` without
testing it, and what makes that right is the counting of files in open and release.

## Main definitions

* `Pipe.OpenFile`, `Pipe.PipeSys`, `Pipe.PipeOp`, `Pipe.PipeSys.step`.
* `Pipe.Lifetime`: the counters count the open files, and the buffer is there while it is needed.

## Main results

* `Pipe.Lifetime.step`: every method preserves the lifetime invariant.
* `Pipe.buffer_lifetime`: the lifetime of the buffer over all runs.

## References

* `ldd/scull/pipe.c`, lines 64–114 and 310–320.
-/

namespace ExKernel.Pipe

open Transition

/-- A file open on the pipe: its identity, its mode, and for the record the identity of the buffer
that the device had when the open returned. -/
structure OpenFile where
  filp : ℕ
  mode : FMode
  buf : ℕ
  deriving DecidableEq

/-- The device, the heap, the module parameters and the files that are open on the device. -/
structure PipeSys where
  dev : ScullPipe
  heap : Ledger
  params : Scull.Params
  files : List OpenFile

/-- The module as it is loaded with the parameters `params`. -/
def PipeSys.load (params : Scull.Params) : PipeSys := ⟨.zero, .empty, params, []⟩

/-- The file system layer passes on a read only on a file open for reading, and a write only on one
open for writing. -/
def Transfer.permitted (mode : FMode) : Transfer → Bool
  | read .. => mode.read
  | write .. => mode.write

/-- A call of one of the methods of the device. -/
inductive PipeOp
  | scullPOpen (lockIntr : Bool) (filp : ℕ) (mode : FMode) (answer : Option (ℤ → UInt8))
  | scullPRelease (f : OpenFile)
  | transfer (f : OpenFile) (t : Transfer)
  | scullIoctl (cmd : UInt32) (arg : UInt64) (env : IoctlEnv)

/-- The files after an open of `filp` that returned `ret` and left the device `dev`. -/
def filesAfterOpen (files : List OpenFile) (filp : ℕ) (mode : FMode) (ret : ℤ) (dev : ScullPipe) :
    List OpenFile :=
  match dev.buffer with
  | some b => if ret = 0 then ⟨filp, mode, b.id⟩ :: files else files
  | none => files

/-- One call. It is stuck if its file is not open, or not in the mode it needs.

Source: `ldd/scull/pipe.c`, lines 64–229; `ldd/scull/main.c`, lines 395–516. -/
def PipeSys.step (s : PipeSys) : PipeOp → Option (Reply × PipeSys)
  | .scullPOpen lockIntr filp mode answer =>
    if lockIntr then some (.code (-ERESTARTSYS), s)
    else
      let out := scullPOpenLocked s.params.pBuffer mode answer s.dev s.heap
      some (.code out.1, { s with
        dev := out.2.1
        heap := out.2.2
        files := filesAfterOpen s.files filp mode out.1 out.2.1 })
  | .scullPRelease f =>
    if f ∈ s.files then
      let out := scullPReleaseLocked f.mode s.dev s.heap
      some (.code 0, { s with dev := out.1, heap := out.2, files := s.files.erase f })
    else none
  | .transfer f t =>
    if f ∈ s.files ∧ t.permitted f.mode then
      (t.exec s.dev).map fun out => (out.1, { s with dev := out.2 })
    else none
  | .scullIoctl cmd arg env =>
    let out := Scull.scullIoctl s.params cmd arg env
    some (.code out.ret, { s with params := out.params })

/-- **What one call can do to the system.** An open may fail and change nothing, may find a buffer,
or may allocate one; the other three kinds of calls have one effect each. -/
theorem PipeSys.step_cases {s s' : PipeSys} {op : PipeOp} {r : Reply}
    (h : s.step op = some (r, s')) :
    (∃ lockIntr filp mode answer, op = .scullPOpen lockIntr filp mode answer ∧
      (lockIntr = true ∨ s.dev.buffer = none) ∧ s' = s) ∨
    (∃ filp mode answer b, op = .scullPOpen false filp mode answer ∧ s.dev.buffer = some b ∧
      s' = { s with
        dev := s.dev.opened s.params.pBuffer mode b
        files := ⟨filp, mode, b.id⟩ :: s.files }) ∨
    (∃ filp mode contents, op = .scullPOpen false filp mode (some contents) ∧
      s.dev.buffer = none ∧ 0 ≤ s.params.pBuffer.toInt ∧
      s' = { s with
        dev := s.dev.opened s.params.pBuffer mode
          ⟨s.heap.next, s.params.pBuffer.toInt.toNat, contents⟩
        heap := s.heap.alloc
        files := ⟨filp, mode, s.heap.next⟩ :: s.files }) ∨
    (∃ f, op = .scullPRelease f ∧ f ∈ s.files ∧
      s' = { s with
        dev := (scullPReleaseLocked f.mode s.dev s.heap).1
        heap := (scullPReleaseLocked f.mode s.dev s.heap).2
        files := s.files.erase f }) ∨
    (∃ f t dev', op = .transfer f t ∧ f ∈ s.files ∧ t.permitted f.mode ∧
      t.exec s.dev = some (r, dev') ∧ s' = { s with dev := dev' }) ∨
    (∃ cmd arg env, op = .scullIoctl cmd arg env ∧
      s' = { s with params := (Scull.scullIoctl s.params cmd arg env).params }) := by
  cases op with
  | scullPOpen lockIntr filp mode answer =>
    cases lockIntr with
    | true =>
      cases h
      exact Or.inl ⟨_, _, _, _, rfl, Or.inl rfl, rfl⟩
    | false =>
      simp only [step, Bool.false_eq_true, ite_false] at h
      rcases scullPOpenLocked_cases s.params.pBuffer mode answer s.dev s.heap with
        ⟨hb, heq⟩ | ⟨b, hb, heq⟩ | ⟨contents, hb, hsize, rfl, heq⟩
      · rw [heq] at h
        cases h
        exact Or.inl ⟨_, _, _, _, rfl, Or.inr hb, by simp [filesAfterOpen, hb]⟩
      · rw [heq] at h
        cases h
        exact Or.inr (Or.inl ⟨_, _, _, b, rfl, hb, rfl⟩)
      · rw [heq] at h
        cases h
        exact Or.inr (Or.inr (Or.inl ⟨_, _, _, rfl, hb, hsize, rfl⟩))
  | scullPRelease f =>
    simp only [step] at h
    split_ifs at h with hf
    cases h
    exact Or.inr (Or.inr (Or.inr (Or.inl ⟨f, rfl, hf, rfl⟩)))
  | transfer f t =>
    simp only [step] at h
    split_ifs at h with hf
    obtain ⟨out, hout, heq⟩ := Option.map_eq_some_iff.mp h
    cases heq
    exact Or.inr (Or.inr (Or.inr (Or.inr (Or.inl ⟨f, t, out.2, rfl, hf.1, hf.2, hout, rfl⟩))))
  | scullIoctl cmd arg env =>
    cases h
    exact Or.inr (Or.inr (Or.inr (Or.inr (Or.inr ⟨cmd, arg, env, rfl, rfl⟩))))

/-- A release changes nothing that is recorded about the data in the buffer. -/
theorem released_eq (mode : FMode) (dev : ScullPipe) (heap : Ledger) :
    (scullPReleaseLocked mode dev heap).1.buffersize = dev.buffersize ∧
      (scullPReleaseLocked mode dev heap).1.bufEnd = dev.bufEnd ∧
      (scullPReleaseLocked mode dev heap).1.rp = dev.rp ∧
      (scullPReleaseLocked mode dev heap).1.wp = dev.wp := by
  simp only [scullPReleaseLocked]
  split_ifs <;> exact ⟨rfl, rfl, rfl, rfl⟩

/-! ### The lifetime of the buffer -/

/-- A file that is open for reading or for writing, as opposed to one that was opened in neither
mode. -/
def OpenFile.active (f : OpenFile) : Bool := f.mode.read || f.mode.write

theorem Transfer.active_of_permitted {f : OpenFile} {t : Transfer} (h : t.permitted f.mode) :
    f.active := by
  cases t with
  | read => exact Bool.or_eq_true_iff.mpr (Or.inl h)
  | write => exact Bool.or_eq_true_iff.mpr (Or.inr h)

/-- The number of open files with `FMODE_READ`. -/
def PipeSys.readers (s : PipeSys) : ℕ := s.files.countP fun f => f.mode.read

/-- The number of open files with `FMODE_WRITE`. -/
def PipeSys.writers (s : PipeSys) : ℕ := s.files.countP fun f => f.mode.write

/-- The counters of the device count its open files; while a file is open for reading or writing the
device has the buffer that it had when the file was opened; and the buffer of the device is the only
live block of its heap, in which no block was released twice. -/
structure Lifetime (s : PipeSys) : Prop where
  nreaders_eq : s.dev.nreaders = s.readers
  nwriters_eq : s.dev.nwriters = s.writers
  held : ∀ f ∈ s.files, f.active → ∃ b, s.dev.buffer = some b ∧ b.id = f.buf
  sound : s.heap.Sound
  live_eq : s.heap.live = (s.dev.buffer.map Block.id).toList

namespace Lifetime

variable {s : PipeSys}

theorem load (params : Scull.Params) : Lifetime (.load params) where
  nreaders_eq := rfl
  nwriters_eq := rfl
  held _ hf := absurd hf List.not_mem_nil
  sound := Ledger.sound_empty
  live_eq := rfl

theorem counters_opened (h : Lifetime s) (filp : ℕ) (mode : FMode) (b : Block UInt8) (id : ℕ) :
    (s.dev.opened s.params.pBuffer mode b).nreaders =
        ((⟨filp, mode, id⟩ :: s.files).countP (·.mode.read) : ℕ) ∧
      (s.dev.opened s.params.pBuffer mode b).nwriters =
        ((⟨filp, mode, id⟩ :: s.files).countP (·.mode.write) : ℕ) := by
  have hr := h.nreaders_eq
  have hw := h.nwriters_eq
  simp only [PipeSys.readers, PipeSys.writers] at hr hw
  simp only [ScullPipe.opened, List.countP_cons]
  constructor <;> split_ifs <;> omega

theorem open_held (h : Lifetime s) {b : Block UInt8} (hb : s.dev.buffer = some b) (filp : ℕ)
    (mode : FMode) :
    Lifetime { s with
      dev := s.dev.opened s.params.pBuffer mode b
      files := ⟨filp, mode, b.id⟩ :: s.files } where
  nreaders_eq := (h.counters_opened filp mode b b.id).1
  nwriters_eq := (h.counters_opened filp mode b b.id).2
  held f hf hact := by
    rcases List.mem_cons.mp hf with rfl | hf
    · exact ⟨b, rfl, rfl⟩
    · obtain ⟨b', hb', hid⟩ := h.held f hf hact
      obtain rfl : b' = b := Option.some.inj (hb'.symm.trans hb)
      exact ⟨b', rfl, hid⟩
  sound := h.sound
  live_eq := by
    rw [h.live_eq, hb]
    rfl

theorem open_fresh (h : Lifetime s) (hb : s.dev.buffer = none) (filp : ℕ) (mode : FMode)
    (size : ℕ) (contents : ℤ → UInt8) :
    Lifetime { s with
      dev := s.dev.opened s.params.pBuffer mode ⟨s.heap.next, size, contents⟩
      heap := s.heap.alloc
      files := ⟨filp, mode, s.heap.next⟩ :: s.files } where
  nreaders_eq := (h.counters_opened filp mode _ s.heap.next).1
  nwriters_eq := (h.counters_opened filp mode _ s.heap.next).2
  held f hf hact := by
    rcases List.mem_cons.mp hf with rfl | hf
    · exact ⟨_, rfl, rfl⟩
    · obtain ⟨b', hb', -⟩ := h.held f hf hact
      rw [hb] at hb'
      cases hb'
  sound := h.sound.alloc
  live_eq := by
    rw [Ledger.live_alloc, h.live_eq, hb]
    rfl

/-- The counters after a release are those of the files that are left. -/
theorem counters_released (h : Lifetime s) {f : OpenFile} (hf : f ∈ s.files) :
    (if f.mode.read then s.dev.nreaders - 1 else s.dev.nreaders) =
        ((s.files.erase f).countP (·.mode.read) : ℕ) ∧
      (if f.mode.write then s.dev.nwriters - 1 else s.dev.nwriters) =
        ((s.files.erase f).countP (·.mode.write) : ℕ) := by
  have hr := h.nreaders_eq
  have hw := h.nwriters_eq
  simp only [PipeSys.readers, PipeSys.writers, (List.perm_cons_erase hf).countP_eq,
    List.countP_cons] at hr hw
  constructor <;> split_ifs at hr hw ⊢ <;> omega

/-- The files that are left are open in neither mode when the counters after the release are
zero. -/
theorem released_counters_eq_zero_iff (h : Lifetime s) {f : OpenFile} (hf : f ∈ s.files) :
    (if f.mode.read then s.dev.nreaders - 1 else s.dev.nreaders) +
        (if f.mode.write then s.dev.nwriters - 1 else s.dev.nwriters) = 0 ↔
      ∀ g ∈ s.files.erase f, g.active = false := by
  obtain ⟨hr, hw⟩ := h.counters_released hf
  rw [hr, hw, ← Nat.cast_add, Nat.cast_eq_zero, Nat.add_eq_zero_iff, List.countP_eq_zero,
    List.countP_eq_zero, ← forall₂_and]
  simp [OpenFile.active]

/-- A release leaves the device without a buffer exactly when it leaves no file open for reading or
writing; otherwise the buffer stays. -/
theorem release_cases (h : Lifetime s) {f : OpenFile} (hf : f ∈ s.files) :
    ((∀ g ∈ s.files.erase f, g.active = false) ∧
      (scullPReleaseLocked f.mode s.dev s.heap).1.buffer = none ∧
      (scullPReleaseLocked f.mode s.dev s.heap).2 =
        s.heap.freeAll (s.dev.buffer.map Block.id).toList) ∨
    ((∃ g ∈ s.files.erase f, g.active) ∧
      (scullPReleaseLocked f.mode s.dev s.heap).1.buffer = s.dev.buffer ∧
      (scullPReleaseLocked f.mode s.dev s.heap).2 = s.heap) := by
  have hiff := h.released_counters_eq_zero_iff hf
  by_cases hnone : ∀ g ∈ s.files.erase f, g.active = false
  · refine Or.inl ⟨hnone, ?_⟩
    simp only [scullPReleaseLocked, if_pos (hiff.mpr hnone), true_and]
    cases s.dev.buffer <;> rfl
  · refine Or.inr ⟨by simpa using hnone, ?_⟩
    simp only [scullPReleaseLocked, if_neg (fun hz => hnone (hiff.mp hz)), and_self]

/-- Releasing an open file: the buffer goes with the last file open for reading or writing. -/
theorem release (h : Lifetime s) {f : OpenFile} (hf : f ∈ s.files) :
    Lifetime { s with
      dev := (scullPReleaseLocked f.mode s.dev s.heap).1
      heap := (scullPReleaseLocked f.mode s.dev s.heap).2
      files := s.files.erase f } := by
  obtain ⟨hr, hw⟩ := h.counters_released hf
  have hcount : (scullPReleaseLocked f.mode s.dev s.heap).1.nreaders =
        ((s.files.erase f).countP (·.mode.read) : ℕ) ∧
      (scullPReleaseLocked f.mode s.dev s.heap).1.nwriters =
        ((s.files.erase f).countP (·.mode.write) : ℕ) := by
    rw [← hr, ← hw]
    simp only [scullPReleaseLocked]
    split_ifs <;> exact ⟨rfl, rfl⟩
  rcases h.release_cases hf with ⟨hnone, hbuf, hheap⟩ | ⟨-, hbuf, hheap⟩
  · have hfree := h.sound.freeAll_of_perm (List.Perm.of_eq h.live_eq)
    rw [← hheap] at hfree
    refine ⟨hcount.1, hcount.2, fun g hg hact => ?_, hfree.1, ?_⟩
    · simp [hnone g hg] at hact
    · simp [hfree.2, hbuf]
  · refine ⟨hcount.1, hcount.2, fun g hg hact => ?_, ?_, ?_⟩
    · exact hbuf ▸ h.held g (List.mem_of_mem_erase hg) hact
    · simpa only [hheap] using h.sound
    · simp only [hheap, hbuf, h.live_eq]

/-- A call that keeps the block of the buffer and the counters keeps the invariant. -/
theorem transfer (h : Lifetime s) {dev' : ScullPipe} (hsame : SameBuffer s.dev dev') :
    Lifetime { s with dev := dev' } where
  nreaders_eq := hsame.nreaders_eq.trans h.nreaders_eq
  nwriters_eq := hsame.nwriters_eq.trans h.nwriters_eq
  held f hf hact := by
    obtain ⟨b, hb, hid⟩ := h.held f hf hact
    have hblock := hsame.block_eq
    rw [hb, Option.map_some, Option.map_eq_some_iff] at hblock
    obtain ⟨b', hb', heq⟩ := hblock
    exact ⟨b', hb', (congrArg Prod.fst heq).trans hid⟩
  sound := h.sound
  live_eq := by
    have hblock := congrArg (Option.map Prod.fst) hsame.block_eq
    simp only [Option.map_map] at hblock
    rw [h.live_eq]
    exact congrArg Option.toList hblock.symm

end Lifetime

/-- A call keeps the recorded size and the block of the buffer, whatever the state of the device. -/
theorem Transfer.sameBuffer {dev dev' : ScullPipe} {t : Transfer} {r : Reply}
    (h : t.exec dev = some (r, dev')) : SameBuffer dev dev' := by
  rcases exec_cases h with ⟨rfl, -, -⟩ | ⟨_, count, room, b, -, -, -, heq⟩ |
    ⟨_, count, src, b, -, -, hb, heq⟩
  · exact .refl dev'
  · simp only [scullPReadLocked] at heq
    split at heq <;> cases heq <;> exact ⟨rfl, rfl, rfl, rfl, rfl⟩
  · simp only [scullPWriteLocked] at heq
    split_ifs at heq <;> cases heq <;> exact ⟨rfl, rfl, rfl, rfl, by simp [hb]⟩

/-- Every call preserves the lifetime invariant. -/
theorem Lifetime.step {s s' : PipeSys} (h : Lifetime s) {op : PipeOp} {r : Reply}
    (hst : s.step op = some (r, s')) : Lifetime s' := by
  rcases PipeSys.step_cases hst with ⟨_, _, _, _, -, -, rfl⟩ |
    ⟨filp, mode, _, b, -, hb, rfl⟩ | ⟨filp, mode, contents, -, hb, -, rfl⟩ | ⟨f, -, hf, rfl⟩ |
    ⟨_, t, dev', -, -, -, hexec, rfl⟩ | ⟨_, _, _, -, rfl⟩
  · exact h
  · exact h.open_held hb filp mode
  · exact h.open_fresh hb filp mode _ contents
  · exact h.release hf
  · exact h.transfer (t.sameBuffer hexec)
  · exact ⟨h.nreaders_eq, h.nwriters_eq, h.held, h.sound, h.live_eq⟩

/-- **The lifetime of the buffer.** After every sequence of calls on a pipe, in particular of opens
in any mode, with allocations that fail or succeed, and of releases of open files: the counters are
the numbers of files open for reading and for writing; while such a file is open the device has a
buffer, the one it had when the file was opened, and that was never released; no buffer was released
twice; and a further release that leaves no such file open leaves the device without a buffer.

Source: `ldd/scull/pipe.c`, lines 64–114. -/
theorem buffer_lifetime (params : Scull.Params) {ops : List PipeOp} {replies : List Reply}
    {s : PipeSys} (hrun : exec PipeSys.step (.load params) ops = some (replies, s)) :
    s.dev.nreaders = s.readers ∧ s.dev.nwriters = s.writers ∧
      (∀ f ∈ s.files, f.active → ∃ b, s.dev.buffer = some b ∧ b.id = f.buf ∧
        b.id ∈ s.heap.live ∧ b.id ∉ s.heap.freed) ∧
      s.heap.freed.Nodup ∧
      ∀ (f : OpenFile) (r : Reply) (s' : PipeSys), s.step (.scullPRelease f) = some (r, s') →
        (∀ g ∈ s'.files, g.active = false) → s'.dev.buffer = none := by
  have h : Lifetime s := exec_invariant (G := fun _ _ => True) Lifetime
    (fun _ _ _ _ hs _ hst => hs.step hst) (.load params) (guarded_true _ _) hrun
  refine ⟨h.nreaders_eq, h.nwriters_eq, ?_, h.sound.freed_nodup, ?_⟩
  · intro f hf hact
    obtain ⟨b, hb, hid⟩ := h.held f hf hact
    have hlive : b.id ∈ s.heap.live := by simp [h.live_eq, hb]
    exact ⟨b, hb, hid, hlive, h.sound.disjoint b.id hlive⟩
  · intro f r s' hst hnone
    simp only [PipeSys.step] at hst
    split_ifs at hst with hf
    cases hst
    rcases h.release_cases hf with ⟨-, hbuf, -⟩ | ⟨⟨g, hg, hact⟩, -, -⟩
    · exact hbuf
    · simp [hnone g hg] at hact

/-- Opens in all modes, one of them without memory, and the releases that free the buffer. -/
theorem buffer_lifetime_two_files :
    ∃ replies s, exec PipeSys.step (.load .default)
        [.scullPOpen false 0 ⟨true, false⟩ none,
          .scullPOpen false 1 ⟨false, false⟩ (some fun _ => 0),
          .scullPOpen false 2 ⟨true, true⟩ none, .scullPRelease ⟨1, ⟨false, false⟩, 0⟩,
          .scullPRelease ⟨2, ⟨true, true⟩, 0⟩] = some (replies, s) ∧
      s.dev.nreaders = s.readers ∧ s.heap.freed.Nodup := by
  have hsome : (exec PipeSys.step (.load .default)
      [.scullPOpen false 0 ⟨true, false⟩ none,
          .scullPOpen false 1 ⟨false, false⟩ (some fun _ => 0),
        .scullPOpen false 2 ⟨true, true⟩ none, .scullPRelease ⟨1, ⟨false, false⟩, 0⟩,
        .scullPRelease ⟨2, ⟨true, true⟩, 0⟩]).isSome := rfl
  obtain ⟨⟨replies, s⟩, hrun⟩ := Option.isSome_iff_exists.mp hsome
  have h := buffer_lifetime .default hrun
  exact ⟨replies, s, hrun, h.1, h.2.2.2.1⟩

end ExKernel.Pipe
