import ExKernel.Lib.Components
import ExKernel.Lib.Kernel
import ExKernel.Lib.Owners
import Mathlib.Data.Finset.Basic

/-!
# A device with a buffer for each file

An open allocates a buffer for its file, and the release of the file releases it. All calls find the
buffer of their file through a pointer in it. So the files do not see each other, and the blocks
that are live are those of the open files: the pointers of different files differ, and none is left
over from a block that was released.

What is not seen to is the size of a write. It is copied whatever it is; and the buffer is printed
as a string before and after the copy, which ends in the buffer only if there is a zero byte. A
fresh buffer is not cleared, and may have none.

## Main definitions

* `Chardev.CharSys`, `Chardev.CharOp`, `Chardev.CharSys.step`: the device with its files.
* `Chardev.CharSys.contents`: the buffer of a file.
* `Chardev.fileStep`: a file with a buffer, by itself.
* `Chardev.Rep`: the invariant.

## Main results

* `Chardev.Rep.step`: every call preserves the invariant.
* `Chardev.contents_self`, `Chardev.contents_other`: a call on a file, and on another one.
* `Chardev.private_buffers`: the buffers over all runs.

## References

* `m_modules/char_dev/chardev.c`, lines 16, 36–38 and 98–145.
-/

namespace ExKernel.Chardev

open Transition

/-! ### The device -/

/-- The size of a buffer. -/
def BUF_LEN : ℕ := 1024

/-- The heap with the contents of its blocks, the pointer `private_data` of each file, and the files
that are open. -/
structure CharSys where
  heap : Ledger
  mem : ℕ → ℤ → UInt8
  privateData : ℕ → Option ℕ
  files : Finset ℕ

/-- The module as it is loaded, in any memory. -/
def CharSys.loaded (mem : ℕ → ℤ → UInt8) : CharSys := ⟨.empty, mem, fun _ => none, ∅⟩

/-- A call of one of the methods of the device; `answer` is what `kmalloc` finds for the buffer. -/
inductive CharOp
  | chardevOpen (file : ℕ) (answer : Option (ℤ → UInt8))
  | chardevRelease (file : ℕ)
  | chardevWrite (file count : ℕ) (src : UserBuffer)
  | chardevRead (file count room : ℕ)

/-- The file of a call. -/
def CharOp.file : CharOp → ℕ
  | chardevOpen file _ => file
  | chardevRelease file => file
  | chardevWrite file _ _ => file
  | chardevRead file _ _ => file

/-- What a call returns, and the bytes that its caller gets. -/
structure Reply where
  ret : ℤ
  bytes : List UInt8
  deriving DecidableEq

/-- A buffer can be printed with `%s`: the string ends in it. -/
def Printable (cells : ℤ → UInt8) : Prop := 0 ∈ Cells.load cells 0 BUF_LEN

instance (cells : ℤ → UInt8) : Decidable (Printable cells) := inferInstanceAs (Decidable (_ ∈ _))

namespace CharSys

/-- The block that the pointer of a file points to, if there is one. -/
def buffer? (s : CharSys) (file : ℕ) : Option ℕ :=
  (s.privateData file).bind fun p => if p ∈ s.heap.live then some p else none

/-- `chardev_open`.

Source: `m_modules/char_dev/chardev.c`, lines 98–109. -/
def chardevOpen (s : CharSys) (file : ℕ) (answer : Option (ℤ → UInt8)) : Reply × CharSys :=
  match kmalloc BUF_LEN answer s.heap with
  | (none, _) => (⟨-ENOMEM, []⟩, s)
  | (some p, heap) =>
    (⟨0, []⟩, { s with
      heap := heap
      mem := Function.update s.mem p.id p.cells
      privateData := Function.update s.privateData file (some p.id)
      files := insert file s.files })

/-- `chardev_release`.

Source: `m_modules/char_dev/chardev.c`, lines 111–118. -/
def chardevRelease (s : CharSys) (file : ℕ) : Reply × CharSys :=
  match s.privateData file with
  | none => (⟨0, []⟩, { s with files := s.files.erase file })
  | some p =>
    (⟨0, []⟩, { s with
      heap := s.heap.free p
      privateData := Function.update s.privateData file none
      files := s.files.erase file })

/-- `chardev_write`, stuck when it leaves the buffer.

Source: `m_modules/char_dev/chardev.c`, lines 120–130. -/
def chardevWrite (s : CharSys) (file count : ℕ) (src : UserBuffer) : Option (Reply × CharSys) :=
  (s.buffer? file).bind fun p =>
    if Printable (s.mem p) ∧ count ≤ BUF_LEN then
      let copy := copyFromUser (s.mem p) 0 src count
      let s' := { s with mem := Function.update s.mem p copy.2 }
      if copy.1 = false then some (⟨-EFAULT, []⟩, s')
      else if Printable copy.2 then some (⟨count, []⟩, s')
      else none
    else none

/-- `chardev_read`, stuck when there is no buffer.

Source: `m_modules/char_dev/chardev.c`, lines 132–145. -/
def chardevRead (s : CharSys) (file count room : ℕ) : Option (Reply × CharSys) :=
  (s.buffer? file).map fun p =>
    let count := if count > BUF_LEN then BUF_LEN else count
    match copyToUser (s.mem p) 0 count room with
    | none => (⟨-EFAULT, []⟩, s)
    | some bytes => (⟨count, bytes⟩, s)

/-- One call. It is stuck if its file is not open; a file that is open is not opened again. -/
def step (s : CharSys) : CharOp → Option (Reply × CharSys)
  | .chardevOpen file answer =>
    if file ∈ s.files then none else some (s.chardevOpen file answer)
  | .chardevRelease file => if file ∈ s.files then some (s.chardevRelease file) else none
  | .chardevWrite file count src =>
    if file ∈ s.files then s.chardevWrite file count src else none
  | .chardevRead file count room =>
    if file ∈ s.files then s.chardevRead file count room else none

/-- The contents of the buffer of a file, if it has one. -/
def contents (s : CharSys) (file : ℕ) : Option (ℤ → UInt8) := (s.privateData file).map s.mem

end CharSys

/-! ### A buffer by itself -/

/-- What a file is for its user: nothing while it is not open, and a buffer of its own while it is.
A call is stuck that passes the end of the buffer. -/
def fileStep (buf : Option (ℤ → UInt8)) : CharOp → Option (Reply × Option (ℤ → UInt8))
  | .chardevOpen _ answer =>
    match buf, answer with
    | some _, _ => none
    | none, none => some (⟨-ENOMEM, []⟩, none)
    | none, some cells => some (⟨0, []⟩, some cells)
  | .chardevRelease _ => buf.map fun _ => (⟨0, []⟩, none)
  | .chardevWrite _ count src => buf.bind fun cells =>
    let copy := copyFromUser cells 0 src count
    if Printable cells ∧ count ≤ BUF_LEN ∧ (copy.1 = true → Printable copy.2) then
      some (⟨if copy.1 then count else -EFAULT, []⟩, some copy.2)
    else none
  | .chardevRead _ count room => buf.map fun cells =>
    match copyToUser cells 0 (min count BUF_LEN) room with
    | none => (⟨-EFAULT, []⟩, some cells)
    | some bytes => (⟨(min count BUF_LEN : ℕ), bytes⟩, some cells)

/-! ### The invariant -/

/-- The invariant: the open files have pointers and the others have none, and the pointers own the
live blocks. -/
structure Rep (s : CharSys) : Prop where
  owned : s.heap.OwnedBy s.privateData
  isOpen : ∀ file, file ∈ s.files ↔ (s.privateData file).isSome = true

section Steps

variable {s s' t : CharSys} {op : CharOp} {r : Reply} {file : ℕ}

theorem Rep.loaded (mem : ℕ → ℤ → UInt8) : Rep (.loaded mem) where
  owned := .empty
  isOpen file := iff_of_false (Finset.notMem_empty file) (by simp [CharSys.loaded])

theorem Rep.privateData_eq_none (h : Rep s) (hfile : file ∉ s.files) : s.privateData file = none :=
  Option.not_isSome_iff_eq_none.mp fun hsome => hfile ((h.isOpen file).mpr hsome)

theorem Rep.buffer?_eq (h : Rep s) (hfile : file ∈ s.files) :
    ∃ p, s.privateData file = some p ∧ s.buffer? file = some p ∧
      s.contents file = some (s.mem p) := by
  obtain ⟨p, hp⟩ := Option.isSome_iff_exists.mp ((h.isOpen file).mp hfile)
  refine ⟨p, hp, ?_, by rw [CharSys.contents, hp, Option.map_some]⟩
  rw [CharSys.buffer?, hp, Option.bind_some, if_pos (h.owned.live hp)]

/-- **What a call can do.** An open fails and changes nothing, or gets a fresh buffer; a release
takes the buffer of its file away; a write changes the contents of the buffer; and a read changes
nothing. -/
theorem step_cases (hst : s.step op = some (r, t)) :
    (∃ file answer, op = .chardevOpen file answer ∧ file ∉ s.files ∧
      (answer = none ∧ t = s ∨ ∃ cells, answer = some cells ∧ t = { s with
        heap := s.heap.alloc
        mem := Function.update s.mem s.heap.next cells
        privateData := Function.update s.privateData file (some s.heap.next)
        files := insert file s.files })) ∨
    (∃ file, op = .chardevRelease file ∧ file ∈ s.files ∧ t = (s.chardevRelease file).2) ∨
    (∃ file count src p, op = .chardevWrite file count src ∧ file ∈ s.files ∧
      s.privateData file = some p ∧
      t = { s with
        mem := Function.update s.mem p (copyFromUser (s.mem p) 0 src count).2 }) ∨
    ∃ file count room, op = .chardevRead file count room ∧ file ∈ s.files ∧ t = s := by
  have hpointer : ∀ file p, s.buffer? file = some p → s.privateData file = some p := by
    intro file p hp
    obtain ⟨q, hq, hp⟩ := Option.bind_eq_some_iff.mp hp
    split_ifs at hp
    rw [hq, hp]
  cases op with
  | chardevOpen file answer =>
    simp only [CharSys.step] at hst
    split_ifs at hst with hfile
    have hneg : ¬ ((BUF_LEN : ℕ) : ℤ) < 0 := by omega
    refine .inl ⟨file, answer, rfl, hfile, ?_⟩
    cases answer with
    | none =>
      simp only [CharSys.chardevOpen, kmalloc, if_neg hneg] at hst
      cases hst
      exact .inl ⟨rfl, rfl⟩
    | some cells =>
      simp only [CharSys.chardevOpen, kmalloc, if_neg hneg] at hst
      cases hst
      exact .inr ⟨cells, rfl, rfl⟩
  | chardevRelease file =>
    simp only [CharSys.step] at hst
    split_ifs at hst with hfile
    refine .inr (.inl ⟨file, rfl, hfile, ?_⟩)
    exact (congrArg Prod.snd (Option.some.inj hst)).symm
  | chardevWrite file count src =>
    simp only [CharSys.step] at hst
    split_ifs at hst with hfile
    obtain ⟨p, hp, hst⟩ := Option.bind_eq_some_iff.mp hst
    refine .inr (.inr (.inl ⟨file, count, src, p, rfl, hfile, hpointer file p hp, ?_⟩))
    dsimp only at hst
    repeat' split at hst
    all_goals cases hst <;> rfl
  | chardevRead file count room =>
    simp only [CharSys.step] at hst
    split_ifs at hst with hfile
    obtain ⟨p, -, hst⟩ := Option.map_eq_some_iff.mp hst
    refine .inr (.inr (.inr ⟨file, count, room, rfl, hfile, ?_⟩))
    dsimp only at hst
    repeat' split at hst
    all_goals
      cases hst
      rfl

/-- The invariant is kept by every call. -/
theorem Rep.step (h : Rep s) (hst : s.step op = some (r, t)) : Rep t := by
  rcases step_cases hst with ⟨file, answer, -, hfile, ⟨-, rfl⟩ | ⟨cells, -, rfl⟩⟩ |
    ⟨file, -, hfile, rfl⟩ | ⟨file, count, src, p, -, -, -, rfl⟩ | ⟨file, count, room, -, -, rfl⟩
  · exact h
  · refine ⟨h.owned.alloc (h.privateData_eq_none hfile), fun file' => ?_⟩
    simp only [Finset.mem_insert, Function.update_apply, h.isOpen file']
    split_ifs with heq
    · simp [heq]
    · simp [heq]
  · obtain ⟨p, hp, -⟩ := h.buffer?_eq hfile
    simp only [CharSys.chardevRelease, hp]
    refine ⟨h.owned.free hp, fun file' => ?_⟩
    simp only [Finset.mem_erase, Function.update_apply, h.isOpen file']
    split_ifs with heq
    · simp [heq]
    · simp [heq]
  · exact ⟨h.owned, h.isOpen⟩
  · exact h

/-- The buffer of a file is the same if its pointer and its block are. -/
theorem contents_eq (hptr : t.privateData file = s.privateData file)
    (hmem : ∀ p, s.privateData file = some p → t.mem p = s.mem p) :
    t.contents file = s.contents file := by
  rw [CharSys.contents, CharSys.contents, hptr]
  exact Option.map_congr hmem

/-- **A call on another file** leaves the buffer of a file alone. -/
theorem contents_other (h : Rep s) (hst : s.step op = some (r, t)) (hother : op.file ≠ file) :
    t.contents file = s.contents file := by
  rcases step_cases hst with ⟨file', answer, rfl, -, ⟨-, rfl⟩ | ⟨cells, -, rfl⟩⟩ |
    ⟨file', rfl, hfile, rfl⟩ | ⟨file', count, src, p, rfl, -, hp, rfl⟩ |
    ⟨file', count, room, rfl, -, rfl⟩
  · rfl
  · have hne : file ≠ file' := fun heq => hother heq.symm
    refine contents_eq (Function.update_of_ne hne _ _) fun p hp => Function.update_of_ne ?_ _ _
    rintro rfl
    exact absurd (h.owned.sound.live_lt _ (h.owned.live hp)) (lt_irrefl _)
  · have hne : file ≠ file' := fun heq => hother heq.symm
    obtain ⟨p, hp, -⟩ := h.buffer?_eq hfile
    simp only [CharSys.chardevRelease, hp]
    exact contents_eq (Function.update_of_ne hne _ _) fun _ _ => rfl
  · refine contents_eq rfl fun q hq => Function.update_of_ne ?_ _ _
    rintro rfl
    exact hother (h.owned.inj file' file q hp hq)
  · rfl

/-- **A call on its own file** does to the buffer what it does to one by itself. -/
theorem contents_self (h : Rep s) (op : CharOp) :
    (s.step op).map (fun out => (out.1, out.2.contents op.file)) =
      fileStep (s.contents op.file) op := by
  have hclosed : ∀ file, file ∉ s.files → s.contents file = none := by
    intro file hfile
    rw [CharSys.contents, h.privateData_eq_none hfile, Option.map_none]
  cases op with
  | chardevOpen file answer =>
    by_cases hfile : file ∈ s.files
    · obtain ⟨p, -, -, hcontents⟩ := h.buffer?_eq hfile
      simp only [CharSys.step, if_pos hfile, CharOp.file, hcontents, fileStep, Option.map_none]
    · have hneg : ¬ ((BUF_LEN : ℕ) : ℤ) < 0 := by omega
      have hnone := hclosed file hfile
      simp only [CharSys.step, if_neg hfile, CharOp.file, hnone, Option.map_some,
        CharSys.chardevOpen, kmalloc, if_neg hneg]
      cases answer with
      | none => simp only [hnone, fileStep]
      | some cells => simp [CharSys.contents, fileStep]
  | chardevRelease file =>
    by_cases hfile : file ∈ s.files
    · obtain ⟨p, hp, -⟩ := h.buffer?_eq hfile
      simp only [CharSys.step, if_pos hfile, CharOp.file, fileStep, Option.map_some,
        CharSys.chardevRelease, hp, CharSys.contents, Function.update_self, Option.map_none]
    · simp only [CharSys.step, if_neg hfile, CharOp.file, hclosed file hfile, fileStep,
        Option.map_none]
  | chardevWrite file count src =>
    by_cases hfile : file ∈ s.files
    · obtain ⟨p, hp, hbuffer, hcontents⟩ := h.buffer?_eq hfile
      simp only [CharSys.step, if_pos hfile, CharOp.file, hcontents, fileStep, Option.bind_some,
        CharSys.chardevWrite, hbuffer]
      by_cases hfits : Printable (s.mem p) ∧ count ≤ BUF_LEN
      · rw [if_pos hfits]
        cases hcopy : (copyFromUser (s.mem p) 0 src count).1 with
        | false => simp [hfits, CharSys.contents, hp]
        | true =>
          by_cases hafter : Printable (copyFromUser (s.mem p) 0 src count).2
          · simp [hfits, hafter, CharSys.contents, hp]
          · simp [hafter]
      · rw [if_neg hfits, if_neg fun hall => hfits ⟨hall.1, hall.2.1⟩, Option.map_none]
    · simp only [CharSys.step, if_neg hfile, CharOp.file, hclosed file hfile, fileStep,
        Option.map_none, Option.bind_none]
  | chardevRead file count room =>
    by_cases hfile : file ∈ s.files
    · obtain ⟨p, hp, hbuffer, hcontents⟩ := h.buffer?_eq hfile
      have hcount : (if count > BUF_LEN then BUF_LEN else count) = min count BUF_LEN := by
        split_ifs <;> omega
      simp only [CharSys.step, if_pos hfile, CharOp.file, hcontents, fileStep, Option.map_some,
        CharSys.chardevRead, hbuffer, hcount]
      cases copyToUser (s.mem p) 0 (min count BUF_LEN) room <;> simp only [hcontents]
    · simp only [CharSys.step, if_neg hfile, CharOp.file, hclosed file hfile, fileStep,
        Option.map_none]

end Steps

/-- **Every file has a buffer of its own.** A run of opens, releases, reads and writes, with
allocations that fail or find any bytes, exists if and only if it exists for every file by itself,
with a buffer that nothing else has access to; and the replies to the calls on a file, and the
contents of its buffer, are those that it has by itself. The live blocks are those of the open
files, and none was released twice.

Source: `m_modules/char_dev/chardev.c`, lines 98–145. -/
theorem private_buffers (mem : ℕ → ℤ → UInt8) (es : List CharOp) :
    ((∃ rs s, exec CharSys.step (.loaded mem) es = some (rs, s)) ↔
      ∀ file, ∃ rs buf, exec fileStep none (eventsOf CharOp.file file es) = some (rs, buf)) ∧
    ∀ rs s, exec CharSys.step (.loaded mem) es = some (rs, s) →
      (∀ file, exec fileStep none (eventsOf CharOp.file file es) =
        some (repliesOf (fun op => op.file = file) es rs, s.contents file)) ∧
      s.heap.Sound ∧
      ∀ p, p ∈ s.heap.live ↔ ∃ file ∈ s.files, s.privateData file = some p := by
  obtain ⟨hexists, hruns⟩ := exec_components fileStep (fun file s => CharSys.contents s file)
    CharOp.file Rep (fun _ op h => contents_self h op)
    (fun _ _ _ _ h hst => ⟨h.step hst, fun file hne => contents_other h hst hne.symm⟩)
    (Rep.loaded mem) es
  refine ⟨hexists, fun rs s hrun => ?_⟩
  obtain ⟨h, hparts⟩ := hruns rs s hrun
  refine ⟨hparts, h.owned.sound, fun p => (h.owned.live_iff p).trans (exists_congr fun file => ?_)⟩
  rw [h.isOpen]
  exact ⟨fun hp => ⟨by rw [hp]; rfl, hp⟩, fun hp => hp.2⟩

end ExKernel.Chardev
