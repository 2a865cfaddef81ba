import ExKernel.Lib.Kernel
import ExKernel.Lib.Transition

/-!
# The device of one page

The page of `mmap_dev` is an array of `int`, and the position of a file is an index into it: `data`
is a pointer to `int`, so that adding a position to it goes four bytes at a time. A read is refused
behind the position `DATA_SIZE`, which is a number of bytes, and a write is never refused. So a
transfer stays in the page as long as its position is one of the 1024 indices, and a transfer at a
later position that is not refused leaves it.

The calls go through the file system layer, which refuses to transfer at a position that is negative
or so large that the end of the transfer is. What the calls do is compared with an array that refuses
every index it does not have.

## Main definitions

* `Mm.mmapRead`, `Mm.mmapWrite`, `Mm.mmapLseek`: the operations of the driver.
* `Mm.MmapDev.step`: the calls on the device.
* `Mm.IntArray.step`: the calls on an array.

## Main results

* `Mm.confined_iff`: when a run stays in the page and is one of the array.

## References

* `m_modules/mm/mmap_dev.c`, lines 14, 22 and 95–141; `m_modules/mm/mmap_app.c`, lines 13–35.
-/

namespace ExKernel.Mm

open Transition

/-- `DATA_SIZE`, one page. -/
def DATA_SIZE : ℕ := 4096

/-- `sizeof(int)`. -/
def sizeofInt : ℕ := 4

/-- The number of `int`s of the page. -/
def dataLength : ℕ := DATA_SIZE / sizeofInt

/-! ### The operations -/

/-- The distance of the pointer `data + offset` from `data`, in bytes. -/
def element (offset : ℤ) : ℤ := loffT (sizeofInt * offset)

/-- What a call answers: its return value, the bytes of the page that it transfers, as their offset
and number, and what its caller then has in the buffer of a read. -/
structure Reply where
  ret : ℤ
  range : Option (ℤ × ℕ) := none
  bytes : Option (List UInt8) := none
  deriving DecidableEq

/-- `mmap_read`: the reply, and the position. That the copy fails is not noticed.

Source: `m_modules/mm/mmap_dev.c`, lines 95–105. -/
def mmapRead (data : ℤ → UInt8) (count room : ℕ) (offset : ℤ) : Reply × ℤ :=
  if offset > DATA_SIZE then (⟨- EIO, none, none⟩, offset)
  else (⟨count, some (element offset, count), copyToUser data (element offset) count room⟩,
    loffT (offset + 1))

/-- `mmap_write`: the reply, the position and the memory. That the copy fails is not noticed.

Source: `m_modules/mm/mmap_dev.c`, lines 107–115. -/
def mmapWrite (data : ℤ → UInt8) (count : ℕ) (src : UserBuffer) (offset : ℤ) :
    Reply × ℤ × (ℤ → UInt8) :=
  (⟨count, some (element offset, count), none⟩, loffT (offset + 1),
    (copyFromUser data (element offset) src count).2)

/-- `mmap_lseek`: the return value, and the position.

Source: `m_modules/mm/mmap_dev.c`, lines 117–141. -/
def mmapLseek (fPos : ℤ) (offset : Int64) (org : Int32) : ℤ × ℤ :=
  if org = 0 then (offset.toInt, offset.toInt)
  else if org = 1 then (loffT (fPos + offset.toInt), loffT (fPos + offset.toInt))
  else (-EINVAL, fPos)

/-! ### The device -/

/-- The calls on the open files. A transfer is of one `int`. -/
inductive Call
  | lseek (file : ℕ) (offset : Int64) (org : Int32)
  | read (file : ℕ) (room : ℕ)
  | write (file : ℕ) (src : UserBuffer)

/-- The memory around the page, and the positions of the files. -/
structure MmapDev where
  data : ℤ → UInt8
  files : ℕ → ℤ

/-- The file system layer admits a transfer of `count` bytes: neither its position nor its end is
negative as a `loff_t`. -/
def Admitted (pos : ℤ) (count : ℕ) : Prop := 0 ≤ pos ∧ pos + count < 2 ^ 63

instance (pos : ℤ) (count : ℕ) : Decidable (Admitted pos count) :=
  inferInstanceAs (Decidable (_ ∧ _))

/-- The calls as the file system layer makes them. -/
def MmapDev.step (s : MmapDev) : Call → Option (Reply × MmapDev)
  | .lseek file offset org =>
    let out := mmapLseek (s.files file) offset org
    some (⟨out.1, none, none⟩, { s with files := Function.update s.files file out.2 })
  | .read file room =>
    if Admitted (s.files file) sizeofInt then
      let out := mmapRead s.data sizeofInt room (s.files file)
      some (out.1, { s with files := Function.update s.files file out.2 })
    else some (⟨-EINVAL, none, none⟩, s)
  | .write file src =>
    if Admitted (s.files file) sizeofInt then
      let out := mmapWrite s.data sizeofInt src (s.files file)
      some (out.1, ⟨out.2.2, Function.update s.files file out.2.1⟩)
    else some (⟨-EINVAL, none, none⟩, s)

/-! ### The array -/

/-- An array of the bytes of an `int` each, and the positions of the files. -/
structure IntArray where
  ints : ℤ → List UInt8
  files : ℕ → ℤ

/-- The bytes of an `int` after some of them were overwritten. -/
def overlay (bytes int : List UInt8) : List UInt8 := bytes ++ int.drop bytes.length

/-- The calls on an array: `none` is a refusal, and otherwise there is a return value and what the
caller of a read then has in the buffer. -/
def IntArray.step (a : IntArray) : Call → Option (Option (ℤ × Option (List UInt8)) × IntArray)
  | .lseek file offset org =>
    let out := mmapLseek (a.files file) offset org
    some (if out.1 < 0 then none else some (out.1, none),
      { a with files := Function.update a.files file out.2 })
  | .read file room =>
    let pos := a.files file
    if 0 ≤ pos ∧ pos < dataLength then
      some (some (sizeofInt, if sizeofInt ≤ room then some (a.ints pos) else none),
        { a with files := Function.update a.files file (pos + 1) })
    else some (none, a)
  | .write file src =>
    let pos := a.files file
    if 0 ≤ pos ∧ pos < dataLength then
      some (some (sizeofInt, none),
        ⟨Function.update a.ints pos (overlay (src.copied sizeofInt) (a.ints pos)),
          Function.update a.files file (pos + 1)⟩)
    else some (none, a)

/-- The page as an array. -/
def MmapDev.array (s : MmapDev) : IntArray :=
  ⟨fun i => Cells.load s.data (sizeofInt * i) sizeofInt, s.files⟩

/-- A reply to which the bytes transferred are bytes of the page. -/
def Reply.Inside (r : Reply) : Prop :=
  ∀ range ∈ r.range, 0 ≤ range.1 ∧ range.1 + range.2 ≤ DATA_SIZE

/-- A reply that is a refusal, or not. -/
def Reply.answer (r : Reply) : Option (ℤ × Option (List UInt8)) :=
  if r.ret < 0 then none else some (r.ret, r.bytes)

/-- The run transfers bytes of the page only, and its replies are those of the array. -/
def Confined (s : MmapDev) (calls : List Call) : Prop :=
  ∃ rs u as a, exec MmapDev.step s calls = some (rs, u) ∧
    exec IntArray.step s.array calls = some (as, a) ∧
    List.Forall₂ (fun r answer => r.Inside ∧ r.answer = answer) rs as

/-- A call that does not come to a transfer behind the array: a write is at an index or refused by
the file system layer, and a read is, or is refused by the driver. -/
def InRange (s : MmapDev) : Call → Prop
  | .lseek _ _ _ => True
  | .read file _ => s.files file < dataLength ∨ DATA_SIZE < s.files file
  | .write file _ => s.files file < dataLength ∨ ¬ Admitted (s.files file) sizeofInt

instance (s : MmapDev) (c : Call) : Decidable (InRange s c) :=
  match c with
  | .lseek _ _ _ => .isTrue trivial
  | .read _ _ => inferInstanceAs (Decidable (_ ∨ _))
  | .write _ _ => inferInstanceAs (Decidable (_ ∨ _))

/-! ### Single calls -/

theorem element_of_range {pos : ℤ} (h : 0 ≤ pos) (h' : pos < dataLength) :
    element pos = sizeofInt * pos := by
  simp only [dataLength, DATA_SIZE, sizeofInt] at h'
  exact loffT_of_range (by simp only [sizeofInt]; omega) (by simp only [sizeofInt]; omega)

theorem next_of_range {pos : ℤ} (h : 0 ≤ pos) (h' : pos < dataLength) :
    loffT (pos + 1) = pos + 1 := by
  simp only [dataLength, DATA_SIZE, sizeofInt] at h'
  exact loffT_of_range (by omega) (by omega)

theorem inside_of_range {pos ret : ℤ} {bytes : Option (List UInt8)} (h : 0 ≤ pos)
    (h' : pos < dataLength) : (⟨ret, some (element pos, sizeofInt), bytes⟩ : Reply).Inside := by
  intro range hrange
  obtain rfl := Option.some.inj hrange
  rw [element_of_range h h']
  simp only [dataLength, DATA_SIZE, sizeofInt] at h' ⊢
  omega

theorem array_store (data : ℤ → UInt8) (files : ℕ → ℤ) (src : UserBuffer) (pos : ℤ) :
    MmapDev.array ⟨Cells.store data (sizeofInt * pos) (src.copied sizeofInt), files⟩ =
      ⟨Function.update (MmapDev.array ⟨data, files⟩).ints pos
        (overlay (src.copied sizeofInt) ((MmapDev.array ⟨data, files⟩).ints pos)), files⟩ := by
  have hlen : (src.copied sizeofInt).length ≤ sizeofInt := by
    unfold UserBuffer.copied
    split_ifs <;> exact List.length_take_le _ _
  simp only [MmapDev.array, IntArray.mk.injEq, and_true]
  funext i
  by_cases hi : i = pos
  · subst hi
    rw [Function.update_self, overlay, Cells.load_store_of_le _ _ _ hlen]
  · rw [Function.update_of_ne hi, Cells.load_store_of_disjoint]
    simp only [sizeofInt] at hlen ⊢
    omega

/-- A call on the page and on the array: the replies agree exactly in range, and then the page is
the array again. -/
def Agrees (s : MmapDev) (c : Call) : Prop :=
  ∃ r t answer b, s.step c = some (r, t) ∧ s.array.step c = some (answer, b) ∧
    ((r.Inside ∧ r.answer = answer) ↔ InRange s c) ∧ (InRange s c → b = t.array)

variable {s : MmapDev} {c : Call}

theorem index_of_not_admitted {pos : ℤ} (h : ¬ Admitted pos sizeofInt) :
    ¬ (0 ≤ pos ∧ pos < dataLength) ∧ (pos < dataLength ∨ DATA_SIZE < pos) := by
  simp only [Admitted, DATA_SIZE, dataLength, sizeofInt] at h ⊢
  omega

theorem agrees_of_refused {ret : ℤ} (hret : ret < 0)
    (hstep : s.step c = some (⟨ret, none, none⟩, s))
    (harray : s.array.step c = some (none, s.array)) (hin : InRange s c) : Agrees s c :=
  ⟨_, _, _, _, hstep, harray,
    iff_of_true ⟨by simp [Reply.Inside], by simp [Reply.answer, hret]⟩ hin, fun _ => rfl⟩

theorem agrees_of_accepted {r : Reply} {t : MmapDev} (hret : 0 ≤ r.ret)
    (hstep : s.step c = some (r, t)) (harray : s.array.step c = some (none, s.array))
    (hout : ¬ InRange s c) : Agrees s c := by
  refine ⟨_, _, _, _, hstep, harray, iff_of_false ?_ hout, fun hin => absurd hin hout⟩
  rintro ⟨-, hanswer⟩
  rw [Reply.answer, if_neg (not_lt.mpr hret)] at hanswer
  cases hanswer

theorem agrees_read (s : MmapDev) (file room : ℕ) : Agrees s (.read file room) := by
  have harray : ¬ (0 ≤ s.files file ∧ s.files file < dataLength) →
      s.array.step (.read file room) = some (none, s.array) := fun h => if_neg h
  by_cases hadmitted : Admitted (s.files file) sizeofInt
  swap
  · obtain ⟨hindex, hin⟩ := index_of_not_admitted hadmitted
    exact agrees_of_refused (show -EINVAL < 0 by decide) (if_neg hadmitted) (harray hindex) hin
  by_cases hbehind : DATA_SIZE < s.files file
  · have hread : mmapRead s.data sizeofInt room (s.files file) =
        (⟨- EIO, none, none⟩, s.files file) := if_pos hbehind
    refine agrees_of_refused (show - EIO < 0 by decide) ?_ (harray ?_) (Or.inr hbehind)
    · simp only [MmapDev.step, if_pos hadmitted, hread, Function.update_eq_self]
    · simp only [DATA_SIZE, dataLength, sizeofInt] at hbehind ⊢
      omega
  have hread : mmapRead s.data sizeofInt room (s.files file) = (_, _) := if_neg hbehind
  have hstep : s.step (.read file room) =
      some ((mmapRead s.data sizeofInt room (s.files file)).1, _) := if_pos hadmitted
  rw [hread] at hstep
  by_cases hlt : s.files file < dataLength
  · have hpos : 0 ≤ s.files file := hadmitted.1
    refine ⟨_, _, _, _, hstep, if_pos ⟨hpos, hlt⟩, iff_of_true ⟨inside_of_range hpos hlt, ?_⟩
      (Or.inl hlt), fun _ => ?_⟩
    · rw [element_of_range hpos hlt]
      rfl
    · rw [next_of_range hpos hlt]
      rfl
  · refine agrees_of_accepted (Int.natCast_nonneg _) hstep (harray fun h => hlt h.2) ?_
    rintro (h | h)
    · exact hlt h
    · exact hbehind h

theorem agrees_write (s : MmapDev) (file : ℕ) (src : UserBuffer) :
    Agrees s (.write file src) := by
  have harray : ¬ (0 ≤ s.files file ∧ s.files file < dataLength) →
      s.array.step (.write file src) = some (none, s.array) := fun h => if_neg h
  by_cases hadmitted : Admitted (s.files file) sizeofInt
  swap
  · obtain ⟨hindex, -⟩ := index_of_not_admitted hadmitted
    exact agrees_of_refused (show -EINVAL < 0 by decide) (if_neg hadmitted) (harray hindex)
      (Or.inr hadmitted)
  have hstep : s.step (.write file src) = some (_, _) := if_pos hadmitted
  by_cases hlt : s.files file < dataLength
  · have hpos : 0 ≤ s.files file := hadmitted.1
    refine ⟨_, _, _, _, hstep, if_pos ⟨hpos, hlt⟩, iff_of_true ⟨inside_of_range hpos hlt, rfl⟩
      (Or.inl hlt),
      fun _ => ?_⟩
    simp only [mmapWrite, copyFromUser_snd, element_of_range hpos hlt, next_of_range hpos hlt,
      array_store]
    rfl
  · refine agrees_of_accepted (Int.natCast_nonneg _) hstep (harray fun h => hlt h.2) ?_
    rintro (h | h)
    · exact hlt h
    · exact h hadmitted

theorem MmapDev.agrees (s : MmapDev) (c : Call) : Agrees s c := by
  cases c with
  | lseek file offset org =>
    exact ⟨_, _, _, _, rfl, rfl, iff_of_true ⟨by simp [Reply.Inside], rfl⟩ trivial, fun _ => rfl⟩
  | read file room => exact agrees_read s file room
  | write file src => exact agrees_write s file src

/-! ### Runs -/

/-- **When the device stays in its page.** In a run of calls, every transfer that is not refused is
of bytes of the page, and the device is an array of 1024 `int`s, exactly if no write is made at a
position from 1024 on that the file system layer admits, and no read at one from 1024 to 4096.

Source: `m_modules/mm/mmap_dev.c`, lines 95–141. -/
theorem confined_iff (s : MmapDev) (calls : List Call) :
    Confined s calls ↔ Guarded MmapDev.step InRange s calls := by
  refine exec_agrees_iff (fun s a => a = s.array) ?_ rfl
  rintro s a c rfl
  exact s.agrees c

/-- A write at the position 1024 is accepted, and goes to the bytes behind the page. -/
theorem write_behind_page :
    ¬ Confined ⟨fun _ => 0, fun _ => 0⟩ [.lseek 0 1024 0, .write 0 ⟨[1, 2, 3, 4], []⟩] := by
  rintro ⟨rs, u, as, a, hrun, -, hall⟩
  have hreplies : exec MmapDev.step ⟨fun _ => 0, fun _ => 0⟩
      [.lseek 0 1024 0, .write 0 ⟨[1, 2, 3, 4], []⟩] =
        some ([⟨1024, none, none⟩, ⟨4, some (4096, 4), none⟩], _) := rfl
  cases hreplies.symm.trans hrun
  cases hall with
  | cons _ hall =>
    cases hall with
    | cons hwrite _ => exact absurd (hwrite.1 (4096, 4) rfl).2 (by decide)

end ExKernel.Mm
