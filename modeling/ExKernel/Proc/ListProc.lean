import ExKernel.Lib.Decimal
import ExKernel.Lib.Kernel
import ExKernel.Lib.Transition

/-!
# Records written to a file of the proc file system

A write of the text of two integers adds a record to a list. The driver has a flag, shared by all
writers, that makes every second call return zero at once, whatever it is about; a call whose copy
fails flips it, too. The text is copied to an array on the stack and is not terminated, so that what
is read as the second integer may go on behind the text.

## Main definitions

* `Proc.addData`, `Proc.procWrite`: the operations of the driver.
* `Proc.Call`: a call with the text of two integers.
* `Proc.Kept`: no record is lost.
* `Proc.Heard`, `Proc.Granted`: what a call finds whose record is not lost.

## Main results

* `Proc.sscanf_pair`: which texts are read as they were meant.
* `Proc.records_kept_iff`: when no record is lost.

## References

* `m_modules/proc/list_proc.c`, lines 16–43 and 118–145.
-/

namespace ExKernel.Proc

open Decimal Transition

/-! ### The driver -/

/-- `struct m_info`, without its place in the list. -/
structure MInfo where
  a : Int32
  b : Int32
  deriving DecidableEq

/-- `add_data`: the return value, and the list.

Source: `m_modules/proc/list_proc.c`, lines 16–34. -/
def addData (mList : List MInfo) (a b : Int32) (kzalloc : Bool) : ℤ × List MInfo :=
  if kzalloc then (0, ⟨a, b⟩ :: mList) else (-ENOMEM, mList)

/-- `add_sample_data`, when there is memory for both records.

Source: `m_modules/proc/list_proc.c`, lines 36–43. -/
def addSampleData : List MInfo := (addData (addData [] 10 20 true).2 30 40 true).2

/-- `%d`, read as an `int`, and what is behind it. -/
def scanInt (s : List UInt8) : Option (Int32 × List UInt8) :=
  (scan (skipSpaces s)).map fun out => (Int32.ofInt out.1, out.2)

/-- `sscanf(buf, "%d %d", &a, &b)`: the values of `a` and `b` after it, from those before. -/
def sscanf (buf : List UInt8) (a b : Int32) : Int32 × Int32 :=
  match scanInt buf with
  | none => (a, b)
  | some (a, rest) =>
    match scanInt (skipSpaces rest) with
    | none => (a, b)
    | some (b, _) => (a, b)

/-- What stands on the stack when a call begins: the memory from `buf` on, and the two variables. -/
structure Frame where
  buf : List UInt8
  a : Int32
  b : Int32

/-- The list, and the static variable of `proc_write`. -/
structure ProcSys where
  mList : List MInfo
  finished : Bool
  deriving DecidableEq

/-- The driver when its module is loaded. -/
def ProcSys.loaded : ProcSys := ⟨addSampleData, false⟩

/-- `proc_write`: the return value, and the driver. There is no result when the text does not fit in
the array of 128 bytes, which is not checked.

Source: `m_modules/proc/list_proc.c`, lines 118–145. -/
def procWrite (s : ProcSys) (data : UserBuffer) (len : ℕ) (frame : Frame) (kzalloc : Bool) :
    Option (ℤ × ProcSys) :=
  if s.finished then some (0, { s with finished := false })
  else if len ≤ 128 then
    if len ≤ data.bytes.length then
      let ab := sscanf (data.bytes.take len ++ frame.buf.drop len) frame.a frame.b
      let out := addData s.mList ab.1 ab.2 kzalloc
      if out.1 ≠ 0 then some (-EFAULT, ⟨out.2, true⟩) else some (len, ⟨out.2, true⟩)
    else some (-EFAULT, { s with finished := true })
  else none

/-! ### Texts of two integers -/

/-- The text of the two integers of a record, with spaces between them. -/
def IsPair (text : List UInt8) (info : MInfo) : Prop :=
  ∃ ta spaces tb, text = ta ++ (spaces ++ tb) ∧ IsNumeral ta info.a.toInt ∧ spaces ≠ [] ∧
    (∀ c ∈ spaces, isSpace c = true) ∧ IsNumeral tb info.b.toInt

theorem scanInt_numeral {text rest : List UInt8} {v : Int32} (h : IsNumeral text v.toInt)
    (hrest : NoDigitHead rest) : scanInt (text ++ rest) = some (v, rest) := by
  have hskip : skipSpaces ([] ++ (text ++ rest)) = text ++ rest :=
    skipSpaces_append (by simp) h rest
  rw [List.nil_append] at hskip
  rw [scanInt, hskip, scan_append h hrest, Option.map_some, Int32.ofInt_toInt]

/-- **What is read** of the text of two integers is these, if what stands behind it does not begin
with a digit. -/
theorem sscanf_pair {text rest : List UInt8} {info : MInfo} (h : IsPair text info)
    (hrest : NoDigitHead rest) (a b : Int32) : sscanf (text ++ rest) a b = (info.a, info.b) := by
  obtain ⟨ta, spaces, tb, rfl, hta, hne, hspaces, htb⟩ := h
  have hbehind : NoDigitHead (spaces ++ (tb ++ rest)) := by
    cases spaces with
    | nil => exact absurd rfl hne
    | cons c spaces =>
      intro d hd
      obtain rfl : c = d := Option.some.inj hd
      exact isDigit_of_isSpace (hspaces c List.mem_cons_self)
  have hfirst := scanInt_numeral hta hbehind
  have hskip : skipSpaces (spaces ++ (tb ++ rest)) = tb ++ rest :=
    skipSpaces_append hspaces htb rest
  have hsecond := scanInt_numeral htb hrest
  simp only [sscanf, List.append_assoc, hfirst, hskip, hsecond]

/-! ### Calls -/

/-- A call with the text of two integers, and possibly a newline: how many bytes of it can be read,
what stands on the stack, and whether there is memory for a record. -/
structure Call where
  text : List UInt8
  info : MInfo
  isText : IsPair text info ∨ ∃ pair, IsPair pair info ∧ text = pair ++ [newline]
  short : text.length < 128
  readable : ℕ
  frame : Frame
  kzalloc : Bool

namespace Call

/-- The copy from the caller succeeds. -/
def Copied (c : Call) : Prop := c.text.length ≤ c.readable

instance (c : Call) : Decidable c.Copied := inferInstanceAs (Decidable (_ ≤ _))

/-- What is read of the call, with what stands behind its text on the stack. -/
def read (c : Call) : Int32 × Int32 :=
  sscanf (c.text ++ c.frame.buf.drop c.text.length) c.frame.a c.frame.b

theorem length_pos (c : Call) : 0 < c.text.length := by
  have hpair : ∀ text info, IsPair text info → 0 < text.length := by
    rintro text info ⟨ta, spaces, tb, rfl, -, hne, -, -⟩
    have := List.length_pos_iff.mpr hne
    simp only [List.length_append]
    omega
  rcases c.isText with h | ⟨pair, -, htext⟩
  · exact hpair _ _ h
  · simp [htext]

/-- The text ends with a newline. -/
def IsLine (c : Call) : Prop := ∃ pair, IsPair pair c.info ∧ c.text = pair ++ [newline]

theorem IsLine.read_eq {c : Call} (h : c.IsLine) : c.read = (c.info.a, c.info.b) := by
  obtain ⟨pair, hpair, htext⟩ := h
  have hrest : NoDigitHead ([newline] ++ c.frame.buf.drop c.text.length) := by
    intro d hd
    obtain rfl : newline = d := Option.some.inj hd
    rfl
  rw [Call.read]
  nth_rewrite 1 [htext]
  rw [List.append_assoc, sscanf_pair hpair hrest]

end Call

/-- A call on the driver. -/
def ProcSys.step (s : ProcSys) (c : Call) : Option (ℤ × ProcSys) :=
  procWrite s ⟨c.text.take c.readable, []⟩ c.text.length c.frame c.kzalloc

/-- The records of the calls whose copy succeeds, the newest first. -/
def recordsOf (calls : List Call) : List MInfo :=
  ((calls.filter (·.Copied)).map Call.info).reverse

/-- No record is lost: the list has the records of the calls whose copy succeeds in front of the old
ones, and each of these calls returns the length of its text. -/
def Kept (s : ProcSys) (calls : List Call) : Prop :=
  ∃ rs u, exec ProcSys.step s calls = some (rs, u) ∧ u.mList = recordsOf calls ++ s.mList ∧
    List.Forall₂ (fun (c : Call) r => c.Copied → r = (c.text.length : ℤ)) calls rs

/-- A call whose copy succeeds finds the flag clear and memory for its record, and is read as it was
meant. -/
def Heard (s : ProcSys) (c : Call) : Prop :=
  c.Copied → s.finished = false ∧ c.kzalloc = true ∧ c.read = (c.info.a, c.info.b)

/-- A call whose copy succeeds finds the flag clear and memory for its record. -/
def Granted (s : ProcSys) (c : Call) : Prop :=
  c.Copied → s.finished = false ∧ c.kzalloc = true

theorem heard_iff_of_isLine {s : ProcSys} {c : Call} (h : c.IsLine) : Heard s c ↔ Granted s c := by
  simp only [Heard, Granted, h.read_eq, and_true]

/-! ### Single calls -/

section Step

variable {s t : ProcSys} {c : Call} {r : ℤ}

theorem ProcSys.step_eq (s : ProcSys) (c : Call) :
    s.step c = some (
      if s.finished then (0, { s with finished := false })
      else if c.Copied ∧ c.kzalloc = true then
        ((c.text.length : ℤ), ⟨⟨c.read.1, c.read.2⟩ :: s.mList, true⟩)
      else (-EFAULT, ⟨s.mList, true⟩)) := by
  have hshort : c.text.length ≤ 128 := c.short.le
  rw [ProcSys.step, procWrite]
  by_cases hfinished : s.finished = true
  · rw [if_pos hfinished, if_pos hfinished]
  rw [if_neg hfinished, if_neg hfinished, if_pos hshort]
  by_cases hcopied : c.Copied
  · have htake : c.text.take c.readable = c.text := List.take_of_length_le hcopied
    simp only [htake, le_refl, if_true, List.take_length, hcopied, true_and]
    cases hk : c.kzalloc <;> simp [addData, ENOMEM, Call.read]
  · have hlen : ¬ c.text.length ≤ (c.text.take c.readable).length := by
      rw [List.length_take, le_min_iff]
      exact fun h => hcopied h.1
    rw [if_neg hlen, if_neg fun h => hcopied h.1]

/-- A call that returns its full length has added what was read. -/
theorem step_of_full (hstep : s.step c = some (r, t)) (hret : r = c.text.length) :
    s.finished = false ∧ c.kzalloc = true ∧ t.mList = ⟨c.read.1, c.read.2⟩ :: s.mList := by
  have hpos := c.length_pos
  rw [ProcSys.step_eq] at hstep
  split_ifs at hstep with hfinished hgranted
  · cases hstep
    omega
  · cases hstep
    exact ⟨Bool.eq_false_iff.mpr hfinished, hgranted.2, rfl⟩
  · cases hstep
    simp only [EFAULT] at hret
    omega

theorem step_of_heard (hheard : Heard s c) (hcopied : c.Copied)
    (hstep : s.step c = some (r, t)) : r = c.text.length ∧ t.mList = c.info :: s.mList := by
  obtain ⟨hfinished, hk, hread⟩ := hheard hcopied
  rw [ProcSys.step_eq, if_neg (by simp [hfinished]), if_pos ⟨hcopied, hk⟩, hread] at hstep
  cases hstep
  exact ⟨rfl, rfl⟩

theorem step_of_not_copied (hcopied : ¬ c.Copied) (hstep : s.step c = some (r, t)) :
    t.mList = s.mList := by
  rw [ProcSys.step_eq] at hstep
  split_ifs at hstep with hfinished hgranted
  · cases hstep
    rfl
  · exact absurd hgranted.1 hcopied
  · cases hstep
    rfl

end Step

/-! ### Sequences of calls -/

theorem recordsOf_cons_of_copied {c : Call} (h : c.Copied) (calls : List Call) :
    recordsOf (c :: calls) = recordsOf calls ++ [c.info] := by
  simp [recordsOf, h]

theorem recordsOf_cons_of_not {c : Call} (h : ¬ c.Copied) (calls : List Call) :
    recordsOf (c :: calls) = recordsOf calls := by
  simp [recordsOf, h]

/-- If the calls return what they should, as many records are added as there should be. -/
theorem exists_added {calls : List Call} {s u : ProcSys} {rs : List ℤ}
    (hrun : exec ProcSys.step s calls = some (rs, u))
    (hret : List.Forall₂ (fun (c : Call) r => c.Copied → r = (c.text.length : ℤ)) calls rs) :
    ∃ added, u.mList = added ++ s.mList ∧ added.length = (recordsOf calls).length := by
  induction calls generalizing s rs with
  | nil =>
    cases hrun
    exact ⟨[], rfl, rfl⟩
  | cons c calls ih =>
    obtain ⟨r, t, rs, hstep, hrest, rfl⟩ := exec_cons_eq_some.mp hrun
    obtain ⟨hhead, htail⟩ := List.forall₂_cons.mp hret
    obtain ⟨added, hadded, hlen⟩ := ih hrest htail
    by_cases hcopied : c.Copied
    · obtain ⟨-, -, hlist⟩ := step_of_full hstep (hhead hcopied)
      refine ⟨added ++ [⟨c.read.1, c.read.2⟩], by simp [hadded, hlist], ?_⟩
      simp [recordsOf_cons_of_copied hcopied, hlen]
    · rw [recordsOf_cons_of_not hcopied]
      exact ⟨added, by rw [hadded, step_of_not_copied hcopied hstep], hlen⟩

theorem kept_iff_guarded_heard (s : ProcSys) (calls : List Call) :
    Kept s calls ↔ Guarded ProcSys.step Heard s calls := by
  induction calls generalizing s with
  | nil => exact iff_of_true ⟨[], s, rfl, rfl, .nil⟩ trivial
  | cons c calls ih =>
    constructor
    · rintro ⟨rs, u, hrun, hlist, hret⟩
      obtain ⟨r, t, rs, hstep, hrest, rfl⟩ := exec_cons_eq_some.mp hrun
      obtain ⟨hhead, htail⟩ := List.forall₂_cons.mp hret
      -- Other calls add as many records as they should, so that the record of this one can be told.
      have hboth : Heard s c ∧ u.mList = recordsOf calls ++ t.mList := by
        by_cases hcopied : c.Copied
        · obtain ⟨hfinished, hk, htList⟩ := step_of_full hstep (hhead hcopied)
          obtain ⟨added, hadded, hlen⟩ := exists_added hrest htail
          have hsame : added ++ (⟨c.read.1, c.read.2⟩ :: s.mList) =
              recordsOf calls ++ (c.info :: s.mList) := by
            rw [← htList, ← hadded, hlist, recordsOf_cons_of_copied hcopied, List.append_assoc,
              List.singleton_append]
          obtain ⟨hadded', htail'⟩ := List.append_inj hsame hlen
          have hinfo := (List.cons.inj htail').1
          refine ⟨fun _ => ⟨hfinished, hk, ?_⟩, by rw [hadded, hadded']⟩
          rw [← hinfo]
        · refine ⟨fun h => absurd h hcopied, ?_⟩
          rw [hlist, recordsOf_cons_of_not hcopied, step_of_not_copied hcopied hstep]
      refine ⟨hboth.1, fun r' t' hstep' => ?_⟩
      cases hstep.symm.trans hstep'
      exact (ih t).mp ⟨rs, u, hrest, hboth.2, htail⟩
    · rintro ⟨hheard, hguard⟩
      obtain ⟨⟨r, t⟩, hstep⟩ : ∃ out, s.step c = some out := ⟨_, s.step_eq c⟩
      obtain ⟨rs, u, hrest, hlist, htail⟩ := (ih t).mpr (hguard r t hstep)
      refine ⟨r :: rs, u, exec_cons_eq_some.mpr ⟨r, t, rs, hstep, hrest, rfl⟩, ?_, ?_⟩
      · by_cases hcopied : c.Copied
        · rw [hlist, recordsOf_cons_of_copied hcopied, (step_of_heard hheard hcopied hstep).2,
            List.append_assoc, List.singleton_append]
        · rw [hlist, recordsOf_cons_of_not hcopied, step_of_not_copied hcopied hstep]
      · exact .cons (fun hcopied => (step_of_heard hheard hcopied hstep).1) htail

/-- **When no record is lost.** In a sequence of calls, by any processes, the records of the calls
whose copy succeeds are all kept, in order, and these calls return their full length, exactly if
each of them finds the flag of the driver clear, there is memory for its record, and `sscanf` reads
its integers in the array. It does so if the texts end with newlines.

Source: `m_modules/proc/list_proc.c`, lines 16–34 and 118–145. -/
theorem records_kept_iff (s : ProcSys) (calls : List Call) :
    (Kept s calls ↔ Guarded ProcSys.step Heard s calls) ∧
      ((∀ c ∈ calls, c.IsLine) → (Kept s calls ↔ Guarded ProcSys.step Granted s calls)) := by
  refine ⟨kept_iff_guarded_heard s calls, fun hlines => (kept_iff_guarded_heard s calls).trans ?_⟩
  have hguard : Guarded ProcSys.step (fun _ c => c.IsLine) s calls := guarded_of_forall_mem hlines s
  constructor
  · intro h
    exact (hguard.and h).mono fun _ _ hc => (heard_iff_of_isLine hc.1).mp hc.2
  · intro h
    exact (hguard.and h).mono fun _ _ hc => (heard_iff_of_isLine hc.1).mpr hc.2

/-- A call with the text that a program prints. -/
def Call.printed (info : MInfo) : Call where
  text := intText info.a.toInt ++ ([32] ++ intText info.b.toInt) ++ [newline]
  info := info
  isText := Or.inr ⟨_, ⟨intText info.a.toInt, [32], intText info.b.toInt, rfl,
    isNumeral_intText _, List.cons_ne_nil _ _, List.forall_mem_singleton.mpr rfl,
    isNumeral_intText _⟩, rfl⟩
  short := by
    have hlen : ∀ v : Int32, (intText v.toInt).length ≤ 10 + 1 := fun v =>
      length_intText_le (by decide) (by have := v.le_toInt; have := v.toInt_lt; omega)
    have ha := hlen info.a
    have hb := hlen info.b
    simp only [List.length_append, List.length_singleton]
    omega
  readable := 128
  frame := ⟨[], 0, 0⟩
  kzalloc := true

/-- Two writes: the second is not heard. -/
theorem second_record_lost :
    ¬ Kept .loaded [.printed ⟨1, 2⟩, .printed ⟨3, 4⟩] := by
  rintro ⟨rs, u, hrun, -, hret⟩
  have hreplies : exec ProcSys.step .loaded [.printed ⟨1, 2⟩, .printed ⟨3, 4⟩] =
      some ([4, 0], ⟨[⟨1, 2⟩, ⟨30, 40⟩, ⟨10, 20⟩], false⟩) := by decide
  cases hreplies.symm.trans hrun
  cases hret with
  | cons _ hret =>
    cases hret with
    | cons hsecond _ => exact absurd (hsecond (by decide)) (by decide)

end ExKernel.Proc
