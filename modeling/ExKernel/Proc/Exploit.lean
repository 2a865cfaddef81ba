import ExKernel.Lib.Decimal
import ExKernel.Lib.Kernel
import ExKernel.Lib.Transition
import Mathlib.Logic.Function.Basic

/-!
# A file that makes its writer root

Whoever writes the password to the file becomes root. As in the driver of the records, a flag that
all writers share makes every second call return zero at once, so that the tool that writes, and
calls again for what is left, comes to an end. It does not matter who calls: a call of another
process in between is the one that is heard.

The text is copied to an array on the stack, in which a zero byte is put behind it and in place of a
newline at its end. The driver checks nothing: a text of 128 bytes leaves the array, and so does an
empty one, whose last byte is looked at. Nor does it check the copy of the credentials, which fails
when there is no memory. A longer text is refused only if `copy_from_user` knows the size of the
array.

## Main definitions

* `Exploit.procWrite`, `Exploit.procShow`: the operations of the driver.
* `Exploit.Call.IsPassword`: the text of a call is the password.
* `Exploit.heard`: the calls that find the flag clear.

## Main results

* `Exploit.Call.isPassword_iff`: which bytes are taken for the password.
* `Exploit.ExploitSys.step_heard`, `Exploit.ExploitSys.step_ignored`: single calls.
* `Exploit.root_iff`: who is root after any calls.

## References

* `m_modules/proc/ex_proc.c`, lines 7–56.
-/

namespace ExKernel.Exploit

open Decimal Transition

/-! ### The driver -/

/-- The identities in `struct cred`. -/
structure Cred where
  uid : UInt32
  gid : UInt32
  suid : UInt32
  sgid : UInt32
  euid : UInt32
  egid : UInt32
  fsuid : UInt32
  fsgid : UInt32
  deriving DecidableEq

/-- The credentials that a process gets.

Source: `m_modules/proc/ex_proc.c`, lines 37–45. -/
def Cred.root (new : Cred) : Cred :=
  { new with
    uid := 0
    gid := 0
    suid := 0
    sgid := 0
    euid := 0
    egid := 0
    fsuid := 0
    fsgid := 0 }

/-- The static variables of the driver, and the credentials of the processes. -/
structure ExploitSys where
  finished : Bool
  buffer : List UInt8
  creds : ℕ → Cred

/-- The driver when its module is loaded. -/
def ExploitSys.loaded (creds : ℕ → Cred) : ExploitSys := ⟨false, List.replicate 128 0, creds⟩

/-- The password: `showmetheroot`. -/
def password : List UInt8 := [115, 104, 111, 119, 109, 101, 116, 104, 101, 114, 111, 111, 116]

/-- The string at the beginning of an array. -/
def cString (buf : List UInt8) : List UInt8 := buf.takeWhile (· ≠ 0)

/-- `buf` after the zero bytes were put in, for a text that was copied to it. -/
def terminate (text stack : List UInt8) : List UInt8 :=
  let buf := text ++ 0 :: stack.drop (text.length + 1)
  if buf[text.length - 1]? = some newline then buf.set (text.length - 1) 0 else buf

/-- `proc_write`, called by a process; `stack` is what the array has before, `checked` whether
`copy_from_user` refuses more bytes than the array has, and `memory` whether the credentials can be
copied. There is no result when an access is outside the array, or through the pointer to the
credentials when there are none.

Source: `m_modules/proc/ex_proc.c`, lines 9–51. -/
def procWrite (s : ExploitSys) (pid : ℕ) (data : UserBuffer) (len : ℕ) (stack : List UInt8)
    (checked memory : Bool) : Option (ℤ × ExploitSys) :=
  if s.finished then some (0, { s with finished := false })
  else if 128 < len ∧ checked = false then none
  else if 128 < len ∨ data.bytes.length < len then some (-EFAULT, { s with finished := true })
  else if len = 0 ∨ len = 128 then none
  else
    let buf := cString (terminate (data.bytes.take len) stack)
    let buffer := buf ++ List.replicate (128 - buf.length) 0
    if buf = password then
      if memory then
        some (len, ⟨true, buffer, Function.update s.creds pid (s.creds pid).root⟩)
      else none
    else some (len, ⟨true, buffer, s.creds⟩)

/-- The string that `proc_show` puts between the brackets.

Source: `m_modules/proc/ex_proc.c`, lines 53–57. -/
def procShow (s : ExploitSys) : List UInt8 := cString s.buffer

/-! ### Calls -/

/-- A call of `write`: by which process, the bytes that can be read from its buffer, and the length
that it gives; and what the call finds in the kernel. -/
structure Call where
  pid : ℕ
  data : UserBuffer
  len : ℕ
  stack : List UInt8
  checked : Bool
  memory : Bool

namespace Call

/-- The copy from the caller succeeds, within the array. -/
def Copied (c : Call) : Prop := c.len ≤ 128 ∧ c.len ≤ c.data.bytes.length

/-- The bytes of the call. -/
def bytes (c : Call) : List UInt8 := c.data.bytes.take c.len

/-- The text of the call: its bytes up to a zero byte, and without a newline at the end. -/
def text (c : Call) : List UInt8 := cString (terminate c.bytes c.stack)

/-- The text of the call is the password. -/
def IsPassword (c : Call) : Prop := c.Copied ∧ c.text = password

instance (c : Call) : Decidable c.Copied := inferInstanceAs (Decidable (_ ∧ _))

instance (c : Call) : Decidable c.IsPassword := inferInstanceAs (Decidable (_ ∧ _))

/-- The call comes to its end, if it finds the flag clear. -/
def Ends (c : Call) : Prop :=
  (128 < c.len → c.checked = true) ∧ (c.Copied → 0 < c.len ∧ c.len < 128 ∧ (c.text = password → c.memory = true))

instance (c : Call) : Decidable c.Ends := inferInstanceAs (Decidable (_ ∧ _))

end Call

/-- A call on the driver. -/
def ExploitSys.step (s : ExploitSys) (c : Call) : Option (ℤ × ExploitSys) :=
  procWrite s c.pid c.data c.len c.stack c.checked c.memory

/-- Every second call, beginning with the first. -/
def heard : List Call → List Call
  | [] => []
  | [c] => [c]
  | c :: _ :: calls => c :: heard calls

/-- The text of the last of some calls whose copy succeeds, or what was there before. -/
def lastText (before : List UInt8) (calls : List Call) : List UInt8 :=
  calls.foldl (fun text c => if c.Copied then c.text else text) before

/-! ### Texts -/

@[simp] theorem cString_zero_cons (l : List UInt8) : cString (0 :: l) = [] :=
  List.takeWhile_cons_of_neg (by simp)

theorem cString_cons {c : UInt8} (hc : c ≠ 0) (l : List UInt8) :
    cString (c :: l) = c :: cString l :=
  List.takeWhile_cons_of_pos (decide_eq_true hc)

theorem cString_split (l : List UInt8) :
    l = cString l ∨ ∃ rest, l = cString l ++ 0 :: rest := by
  induction l with
  | nil => exact .inl rfl
  | cons c l ih =>
    by_cases hc : c = 0
    · subst hc
      exact .inr ⟨l, by rw [cString_zero_cons, List.nil_append]⟩
    · rw [cString_cons hc]
      exact ih.imp (congrArg (c :: ·)) fun ⟨rest, hrest⟩ => ⟨rest, congrArg (c :: ·) hrest⟩

theorem cString_append_zero (l rest : List UInt8) : cString (l ++ 0 :: rest) = cString l := by
  induction l with
  | nil => exact cString_zero_cons rest
  | cons c l ih =>
    by_cases hc : c = 0
    · subst hc
      rw [List.cons_append, cString_zero_cons, cString_zero_cons]
    · rw [List.cons_append, cString_cons hc, cString_cons hc, ih]

theorem cString_of_notMem {l : List UInt8} (h : 0 ∉ l) : cString l = l := by
  induction l with
  | nil => rfl
  | cons c l ih =>
    have hc : c ≠ 0 := Ne.symm (List.ne_of_not_mem_cons h)
    rw [cString_cons hc, ih (List.not_mem_of_not_mem_cons h)]

theorem zero_notMem_cString (l : List UInt8) : 0 ∉ cString l := by
  induction l with
  | nil => exact List.not_mem_nil
  | cons c l ih =>
    by_cases hc : c = 0
    · subst hc
      rw [cString_zero_cons]
      exact List.not_mem_nil
    · rw [cString_cons hc]
      exact List.not_mem_cons_of_ne_of_not_mem (Ne.symm hc) ih

theorem cString_eq_iff {l w : List UInt8} (hw : 0 ∉ w) :
    cString l = w ↔ l = w ∨ ∃ rest, l = w ++ 0 :: rest := by
  constructor
  · rintro rfl
    exact cString_split l
  · rintro (rfl | ⟨rest, rfl⟩)
    · exact cString_of_notMem hw
    · rw [cString_append_zero, cString_of_notMem hw]

theorem cString_terminate_newline (t stack : List UInt8) :
    cString (terminate (t ++ [newline]) stack) = cString t := by
  have hlen : (t ++ [newline]).length - 1 = t.length := by simp
  have hlast : (t ++ [newline] ++ 0 :: stack.drop ((t ++ [newline]).length + 1))[t.length]? =
      some newline := by
    simp
  rw [terminate]
  simp only [hlen]
  rw [if_pos hlast, List.append_assoc, List.set_append_right _ _ le_rfl, Nat.sub_self,
    List.cons_append, List.set_cons_zero, cString_append_zero]

theorem cString_terminate {text : List UInt8} (hne : text ≠ [])
    (hlast : text.getLast? ≠ some newline) (stack : List UInt8) :
    cString (terminate text stack) = cString text := by
  have hpos : 0 < text.length := List.length_pos_iff.mpr hne
  have hget : (text ++ 0 :: stack.drop (text.length + 1))[text.length - 1]? ≠ some newline := by
    rw [List.getElem?_append_left (by omega), ← List.getLast?_eq_getElem?]
    exact hlast
  rw [terminate, if_neg hget, cString_append_zero]

namespace Call

variable {c : Call}

/-- **Which bytes are taken for the password**: it alone, or before a newline at the end, or before
a zero byte. -/
theorem text_eq_password_iff (hne : c.bytes ≠ []) :
    c.text = password ↔ c.bytes = password ∨ c.bytes = password ++ [newline] ∨
      ∃ rest, c.bytes = password ++ 0 :: rest := by
  have hw : 0 ∉ password := by decide
  rw [text]
  by_cases hlast : c.bytes.getLast? = some newline
  · obtain ⟨t, ht⟩ := List.getLast?_eq_some_iff.mp hlast
    rw [ht, cString_terminate_newline, cString_eq_iff hw, List.append_left_inj]
    constructor
    · rintro (h | ⟨rest, rfl⟩)
      · exact .inr (.inl h)
      · exact .inr (.inr ⟨rest ++ [newline], by simp⟩)
    · rintro (h | h | ⟨rest, h⟩)
      · have hend := congrArg List.getLast? h
        rw [List.getLast?_concat] at hend
        exact absurd hend (by decide)
      · exact .inl h
      · rcases List.eq_nil_or_concat rest with rfl | ⟨rest, d, rfl⟩
        · obtain ⟨-, hend⟩ := List.append_inj' h rfl
          exact absurd hend (by decide)
        · rw [List.concat_eq_append, ← List.cons_append, ← List.append_assoc] at h
          exact .inr ⟨rest, (List.append_inj' h rfl).1⟩
  · rw [cString_terminate hne hlast, cString_eq_iff hw]
    refine or_congr_right (or_iff_right_of_imp fun h => ?_).symm
    rw [h] at hlast
    exact absurd List.getLast?_concat hlast

theorem isPassword_iff (hne : c.bytes ≠ []) :
    c.IsPassword ↔ c.Copied ∧ (c.bytes = password ∨ c.bytes = password ++ [newline] ∨
      ∃ rest, c.bytes = password ++ 0 :: rest) :=
  and_congr_right fun _ => text_eq_password_iff hne

theorem length_text_le (hpos : 0 < c.len) (hcopied : c.Copied) : c.text.length ≤ c.len := by
  have hlen : c.bytes.length = c.len := List.length_take_of_le hcopied.2
  have hne : c.bytes ≠ [] := List.length_pos_iff.mp (by rw [hlen]; exact hpos)
  have hshorter : ∀ l : List UInt8, (cString l).length ≤ l.length := fun l =>
    (List.takeWhile_sublist _).length_le
  rw [text]
  by_cases hlast : c.bytes.getLast? = some newline
  · obtain ⟨t, ht⟩ := List.getLast?_eq_some_iff.mp hlast
    rw [ht, List.length_append, List.length_singleton] at hlen
    rw [ht, cString_terminate_newline]
    exact (hshorter t).trans (by omega)
  · rw [cString_terminate hne hlast, ← hlen]
    exact hshorter c.bytes

/-- What is shown of the text after it was copied to the buffer of the driver. -/
theorem shown_text (h : c.text.length < 128) :
    cString (c.text ++ List.replicate (128 - c.text.length) 0) = c.text := by
  obtain ⟨k, hk⟩ : ∃ k, 128 - c.text.length = k + 1 := Nat.exists_eq_add_one.mpr (by omega)
  rw [hk, List.replicate_succ, cString_append_zero]
  exact cString_of_notMem (zero_notMem_cString _)

end Call

/-! ### Single calls -/

section Step

variable {s : ExploitSys} {c : Call}

/-- A call that finds the flag set clears it, whatever it is about. -/
theorem ExploitSys.step_ignored (h : s.finished = true) :
    s.step c = some (0, { s with finished := false }) :=
  if_pos h

/-- A call that finds the flag clear sets it, and then does what it is about. -/
theorem ExploitSys.step_heard (h : s.finished = false) :
    (¬ c.Ends → s.step c = none) ∧
    (c.Ends → ∃ r t, s.step c = some (r, t) ∧ t.finished = true ∧
      procShow t = (if c.Copied then c.text else procShow s) ∧
      t.creds =
        if c.IsPassword then Function.update s.creds c.pid (s.creds c.pid).root else s.creds) := by
  have hfinished : ¬ s.finished = true := by simp [h]
  rw [ExploitSys.step, procWrite, if_neg hfinished]
  by_cases hlong : 128 < c.len ∧ c.checked = false
  · rw [if_pos hlong]
    refine ⟨fun _ => rfl, fun hends => ?_⟩
    rw [hends.1 hlong.1] at hlong
    cases hlong.2
  have hchecked : 128 < c.len → c.checked = true := fun h => by simpa [h] using hlong
  rw [if_neg hlong]
  by_cases hcopied : c.Copied
  · have hread : ¬ (128 < c.len ∨ c.data.bytes.length < c.len) :=
      not_or.mpr ⟨Nat.not_lt_of_le hcopied.1, Nat.not_lt_of_le hcopied.2⟩
    rw [if_neg hread]
    by_cases hedge : c.len = 0 ∨ c.len = 128
    · rw [if_pos hedge]
      refine ⟨fun _ => rfl, fun hends => ?_⟩
      obtain ⟨hpos, hlt, -⟩ := hends.2 hcopied
      omega
    · rw [if_neg hedge]
      have hroom : c.text.length < 128 :=
        (Call.length_text_le (by omega) hcopied).trans_lt (by have := hcopied.1; omega)
      have hshown := Call.shown_text hroom
      have htext : cString (terminate (c.data.bytes.take c.len) c.stack) = c.text := rfl
      simp only [htext]
      by_cases hpassword : c.text = password
      · rw [if_pos hpassword]
        cases hmemory : c.memory with
        | false =>
          refine ⟨fun _ => rfl, fun hends => ?_⟩
          have htrue := (hends.2 hcopied).2.2 hpassword
          rw [hmemory] at htrue
          cases htrue
        | true =>
          have hends : c.Ends := ⟨hchecked, fun h =>
            ⟨by omega, by have := h.1; omega, fun _ => hmemory⟩⟩
          refine ⟨fun hnot => absurd hends hnot, fun _ => ⟨_, _, rfl, rfl, ?_, ?_⟩⟩
          · rw [if_pos hcopied]
            exact hshown
          · rw [if_pos ⟨hcopied, hpassword⟩]
      · rw [if_neg hpassword]
        have hends : c.Ends := ⟨hchecked, fun h =>
          ⟨by omega, by have := h.1; omega, fun h => absurd h hpassword⟩⟩
        refine ⟨fun hnot => absurd hends hnot, fun _ => ⟨_, _, rfl, rfl, ?_, ?_⟩⟩
        · rw [if_pos hcopied]
          exact hshown
        · rw [if_neg fun h => hpassword h.2]
  · have hread : 128 < c.len ∨ c.data.bytes.length < c.len :=
      (not_and_or.mp hcopied).imp Nat.lt_of_not_le Nat.lt_of_not_le
    rw [if_pos hread]
    have hends : c.Ends := ⟨hchecked, fun h => absurd h hcopied⟩
    refine ⟨fun hnot => absurd hends hnot, fun _ => ⟨_, _, rfl, rfl, ?_, ?_⟩⟩
    · rw [if_neg hcopied]
      rfl
    · rw [if_neg fun h => hcopied h.1]

theorem creds_after {t : ExploitSys}
    (h : t.creds =
      if c.IsPassword then Function.update s.creds c.pid (s.creds c.pid).root else s.creds)
    (p : ℕ) :
    t.creds p = if c.pid = p ∧ c.IsPassword then (s.creds p).root else s.creds p := by
  by_cases hpassword : c.IsPassword
  · rw [h, if_pos hpassword]
    by_cases hp : c.pid = p
    · rw [if_pos ⟨hp, hpassword⟩, ← hp, Function.update_self]
    · rw [if_neg fun h => hp h.1, Function.update_of_ne (Ne.symm hp)]
  · rw [h, if_neg hpassword, if_neg fun h => hpassword h.2]

theorem root_of_cons (cred : Cred) (c : Call) (calls : List Call) (p : ℕ) :
    (if ∃ c' ∈ calls, c'.pid = p ∧ c'.IsPassword
        then (if c.pid = p ∧ c.IsPassword then cred.root else cred).root
        else if c.pid = p ∧ c.IsPassword then cred.root else cred) =
      if ∃ c' ∈ c :: calls, c'.pid = p ∧ c'.IsPassword then cred.root else cred := by
  by_cases hc : c.pid = p ∧ c.IsPassword
  · have hany : ∃ c' ∈ c :: calls, c'.pid = p ∧ c'.IsPassword := ⟨c, List.mem_cons_self, hc⟩
    rw [if_pos hc, if_pos hany]
    split_ifs
    · rfl
    · rfl
  · have hiff : (∃ c' ∈ c :: calls, c'.pid = p ∧ c'.IsPassword) ↔
        ∃ c' ∈ calls, c'.pid = p ∧ c'.IsPassword := by
      rw [List.exists_mem_cons_iff, or_iff_right hc]
    simp only [if_neg hc, hiff]

end Step

/-! ### Sequences of calls -/

/-- The calls come to their end from a state on if those of `cs` do; and they make root, and write,
what those of `cs` say. -/
def AmountTo (s : ExploitSys) (calls cs : List Call) : Prop :=
  ((∃ rs u, exec ExploitSys.step s calls = some (rs, u)) ↔ ∀ c ∈ cs, c.Ends) ∧
    ∀ rs u, exec ExploitSys.step s calls = some (rs, u) →
      (∀ p, u.creds p =
        if ∃ c ∈ cs, c.pid = p ∧ c.IsPassword then (s.creds p).root else s.creds p) ∧
      procShow u = lastText (procShow s) cs

theorem amountTo_nil (s : ExploitSys) : AmountTo s [] [] := by
  refine ⟨iff_of_true ⟨[], s, rfl⟩ fun c hc => absurd hc List.not_mem_nil, fun rs u hrun => ?_⟩
  cases hrun
  exact ⟨fun p => (if_neg (by simp)).symm, rfl⟩

theorem AmountTo.cons_ignored {s : ExploitSys} {calls cs : List Call} (hflag : s.finished = true)
    (h : AmountTo { s with finished := false } calls cs) (c : Call) :
    AmountTo s (c :: calls) cs := by
  have hstep := ExploitSys.step_ignored (c := c) hflag
  refine ⟨(Iff.intro ?_ ?_).trans h.1, fun rs u hrun => ?_⟩
  · rintro ⟨rs, u, hrun⟩
    obtain ⟨r, t, rs', hst, hrest, -⟩ := exec_cons_eq_some.mp hrun
    rw [hstep] at hst
    cases hst
    exact ⟨rs', u, hrest⟩
  · rintro ⟨rs, u, hrun⟩
    exact ⟨_, u, exec_cons_eq_some.mpr ⟨_, _, rs, hstep, hrun, rfl⟩⟩
  · obtain ⟨r, t, rs', hst, hrest, -⟩ := exec_cons_eq_some.mp hrun
    rw [hstep] at hst
    cases hst
    exact h.2 rs' u hrest

theorem AmountTo.cons_heard {s : ExploitSys} {calls cs : List Call} (hflag : s.finished = false)
    (h : ∀ t : ExploitSys, t.finished = true → AmountTo t calls cs) (c : Call) :
    AmountTo s (c :: calls) (c :: cs) := by
  obtain ⟨hstuck, hends⟩ := ExploitSys.step_heard (c := c) hflag
  refine ⟨⟨?_, ?_⟩, fun rs u hrun => ?_⟩
  · rintro ⟨rs, u, hrun⟩
    obtain ⟨r, t, rs', hst, hrest, -⟩ := exec_cons_eq_some.mp hrun
    have hc : c.Ends := by
      by_contra hnot
      rw [hstuck hnot] at hst
      cases hst
    obtain ⟨r', t', hst', hfinished, -⟩ := hends hc
    rw [hst] at hst'
    cases hst'
    exact List.forall_mem_cons.mpr ⟨hc, (h t hfinished).1.mp ⟨rs', u, hrest⟩⟩
  · intro hall
    obtain ⟨hc, hlater⟩ := List.forall_mem_cons.mp hall
    obtain ⟨r, t, hst, hfinished, -⟩ := hends hc
    obtain ⟨rs, u, hrest⟩ := (h t hfinished).1.mpr hlater
    exact ⟨_, u, exec_cons_eq_some.mpr ⟨r, t, rs, hst, hrest, rfl⟩⟩
  · obtain ⟨r, t, rs', hst, hrest, -⟩ := exec_cons_eq_some.mp hrun
    have hc : c.Ends := by
      by_contra hnot
      rw [hstuck hnot] at hst
      cases hst
    obtain ⟨r', t', hst', hfinished, hshow, hcreds⟩ := hends hc
    rw [hst] at hst'
    cases hst'
    obtain ⟨hcreds', hshow'⟩ := (h t hfinished).2 rs' u hrest
    refine ⟨fun p => ?_, ?_⟩
    · rw [hcreds' p, creds_after hcreds p]
      exact root_of_cons (s.creds p) c cs p
    · rw [hshow', hshow]
      rfl

/-- From a state with a clear flag on, calls amount to every second one. -/
theorem amountTo_heard (calls : List Call) :
    ∀ s : ExploitSys, s.finished = false → AmountTo s calls (heard calls) := by
  induction calls using heard.induct with
  | case1 => exact fun s _ => amountTo_nil s
  | case2 c => exact fun s hflag => .cons_heard hflag (fun t _ => amountTo_nil t) c
  | case3 c c' calls ih =>
    exact fun s hflag => .cons_heard hflag (fun t ht => .cons_ignored ht (ih _ rfl) c') c

/-- **Who is root.** Of any calls, by any processes, those are heard that find the flag clear, which
is every second one, whoever makes it. They all come to their end if and only if those that are
heard do; and then a process is root if it has made one of these with the password, and has the
credentials that it had before otherwise, and what is shown is the text of the last of these that
could be copied.

Source: `m_modules/proc/ex_proc.c`, lines 7–57. -/
theorem root_iff (creds : ℕ → Cred) (calls : List Call) :
    ((∃ rs u, exec ExploitSys.step (.loaded creds) calls = some (rs, u)) ↔
      ∀ c ∈ heard calls, c.Ends) ∧
    ∀ rs u, exec ExploitSys.step (.loaded creds) calls = some (rs, u) →
      (∀ p, u.creds p =
        if ∃ c ∈ heard calls, c.pid = p ∧ c.IsPassword then (creds p).root else creds p) ∧
      procShow u = lastText [] (heard calls) :=
  amountTo_heard calls (.loaded creds) rfl

end ExKernel.Exploit
