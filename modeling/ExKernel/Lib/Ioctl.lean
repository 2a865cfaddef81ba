import ExKernel.Lib.Kernel

/-!
# Ioctl commands on integer parameters

An ioctl command is a 32-bit number with a direction, a size, a type and a number. A driver that
keeps integer parameters offers up to six commands for each of them: Set and Get through a pointer,
Tell and Query by value, and eXchange and sHift, which are both at once. What such a command does
depends on the caller's memory and rights, which are the environment of the call (`IoctlEnv`), and on
whether the driver allows the caller to change the parameter.

The parameters are a state of any type, of which a command reads and replaces one component
(`Param`).

## Main definitions

* `ioc`, `iocDir`, `iocType`, `iocNr`: the parts of a command.
* `Param`: a component of the parameters, with the laws of its reading and replacement.
* `Param.ioctlSet` and the five others: the six commands.
* `Fails`, `IoctlResult.Harmless`: a call that fails, and one that changes nothing when it fails.
* `Param.Keeps`: when a command that fails has left the parameter that it changes.

## Main results

* `Param.change_harmless_iff`: when a command that changes a parameter is harmless.
* `harmless_iff_of_commands`: the same of all commands of a driver.
-/

namespace ExKernel

/-! ### Commands -/

/-- `_IOC(dir, type, nr, size)`. -/
def ioc (dir type nr size : UInt32) : UInt32 :=
  dir <<< 30 ||| size <<< 16 ||| type <<< 8 ||| nr

/-- `_IOC_DIR(cmd)`. -/
def iocDir (cmd : UInt32) : UInt32 := cmd >>> 30 &&& 3

/-- `_IOC_TYPE(cmd)`. -/
def iocType (cmd : UInt32) : UInt32 := cmd >>> 8 &&& 0xff

/-- `_IOC_NR(cmd)`. -/
def iocNr (cmd : UInt32) : UInt32 := cmd &&& 0xff

/-- `_IOC_WRITE`. -/
def iocWrite : UInt32 := 1

/-- `_IOC_READ`. -/
def iocRead : UInt32 := 2

/-- What a call depends on beyond its arguments: the answer of `access_ok`, whether the caller has
`CAP_SYS_ADMIN`, the value that `__get_user` finds (`none` when it faults), and whether `__put_user`
succeeds. -/
structure IoctlEnv where
  accessOk : Bool
  capable : Bool
  getUser : Option Int32
  putUser : Bool

/-- The test of the argument's accessibility that the direction of a command demands. Both
directions ask `access_ok` for the same range. -/
def ioctlAccess (cmd : UInt32) (env : IoctlEnv) : Bool :=
  if iocDir cmd &&& iocRead ≠ 0 then env.accessOk
  else if iocDir cmd &&& iocWrite ≠ 0 then env.accessOk
  else true

/-- What a call does: its return value, the parameters afterwards, and the value stored through the
argument. -/
structure IoctlResult (σ : Type*) where
  ret : ℤ
  params : σ
  out : Option Int32 := none

/-! ### The six commands of a parameter -/

/-- A component of the parameters, which is an `int`. -/
structure Param (σ : Type*) where
  get : σ → Int32
  set : σ → Int32 → σ
  get_set : ∀ p v, get (set p v) = v
  set_get : ∀ p, set p (get p) = p

namespace Param

variable {σ : Type*} (f : Param σ)

theorem set_eq_self_iff (p : σ) (v : Int32) : f.set p v = p ↔ v = f.get p := by
  constructor
  · intro h
    rw [← f.get_set p v, h]
  · intro h
    rw [h, f.set_get]

/-- `__get_user(f, arg)`: the return value and the parameters afterwards. A fault stores `0`. -/
def getUser (p : σ) (env : IoctlEnv) : ℤ × σ :=
  match env.getUser with
  | some v => (0, f.set p v)
  | none => (-EFAULT, f.set p 0)

/-- `__put_user(f, arg)`: the return value and the value stored. -/
def putUser (p : σ) (env : IoctlEnv) : ℤ × Option Int32 :=
  if env.putUser then (0, some (f.get p)) else (-EFAULT, none)

/-- Set: `arg` points to the value. -/
def ioctlSet (allowed : Bool) (p : σ) (env : IoctlEnv) : IoctlResult σ :=
  if allowed then ⟨(f.getUser p env).1, (f.getUser p env).2, none⟩ else ⟨-EPERM, p, none⟩

/-- Tell: `arg` is the value. -/
def ioctlTell (allowed : Bool) (p : σ) (arg : UInt64) : IoctlResult σ :=
  if allowed then ⟨0, f.set p arg.toUInt32.toInt32, none⟩ else ⟨-EPERM, p, none⟩

/-- Get: `arg` points to the result. -/
def ioctlGet (p : σ) (env : IoctlEnv) : IoctlResult σ :=
  ⟨(f.putUser p env).1, p, (f.putUser p env).2⟩

/-- Query: the result is the return value. -/
def ioctlQuery (p : σ) : IoctlResult σ := ⟨(f.get p).toInt, p, none⟩

/-- eXchange: `arg` points to the new value and to the place of the old one. -/
def ioctlExchange (allowed : Bool) (p : σ) (env : IoctlEnv) : IoctlResult σ :=
  if allowed then
    let got := f.getUser p env
    if got.1 = 0 then ⟨(f.putUser p env).1, got.2, (f.putUser p env).2⟩
    else ⟨got.1, got.2, none⟩
  else ⟨-EPERM, p, none⟩

/-- sHift: Tell and Query at once. -/
def ioctlShift (allowed : Bool) (p : σ) (arg : UInt64) : IoctlResult σ :=
  if allowed then ⟨(f.get p).toInt, f.set p arg.toUInt32.toInt32, none⟩
  else ⟨-EPERM, p, none⟩

end Param

/-! ### Calls that fail -/

/-- The return values by which a call fails. -/
def Fails (ret : ℤ) : Prop := ret = -ENOTTY ∨ ret = -EPERM ∨ ret = -EFAULT

instance (ret : ℤ) : Decidable (Fails ret) := inferInstanceAs (Decidable (_ ∨ _))

theorem fails_efault : Fails (-EFAULT) := .inr (.inr rfl)

theorem not_fails_zero : ¬ Fails 0 := by decide

/-- The parameters are as they were, if the call has failed. -/
def IoctlResult.Harmless {σ : Type*} (p : σ) (res : IoctlResult σ) : Prop :=
  Fails res.ret → res.params = p

/-- The commands that change a parameter and may fail, or seem to. -/
inductive Change
  | set
  | exchange
  | shift

/-- What the command of a change does, the test of its argument included. -/
def Param.change {σ : Type*} (f : Param σ) (allowed : Bool) (p : σ) (arg : UInt64)
    (env : IoctlEnv) : Change → IoctlResult σ
  | .set => if env.accessOk then f.ioctlSet allowed p env else ⟨-EFAULT, p, none⟩
  | .exchange => if env.accessOk then f.ioctlExchange allowed p env else ⟨-EFAULT, p, none⟩
  | .shift => f.ioctlShift allowed p arg

/-- When a command that changes a parameter leaves it on failure. A fault on reading the argument
stores 0, and a fault on writing it back comes after the new value was stored; and a shift returns
the old value, which may be the number of an error. -/
def Param.Keeps {σ : Type*} (f : Param σ) (allowed : Bool) (p : σ) (arg : UInt64)
    (env : IoctlEnv) : Change → Prop
  | .set => env.accessOk → allowed → env.getUser = none → f.get p = 0
  | .exchange => env.accessOk → allowed → (env.getUser = none → f.get p = 0) ∧
      ∀ v, env.getUser = some v → env.putUser = false → v = f.get p
  | .shift => allowed → Fails (f.get p).toInt → arg.toUInt32.toInt32 = f.get p

section Harmless

variable {σ : Type*} {p : σ} {arg : UInt64} {env : IoctlEnv} {allowed : Bool}

theorem harmless_of_eq (ret : ℤ) (out : Option Int32) : IoctlResult.Harmless p ⟨ret, p, out⟩ :=
  fun _ => rfl

theorem harmless_of_zero (params : σ) (out : Option Int32) :
    IoctlResult.Harmless p ⟨0, params, out⟩ :=
  fun h => absurd h not_fails_zero

namespace Param

variable (f : Param σ)

theorem harmless_efault_iff {v : Int32} {out : Option Int32} :
    IoctlResult.Harmless p ⟨-EFAULT, f.set p v, out⟩ ↔ v = f.get p := by
  rw [← f.set_eq_self_iff]
  exact ⟨fun h => h fails_efault, fun h _ => h⟩

theorem ioctlSet_harmless_iff :
    (f.ioctlSet allowed p env).Harmless p ↔ (allowed → env.getUser = none → f.get p = 0) := by
  unfold ioctlSet getUser
  cases allowed with
  | false => exact iff_of_true (harmless_of_eq _ _) (by simp)
  | true =>
    cases env.getUser with
    | none =>
      simp only [if_true, harmless_efault_iff, forall_const]
      exact eq_comm
    | some v => exact iff_of_true (harmless_of_zero _ _) (by simp)

theorem ioctlExchange_harmless_iff :
    (f.ioctlExchange allowed p env).Harmless p ↔ (allowed → (env.getUser = none → f.get p = 0) ∧
      ∀ v, env.getUser = some v → env.putUser = false → v = f.get p) := by
  unfold ioctlExchange getUser putUser
  cases allowed with
  | false => exact iff_of_true (harmless_of_eq _ _) (by simp)
  | true =>
    cases env.getUser with
    | none =>
      have hne : ¬ (-EFAULT : ℤ) = 0 := by decide
      simp only [if_true, if_neg hne, harmless_efault_iff]
      exact ⟨fun h _ => ⟨fun _ => h.symm, by simp⟩, fun h => ((h trivial).1 trivial).symm⟩
    | some v =>
      cases env.putUser with
      | false => simp [harmless_efault_iff]
      | true => exact iff_of_true (harmless_of_zero _ _) (by simp)

theorem ioctlShift_harmless_iff : (f.ioctlShift allowed p arg).Harmless p ↔
    (allowed → Fails (f.get p).toInt → arg.toUInt32.toInt32 = f.get p) := by
  unfold ioctlShift
  cases allowed with
  | false => exact iff_of_true (harmless_of_eq _ _) (by simp)
  | true => simp [IoctlResult.Harmless, f.set_eq_self_iff]

theorem ioctlTell_harmless : (f.ioctlTell allowed p arg).Harmless p := by
  unfold ioctlTell
  split_ifs
  · exact harmless_of_zero _ _
  · exact harmless_of_eq _ _

/-- **When a command that changes a parameter is harmless.** -/
theorem change_harmless_iff (k : Change) :
    (f.change allowed p arg env k).Harmless p ↔ f.Keeps allowed p arg env k := by
  cases k with
  | set =>
    rw [change, Keeps]
    split_ifs with hok
    · simp only [ioctlSet_harmless_iff, hok, forall_const]
    · exact iff_of_true (harmless_of_eq _ _) fun h => absurd h hok
  | exchange =>
    rw [change, Keeps]
    split_ifs with hok
    · simp only [ioctlExchange_harmless_iff, hok, forall_const]
    · exact iff_of_true (harmless_of_eq _ _) fun h => absurd h hok
  | shift => exact f.ioctlShift_harmless_iff

end Param

/-- **When a failed call changes nothing**, for a driver with the parameters `param` and the command
numbers `command`, all of whose other commands are harmless. -/
theorem harmless_iff_of_commands {ι : Type*} {param : ι → Param σ} {command : ι → Change → UInt32}
    {ioctl : UInt32 → IoctlResult σ}
    (hinj : ∀ f k g l, command f k = command g l → f = g ∧ k = l)
    (hchange : ∀ f k, ioctl (command f k) = (param f).change allowed p arg env k)
    (hother : ∀ cmd, (∀ f k, cmd ≠ command f k) → (ioctl cmd).Harmless p) (cmd : UInt32) :
    (ioctl cmd).Harmless p ↔
      ∀ f k, cmd = command f k → (param f).Keeps allowed p arg env k := by
  by_cases h : ∃ f k, cmd = command f k
  · obtain ⟨f, k, rfl⟩ := h
    rw [hchange, Param.change_harmless_iff]
    refine ⟨fun hkeeps g l heq => ?_, fun hall => hall f k rfl⟩
    obtain ⟨rfl, rfl⟩ := hinj f k g l heq
    exact hkeeps
  · push Not at h
    exact iff_of_true (hother cmd h) fun f k heq => absurd heq (h f k)

end Harmless

end ExKernel
