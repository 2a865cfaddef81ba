import ExKernel.Lib.Ioctl

/-!
# The ioctl method of scull

`scull_ioctl` reads and changes the parameters of the module: the quantum and the size of a quantum
set that a device gets when it is next emptied, and the buffer size that a pipe takes when it is
opened. The bare devices, the access-controlled ones and the pipes all use this one method.

The driver first tests type and number of a command, then the accessibility of the argument as the
direction demands, and then compares the whole command. A caller without `CAP_SYS_ADMIN` may not
change the quantum and the size of a quantum set.

## Main definitions

* `Scull.Params`: the parameters of the module, with their values at load time.
* `Scull.Field`: one of the two parameters that have all six commands.
* `Scull.scullIoctl`: the method.
* `Scull.Field.Keeps`: when a command that fails has left the parameter that it changes.

## Main results

* `Scull.scullIoctl_harmless_iff`: when a call that fails has changed nothing.

## References

* `ldd/scull/main.c`, lines 40–44 and 395–516; `ldd/scull/scull.h`, lines 64–77 and 138–174;
  `ldd/scull/pipe.c`, line 49.
-/

namespace ExKernel.Scull

/-- The module parameters that the ioctl method changes: `scull_quantum`, `scull_qset` and
`scull_p_buffer`. -/
structure Params where
  quantum : Int32
  qset : Int32
  pBuffer : Int32
  deriving DecidableEq

/-- `SCULL_QUANTUM`. -/
def SCULL_QUANTUM : Int32 := 4000

/-- `SCULL_QSET`. -/
def SCULL_QSET : Int32 := 1000

/-- `SCULL_P_BUFFER`. -/
def SCULL_P_BUFFER : Int32 := 4000

/-- The parameters of a module loaded without arguments. -/
def Params.default : Params := ⟨SCULL_QUANTUM, SCULL_QSET, SCULL_P_BUFFER⟩

/-! ### Commands -/

/-- `SCULL_IOC_MAGIC`, the character `k`. -/
def SCULL_IOC_MAGIC : UInt32 := 107

/-- `SCULL_IOC_MAXNR`. -/
def SCULL_IOC_MAXNR : UInt32 := 14

def SCULL_IOCRESET : UInt32 := ioc 0 SCULL_IOC_MAGIC 0 0
def SCULL_IOCSQUANTUM : UInt32 := ioc iocWrite SCULL_IOC_MAGIC 1 4
def SCULL_IOCSQSET : UInt32 := ioc iocWrite SCULL_IOC_MAGIC 2 4
def SCULL_IOCTQUANTUM : UInt32 := ioc 0 SCULL_IOC_MAGIC 3 0
def SCULL_IOCTQSET : UInt32 := ioc 0 SCULL_IOC_MAGIC 4 0
def SCULL_IOCGQUANTUM : UInt32 := ioc iocRead SCULL_IOC_MAGIC 5 4
def SCULL_IOCGQSET : UInt32 := ioc iocRead SCULL_IOC_MAGIC 6 4
def SCULL_IOCQQUANTUM : UInt32 := ioc 0 SCULL_IOC_MAGIC 7 0
def SCULL_IOCQQSET : UInt32 := ioc 0 SCULL_IOC_MAGIC 8 0
def SCULL_IOCXQUANTUM : UInt32 := ioc (iocRead ||| iocWrite) SCULL_IOC_MAGIC 9 4
def SCULL_IOCXQSET : UInt32 := ioc (iocRead ||| iocWrite) SCULL_IOC_MAGIC 10 4
def SCULL_IOCHQUANTUM : UInt32 := ioc 0 SCULL_IOC_MAGIC 11 0
def SCULL_IOCHQSET : UInt32 := ioc 0 SCULL_IOC_MAGIC 12 0
def SCULL_P_IOCTSIZE : UInt32 := ioc 0 SCULL_IOC_MAGIC 13 0
def SCULL_P_IOCQSIZE : UInt32 := ioc 0 SCULL_IOC_MAGIC 14 0

/-! ### The method -/

/-- A parameter with all six commands. -/
inductive Field
  | quantum
  | qset
  deriving DecidableEq

/-- The parameter, as a component of all. -/
def Field.param : Field → Param Params
  | .quantum => ⟨Params.quantum, fun p v => { p with quantum := v }, fun _ _ => rfl, fun _ => rfl⟩
  | .qset => ⟨Params.qset, fun p v => { p with qset := v }, fun _ _ => rfl, fun _ => rfl⟩

/-- `scull_ioctl`.

Source: `ldd/scull/main.c`, lines 395–516. -/
def scullIoctl (p : Params) (cmd : UInt32) (arg : UInt64) (env : IoctlEnv) :
    IoctlResult Params :=
  let quantum := Field.quantum.param
  let qset := Field.qset.param
  let capable := env.capable
  if iocType cmd ≠ SCULL_IOC_MAGIC then ⟨-ENOTTY, p, none⟩
  else if iocNr cmd > SCULL_IOC_MAXNR then ⟨-ENOTTY, p, none⟩
  else if !ioctlAccess cmd env then ⟨-EFAULT, p, none⟩
  else if cmd = SCULL_IOCRESET then
    ⟨0, { p with quantum := SCULL_QUANTUM, qset := SCULL_QSET }, none⟩
  else if cmd = SCULL_IOCSQUANTUM then quantum.ioctlSet capable p env
  else if cmd = SCULL_IOCTQUANTUM then quantum.ioctlTell capable p arg
  else if cmd = SCULL_IOCGQUANTUM then quantum.ioctlGet p env
  else if cmd = SCULL_IOCQQUANTUM then quantum.ioctlQuery p
  else if cmd = SCULL_IOCXQUANTUM then quantum.ioctlExchange capable p env
  else if cmd = SCULL_IOCHQUANTUM then quantum.ioctlShift capable p arg
  else if cmd = SCULL_IOCSQSET then qset.ioctlSet capable p env
  else if cmd = SCULL_IOCTQSET then qset.ioctlTell capable p arg
  else if cmd = SCULL_IOCGQSET then qset.ioctlGet p env
  else if cmd = SCULL_IOCQQSET then qset.ioctlQuery p
  else if cmd = SCULL_IOCXQSET then qset.ioctlExchange capable p env
  else if cmd = SCULL_IOCHQSET then qset.ioctlShift capable p arg
  else if cmd = SCULL_P_IOCTSIZE then ⟨0, { p with pBuffer := arg.toUInt32.toInt32 }, none⟩
  else if cmd = SCULL_P_IOCQSIZE then ⟨p.pBuffer.toInt, p, none⟩
  else ⟨-ENOTTY, p, none⟩

/-! ### Calls that fail -/

/-- The number of a command. -/
def Field.command : Field → Change → UInt32
  | .quantum, .set => SCULL_IOCSQUANTUM
  | .quantum, .exchange => SCULL_IOCXQUANTUM
  | .quantum, .shift => SCULL_IOCHQUANTUM
  | .qset, .set => SCULL_IOCSQSET
  | .qset, .exchange => SCULL_IOCXQSET
  | .qset, .shift => SCULL_IOCHQSET

theorem Field.command_inj (f : Field) (k : Change) (g : Field) (l : Change)
    (h : f.command k = g.command l) : f = g ∧ k = l := by
  cases f <;> cases k <;> cases g <;> cases l <;>
    first
      | exact ⟨rfl, rfl⟩
      | exact absurd h (by decide)

/-- When a command that changes a parameter leaves it on failure, with the test of `CAP_SYS_ADMIN`.

Source: `ldd/scull/main.c`, lines 426–429, 446–453, 455–460 and the same for `scull_qset`. -/
def Field.Keeps (f : Field) (p : Params) (arg : UInt64) (env : IoctlEnv) : Change → Prop :=
  f.param.Keeps env.capable p arg env

section Harmless

variable {p : Params} {arg : UInt64} {env : IoctlEnv}

theorem scullIoctl_command (f : Field) (k : Change) :
    scullIoctl p (f.command k) arg env = f.param.change env.capable p arg env k := by
  cases f <;> cases k <;> cases h : env.accessOk <;>
    simp [scullIoctl, ioctlAccess, Param.change, h] <;> rfl

theorem scullIoctl_other {cmd : UInt32} (h : ∀ (f : Field) k, cmd ≠ f.command k) :
    (scullIoctl p cmd arg env).Harmless p := by
  unfold scullIoctl
  refine iteInduction (fun _ => harmless_of_eq _ _) fun _ => ?_
  refine iteInduction (fun _ => harmless_of_eq _ _) fun _ => ?_
  refine iteInduction (fun _ => harmless_of_eq _ _) fun _ => ?_
  refine iteInduction (fun _ => harmless_of_zero _ _) fun _ => ?_
  refine iteInduction (fun hcmd => absurd hcmd (h .quantum .set)) fun _ => ?_
  refine iteInduction (fun _ => Param.ioctlTell_harmless _) fun _ => ?_
  refine iteInduction (fun _ => harmless_of_eq _ _) fun _ => ?_
  refine iteInduction (fun _ => harmless_of_eq _ _) fun _ => ?_
  refine iteInduction (fun hcmd => absurd hcmd (h .quantum .exchange)) fun _ => ?_
  refine iteInduction (fun hcmd => absurd hcmd (h .quantum .shift)) fun _ => ?_
  refine iteInduction (fun hcmd => absurd hcmd (h .qset .set)) fun _ => ?_
  refine iteInduction (fun _ => Param.ioctlTell_harmless _) fun _ => ?_
  refine iteInduction (fun _ => harmless_of_eq _ _) fun _ => ?_
  refine iteInduction (fun _ => harmless_of_eq _ _) fun _ => ?_
  refine iteInduction (fun hcmd => absurd hcmd (h .qset .exchange)) fun _ => ?_
  refine iteInduction (fun hcmd => absurd hcmd (h .qset .shift)) fun _ => ?_
  refine iteInduction (fun _ => harmless_of_zero _ _) fun _ => ?_
  exact iteInduction (fun _ => harmless_of_eq _ _) fun _ => harmless_of_eq _ _

/-- **When a failed call changes nothing.** -/
theorem scullIoctl_harmless_iff (cmd : UInt32) : (scullIoctl p cmd arg env).Harmless p ↔
    ∀ (f : Field) k, cmd = f.command k → f.Keeps p arg env k :=
  harmless_iff_of_commands Field.command_inj scullIoctl_command (fun _ => scullIoctl_other) cmd

end Harmless

end ExKernel.Scull
