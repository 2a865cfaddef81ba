import ExKernel.Lib.Ioctl
import ExKernel.Scull.Ioctl

/-!
# The ioctl method of scullp

`scullp_ioctl` reads and changes the parameters of the module: the order of the page blocks and the
size of a quantum set that a device gets when it is next emptied. It is `scull_ioctl` with another
magic number and without the tests of `CAP_SYS_ADMIN`: every caller may change the parameters.

## Main definitions

* `Scullp.ScullpParams`: the parameters of the module, with their values at load time.
* `Scullp.scullpIoctl`: the method.
* `Scullp.ScullpField.Keeps`: when a command that fails has left the parameter that it changes.

## Main results

* `Scullp.failed_ioctl_keeps_iff`: when a call that fails has changed nothing, for both drivers.
* `Scullp.failed_ioctl_changes`: calls that fail and change a parameter.

## References

* `ldd/scullp/main.c`, lines 38–39 and 269–357; `ldd/scullp/scullp.h`, lines 53–54 and 95–120.
-/

namespace ExKernel.Scullp

/-- The module parameters that a device takes over when it is emptied: `scullp_order` and
`scullp_qset`. -/
structure ScullpParams where
  order : Int32
  qset : Int32
  deriving DecidableEq

/-- `SCULLP_ORDER`. -/
def SCULLP_ORDER : Int32 := 0

/-- `SCULLP_QSET`. -/
def SCULLP_QSET : Int32 := 500

/-- The parameters of a module loaded without arguments. -/
def ScullpParams.default : ScullpParams := ⟨SCULLP_ORDER, SCULLP_QSET⟩

/-! ### Commands -/

/-- `SCULLP_IOC_MAGIC`, the character `K`. -/
def SCULLP_IOC_MAGIC : UInt32 := 75

/-- `SCULLP_IOC_MAXNR`. -/
def SCULLP_IOC_MAXNR : UInt32 := 12

def SCULLP_IOCRESET : UInt32 := ioc 0 SCULLP_IOC_MAGIC 0 0
def SCULLP_IOCSORDER : UInt32 := ioc iocWrite SCULLP_IOC_MAGIC 1 4
def SCULLP_IOCTORDER : UInt32 := ioc 0 SCULLP_IOC_MAGIC 2 0
def SCULLP_IOCGORDER : UInt32 := ioc iocRead SCULLP_IOC_MAGIC 3 4
def SCULLP_IOCQORDER : UInt32 := ioc 0 SCULLP_IOC_MAGIC 4 0
def SCULLP_IOCXORDER : UInt32 := ioc (iocRead ||| iocWrite) SCULLP_IOC_MAGIC 5 4
def SCULLP_IOCHORDER : UInt32 := ioc 0 SCULLP_IOC_MAGIC 6 0
def SCULLP_IOCSQSET : UInt32 := ioc iocWrite SCULLP_IOC_MAGIC 7 4
def SCULLP_IOCTQSET : UInt32 := ioc 0 SCULLP_IOC_MAGIC 8 0
def SCULLP_IOCGQSET : UInt32 := ioc iocRead SCULLP_IOC_MAGIC 9 4
def SCULLP_IOCQQSET : UInt32 := ioc 0 SCULLP_IOC_MAGIC 10 0
def SCULLP_IOCXQSET : UInt32 := ioc (iocRead ||| iocWrite) SCULLP_IOC_MAGIC 11 4
def SCULLP_IOCHQSET : UInt32 := ioc 0 SCULLP_IOC_MAGIC 12 0

/-! ### The method -/

/-- One of the two parameters. -/
inductive ScullpField
  | order
  | qset
  deriving DecidableEq

/-- The parameter, as a component of both. -/
def ScullpField.param : ScullpField → Param ScullpParams
  | .order => ⟨ScullpParams.order, fun p v => { p with order := v }, fun _ _ => rfl, fun _ => rfl⟩
  | .qset => ⟨ScullpParams.qset, fun p v => { p with qset := v }, fun _ _ => rfl, fun _ => rfl⟩

/-- `scullp_ioctl`.

Source: `ldd/scullp/main.c`, lines 269–357. -/
def scullpIoctl (p : ScullpParams) (cmd : UInt32) (arg : UInt64) (env : IoctlEnv) :
    IoctlResult ScullpParams :=
  let order := ScullpField.order.param
  let qset := ScullpField.qset.param
  if iocType cmd ≠ SCULLP_IOC_MAGIC then ⟨-ENOTTY, p, none⟩
  else if iocNr cmd > SCULLP_IOC_MAXNR then ⟨-ENOTTY, p, none⟩
  else if !ioctlAccess cmd env then ⟨-EFAULT, p, none⟩
  else if cmd = SCULLP_IOCRESET then ⟨0, ⟨SCULLP_ORDER, SCULLP_QSET⟩, none⟩
  else if cmd = SCULLP_IOCSORDER then order.ioctlSet true p env
  else if cmd = SCULLP_IOCTORDER then order.ioctlTell true p arg
  else if cmd = SCULLP_IOCGORDER then order.ioctlGet p env
  else if cmd = SCULLP_IOCQORDER then order.ioctlQuery p
  else if cmd = SCULLP_IOCXORDER then order.ioctlExchange true p env
  else if cmd = SCULLP_IOCHORDER then order.ioctlShift true p arg
  else if cmd = SCULLP_IOCSQSET then qset.ioctlSet true p env
  else if cmd = SCULLP_IOCTQSET then qset.ioctlTell true p arg
  else if cmd = SCULLP_IOCGQSET then qset.ioctlGet p env
  else if cmd = SCULLP_IOCQQSET then qset.ioctlQuery p
  else if cmd = SCULLP_IOCXQSET then qset.ioctlExchange true p env
  else if cmd = SCULLP_IOCHQSET then qset.ioctlShift true p arg
  else ⟨-ENOTTY, p, none⟩

/-! ### Calls that fail -/

/-- The number of a command that changes a parameter. -/
def ScullpField.command : ScullpField → Change → UInt32
  | .order, .set => SCULLP_IOCSORDER
  | .order, .exchange => SCULLP_IOCXORDER
  | .order, .shift => SCULLP_IOCHORDER
  | .qset, .set => SCULLP_IOCSQSET
  | .qset, .exchange => SCULLP_IOCXQSET
  | .qset, .shift => SCULLP_IOCHQSET

theorem ScullpField.command_inj (f : ScullpField) (k : Change) (g : ScullpField) (l : Change)
    (h : f.command k = g.command l) : f = g ∧ k = l := by
  cases f <;> cases k <;> cases g <;> cases l <;>
    first
      | exact ⟨rfl, rfl⟩
      | exact absurd h (by decide)

/-- When a command that changes a parameter leaves it on failure: every caller is allowed to.

Source: `ldd/scullp/main.c`, lines 302–304, 318–323, 325–328 and the same for `scullp_qset`. -/
def ScullpField.Keeps (f : ScullpField) (p : ScullpParams) (arg : UInt64) (env : IoctlEnv) :
    Change → Prop :=
  f.param.Keeps true p arg env

section Harmless

variable {p : ScullpParams} {arg : UInt64} {env : IoctlEnv}

theorem scullpIoctl_command (f : ScullpField) (k : Change) :
    scullpIoctl p (f.command k) arg env = f.param.change true p arg env k := by
  cases f <;> cases k <;> cases h : env.accessOk <;>
    simp [scullpIoctl, ioctlAccess, Param.change, h] <;> rfl

theorem scullpIoctl_other {cmd : UInt32} (h : ∀ (f : ScullpField) k, cmd ≠ f.command k) :
    (scullpIoctl p cmd arg env).Harmless p := by
  unfold scullpIoctl
  refine iteInduction (fun _ => harmless_of_eq _ _) fun _ => ?_
  refine iteInduction (fun _ => harmless_of_eq _ _) fun _ => ?_
  refine iteInduction (fun _ => harmless_of_eq _ _) fun _ => ?_
  refine iteInduction (fun _ => harmless_of_zero _ _) fun _ => ?_
  refine iteInduction (fun hcmd => absurd hcmd (h .order .set)) fun _ => ?_
  refine iteInduction (fun _ => Param.ioctlTell_harmless _) fun _ => ?_
  refine iteInduction (fun _ => harmless_of_eq _ _) fun _ => ?_
  refine iteInduction (fun _ => harmless_of_eq _ _) fun _ => ?_
  refine iteInduction (fun hcmd => absurd hcmd (h .order .exchange)) fun _ => ?_
  refine iteInduction (fun hcmd => absurd hcmd (h .order .shift)) fun _ => ?_
  refine iteInduction (fun hcmd => absurd hcmd (h .qset .set)) fun _ => ?_
  refine iteInduction (fun _ => Param.ioctlTell_harmless _) fun _ => ?_
  refine iteInduction (fun _ => harmless_of_eq _ _) fun _ => ?_
  refine iteInduction (fun _ => harmless_of_eq _ _) fun _ => ?_
  refine iteInduction (fun hcmd => absurd hcmd (h .qset .exchange)) fun _ => ?_
  refine iteInduction (fun hcmd => absurd hcmd (h .qset .shift)) fun _ => ?_
  exact harmless_of_eq _ _

theorem scullpIoctl_harmless_iff (cmd : UInt32) : (scullpIoctl p cmd arg env).Harmless p ↔
    ∀ (f : ScullpField) k, cmd = f.command k → f.Keeps p arg env k :=
  harmless_iff_of_commands ScullpField.command_inj scullpIoctl_command
    (fun _ => scullpIoctl_other) cmd

end Harmless

/-- **When a failed ioctl changes nothing**, for both drivers. If the call returns the number of an
error, the parameters are as they were, if and only if: where the argument of a Set or eXchange
cannot be read, the parameter is 0 already; where the old value of an eXchange cannot be written
back, the new one is the same; and where a sHift finds the number of an error in the parameter, and
so returns it, it stores it again.

Source: `ldd/scull/main.c`, lines 395–516; `ldd/scullp/main.c`, lines 269–357. -/
theorem failed_ioctl_keeps_iff (p : Scull.Params) (p' : ScullpParams) (cmd : UInt32)
    (arg : UInt64) (env : IoctlEnv) :
    ((Fails (Scull.scullIoctl p cmd arg env).ret → (Scull.scullIoctl p cmd arg env).params = p) ↔
      ∀ (f : Scull.Field) k, cmd = f.command k → f.Keeps p arg env k) ∧
    ((Fails (scullpIoctl p' cmd arg env).ret → (scullpIoctl p' cmd arg env).params = p') ↔
      ∀ (f : ScullpField) k, cmd = f.command k → f.Keeps p' arg env k) :=
  ⟨Scull.scullIoctl_harmless_iff cmd, scullpIoctl_harmless_iff cmd⟩

/-- A Set whose argument cannot be read, and an eXchange whose old value cannot be written back, of
either driver. -/
theorem failed_ioctl_changes :
    (Scull.scullIoctl .default Scull.SCULL_IOCSQUANTUM 0 ⟨true, true, none, true⟩).ret = -EFAULT ∧
    (Scull.scullIoctl .default Scull.SCULL_IOCSQUANTUM 0 ⟨true, true, none, true⟩).params =
      { Scull.Params.default with quantum := 0 } ∧
    (Scull.scullIoctl .default Scull.SCULL_IOCXQSET 0 ⟨true, true, some 7, false⟩).ret = -EFAULT ∧
    (Scull.scullIoctl .default Scull.SCULL_IOCXQSET 0 ⟨true, true, some 7, false⟩).params =
      { Scull.Params.default with qset := 7 } ∧
    (scullpIoctl .default SCULLP_IOCSQSET 0 ⟨true, false, none, true⟩).ret = -EFAULT ∧
    (scullpIoctl .default SCULLP_IOCSQSET 0 ⟨true, false, none, true⟩).params =
      { ScullpParams.default with qset := 0 } ∧
    Scull.Params.default ≠ { Scull.Params.default with quantum := 0 } ∧
    Scull.Params.default ≠ { Scull.Params.default with qset := 7 } ∧
    ScullpParams.default ≠ { ScullpParams.default with qset := 0 } :=
  ⟨rfl, rfl, rfl, rfl, rfl, rfl, by decide, by decide, by decide⟩

end ExKernel.Scullp
