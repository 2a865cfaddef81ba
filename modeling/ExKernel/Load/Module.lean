import ExKernel.Access.Private
import ExKernel.Lib.Register
import ExKernel.Pipe.System
import ExKernel.Scull.Account

/-!
# Loading and unloading the scull module

The module has three families of devices, each in a file of its own: the bare devices and the pipes,
whose arrays are allocated when the module is loaded, and the devices with access control, which are
static, with a list of private devices that grows. Loading it takes regions of device numbers,
blocks of memory and character devices from the kernel, any of which the kernel may refuse; the init
functions of the two friend files report a failure by returning 0, and loading goes on. One cleanup
function serves the unload of the module and a load that fails.

What is held is recorded in a ledger of blocks and in registers of regions and of character devices.
A character device is in its register from a `cdev_add` that succeeds to a `cdev_del`; the number
under which it is added plays no part in the release and is left out, and so are the entries under
`/proc` and the reference counts of kernel objects.

Between load and unload the devices are used. A call is one step, as far as it changes a device; the
calls that are refused or interrupted change none and are not steps. A read or write works with the
geometry that it has read before it took the lock.

## Main definitions

* `Load.Config`, `Load.LoadEnv`: the parameters of the load, and the answers of the kernel to it.
* `Load.ModSys`: the static data of the module, and what it holds.
* `Load.scullInitModule`, `Load.scullPInit`, `Load.scullAccessInit`.
* `Load.scullCleanupModule`, `Load.scullPCleanup`, `Load.scullAccessCleanup`.
* `Load.ModOp`, `Load.ModSys.step`: the use of the module.

## References

* `ldd/scull/main.c`, lines 40–55, 62–83, 240–389 and 562–671; `ldd/scull/pipe.c`, lines 48–59,
  64–229 and 323–393; `ldd/scull/access.c`, lines 37, 249–299 and 329–413.
-/

namespace ExKernel.Load

open Scull Pipe Private Single

/-! ### The state of the module -/

/-- The parameters that do not change, and the others as they are given.

Source: `ldd/scull/main.c`, lines 40–50; `ldd/scull/pipe.c`, lines 49–54. -/
structure Config where
  major : Int32
  minor : Int32
  nrDevs : Int32
  pNrDevs : Int32
  params : Params

/-- A character device of the module: that of a bare device, of a pipe, or of a device with access
control. -/
inductive Cdev
  | scull (i : ℕ)
  | pipe (i : ℕ)
  | access (i : ℕ)
  deriving DecidableEq

/-- A range of device numbers. -/
structure Region where
  first : UInt32
  count : UInt32
  deriving DecidableEq

/-- `MKDEV`. -/
def mkdev (ma mi : Int32) : UInt32 := ma.toUInt32 <<< 20 ||| mi.toUInt32

/-- `MAJOR`. -/
def majorOf (dev : UInt32) : Int32 := (dev >>> 20).toInt32

/-- What the kernel answers to a load: what `register_chrdev_region` and `alloc_chrdev_region`
return, and the major number that the latter hands out; whether there is memory for the arrays of
devices; and what `cdev_add` returns for each character device. -/
structure LoadEnv where
  region : ℤ
  major : Int32
  devices : Bool
  pRegion : ℤ
  pDevices : Bool
  aRegion : ℤ
  cdevAdd : Cdev → ℤ

/-- Whether `cdev_add` succeeds. -/
def LoadEnv.added (env : LoadEnv) (c : Cdev) : Bool := env.cdevAdd c = 0

/-- An array of devices in an allocated block. -/
structure DevArray (α : Type*) where
  id : ℕ
  devs : List α

/-- `SCULL_N_ADEVS`. -/
def SCULL_N_ADEVS : ℕ := 4

/-- The static data of the module; the regions, character devices and blocks that it holds; and the
number of its open files, which the kernel counts. -/
structure ModSys where
  major : Int32
  params : Params
  regions : Register Region
  cdevs : Register Cdev
  heap : Ledger
  /-- `scull_devices`, `none` for `NULL`. -/
  scullDevices : Option (DevArray ScullDev)
  pDevno : UInt32
  /-- `scull_p_devices`, `none` for `NULL`. -/
  pDevices : Option (DevArray ScullPipe)
  aFirstdev : UInt32
  /-- The devices of `scull_access_devs`. -/
  accessDevs : List ScullDev
  cList : List Item
  users : ℕ

/-- The module before it is loaded: the parameters are set and all other static data is zero. -/
def ModSys.unloaded (cfg : Config) : ModSys where
  major := cfg.major
  params := cfg.params
  regions := .empty
  cdevs := .empty
  heap := .empty
  scullDevices := none
  pDevno := 0
  pDevices := none
  aFirstdev := 0
  accessDevs := List.replicate SCULL_N_ADEVS ⟨[], 0, 0, 0⟩
  cList := []
  users := 0

/-- `cdev_add`. -/
def ModSys.cdevAdd (env : LoadEnv) (s : ModSys) (c : Cdev) : ModSys :=
  if env.added c then { s with cdevs := s.cdevs.acquire c } else s

/-! ### Cleanup -/

/-- The release of devices and their character devices: `scull_trim` and `cdev_del` for each.

Source: `ldd/scull/main.c`, lines 578–581; `ldd/scull/access.c`, lines 397–401. -/
def releaseDevs (params : Params) (c : ℕ → Cdev) :
    ℕ → List ScullDev → Ledger × Register Cdev → Option (Ledger × Register Cdev)
  | _, [], held => some held
  | i, dev :: devs, held => (scullTrim params dev held.1).bind fun out =>
    releaseDevs params c (i + 1) devs (out.2, held.2.release (c i))

/-- `kfree(dev->buffer)`, which does nothing for `NULL`. -/
def kfreeBuffer (dev : ScullPipe) (heap : Ledger) : Ledger :=
  match dev.buffer with
  | some b => heap.free b.id
  | none => heap

/-- The release of the pipes: `cdev_del` and `kfree` for each.

Source: `ldd/scull/pipe.c`, lines 386–389. -/
def releasePipes : ℕ → List ScullPipe → Ledger × Register Cdev → Ledger × Register Cdev
  | _, [], held => held
  | i, dev :: devs, held =>
    releasePipes (i + 1) devs (kfreeBuffer dev held.1, held.2.release (.pipe i))

/-- `scull_p_cleanup`.

Source: `ldd/scull/pipe.c`, lines 375–393. -/
def scullPCleanup (cfg : Config) (s : ModSys) : ModSys :=
  match s.pDevices with
  | none => s
  | some p =>
    let held := releasePipes 0 p.devs (s.heap, s.cdevs)
    { s with
      heap := held.1.free p.id
      cdevs := held.2
      regions := s.regions.release ⟨s.pDevno, cfg.pNrDevs.toUInt32⟩
      pDevices := none }

/-- The release of the private devices, each with its item of the list.

Source: `ldd/scull/access.c`, lines 404–408. -/
def releaseItems (params : Params) : List Item → Ledger → Option Ledger
  | [], heap => some heap
  | lptr :: next, heap => (scullTrim params lptr.dev heap).bind fun out =>
    releaseItems params next (out.2.free lptr.id)

/-- `scull_access_cleanup`.

Source: `ldd/scull/access.c`, lines 391–413. -/
def scullAccessCleanup (s : ModSys) : Option ModSys :=
  (releaseDevs s.params .access 0 s.accessDevs (s.heap, s.cdevs)).bind fun held =>
    (releaseItems s.params s.cList held.1).map fun heap =>
      { s with
        heap := heap
        cdevs := held.2
        accessDevs := s.accessDevs.map fun _ => ⟨[], s.params.quantum, s.params.qset, 0⟩
        cList := []
        regions := s.regions.release ⟨s.aFirstdev, UInt32.ofNat SCULL_N_ADEVS⟩ }

/-- The release of the bare devices and of their array, if there is one: the heap and the character
devices afterwards.

Source: `ldd/scull/main.c`, lines 577–583. -/
def releaseScullDevices (s : ModSys) : Option (Ledger × Register Cdev) :=
  match s.scullDevices with
  | none => some (s.heap, s.cdevs)
  | some a => (releaseDevs s.params .scull 0 a.devs (s.heap, s.cdevs)).map fun held =>
    (held.1.free a.id, held.2)

/-- `scull_cleanup_module`.

Source: `ldd/scull/main.c`, lines 571–596. -/
def scullCleanupModule (cfg : Config) (s : ModSys) : Option ModSys :=
  (releaseScullDevices s).bind fun held => scullAccessCleanup (scullPCleanup cfg { s with
    heap := held.1
    cdevs := held.2
    regions := s.regions.release ⟨mkdev s.major cfg.minor, cfg.nrDevs.toUInt32⟩ })

/-! ### Initialization -/

/-- The allocation of an array of `count` devices. -/
def allocDevs {α : Type*} (count : Int32) (ok : Bool) (dev : α) (heap : Ledger) :
    Option (DevArray α) × Ledger :=
  let got := kmalloc count.toInt (if ok then some fun _ => () else none) heap
  (got.1.map fun b => ⟨b.id, List.replicate count.toInt.toNat dev⟩, got.2)

/-- `scull_setup_cdev`.

Source: `ldd/scull/main.c`, lines 602–613. -/
def scullSetupCdev (env : LoadEnv) (s : ModSys) (index : ℕ) : ModSys := s.cdevAdd env (.scull index)

/-- `scull_p_setup_cdev`.

Source: `ldd/scull/pipe.c`, lines 326–336. -/
def scullPSetupCdev (env : LoadEnv) (s : ModSys) (index : ℕ) : ModSys := s.cdevAdd env (.pipe index)

/-- `scull_p_init`: how many devices there are, and the module afterwards.

Source: `ldd/scull/pipe.c`, lines 343–369. -/
def scullPInit (cfg : Config) (env : LoadEnv) (firstdev : UInt32) (s : ModSys) : Int32 × ModSys :=
  if env.pRegion < 0 then (0, s)
  else
    let s := { s with
      regions := s.regions.acquire ⟨firstdev, cfg.pNrDevs.toUInt32⟩
      pDevno := firstdev }
    let got := allocDevs cfg.pNrDevs env.pDevices ScullPipe.zero s.heap
    let s := { s with pDevices := got.1, heap := got.2 }
    match got.1 with
    | none =>
      (0, { s with regions := s.regions.release ⟨firstdev, cfg.pNrDevs.toUInt32⟩ })
    | some _ =>
      (cfg.pNrDevs, (List.range cfg.pNrDevs.toInt.toNat).foldl (scullPSetupCdev env) s)

/-- `scull_access_setup`, for the device with the number `i`.

Source: `ldd/scull/access.c`, lines 345–366. -/
def scullAccessSetup (env : LoadEnv) (s : ModSys) (i : ℕ) : ModSys :=
  let dev := fun dev : ScullDev => { dev with quantum := s.params.quantum, qset := s.params.qset }
  { s with accessDevs := s.accessDevs.modify i dev }.cdevAdd env (.access i)

/-- `scull_access_init`: how many devices there are, and the module afterwards.

Source: `ldd/scull/access.c`, lines 369–385. -/
def scullAccessInit (env : LoadEnv) (firstdev : UInt32) (s : ModSys) : Int32 × ModSys :=
  if env.aRegion < 0 then (0, s)
  else
    let s := { s with
      regions := s.regions.acquire ⟨firstdev, UInt32.ofNat SCULL_N_ADEVS⟩
      aFirstdev := firstdev }
    (Int32.ofNat SCULL_N_ADEVS, (List.range SCULL_N_ADEVS).foldl (scullAccessSetup env) s)

/-- The device number that the region begins with, and the major number of the module, which is
asked for if it is 0.

Source: `ldd/scull/main.c`, lines 625–632. -/
def firstRegion (cfg : Config) (env : LoadEnv) : UInt32 × Int32 :=
  if cfg.major ≠ 0 then (mkdev cfg.major cfg.minor, cfg.major)
  else
    -- A failed `alloc_chrdev_region` does not store a number.
    let dev := if env.region < 0 then 0 else mkdev env.major cfg.minor
    (dev, majorOf dev)

/-- `scull_init_module`: what it returns, and the module afterwards.

Source: `ldd/scull/main.c`, lines 616–668. -/
def scullInitModule (cfg : Config) (env : LoadEnv) : Option (ℤ × ModSys) :=
  let dev := firstRegion cfg env
  let s := { ModSys.unloaded cfg with major := dev.2 }
  if env.region < 0 then some (env.region, s)
  else
    let got := allocDevs cfg.nrDevs env.devices (ScullDev.init s.params) s.heap
    let s := { s with
      regions := s.regions.acquire ⟨dev.1, cfg.nrDevs.toUInt32⟩
      scullDevices := got.1
      heap := got.2 }
    match got.1 with
    | none => (scullCleanupModule cfg s).map fun s => (-ENOMEM, s)
    | some _ =>
      let s := (List.range cfg.nrDevs.toInt.toNat).foldl (scullSetupCdev env) s
      let dev := mkdev s.major (cfg.minor + cfg.nrDevs)
      let p := scullPInit cfg env dev s
      let a := scullAccessInit env (dev + p.1.toUInt32) p.2
      some (0, a.2)

/-! ### Use -/

/-- A device that a file points to. -/
inductive Node
  | scull (i : ℕ)
  | access (i : ℕ)
  | clone (id : ℕ)

/-- The device at a node. -/
def ModSys.dev? (s : ModSys) : Node → Option ScullDev
  | .scull i => s.scullDevices.bind fun a => a.devs[i]?
  | .access i => s.accessDevs[i]?
  | .clone id => (s.cList.find? fun lptr => lptr.id = id).map Item.dev

/-- The module with another device at a node, and another heap. -/
def ModSys.setDev (s : ModSys) (dev : ScullDev) (heap : Ledger) : Node → ModSys
  | .scull i => { s with
      scullDevices := s.scullDevices.map fun a => { a with devs := a.devs.set i dev }
      heap := heap }
  | .access i => { s with accessDevs := s.accessDevs.set i dev, heap := heap }
  | .clone id => { s with cList := Private.setDev s.cList id dev, heap := heap }

/-- The pipe with the number `i`. -/
def ModSys.pipe? (s : ModSys) (i : ℕ) : Option ScullPipe := s.pDevices.bind fun p => p.devs[i]?

/-- The module with another pipe, and another heap. -/
def ModSys.setPipe (s : ModSys) (i : ℕ) (dev : ScullPipe) (heap : Ledger) : ModSys :=
  { s with
    pDevices := s.pDevices.map fun p => { p with devs := p.devs.set i dev }
    heap := heap }

/-- A call that the module gets. A read or write has the geometry that it has read before it took
the lock. -/
inductive ModOp
  | scullOpen (node : Node) (mode : AccMode)
  | scullCOpen (key : UInt32) (ok : Bool) (mode : AccMode)
  | scullRead (node : Node) (quantum qset : Int32) (fPos : ℤ) (count room : ℕ) (env : AllocEnv)
  | scullWrite (node : Node) (quantum qset : Int32) (fPos : ℤ) (count : ℕ) (src : UserBuffer)
      (env : AllocEnv)
  | scullRelease
  | scullPOpen (i : ℕ) (mode : FMode) (answer : Option (ℤ → UInt8))
  | scullPRelease (i : ℕ) (mode : FMode)
  | transfer (i : ℕ) (t : Transfer)
  | scullIoctl (cmd : UInt32) (arg : UInt64) (env : IoctlEnv)

/-- The call opens a file. -/
def ModOp.opens : ModOp → Bool
  | scullOpen .. => true
  | scullCOpen .. => true
  | scullPOpen .. => true
  | _ => false

namespace ModSys

/-- What an open does to the device at a node.

Source: `ldd/scull/main.c`, lines 240–255; `ldd/scull/access.c`, lines 64–68, 122–127 and
191–195. -/
def openDev (s : ModSys) (node : Node) (mode : AccMode) : Option (ℤ × ModSys) :=
  (s.dev? node).bind fun dev => (bareOpen s.params mode (dev, s.heap)).map fun out =>
    (0, { s.setDev out.1 out.2 node with users := s.users + 1 })

/-- A read or write on the device at a node. -/
def onDev (s : ModSys) (node : Node) (call : ScullDev → Ledger → Option IoResult) :
    Option (ℤ × ModSys) :=
  (s.dev? node).bind fun dev => (call dev s.heap).map fun res =>
    (res.ret, s.setDev res.dev res.heap node)

/-- What a call does, and returns.

Source: `ldd/scull/main.c`, lines 240–516; `ldd/scull/pipe.c`, lines 64–229;
`ldd/scull/access.c`, lines 249–299. -/
def act (s : ModSys) : ModOp → Option (ℤ × ModSys)
  | .scullOpen node mode => s.openDev node mode
  | .scullCOpen key ok mode =>
    (scullCLookforDevice s.params key ok s.cList s.heap).bind fun found =>
      match found.1 with
      | none => some (-ENOMEM, s)
      | some id => { s with cList := found.2.1, heap := found.2.2 }.openDev (.clone id) mode
  | .scullRead node quantum qset fPos count room env => s.onDev node fun dev heap =>
    scullReadLocked quantum qset dev heap fPos count room env
  | .scullWrite node quantum qset fPos count src env => s.onDev node fun dev heap =>
    scullWriteLocked quantum qset dev heap fPos count src env
  | .scullRelease => some (0, { s with users := s.users - 1 })
  | .scullPOpen i mode answer => (s.pipe? i).map fun dev =>
    let out := scullPOpenLocked s.params.pBuffer mode answer dev s.heap
    (out.1, { s.setPipe i out.2.1 out.2.2 with
      users := if out.1 = 0 then s.users + 1 else s.users })
  | .scullPRelease i mode => (s.pipe? i).map fun dev =>
    let out := scullPReleaseLocked mode dev s.heap
    (0, { s.setPipe i out.1 out.2 with users := s.users - 1 })
  | .transfer i t => (s.pipe? i).bind fun dev => (t.exec dev).map fun out =>
    (out.1.ret.getD 0, s.setPipe i out.2 s.heap)
  | .scullIoctl cmd arg env =>
    let out := Scull.scullIoctl s.params cmd arg env
    some (out.ret, { s with params := out.params })

/-- One call; all but those that open a file are made on an open one. -/
def step (s : ModSys) (op : ModOp) : Option (ℤ × ModSys) :=
  if op.opens ∨ 0 < s.users then s.act op else none

end ModSys

/-- A write works with the geometry of its device. -/
def Current (s : ModSys) : ModOp → Prop
  | .scullWrite node quantum qset .. =>
    ∀ dev, s.dev? node = some dev → quantum = dev.quantum ∧ qset = dev.qset
  | _ => True

end ExKernel.Load
