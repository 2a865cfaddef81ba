import ExKernel.Lib.Kernel
import ExKernel.Lib.Register

/-!
# Loading the simple block drivers

Two drivers take the same steps when they are loaded: they register a major number, allocate the
device and its buffer, and make a queue with its tag set and a disk. When a step fails, one function
takes the device apart, whatever has been made of it, by looking at which of its fields are set.
What it releases is an invariant of the construction: the fields that are set are what the driver
holds.

The drivers differ in the variable for the major number. An `int` keeps the error of a failed
registration, and the test for a result that is not positive finds it. In an `unsigned int` the
error is a large number, and the driver goes on without a major number.

## Main definitions

* `Blk.addDevice`, `Blk.removeDevice`: the device.
* `Blk.Blkdev.init`, `Blk.Blkdev.exit`, `Blk.Sblkdev.init`, `Blk.Sblkdev.exit`: the two drivers.
* `Blk.AllOrNothing`: what is expected of a driver.

## Main results

* `Blk.addDevice_spec`, `Blk.removeDevice_spec`.
* `Blk.load_all_or_nothing_iff`: the one driver is as expected, and when the other is.

## References

* `m_modules/blk_dev/blkdev.c`, lines 12 and 126–276; `m_modules/blk_dev/sblkdev.c`, lines 34–35 and
  175–312.
-/

namespace ExKernel.Blk

/-! ### The kernel -/

/-- What a driver can hold. The disk is allocated and then added, which are undone apart. -/
inductive Resource
  | dev
  | buffer
  | queue
  | tagSet
  | disk
  | addedDisk
  | major (n : ℕ)
  deriving DecidableEq

/-- An error that is returned as a pointer: `IS_ERR`. -/
structure ErrPtr where
  err : ℤ
  neg : err < 0

/-- What the kernel answers: the result of `register_blkdev`, whether there is memory for the
device, the buffer and the disk, and the error of `blk_mq_init_sq_queue`, if there is one. -/
structure Answers where
  registerBlkdev : Int32
  kzalloc : Bool
  kmalloc : Bool
  initSqQueue : Option ErrPtr
  allocDisk : Bool

/-- All steps after the registration succeed. -/
def Answers.DeviceGranted (a : Answers) : Prop :=
  a.kzalloc = true ∧ a.kmalloc = true ∧ a.initSqQueue.isNone = true ∧ a.allocDisk = true

instance (a : Answers) : Decidable a.DeviceGranted := inferInstanceAs (Decidable (_ ∧ _))

/-- All steps succeed. -/
def Answers.Granted (a : Answers) : Prop := 0 < a.registerBlkdev.toInt ∧ a.DeviceGranted

instance (a : Answers) : Decidable a.Granted := inferInstanceAs (Decidable (_ ∧ _))

/-! ### The device -/

/-- `block_dev_t`, `sblkdev_device_t`: the fields that tell what there is to release. -/
structure DeviceT where
  data : Bool
  queue : Bool
  tags : Bool
  gdisk : Bool

/-- The device of a driver, if there is one, and what the driver holds. -/
structure DriverSys where
  dev : Option DeviceT
  res : Register Resource

/-- The releases of a device, in order.

Source: `m_modules/blk_dev/blkdev.c`, lines 228–254; `m_modules/blk_dev/sblkdev.c`, lines
266–290. -/
def DeviceT.releases (dev : DeviceT) : List Resource :=
  (if dev.gdisk then [.addedDisk] else []) ++ (if dev.queue then [.queue] else []) ++
    (if dev.tags then [.tagSet] else []) ++ (if dev.gdisk then [.disk] else []) ++
    (if dev.data then [.buffer] else []) ++ [.dev]

/-- `blkdev_remove_device`, `sblkdev_remove_device`. -/
def removeDevice (s : DriverSys) : DriverSys :=
  match s.dev with
  | none => s
  | some dev => ⟨none, s.res.releaseAll dev.releases⟩

/-- `alloc_disk` and what follows it: the return value, and the driver afterwards. -/
def addDisk (a : Answers) (dev : DeviceT) (res : Register Resource) : ℤ × DriverSys :=
  if a.allocDisk then
    (0, ⟨some { dev with gdisk := true }, (res.acquire .disk).acquire .addedDisk⟩)
  else (-ENOMEM, ⟨some dev, res⟩)

/-- `blk_mq_init_sq_queue` and what follows it. On failure it frees the tag set itself. -/
def addQueue (a : Answers) (dev : DeviceT) (res : Register Resource) : ℤ × DriverSys :=
  match a.initSqQueue with
  | some queue => (queue.err, ⟨some dev, res⟩)
  | none =>
    addDisk a { dev with queue := true, tags := true } ((res.acquire .tagSet).acquire .queue)

/-- The allocation of the buffer and what follows it. -/
def addBuffer (a : Answers) (dev : DeviceT) (res : Register Resource) : ℤ × DriverSys :=
  if a.kmalloc then addQueue a { dev with data := true } (res.acquire .buffer)
  else (-ENOMEM, ⟨some dev, res⟩)

/-- `blkdev_add_device`, `sblkdev_add_device`: the return value, and the driver afterwards.

Source: `m_modules/blk_dev/blkdev.c`, lines 146–226; `m_modules/blk_dev/sblkdev.c`, lines
175–264. -/
def addDevice (a : Answers) (s : DriverSys) : ℤ × DriverSys :=
  if a.kzalloc then
    let out := addBuffer a ⟨false, false, false, false⟩ (s.res.acquire .dev)
    if out.1 ≠ 0 then (out.1, removeDevice out.2) else out
  else (-ENOMEM, s)

/-! ### The drivers -/

/-- The driver when its module is loaded, and what it has in its variable for the major number. -/
structure Loaded where
  ret : ℤ
  major : ℤ
  sys : DriverSys

/-- What `register_blkdev` leaves when it returns `n`: a positive result is a number registered. -/
def registered (n : Int32) : Register Resource :=
  if 0 < n.toInt then Register.empty.acquire (.major n.toInt.toNat) else Register.empty

/-- `unregister_blkdev`, whose argument is an `unsigned int`. -/
def unregisterBlkdev (major : ℤ) (s : DriverSys) : DriverSys :=
  { s with res := s.res.release (.major (major % 2 ^ 32).toNat) }

/-- The two initialisations, where `store` is the conversion to the type of the variable for the
major number. -/
def initWith (store : Int32 → ℤ) (a : Answers) : Loaded :=
  let major := store a.registerBlkdev
  let s : DriverSys := ⟨none, registered a.registerBlkdev⟩
  if major ≤ 0 then ⟨-EBUSY, major, s⟩
  else
    let out := addDevice a s
    ⟨out.1, major, if out.1 ≠ 0 then unregisterBlkdev major out.2 else out.2⟩

/-- The two exit functions. -/
def exitLoaded (m : Loaded) : DriverSys :=
  let s := removeDevice m.sys
  if 0 < m.major then unregisterBlkdev m.major s else s

/-- `blkdev_init`, with an `int` for the major number.

Source: `m_modules/blk_dev/blkdev.c`, lines 12 and 257–269. -/
def Blkdev.init : Answers → Loaded := initWith Int32.toInt

/-- `blkdev_exit`.

Source: `m_modules/blk_dev/blkdev.c`, lines 271–276. -/
def Blkdev.exit : Loaded → DriverSys := exitLoaded

/-- `sblkdev_init`, with an `unsigned int` for the major number.

Source: `m_modules/blk_dev/sblkdev.c`, lines 34 and 292–305. -/
def Sblkdev.init : Answers → Loaded := initWith fun n => n.toUInt32.toNat

/-- `sblkdev_exit`.

Source: `m_modules/blk_dev/sblkdev.c`, lines 307–312. -/
def Sblkdev.exit : Loaded → DriverSys := exitLoaded

/-- What is expected of a driver: it is loaded exactly if every step succeeds, and otherwise there
is an error and nothing is held; and when it was loaded, its exit function releases what is held,
each once and nothing else. -/
structure AllOrNothing (init : Answers → Loaded) (exit : Loaded → DriverSys) (a : Answers) :
    Prop where
  loaded : (init a).ret = 0 ↔ a.Granted
  failed : ¬ a.Granted → (init a).ret < 0 ∧ (init a).sys.res.held = []
  released : (init a).ret = 0 → (exit (init a)).res.Clean

/-! ### What is held -/

/-- What the driver holds is what its device would release, and the rest. -/
structure Accounts (s : DriverSys) (rest : List Resource) : Prop where
  held : s.res.held.Perm (s.dev.elim [] DeviceT.releases ++ rest)
  stray : s.res.stray = []

section Device

variable {a : Answers} {dev : DeviceT} {res : Register Resource} {s : DriverSys}
  {rest : List Resource}

/-- A device with one more field set, and what was acquired for the field. -/
theorem Accounts.acquire {dev' : DeviceT} {res' : Register Resource}
    (h : Accounts ⟨some dev, res⟩ rest) (acquired : List Resource)
    (hheld : res'.held = acquired ++ res.held) (hstray : res'.stray = res.stray)
    (hdev : (acquired ++ dev.releases).Perm dev'.releases) :
    Accounts ⟨some dev', res'⟩ rest where
  held := by
    have hold : res.held.Perm (dev.releases ++ rest) := h.held
    have hnew : (acquired ++ res.held).Perm (acquired ++ (dev.releases ++ rest)) :=
      hold.append_left acquired
    rw [← List.append_assoc] at hnew
    rw [hheld]
    exact hnew.trans (hdev.append_right rest)
  stray := hstray.trans h.stray

/-- **Taking a device apart**, whatever has been made of it. -/
theorem removeDevice_spec (h : Accounts s rest) :
    (removeDevice s).dev = none ∧ Accounts (removeDevice s) rest := by
  obtain ⟨_ | dev, res⟩ := s
  · exact ⟨rfl, h⟩
  · obtain ⟨hheld, hstray⟩ := Register.releaseAll_perm h.held
    exact ⟨rfl, hheld, hstray.trans h.stray⟩

/-- A part of the construction that succeeds exactly under a condition. -/
structure Added (granted : Prop) (rest : List Resource) (out : ℤ × DriverSys) : Prop where
  ret_iff : out.1 = 0 ↔ granted
  ret_le : out.1 ≤ 0
  accounts : Accounts out.2 rest

theorem Added.of_neg {ret : ℤ} {granted : Prop} (hret : ret < 0) (hnot : ¬ granted)
    (h : Accounts s rest) : Added granted rest (ret, s) :=
  ⟨iff_of_false hret.ne hnot, hret.le, h⟩

theorem addDisk_spec (h : Accounts ⟨some dev, res⟩ rest) (hdev : dev.gdisk = false) :
    Added (a.allocDisk = true) rest (addDisk a dev res) := by
  cases hdisk : a.allocDisk with
  | false =>
    rw [addDisk, hdisk, if_neg Bool.false_ne_true]
    exact .of_neg (by decide) Bool.false_ne_true h
  | true =>
    rw [addDisk, hdisk, if_pos rfl]
    refine ⟨iff_of_true rfl rfl, le_rfl, h.acquire [.addedDisk, .disk] rfl rfl ?_⟩
    obtain ⟨data, queue, tags, gdisk⟩ := dev
    obtain rfl : gdisk = false := hdev
    cases data <;> cases queue <;> cases tags <;> decide

theorem addQueue_spec (h : Accounts ⟨some dev, res⟩ rest) (hdisk : dev.gdisk = false)
    (hqueue : dev.queue = false) (htags : dev.tags = false) :
    Added (a.initSqQueue.isNone = true ∧ a.allocDisk = true) rest (addQueue a dev res) := by
  cases hq : a.initSqQueue with
  | some queue =>
    rw [addQueue, hq]
    exact .of_neg queue.neg (by simp) h
  | none =>
    have hacc : Accounts ⟨some { dev with queue := true, tags := true },
        (res.acquire .tagSet).acquire .queue⟩ rest := by
      refine h.acquire [.queue, .tagSet] rfl rfl ?_
      obtain ⟨data, queue, tags, gdisk⟩ := dev
      obtain rfl : gdisk = false := hdisk
      obtain rfl : queue = false := hqueue
      obtain rfl : tags = false := htags
      cases data <;> decide
    obtain ⟨hiff, hle, hacc'⟩ := addDisk_spec (a := a) hacc hdisk
    rw [addQueue, hq]
    exact ⟨by simpa using hiff, hle, hacc'⟩

theorem addBuffer_spec (h : Accounts ⟨some ⟨false, false, false, false⟩, res⟩ rest) :
    Added (a.kmalloc = true ∧ a.initSqQueue.isNone = true ∧ a.allocDisk = true) rest
      (addBuffer a ⟨false, false, false, false⟩ res) := by
  cases hk : a.kmalloc with
  | false =>
    rw [addBuffer, hk, if_neg Bool.false_ne_true]
    exact .of_neg (by decide) (by simp) h
  | true =>
    have hacc : Accounts ⟨some ⟨true, false, false, false⟩, res.acquire .buffer⟩ rest :=
      h.acquire [.buffer] rfl rfl (by decide)
    obtain ⟨hiff, hle, hacc'⟩ := addQueue_spec (a := a) hacc rfl rfl rfl
    rw [addBuffer, hk, if_pos rfl]
    exact ⟨by simpa using hiff, hle, hacc'⟩

/-- **Making a device**: all of it, or nothing. -/
theorem addDevice_spec (hdev : s.dev = none) (h : Accounts s rest) :
    Added a.DeviceGranted rest (addDevice a s) ∧
      ((addDevice a s).1 ≠ 0 → (addDevice a s).2.dev = none) := by
  obtain ⟨dev, res⟩ := s
  obtain rfl : dev = none := hdev
  cases hk : a.kzalloc with
  | false =>
    rw [addDevice, hk, if_neg Bool.false_ne_true]
    exact ⟨.of_neg (by decide) (by simp [Answers.DeviceGranted, hk]) h, fun _ => rfl⟩
  | true =>
    have hacc : Accounts ⟨some ⟨false, false, false, false⟩, res.acquire .dev⟩ rest :=
      ⟨List.Perm.cons Resource.dev h.held, h.stray⟩
    obtain ⟨hiff, hle, hacc'⟩ := addBuffer_spec (a := a) hacc
    have hgranted : a.DeviceGranted ↔
        a.kmalloc = true ∧ a.initSqQueue.isNone = true ∧ a.allocDisk = true := by
      simp [Answers.DeviceGranted, hk]
    rw [addDevice, hk, if_pos rfl]
    by_cases hret : (addBuffer a ⟨false, false, false, false⟩ (res.acquire .dev)).1 = 0
    · rw [if_neg (not_not.mpr hret)]
      exact ⟨⟨hiff.trans hgranted.symm, hle, hacc'⟩, fun hne => absurd hret hne⟩
    · obtain ⟨hnone, hrest⟩ := removeDevice_spec hacc'
      rw [if_pos hret]
      exact ⟨⟨hiff.trans hgranted.symm, hle, hrest⟩, fun _ => hnone⟩

end Device

/-! ### Loading and unloading -/

section Load

variable {a : Answers} {store : Int32 → ℤ} {s : DriverSys}

theorem unregisterBlkdev_clean {n : Int32} (hn : 0 < n.toInt) (hdev : s.dev = none)
    (h : Accounts s [.major n.toInt.toNat]) : (unregisterBlkdev n.toInt s).res.Clean := by
  have hlt := n.toInt_lt
  have hmod : n.toInt % 2 ^ 32 = n.toInt := Int.emod_eq_of_lt hn.le (by omega)
  have hheld : s.res.held.Perm [.major n.toInt.toNat] := by simpa [hdev] using h.held
  rw [unregisterBlkdev, hmod]
  exact Register.clean_releaseAll.mpr ⟨h.stray, hheld⟩

theorem allOrNothing_of_registered (hn : 0 < a.registerBlkdev.toInt)
    (hstore : store a.registerBlkdev = a.registerBlkdev.toInt) :
    AllOrNothing (initWith store) exitLoaded a := by
  have hregistered : Accounts ⟨none, registered a.registerBlkdev⟩
      [.major a.registerBlkdev.toInt.toNat] := by
    rw [registered, if_pos hn]
    exact ⟨.refl _, rfl⟩
  obtain ⟨⟨hiff, hle, hacc⟩, hnone⟩ := addDevice_spec (a := a) rfl hregistered
  have hinit : initWith store a = ⟨_, _, _⟩ := if_neg (by rw [hstore]; omega)
  have hgranted : a.Granted ↔ a.DeviceGranted := and_iff_right hn
  refine ⟨?_, fun hnot => ?_, fun hret => ?_⟩
  · rw [hinit, hgranted]
    exact hiff
  · have hret := mt hiff.mp (mt hgranted.mpr hnot)
    rw [hinit]
    refine ⟨lt_of_le_of_ne hle hret, ?_⟩
    simp only [if_pos hret, hstore]
    exact (unregisterBlkdev_clean hn (hnone hret) hacc).held_eq
  · rw [hinit] at hret ⊢
    obtain ⟨hnone', hacc'⟩ := removeDevice_spec hacc
    simp only [exitLoaded, if_neg (not_not.mpr hret), hstore, if_pos hn]
    exact unregisterBlkdev_clean hn hnone' hacc'

theorem allOrNothing_of_refused (hn : a.registerBlkdev.toInt ≤ 0)
    (hstore : store a.registerBlkdev ≤ 0) : AllOrNothing (initWith store) exitLoaded a := by
  have hinit : initWith store a = ⟨-EBUSY, _, ⟨none, registered a.registerBlkdev⟩⟩ := if_pos hstore
  have hnot : ¬ a.Granted := fun h => absurd h.1 (not_lt.mpr hn)
  have hempty : registered a.registerBlkdev = Register.empty := if_neg (not_lt.mpr hn)
  have hret : (initWith store a).ret < 0 := by
    rw [hinit]
    exact (by decide : -EBUSY < 0)
  refine ⟨iff_of_false hret.ne hnot, fun _ => ⟨hret, ?_⟩, fun hzero => absurd hzero hret.ne⟩
  rw [hinit, hempty]
  rfl

theorem allOrNothing_of_unseen (hn : a.registerBlkdev.toInt < 0)
    (hstore : 0 < store a.registerBlkdev) :
    AllOrNothing (initWith store) exitLoaded a ↔ ¬ a.DeviceGranted := by
  have hregistered : Accounts ⟨none, registered a.registerBlkdev⟩ [] := by
    rw [registered, if_neg (by omega)]
    exact ⟨.refl _, rfl⟩
  obtain ⟨⟨hiff, hle, hacc⟩, hnone⟩ := addDevice_spec (a := a) rfl hregistered
  have hinit : initWith store a = ⟨_, _, _⟩ := if_neg (by omega)
  have hnot : ¬ a.Granted := fun h => absurd h.1 (by omega)
  constructor
  · intro hall hdev
    refine hnot (hall.loaded.mp ?_)
    rw [hinit]
    exact hiff.mpr hdev
  · intro hdev
    have hret := mt hiff.mp hdev
    refine ⟨?_, fun _ => ?_, fun hzero => ?_⟩
    · rw [hinit]
      exact iff_of_false hret hnot
    · have hheld : (addDevice a ⟨none, registered a.registerBlkdev⟩).2.res.held = [] := by
        simpa [hnone hret] using hacc.held
      rw [hinit]
      refine ⟨lt_of_le_of_ne hle hret, ?_⟩
      simp only [if_pos hret, unregisterBlkdev, Register.release, hheld, List.not_mem_nil,
        if_false]
    · rw [hinit] at hzero
      exact absurd hzero hret

end Load

theorem natCast_toUInt32 (n : Int32) : (n.toUInt32.toNat : ℤ) = n.toInt % 2 ^ 32 := by
  have hlt := n.toUInt32.toNat_lt
  have hcond : n.toInt = if 2 * n.toUInt32.toNat < 2 ^ 32 then (n.toUInt32.toNat : ℤ)
      else n.toUInt32.toNat - (2 ^ 32 : ℕ) := n.toBitVec.toInt_eq_toNat_cond
  split_ifs at hcond <;> omega

/-- **Loading is all or nothing.** For every result of the registration and every pattern of
failures this is so of `blkdev`; and it is so of `sblkdev` exactly if the registration did not fail
with an error while all other steps succeed.

Source: `m_modules/blk_dev/blkdev.c`, lines 126–276; `m_modules/blk_dev/sblkdev.c`, lines 34–35 and
175–312. -/
theorem load_all_or_nothing_iff (a : Answers) :
    AllOrNothing Blkdev.init Blkdev.exit a ∧
      (AllOrNothing Sblkdev.init Sblkdev.exit a ↔
        ¬ (a.registerBlkdev.toInt < 0 ∧ a.DeviceGranted)) := by
  constructor
  · rcases lt_or_ge 0 a.registerBlkdev.toInt with hpos | hle
    · exact allOrNothing_of_registered hpos rfl
    · exact allOrNothing_of_refused hle hle
  · have hunsigned := natCast_toUInt32 a.registerBlkdev
    have hlow := a.registerBlkdev.le_toInt
    have hhigh := a.registerBlkdev.toInt_lt
    rcases lt_or_ge a.registerBlkdev.toInt 0 with hneg | hnonneg
    · rw [and_iff_right hneg]
      exact allOrNothing_of_unseen hneg (by simp only [hunsigned]; omega)
    · refine iff_of_true ?_ fun h => absurd h.1 (not_lt.mpr hnonneg)
      rcases hnonneg.eq_or_lt with hzero | hpos
      · exact allOrNothing_of_refused hzero.ge (by simp only [hunsigned]; omega)
      · exact allOrNothing_of_registered hpos (by simp only [hunsigned]; omega)

/-- The registration fails with `-EBUSY` and every other step succeeds: `sblkdev` is loaded without
a major number, and its exit function releases one that is not held. -/
theorem sblkdev_loads_without_major :
    ¬ AllOrNothing Sblkdev.init Sblkdev.exit ⟨-16, true, true, none, true⟩ ∧
      (Sblkdev.init ⟨-16, true, true, none, true⟩).ret = 0 ∧
      (Sblkdev.exit (Sblkdev.init ⟨-16, true, true, none, true⟩)).res.stray =
        [.major (2 ^ 32 - 16)] := by
  refine ⟨fun h => ?_, by decide, by decide⟩
  exact absurd (h.loaded.mp (by decide)).1 (by decide)

end ExKernel.Blk
