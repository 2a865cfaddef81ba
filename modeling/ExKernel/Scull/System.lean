import ExKernel.Lib.SparseStore
import ExKernel.Lib.Transition
import ExKernel.Scull.Calls

/-!
# A scull device and its files

The state of the whole: the device, the heap its blocks come from, the module parameters and the
positions of the files. The events are the methods of the device, each taken as one step, with
whatever allocations and copies fail.

The representation invariant says that the list has the shape that the geometry of the device asks
for, that it covers the data, and that its blocks are the live ones of the heap. It holds although
the parameters change at any time, because the device takes them over only when it is emptied.

## Main definitions

* `Scull.ScullSys`, `Scull.ScullOp`, `Scull.ScullSys.step`.
* `Scull.Admissible`: positions whose quantum set has a number that is an `int`, and ioctls that
  store geometries that the driver can work with.
* `Scull.Rep`: the representation invariant.

## Main results

* `Scull.Rep.step`: no admissible call is stuck, and every one preserves the invariant.
* `Scull.representation_invariant`: the invariant over all runs, with what follows from it.

## References

* `ldd/scull/main.c`, lines 58–83, 240–516 and 524–548.
-/

namespace ExKernel.Scull

open Transition

/-- The device, the heap, the module parameters, and the position of each file. -/
structure ScullSys where
  dev : ScullDev
  heap : Ledger
  params : Params
  files : ℕ → ℤ

/-- The module as it is loaded with the parameters `params`. -/
def ScullSys.load (params : Params) : ScullSys := ⟨.init params, .empty, params, fun _ => 0⟩

/-- The access mode of a file: `f_flags & O_ACCMODE`. -/
inductive AccMode
  | rdonly
  | wronly
  | rdwr
  deriving DecidableEq

/-- A call of one of the methods of the device; `lockIntr` is whether taking the lock is
interrupted. -/
inductive ScullOp
  | scullOpen (file : ℕ) (mode : AccMode) (lockIntr : Bool)
  | scullRead (file count room : ℕ) (lockIntr : Bool) (env : AllocEnv)
  | scullWrite (file count : ℕ) (src : UserBuffer) (lockIntr : Bool) (env : AllocEnv)
  | scullLlseek (file : ℕ) (off : Int64) (whence : Int32)
  | scullIoctl (cmd : UInt32) (arg : UInt64) (env : IoctlEnv)

/-- What a call answers: its return value and the bytes that it delivered or accepted. -/
structure Answer where
  ret : ℤ
  bytes : List UInt8 := []

/-- The system after a read or write on a file. -/
def ScullSys.after (s : ScullSys) (file : ℕ) (res : IoResult) : Answer × ScullSys :=
  (⟨res.ret, res.bytes⟩,
    { s with dev := res.dev, heap := res.heap, files := Function.update s.files file res.fPos })

/-- One call.

Source: `ldd/scull/main.c`, lines 240–516 and 524–548. -/
def ScullSys.step (s : ScullSys) : ScullOp → Option (Answer × ScullSys)
  | .scullOpen file mode lockIntr =>
    if mode = .wronly then
      if lockIntr then some (⟨-ERESTARTSYS, []⟩, s)
      else (scullTrim s.params s.dev s.heap).map fun out =>
        (⟨0, []⟩, { s with dev := out.1, heap := out.2, files := Function.update s.files file 0 })
    else some (⟨0, []⟩, { s with files := Function.update s.files file 0 })
  | .scullRead file count room lockIntr env =>
    if lockIntr then some (⟨-ERESTARTSYS, []⟩, s)
    else (scullReadLocked s.dev.quantum s.dev.qset s.dev s.heap (s.files file) count room env).map
      (s.after file)
  | .scullWrite file count src lockIntr env =>
    if lockIntr then some (⟨-ERESTARTSYS, []⟩, s)
    else (scullWriteLocked s.dev.quantum s.dev.qset s.dev s.heap (s.files file) count src env).map
      (s.after file)
  | .scullLlseek file off whence =>
    let out := scullLlseek s.dev (s.files file) off whence
    some (⟨out.1, []⟩, { s with files := Function.update s.files file out.2 })
  | .scullIoctl cmd arg env =>
    let out := scullIoctl s.params cmd arg env
    some (⟨out.ret, []⟩, { s with params := out.params })

/-- The number of the quantum set of a position is an `int`. -/
def ItemFits (dev : ScullDev) (fPos : ℤ) : Prop :=
  fPos / (dev.quantum.toInt * dev.qset.toInt) < 2 ^ 31

/-- Reads and writes are at positions whose quantum set has a number that is an `int`, and ioctls
leave parameters that make a geometry that the driver can work with. -/
def Admissible (s : ScullSys) : ScullOp → Prop
  | .scullRead file .. => ItemFits s.dev (s.files file)
  | .scullWrite file .. => ItemFits s.dev (s.files file)
  | .scullIoctl cmd arg env =>
    GoodGeometry (scullIoctl s.params cmd arg env).params.quantum
      (scullIoctl s.params cmd arg env).params.qset
  | _ => True

/-! ### The representation invariant -/

/-- The number of bytes of a quantum of the device. -/
def ScullDev.q (dev : ScullDev) : ℕ := dev.quantum.toInt.toNat

/-- The number of entries of an array of the device. -/
def ScullDev.s (dev : ScullDev) : ℕ := dev.qset.toInt.toNat

theorem Kept.q_eq {Q S : ℕ} {dev : ScullDev} {heap : Ledger} {res : IoResult}
    (h : Kept Q S dev heap res) : res.dev.q = dev.q := by
  rw [ScullDev.q, h.quantum_eq, ScullDev.q]

theorem Kept.s_eq {Q S : ℕ} {dev : ScullDev} {heap : Ledger} {res : IoResult}
    (h : Kept Q S dev heap res) : res.dev.s = dev.s := by
  rw [ScullDev.s, h.qset_eq, ScullDev.s]

/-- The live blocks after a call on one device, where `rest` are those that are not reachable from
it. -/
theorem Kept.live_perm {Q S : ℕ} {dev : ScullDev} {heap : Ledger} {res : IoResult} {rest : List ℕ}
    (h : Kept Q S dev heap res) (hlive : heap.live.Perm (blocks S dev.data ++ rest)) :
    res.heap.live.Perm (blocks S res.dev.data ++ rest) := by
  obtain ⟨ids, hgrows, hperm⟩ := h.grows
  refine hgrows.perm hlive ?_
  rw [← List.append_assoc]
  exact hperm.append_right rest

theorem Kept.sound {Q S : ℕ} {dev : ScullDev} {heap : Ledger} {res : IoResult}
    (h : Kept Q S dev heap res) (hsound : heap.Sound) : res.heap.Sound := by
  obtain ⟨ids, hgrows, -⟩ := h.grows
  exact hgrows.sound hsound

/-- Emptying the device releases its blocks, in order, and installs the geometry of the
parameters. -/
theorem scullTrim_eq {Q : ℕ} {dev : ScullDev} (h : Shaped Q dev.s dev.data) (params : Params)
    (heap : Ledger) :
    scullTrim params dev heap =
      some (⟨[], params.quantum, params.qset, 0⟩, heap.freeAll (blocks dev.s dev.data)) := by
  rw [scullTrim, show dev.qset.toInt.toNat = dev.s from rfl, freeQSets_eq h]
  rfl

/-- The representation invariant of a device alone: its list has the shape of its geometry and
covers the data. -/
structure DevRep (dev : ScullDev) : Prop where
  geometry : GoodGeometry dev.quantum dev.qset
  shaped : Shaped dev.q dev.s dev.data
  covered : 0 < dev.size → (dev.size - 1) / (dev.q * dev.s) < dev.data.length
  size_lt : dev.size < 2 ^ 63

theorem item_le {p m Q : ℕ} (hm : m ≤ Q - p % Q) (S : ℕ) : (p + m - 1) / (Q * S) ≤ p / (Q * S) := by
  rcases Nat.eq_zero_or_pos m with rfl | hpos
  · exact Nat.div_le_div_right (by omega)
  · have hdiv : (p + m - 1) / Q = p / Q := div_eq_of_chunk (by omega) (by omega)
    rw [← Nat.div_div_eq_div_mul, ← Nat.div_div_eq_div_mul, hdiv]

namespace DevRep

variable {dev : ScullDev}

theorem empty {quantum qset : Int32} (h : GoodGeometry quantum qset) :
    DevRep ⟨[], quantum, qset, 0⟩ where
  geometry := h
  shaped := by simp [Shaped]
  covered := by simp
  size_lt := by simp

/-- The number of the quantum set of an admissible position, and the bounds of the position. -/
theorem pos_bounds (h : DevRep dev) {p : ℕ} (hfit : ItemFits dev p) :
    p < 2 ^ 63 ∧ p + dev.q < 2 ^ 63 ∧
      rounds (Int32.ofInt (p / (dev.q * dev.s) : ℕ)) = p / (dev.q * dev.s) := by
  rw [ItemFits, ← h.geometry.toNat_quantum, ← h.geometry.toNat_qset, ← Nat.cast_mul] at hfit
  have hfit' : p / (dev.q * dev.s) < 2 ^ 31 := by exact_mod_cast hfit
  have hbound : p + dev.q < 2 ^ 63 := h.geometry.add_quantum_lt hfit'
  exact ⟨by omega, hbound, rounds_ofInt hfit'⟩

/-- A read of a position in the data finds its quantum set in the list. -/
theorem item_lt (h : DevRep dev) {p : ℕ} (hp : p < dev.size) :
    p / (dev.q * dev.s) < dev.data.length :=
  lt_of_le_of_lt (Nat.div_le_div_right (by omega)) (h.covered (by omega))

/-- A read at the position `p`: it is not stuck, and leaves the device and the heap as they are. -/
theorem read_spec (h : DevRep dev) {p : ℕ} (hfit : ItemFits dev p) (heap : Ledger)
    (count room : ℕ) (env : AllocEnv) :
    ∃ res, scullReadLocked dev.quantum dev.qset dev heap p count room env = some res ∧
      res.dev = dev ∧ res.heap = heap ∧ (0 ≤ res.fPos ∧ res.fPos < 2 ^ 63) ∧
      Kept dev.q dev.s dev heap res ∧
      ReadEffect dev.q dev.s (p / dev.q) dev p (min (upToSize dev p count) (dev.q - p % dev.q)) room
        res := by
  obtain ⟨hlt, hbound, hitem⟩ := h.pos_bounds hfit
  have hspec : ∃ res,
      scullReadLocked dev.quantum dev.qset dev heap p count room env = some res ∧
      Kept dev.q dev.s dev heap res ∧ res.dev.size = dev.size ∧
      (∀ k, quantumAt dev.s res.dev.data k = quantumAt dev.s dev.data k) ∧
      (dev.size ≤ p ∨ rounds (Int32.ofInt (p / (dev.q * dev.s) : ℕ)) < dev.data.length →
        res.dev = dev ∧ res.heap = heap) ∧
      ReadEffect dev.q dev.s
        (rounds (Int32.ofInt (p / (dev.q * dev.s) : ℕ)) * dev.s + p / dev.q % dev.s)
        dev p (min (upToSize dev p count) (dev.q - p % dev.q)) room res :=
    scullReadLocked_spec h.geometry h.shaped heap hlt count room env
  rw [hitem, item_mul_add] at hspec
  obtain ⟨res, hres, hkept, -, -, hsame, heffect⟩ := hspec
  have hdev : res.dev = dev ∧ res.heap = heap := by
    refine hsame ?_
    rcases le_or_gt dev.size p with hle | hgt
    · exact Or.inl hle
    · exact Or.inr (h.item_lt hgt)
  refine ⟨res, hres, hdev.1, hdev.2, ?_, hkept, heffect⟩
  cases heffect with
  | nothing _ _ hpos => rw [hpos]; omega
  | fault _ _ _ _ _ hpos => rw [hpos]; omega
  | delivered _ _ _ _ _ hpos =>
    rw [hpos, loffT_natCast (by omega)]
    omega

/-- A write at the position `p`: it is not stuck, keeps the invariant, and fails for want of memory
that it needs, or has this memory and comes to its copy. -/
theorem write_outcome (h : DevRep dev) {p : ℕ} (hfit : ItemFits dev p) (heap : Ledger) (count : ℕ)
    (src : UserBuffer) (env : AllocEnv) :
    ∃ res, scullWriteLocked dev.quantum dev.qset dev heap p count src env = some res ∧
      DevRep res.dev ∧ (0 ≤ res.fPos ∧ res.fPos < 2 ^ 63) ∧ Kept dev.q dev.s dev heap res ∧
      Attached env (p / (dev.q * dev.s)) dev heap res ∧
      ((Starved dev p res ∧
          ¬ env.Supplies dev.data (p / (dev.q * dev.s)) (p / dev.q % dev.s : ℕ)) ∨
        (Copied dev.q dev.s (p / (dev.q * dev.s)) (p / dev.q) dev p (min count (dev.q - p % dev.q))
            src env.quantum res ∧
          env.Supplies dev.data (p / (dev.q * dev.s)) (p / dev.q % dev.s : ℕ))) := by
  obtain ⟨hlt, hbound, hitem⟩ := h.pos_bounds hfit
  have hspec : ∃ res,
      scullWriteLocked dev.quantum dev.qset dev heap p count src env = some res ∧
      Kept dev.q dev.s dev heap res ∧
      Attached env (rounds (Int32.ofInt (p / (dev.q * dev.s) : ℕ))) dev heap res ∧
      ((Starved dev p res ∧ ¬ env.Supplies dev.data
          (rounds (Int32.ofInt (p / (dev.q * dev.s) : ℕ))) (p / dev.q % dev.s : ℕ)) ∨
        (Copied dev.q dev.s (rounds (Int32.ofInt (p / (dev.q * dev.s) : ℕ)))
            (rounds (Int32.ofInt (p / (dev.q * dev.s) : ℕ)) * dev.s + p / dev.q % dev.s)
            dev p (min count (dev.q - p % dev.q)) src env.quantum res ∧
          env.Supplies dev.data (rounds (Int32.ofInt (p / (dev.q * dev.s) : ℕ)))
            (p / dev.q % dev.s : ℕ))) :=
    scullWriteLocked_cases h.geometry h.shaped heap p count src env
  rw [hitem, item_mul_add] at hspec
  obtain ⟨res, hres, hkept, hattached, hcases⟩ := hspec
  have hkeep : res.dev.size < 2 ^ 63 →
      (0 < res.dev.size → (res.dev.size - 1) / (dev.q * dev.s) < res.dev.data.length) →
      DevRep res.dev := by
    intro hsize hcov
    refine ⟨?_, ?_, ?_, hsize⟩
    · rw [hkept.quantum_eq, hkept.qset_eq]
      exact h.geometry
    · rw [hkept.q_eq, hkept.s_eq]
      exact hkept.shaped
    · rw [hkept.q_eq, hkept.s_eq]
      exact hcov
  have hfailed : Failed dev p res → DevRep res.dev ∧ 0 ≤ res.fPos ∧ res.fPos < 2 ^ 63 := by
    intro hfail
    rw [hfail.fPos_eq]
    refine ⟨hkeep (hfail.size_eq ▸ h.size_lt) fun hpos => ?_, by omega, by omega⟩
    rw [hfail.size_eq] at hpos ⊢
    exact (h.covered hpos).trans_le hkept.length_le
  rcases hcases with hstarved | hcopied
  · obtain ⟨hrep, hpos⟩ := hfailed hstarved.1.failed
    exact ⟨res, hres, hrep, hpos, hkept, hattached, .inl hstarved⟩
  by_cases hcopy : min count (dev.q - p % dev.q) ≤ src.bytes.length
  · obtain ⟨-, -, hfPos, hsize⟩ := hcopied.1.done hcopy
    have hend : p + min count (dev.q - p % dev.q) < 2 ^ 63 := by omega
    rw [loffT_natCast hend] at hfPos hsize
    rw [sizeT_natCast (by omega)] at hsize
    refine ⟨res, hres, hkeep ?_ ?_, by omega, hkept, hattached, .inr hcopied⟩
    · rw [hsize]
      exact max_lt h.size_lt hend
    · intro hpos
      rw [hsize] at hpos ⊢
      rcases le_total (p + min count (dev.q - p % dev.q)) dev.size with hle | hle
      · rw [max_eq_left hle] at hpos ⊢
        exact (h.covered hpos).trans_le hkept.length_le
      · rw [max_eq_right hle]
        exact (item_le (min_le_right _ _) dev.s).trans_lt hcopied.1.item_lt
  · obtain ⟨hrep, hpos⟩ := hfailed (hcopied.1.failed hcopy)
    exact ⟨res, hres, hrep, hpos, hkept, hattached, .inr hcopied⟩

theorem write_cases (h : DevRep dev) {p : ℕ} (hfit : ItemFits dev p) (heap : Ledger) (count : ℕ)
    (src : UserBuffer) (env : AllocEnv) :
    ∃ res, scullWriteLocked dev.quantum dev.qset dev heap p count src env = some res ∧
      DevRep res.dev ∧ (0 ≤ res.fPos ∧ res.fPos < 2 ^ 63) ∧ Kept dev.q dev.s dev heap res ∧
      ((Failed dev p res ∧ ¬ env.Ample) ∨
        Copied dev.q dev.s (p / (dev.q * dev.s)) (p / dev.q) dev p (min count (dev.q - p % dev.q))
          src env.quantum res) := by
  obtain ⟨res, hres, hrep, hpos, hkept, -, hcases⟩ := h.write_outcome hfit heap count src env
  refine ⟨res, hres, hrep, hpos, hkept, hcases.imp (fun h => ?_) And.left⟩
  exact ⟨h.1.failed, fun hample => h.2 (hample.supplies _ _ _)⟩

end DevRep

/-- The representation invariant. -/
structure Rep (s : ScullSys) : Prop where
  geometry : GoodGeometry s.dev.quantum s.dev.qset
  next_geometry : GoodGeometry s.params.quantum s.params.qset
  shaped : Shaped s.dev.q s.dev.s s.dev.data
  covered : 0 < s.dev.size → (s.dev.size - 1) / (s.dev.q * s.dev.s) < s.dev.data.length
  size_lt : s.dev.size < 2 ^ 63
  sound : s.heap.Sound
  live_perm : s.heap.live.Perm (blocks s.dev.s s.dev.data)
  pos : ∀ file, 0 ≤ s.files file ∧ s.files file < 2 ^ 63

namespace Rep

variable {s : ScullSys}

theorem load {params : Params} (h : GoodGeometry params.quantum params.qset) :
    Rep (.load params) where
  geometry := h
  next_geometry := h
  shaped := by simp [Shaped, ScullSys.load, ScullDev.init]
  covered h := by simp [ScullSys.load, ScullDev.init] at h
  size_lt := by simp [ScullSys.load, ScullDev.init]
  sound := Ledger.sound_empty
  live_perm := by simp [ScullSys.load, ScullDev.init, Ledger.empty, blocks]
  pos _ := by simp [ScullSys.load]

theorem exists_pos (h : Rep s) (file : ℕ) : ∃ p : ℕ, s.files file = p :=
  Int.eq_ofNat_of_zero_le (h.pos file).1

theorem devRep (h : Rep s) : DevRep s.dev := ⟨h.geometry, h.shaped, h.covered, h.size_lt⟩

/-- The number of the quantum set of an admissible position, and the bounds of the position. -/
theorem pos_bounds (h : Rep s) {file p : ℕ} (hp : s.files file = p)
    (hfit : ItemFits s.dev (s.files file)) :
    p < 2 ^ 63 ∧ p + s.dev.q < 2 ^ 63 ∧
      rounds (Int32.ofInt (p / (s.dev.q * s.dev.s) : ℕ)) = p / (s.dev.q * s.dev.s) :=
  h.devRep.pos_bounds (hp ▸ hfit)

theorem pos_update (h : Rep s) {file : ℕ} {x : ℤ} (hx : 0 ≤ x ∧ x < 2 ^ 63) (f : ℕ) :
    0 ≤ Function.update s.files file x f ∧ Function.update s.files file x f < 2 ^ 63 := by
  by_cases hf : f = file
  · subst hf
    simpa using hx
  · simpa [hf] using h.pos f

/-- A seek leaves a position that is not negative and is a `loff_t`. -/
theorem scullLlseek_pos {dev : ScullDev} {fPos : ℤ} (off : Int64) (whence : Int32)
    (h : 0 ≤ fPos ∧ fPos < 2 ^ 63) :
    0 ≤ (scullLlseek dev fPos off whence).2 ∧ (scullLlseek dev fPos off whence).2 < 2 ^ 63 := by
  have hoff := off.toInt_lt
  have hwrap : ∀ x, loffT x < 2 ^ 63 := fun x => Int.bmod_lt (by decide)
  unfold scullLlseek
  simp only
  split
  · exact h
  · rename_i newpos hnew
    have hlt : newpos < 2 ^ 63 := by
      split_ifs at hnew <;> cases hnew
      · exact hoff
      · exact hwrap _
      · exact hwrap _
    split_ifs with hneg
    · exact h
    · exact ⟨not_lt.mp hneg, hlt⟩

/-- What a call keeps of the invariant, whatever it does to the position. -/
theorem after (h : Rep s) {file : ℕ} {res : IoResult}
    (hkept : Kept s.dev.q s.dev.s s.dev s.heap res) (hrep : DevRep res.dev)
    (hpos : 0 ≤ res.fPos ∧ res.fPos < 2 ^ 63) : Rep (s.after file res).2 := by
  obtain ⟨ids, hgrows, hperm⟩ := hkept.grows
  refine ⟨hrep.geometry, h.next_geometry, hrep.shaped, hrep.covered, hrep.size_lt,
    hgrows.sound h.sound, ?_, h.pos_update hpos⟩
  simp only [ScullSys.after, hkept.s_eq]
  exact hgrows.perm h.live_perm hperm

/-- Emptying the device releases its blocks, each once, and installs the geometry of the
parameters. -/
theorem trim (h : Rep s) : ∃ heap', scullTrim s.params s.dev s.heap =
      some (⟨[], s.params.quantum, s.params.qset, 0⟩, heap') ∧
    heap'.freed = s.heap.freed ++ blocks s.dev.s s.dev.data ∧ heap'.live = [] ∧ heap'.Sound := by
  obtain ⟨hsound, hlive⟩ := h.sound.freeAll_of_perm h.live_perm
  exact ⟨_, scullTrim_eq h.shaped s.params s.heap, Ledger.freed_freeAll _ _, hlive, hsound⟩

/-- A read on a file at the position `p`: it is not stuck, and leaves the device and the heap as
they are. -/
theorem read_spec (h : Rep s) {file p : ℕ} (hp : s.files file = p)
    (hfit : ItemFits s.dev (s.files file)) (count room : ℕ) (env : AllocEnv) :
    ∃ res, scullReadLocked s.dev.quantum s.dev.qset s.dev s.heap (s.files file) count room env =
        some res ∧ res.dev = s.dev ∧ res.heap = s.heap ∧ Rep (s.after file res).2 ∧
      ReadEffect s.dev.q s.dev.s (p / s.dev.q) s.dev p
        (min (upToSize s.dev p count) (s.dev.q - p % s.dev.q)) room res := by
  rw [hp] at hfit ⊢
  obtain ⟨res, hres, hdev, hheap, hpos, hkept, heffect⟩ :=
    h.devRep.read_spec hfit s.heap count room env
  refine ⟨res, hres, hdev, hheap, h.after hkept ?_ hpos, heffect⟩
  rw [hdev]
  exact h.devRep

/-- A write on a file at the position `p`: it is not stuck, and fails or stores the bytes. -/
theorem write_spec (h : Rep s) {file p : ℕ} (hp : s.files file = p)
    (hfit : ItemFits s.dev (s.files file)) (count : ℕ) (src : UserBuffer) (env : AllocEnv) :
    ∃ res, scullWriteLocked s.dev.quantum s.dev.qset s.dev s.heap (s.files file) count src env =
        some res ∧ Rep (s.after file res).2 ∧ Kept s.dev.q s.dev.s s.dev s.heap res ∧
      ((Failed s.dev p res ∧
          ¬ (env.Ample ∧ min count (s.dev.q - p % s.dev.q) ≤ src.bytes.length)) ∨
        Written s.dev.q s.dev.s (p / (s.dev.q * s.dev.s)) (p / s.dev.q) s.dev p
          (min count (s.dev.q - p % s.dev.q)) src res) := by
  rw [hp] at hfit ⊢
  obtain ⟨res, hres, hrep, hpos, hkept, hcases⟩ :=
    h.devRep.write_cases hfit s.heap count src env
  refine ⟨res, hres, h.after hkept hrep hpos, hkept, ?_⟩
  rcases hcases with ⟨hfailed, hnot⟩ | hcopied
  · exact Or.inl ⟨hfailed, fun hample => hnot hample.1⟩
  · by_cases hcopy : min count (s.dev.q - p % s.dev.q) ≤ src.bytes.length
    · exact Or.inr (hcopied.written hcopy)
    · exact Or.inl ⟨hcopied.failed hcopy, fun hample => hcopy hample.2⟩

/-- **The representation invariant.** No admissible call is stuck, and every one preserves it. -/
theorem step (h : Rep s) {op : ScullOp} (hop : Admissible s op) :
    ∃ r t, s.step op = some (r, t) ∧ Rep t := by
  cases op with
  | scullOpen file mode lockIntr =>
    have hzero : (0 : ℤ) ≤ 0 ∧ (0 : ℤ) < 2 ^ 63 := by decide
    simp only [ScullSys.step]
    split_ifs with hmode hintr
    · exact ⟨_, _, rfl, h⟩
    · obtain ⟨heap', htrim, -, hlive, hsound⟩ := h.trim
      rw [htrim]
      refine ⟨_, _, rfl, h.next_geometry, h.next_geometry, by simp [Shaped], by simp, by simp,
        hsound, ?_, h.pos_update hzero⟩
      simp [hlive, blocks]
    · exact ⟨_, _, rfl, h.geometry, h.next_geometry, h.shaped, h.covered, h.size_lt, h.sound,
        h.live_perm, h.pos_update hzero⟩
  | scullRead file count room lockIntr env =>
    simp only [ScullSys.step]
    split_ifs
    · exact ⟨_, _, rfl, h⟩
    · obtain ⟨p, hp⟩ := h.exists_pos file
      obtain ⟨res, hres, -, -, hrep, -⟩ := h.read_spec hp hop count room env
      exact ⟨_, _, by rw [hres]; rfl, hrep⟩
  | scullWrite file count src lockIntr env =>
    simp only [ScullSys.step]
    split_ifs
    · exact ⟨_, _, rfl, h⟩
    · obtain ⟨p, hp⟩ := h.exists_pos file
      obtain ⟨res, hres, hrep, -, -⟩ := h.write_spec hp hop count src env
      exact ⟨_, _, by rw [hres]; rfl, hrep⟩
  | scullLlseek file off whence =>
    refine ⟨_, _, rfl, h.geometry, h.next_geometry, h.shaped, h.covered, h.size_lt, h.sound,
      h.live_perm, h.pos_update ?_⟩
    exact scullLlseek_pos off whence (h.pos file)
  | scullIoctl cmd arg env =>
    exact ⟨_, _, rfl, h.geometry, hop, h.shaped, h.covered, h.size_lt, h.sound, h.live_perm, h.pos⟩

end Rep

/-- The place of a position is inside the array and the quantum that it asks for. -/
theorem exists_locate {quantum qset : Int32} (h : GoodGeometry quantum qset) (p count : ℕ) :
    ∃ place, locate quantum qset p = some place ∧
      0 ≤ place.sPos ∧ place.sPos < (qset.toInt.toNat : ℤ) ∧
      0 ≤ place.qPos ∧ place.qPos + clamp quantum place.qPos count ≤ (quantum.toInt.toNat : ℤ) := by
  have hsPos := Nat.mod_lt (p / quantum.toInt.toNat) h.toNat_qset_pos
  have hqPos := Nat.mod_lt p h.toNat_quantum_pos
  refine ⟨_, locate_eq h p, Int.natCast_nonneg _, by simp only; omega, Int.natCast_nonneg _, ?_⟩
  rw [clamp_eq h]
  simp only
  omega

/-- **The representation invariant over whole runs.** From the load of the module on, every sequence
of opens, reads, writes, seeks and ioctls, with whatever failures of allocations and copies, runs
without an access outside a block; and after it: every array has `qset` entries and every quantum
`quantum` bytes, as the device records them, so the place of every position lies inside; the list
covers the data, so reads change neither the device nor the heap; the live blocks are the reachable
ones, and emptying the device releases each of them once.

Source: `ldd/scull/main.c`, lines 62–83 and 240–516. -/
theorem representation_invariant {params : Params}
    (hgood : GoodGeometry params.quantum params.qset) {ops : List ScullOp}
    (hops : Guarded ScullSys.step Admissible (.load params) ops) :
    ∃ answers s, exec ScullSys.step (.load params) ops = some (answers, s) ∧
      (∀ dptr ∈ s.dev.data, ∀ arr, dptr.data = some arr → arr.size = s.dev.s ∧
        ∀ i < s.dev.s, ∀ q, arr.cells (i : ℕ) = some q → q.size = s.dev.q) ∧
      (∀ p count : ℕ, ∃ place, locate s.dev.quantum s.dev.qset p = some place ∧
        0 ≤ place.sPos ∧ place.sPos < (s.dev.s : ℤ) ∧
        0 ≤ place.qPos ∧ place.qPos + clamp s.dev.quantum place.qPos count ≤ (s.dev.q : ℤ)) ∧
      (0 < s.dev.size → (s.dev.size - 1) / (s.dev.q * s.dev.s) < s.dev.data.length) ∧
      (∀ file count room lockIntr env, Admissible s (.scullRead file count room lockIntr env) →
        ∃ r t, s.step (.scullRead file count room lockIntr env) = some (r, t) ∧
          t.dev = s.dev ∧ t.heap = s.heap) ∧
      s.heap.live.Perm (blocks s.dev.s s.dev.data) ∧ (blocks s.dev.s s.dev.data).Nodup ∧
      ∃ dev' heap', scullTrim s.params s.dev s.heap = some (dev', heap') ∧
        heap'.freed = s.heap.freed ++ blocks s.dev.s s.dev.data ∧ heap'.freed.Nodup ∧
        heap'.live = [] := by
  obtain ⟨answers, s, hrun, h⟩ :=
    exec_progress Rep (fun _ _ hs hop => hs.step hop) (.load hgood) hops
  obtain ⟨heap', htrim, hfreed, hlive, hsound⟩ := h.trim
  refine ⟨answers, s, hrun, h.shaped, exists_locate h.geometry, h.covered, ?_, h.live_perm,
    h.live_perm.nodup_iff.mp h.sound.live_nodup, _, heap', htrim, hfreed, hsound.freed_nodup, hlive⟩
  intro file count room lockIntr env hadm
  simp only [ScullSys.step]
  split_ifs
  · exact ⟨_, _, rfl, rfl, rfl⟩
  · obtain ⟨p, hp⟩ := h.exists_pos file
    obtain ⟨res, hres, hdev, hheap, -⟩ := h.read_spec hp hadm count room env
    exact ⟨_, _, by rw [hres]; rfl, hdev, hheap⟩

/-- A device that gets another quantum, is emptied, and is written without memory for the
quantum. -/
theorem representation_invariant_no_quantum :
    ∃ answers s, exec ScullSys.step (.load .default)
        [.scullIoctl SCULL_IOCTQUANTUM 8 ⟨true, true, none, true⟩, .scullOpen 0 .wronly false,
          .scullWrite 0 3 ⟨[1, 2, 3], []⟩ false ⟨fun _ => true, true, none⟩] = some (answers, s) ∧
      s.heap.live.Perm (blocks s.dev.s s.dev.data) := by
  have hops : Guarded ScullSys.step Admissible (.load .default)
      [.scullIoctl SCULL_IOCTQUANTUM 8 ⟨true, true, none, true⟩, .scullOpen 0 .wronly false,
        .scullWrite 0 3 ⟨[1, 2, 3], []⟩ false ⟨fun _ => true, true, none⟩] := by
    refine ⟨⟨by decide, by decide, by decide⟩, fun _ _ h => ?_⟩
    cases h
    refine ⟨trivial, fun _ _ h => ?_⟩
    cases h
    exact ⟨show ItemFits _ _ by unfold ItemFits; decide, fun _ _ _ => trivial⟩
  obtain ⟨answers, s, hrun, -, -, -, -, hperm, -⟩ :=
    representation_invariant ⟨by decide, by decide, by decide⟩ hops
  exact ⟨answers, s, hrun, hperm⟩

end ExKernel.Scull
