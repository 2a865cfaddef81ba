import ExKernel.Scull.System

/-!
# The geometry that ioctls leave

The driver divides by the quantum of a device and by the product of its quantum and its quantum set.
A device takes both from the module parameters when it is emptied, and until then the parameters may
be anything: the ioctls that set them store whatever they are given, and store 0 when the argument
cannot be read. So it is an open for writing only, which empties the device, that makes the numbers
count.

## Main definitions

* `Scull.Workable`: the geometry of the device is one that the driver can work with.
* `Scull.Divides`: so it is when a read or write divides by it.
* `Scull.EmptiesWell`: so are the parameters when an open empties the device.

## Main results

* `Scull.step_geometry`: the steps that change the geometry.
* `Scull.divisors_positive`: when all divisors are positive, over all runs.
* `Scull.division_by_zero`: a run in which they are not.

## References

* `ldd/scull/main.c`, lines 62–83, 240–255, 294–317, 338–358 and 395–516.
-/

namespace ExKernel.Scull

open Transition

instance (quantum qset : Int32) : Decidable (GoodGeometry quantum qset) :=
  decidable_of_iff
    (1 ≤ quantum.toInt ∧ 1 ≤ qset.toInt ∧ quantum.toInt * qset.toInt ≤ intMax)
    ⟨fun h => ⟨h.1, h.2.1, h.2.2⟩, fun h => ⟨h.1, h.2, h.3⟩⟩

/-- The geometry of the device is one that the driver can work with. -/
def Workable (s : ScullSys) : Prop := GoodGeometry s.dev.quantum s.dev.qset

/-- The divisors of a read or write are positive, and their product does not overflow.

Source: `ldd/scull/main.c`, lines 299–300, 312–314, 343–344 and 352–354. -/
def Divides (s : ScullSys) : ScullOp → Prop
  | .scullRead .. => GoodGeometry s.dev.quantum s.dev.qset
  | .scullWrite .. => GoodGeometry s.dev.quantum s.dev.qset
  | _ => True

/-- An open that empties the device gives it a geometry that the driver can work with.

Source: `ldd/scull/main.c`, lines 248–253. -/
def EmptiesWell (s : ScullSys) : ScullOp → Prop
  | .scullOpen _ mode lockIntr => mode = .wronly → lockIntr = false →
    GoodGeometry s.params.quantum s.params.qset
  | _ => True

/-! ### Single steps -/

/-- The geometry of a device is that of another. -/
def SameGeometry (dev dev' : ScullDev) : Prop := dev'.quantum = dev.quantum ∧ dev'.qset = dev.qset

section Geometry

variable {quantum qset : Int32} {dev : ScullDev} {heap : Ledger} {fPos : ℤ} {count : ℕ}
  {env : AllocEnv} {res : IoResult}

theorem scullReadLocked_geometry {room : ℕ}
    (h : scullReadLocked quantum qset dev heap fPos count room env = some res) :
    SameGeometry dev res.dev := by
  simp only [scullReadLocked] at h
  split_ifs at h with hend
  · cases h
    exact ⟨rfl, rfl⟩
  obtain ⟨place, -, h⟩ := Option.bind_eq_some_iff.mp h
  split_ifs at h with hok
  · obtain ⟨dptr, -, h⟩ := Option.bind_eq_some_iff.mp h
    repeat' split at h
    all_goals cases h <;> exact ⟨rfl, rfl⟩
  · cases h
    exact ⟨rfl, rfl⟩

theorem writeQuantum_geometry {place : Place} {dptr : QSet} {arr : QArray} {q : Quantum}
    {src : UserBuffer}
    (h : writeQuantum quantum dev heap fPos place dptr arr q count src = some res) :
    SameGeometry dev res.dev := by
  simp only [writeQuantum] at h
  split_ifs at h <;> cases h <;> exact ⟨rfl, rfl⟩

theorem scullWriteLocked_geometry {src : UserBuffer}
    (h : scullWriteLocked quantum qset dev heap fPos count src env = some res) :
    SameGeometry dev res.dev := by
  obtain ⟨place, -, h⟩ := Option.bind_eq_some_iff.mp h
  simp only at h
  split_ifs at h with hok
  · obtain ⟨dptr, -, h⟩ := Option.bind_eq_some_iff.mp h
    split at h
    · cases h
      exact ⟨rfl, rfl⟩
    · split_ifs at h with hin
      split at h
      · cases h
        exact ⟨rfl, rfl⟩
      · have hgeometry := writeQuantum_geometry h
        exact hgeometry
  · cases h
    exact ⟨rfl, rfl⟩

end Geometry

/-- **What changes the geometry.** A step leaves the geometry of the device, unless it is an open
for writing only that gets the lock: this installs the parameters. -/
theorem step_geometry {s t : ScullSys} {op : ScullOp} {r : Answer} (h : s.step op = some (r, t)) :
    SameGeometry s.dev t.dev ∨ (∃ file, op = .scullOpen file .wronly false) ∧
      t.dev.quantum = s.params.quantum ∧ t.dev.qset = s.params.qset := by
  cases op with
  | scullOpen file mode lockIntr =>
    simp only [ScullSys.step] at h
    split_ifs at h with hmode hintr
    · cases h
      exact .inl ⟨rfl, rfl⟩
    · obtain ⟨out, hout, heq⟩ := Option.map_eq_some_iff.mp h
      obtain ⟨heap', -, rfl⟩ := Option.map_eq_some_iff.mp hout
      cases heq
      rw [hmode, Bool.eq_false_iff.mpr hintr]
      exact .inr ⟨⟨file, rfl⟩, rfl, rfl⟩
    · cases h
      exact .inl ⟨rfl, rfl⟩
  | scullRead file count room lockIntr env =>
    simp only [ScullSys.step] at h
    split_ifs at h with hintr
    · cases h
      exact .inl ⟨rfl, rfl⟩
    · obtain ⟨res, hres, heq⟩ := Option.map_eq_some_iff.mp h
      cases heq
      exact .inl (scullReadLocked_geometry hres)
  | scullWrite file count src lockIntr env =>
    simp only [ScullSys.step] at h
    split_ifs at h with hintr
    · cases h
      exact .inl ⟨rfl, rfl⟩
    · obtain ⟨res, hres, heq⟩ := Option.map_eq_some_iff.mp h
      cases heq
      exact .inl (scullWriteLocked_geometry hres)
  | scullLlseek file off whence =>
    cases h
    exact .inl ⟨rfl, rfl⟩
  | scullIoctl cmd arg env =>
    cases h
    exact .inl ⟨rfl, rfl⟩

/-- A step from a geometry that the driver can work with leaves one, if an open finds one in the
parameters. -/
theorem Workable.step {s t : ScullSys} {op : ScullOp} {r : Answer} (hs : Workable s)
    (hop : EmptiesWell s op) (h : s.step op = some (r, t)) : Workable t := by
  rw [Workable]
  rcases step_geometry h with ⟨hquantum, hqset⟩ | ⟨⟨file, rfl⟩, hquantum, hqset⟩
  · rw [hquantum, hqset]
    exact hs
  · rw [hquantum, hqset]
    exact hop rfl rfl

/-- An open that leaves a geometry that the driver can work with has found it in the parameters. -/
theorem Workable.emptiesWell {s t : ScullSys} {op : ScullOp} {r : Answer} (ht : Workable t)
    (h : s.step op = some (r, t)) : EmptiesWell s op := by
  cases op with
  | scullOpen file mode lockIntr =>
    rintro rfl rfl
    obtain ⟨out, hout, heq⟩ := Option.map_eq_some_iff.mp h
    obtain ⟨heap', -, rfl⟩ := Option.map_eq_some_iff.mp hout
    cases heq
    exact ht
  | _ => trivial

theorem Workable.divides {s : ScullSys} (hs : Workable s) (op : ScullOp) : Divides s op := by
  cases op with
  | scullRead => exact hs
  | scullWrite => exact hs
  | _ => trivial

/-! ### Whole runs -/

theorem workable_load_default : Workable (.load .default) := ⟨by decide, by decide, by decide⟩

/-- **The divisors of reads and writes.** A module that was loaded with the default parameters, in
any run of opens, reads, writes, seeks and ioctls. If all opens that empty the device find
parameters that the driver can work with, the device has such a geometry in every state, so that the
divisors of all reads and writes are positive and their products do not overflow. And only then: in
a run that comes to its end and has such a geometry in every state, all these opens found such
parameters.

Source: `ldd/scull/main.c`, lines 62–83, 240–255, 294–389 and 395–516. -/
theorem divisors_positive (ops : List ScullOp) :
    (Guarded ScullSys.step EmptiesWell (.load .default) ops →
      Always ScullSys.step Workable (.load .default) ops ∧
      Guarded ScullSys.step Divides (.load .default) ops) ∧
    ∀ answers t, exec ScullSys.step (.load .default) ops = some (answers, t) →
      Always ScullSys.step Workable (.load .default) ops →
      Guarded ScullSys.step EmptiesWell (.load .default) ops := by
  constructor
  · intro hops
    have halways : Always ScullSys.step Workable (.load .default) ops :=
      always_of_invariant Workable (fun _ _ _ _ hs hop hst => hs.step hop hst)
        workable_load_default hops
    exact ⟨halways, halways.guarded fun _ op hs => hs.divides op⟩
  · intro answers t hrun halways
    exact halways.guarded_of_next (fun _ _ _ _ _ hst ht => ht.emptiesWell hst) hrun

/-- A device that gets quanta of 8 bytes, is emptied and is written. -/
theorem divisors_positive_quantum_eight :
    Guarded ScullSys.step Divides (.load .default)
      [.scullIoctl SCULL_IOCTQUANTUM 8 ⟨true, true, none, true⟩, .scullOpen 0 .wronly false,
        .scullWrite 0 1 ⟨[1], []⟩ false ⟨fun _ => true, true, some fun _ => 0⟩] := by
  refine ((divisors_positive _).1 ?_).2
  refine ⟨trivial, fun _ _ h => ?_⟩
  cases h
  refine ⟨fun _ _ => ⟨by decide, by decide, by decide⟩, fun _ _ h => ?_⟩
  cases h
  exact ⟨trivial, fun _ _ _ => trivial⟩

/-- A run in which the quantum is set to 0, the device is emptied, and a byte is written: the write
divides by zero. -/
theorem division_by_zero :
    ¬ Guarded ScullSys.step Divides (.load .default)
        [.scullIoctl SCULL_IOCTQUANTUM 0 ⟨true, true, none, true⟩, .scullOpen 0 .wronly false,
          .scullWrite 0 1 ⟨[1], []⟩ false ⟨fun _ => true, true, some fun _ => 0⟩] ∧
      exec ScullSys.step (.load .default)
        [.scullIoctl SCULL_IOCTQUANTUM 0 ⟨true, true, none, true⟩, .scullOpen 0 .wronly false,
          .scullWrite 0 1 ⟨[1], []⟩ false ⟨fun _ => true, true, some fun _ => 0⟩] = none := by
  constructor
  · rintro ⟨-, hrest⟩
    obtain ⟨-, hrest⟩ := hrest _ _ rfl
    obtain ⟨hdivides, -⟩ := hrest _ _ rfl
    have hpos := hdivides.quantum_pos
    exact absurd hpos (by decide)
  · rfl

end ExKernel.Scull
