import ExKernel.Scull.Geometry

/-!
# The blocks of a device with any geometry

The driver works with whatever geometry it is given. A call that comes to its end, whatever the
geometry and the position, keeps the shape of the list and has allocated what is newly reachable;
and emptying a device releases what is reachable. Nothing is said here about calls that are stuck.

## Main definitions

* `Scull.ScullDev.blocks`: the blocks of a device.
* `Scull.ScullDev.InShape`: the list has the shape of the geometry that the device records.

## Main results

* `Scull.scullReadLocked_kept`, `Scull.scullWriteLocked_kept`: what a read or write that comes to
  its end keeps.
* `Scull.ScullDev.InShape.trim`: emptying a device.
* `Scull.inShape_of_run`: the shape of the device after any run.

## References

* `ldd/scull/main.c`, lines 62–83 and 264–389.
-/

namespace ExKernel.Scull

/-! ### Reads and writes -/

section Calls

variable {quantum qset : Int32} {dev : ScullDev} {heap : Ledger} {fPos : ℤ} {count : ℕ}
  {env : AllocEnv} {res : IoResult}

theorem Kept.follow {Q S : ℕ} (hs : Shaped Q S dev.data) (answer : ℕ → Bool) (n : ℕ)
    (heap : Ledger) (ret : ℤ) (bytes : List UInt8) (fPos : ℤ) :
    Kept Q S dev heap ⟨ret, bytes, fPos,
      { dev with data := (scullFollow answer n dev.data heap).2.1 },
      (scullFollow answer n dev.data heap).2.2⟩ := by
  obtain ⟨hshape, hlen, -, hgrows, -⟩ := scullFollow_kept hs answer n heap
  exact ⟨rfl, rfl, hshape, hlen, hgrows⟩

/-- A read allocates at most quantum sets at the end of the list, which are reachable then. -/
theorem scullReadLocked_kept {Q S room : ℕ} (hs : Shaped Q S dev.data)
    (h : scullReadLocked quantum qset dev heap fPos count room env = some res) :
    Kept Q S dev heap res := by
  simp only [scullReadLocked] at h
  split_ifs at h with hend
  · cases h
    exact ⟨rfl, rfl, hs, le_rfl, [], .refl heap, .refl _⟩
  obtain ⟨place, -, h⟩ := Option.bind_eq_some_iff.mp h
  have hkept := Kept.follow hs env.node (rounds place.item) heap
  split_ifs at h with hok
  · obtain ⟨dptr, -, h⟩ := Option.bind_eq_some_iff.mp h
    repeat' split at h
    all_goals cases h <;> exact hkept _ _ _
  · cases h
    exact hkept _ _ _

/-- A write with the geometry of the list attaches what it allocates. -/
theorem scullWriteLocked_kept {src : UserBuffer}
    (hs : Shaped quantum.toInt.toNat qset.toInt.toNat dev.data)
    (h : scullWriteLocked quantum qset dev heap fPos count src env = some res) :
    Kept quantum.toInt.toNat qset.toInt.toNat dev heap res := by
  obtain ⟨place, hplace, -⟩ := Option.bind_eq_some_iff.mp h
  rcases scullWriteLocked_outcome hs hplace heap count src env with
    ⟨hstuck, -⟩ | ⟨res', hres, hkept, -⟩
  · rw [hstuck] at h
    cases h
  · rw [hres] at h
    cases h
    exact hkept

end Calls

/-! ### Devices -/

namespace ScullDev

/-- The blocks of a device. -/
def blocks (dev : ScullDev) : List ℕ := Scull.blocks dev.s dev.data

/-- The list has the shape of the geometry that the device records. -/
def InShape (dev : ScullDev) : Prop := Shaped dev.q dev.s dev.data

theorem inShape_nil (quantum qset : Int32) (size : ℕ) : InShape ⟨[], quantum, qset, size⟩ := by
  simp [InShape, Shaped]

namespace InShape

variable {dev : ScullDev} {heap : Ledger} {res : IoResult}

/-- A call that keeps the list keeps its shape, and the blocks that it allocates are reachable. -/
theorem kept (h : Kept dev.q dev.s dev heap res) :
    res.dev.InShape ∧ heap.Trades res.heap dev.blocks res.dev.blocks := by
  obtain ⟨ids, hgrows, hperm⟩ := h.grows
  rw [InShape, blocks, blocks, h.q_eq, h.s_eq]
  exact ⟨h.shaped, .of_grows hgrows hperm⟩

/-- **Emptying a device** releases its blocks, one after the other. -/
theorem trim (h : dev.InShape) (params : Params) (heap : Ledger) :
    scullTrim params dev heap =
      some (⟨[], params.quantum, params.qset, 0⟩, heap.freeAll dev.blocks) :=
  scullTrim_eq h params heap

end InShape

end ScullDev

/-! ### Whole runs -/

open Transition

/-- Every call that comes to its end keeps the shape of the device. -/
theorem inShape_step {s t : ScullSys} {op : ScullOp} {r : Answer} (hs : s.dev.InShape)
    (h : s.step op = some (r, t)) : t.dev.InShape := by
  cases op with
  | scullOpen file mode lockIntr =>
    simp only [ScullSys.step] at h
    split_ifs at h with hmode hintr
    · cases h
      exact hs
    · rw [hs.trim] at h
      cases h
      exact ScullDev.inShape_nil _ _ _
    · cases h
      exact hs
  | scullRead file count room lockIntr env =>
    simp only [ScullSys.step] at h
    split_ifs at h with hintr
    · cases h
      exact hs
    · obtain ⟨res, hres, heq⟩ := Option.map_eq_some_iff.mp h
      cases heq
      exact (ScullDev.InShape.kept (scullReadLocked_kept hs hres)).1
  | scullWrite file count src lockIntr env =>
    simp only [ScullSys.step] at h
    split_ifs at h with hintr
    · cases h
      exact hs
    · obtain ⟨res, hres, heq⟩ := Option.map_eq_some_iff.mp h
      cases heq
      exact (ScullDev.InShape.kept (scullWriteLocked_kept hs hres)).1
  | scullLlseek file off whence =>
    cases h
    exact hs
  | scullIoctl cmd arg env =>
    cases h
    exact hs

/-- The device has its shape after every run that comes to its end, whatever the geometries and the
positions in it. -/
theorem inShape_of_run {params : Params} {ops : List ScullOp} {answers : List Answer} {s : ScullSys}
    (hrun : exec ScullSys.step (.load params) ops = some (answers, s)) : s.dev.InShape :=
  exec_invariant (fun s => s.dev.InShape) (fun _ _ _ _ hs _ hst => inShape_step hs hst)
    (ScullDev.inShape_nil _ _ _) (guarded_true _ _) hrun

end ExKernel.Scull
