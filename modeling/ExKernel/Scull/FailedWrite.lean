import ExKernel.Scull.Account

/-!
# What a failed write leaves to be seen

A write that fails leaves the position of its file and the size of the device. It does not leave the
device as it was: one that runs out of memory may have appended quantum sets and attached an array,
and one whose copy fails has copied the bytes before the fault into the quantum, which may be a
fresh one. What counts is whether later reads can tell.

Reads are taken as the file system layer passes them on: the position is not negative, and the
position with the count does not overflow.

## Main definitions

* `Scull.Usable`: a geometry whose numbers are positive and with which the driver can divide.
* `Scull.Seen`: a byte of a quantum that a read can deliver.
* `Scull.SameBytes`, `Scull.SameSight`: two devices, and two systems, that no read can tell apart.
* `Scull.Looks`: the reads and seeks of a run.

## Main results

* `Scull.SameSight.step`: reads and seeks answer alike and keep the relation.
* `Scull.starved_write_did_not_happen`: a write that runs out of memory cannot be seen.
* `Scull.faulting_write_unseen_iff`: when a write whose copy fails cannot be seen.
* `Scull.faulting_write_seen`: one that can.

## References

* `ldd/scull/main.c`, lines 264–389 and 524–548.
-/

namespace ExKernel.Scull

open Transition

/-! ### Places of a positive geometry -/

/-- A geometry whose numbers are positive and whose product, as an `int`, is not zero, so that the
driver can divide by it. -/
structure Usable (quantum qset : Int32) : Prop where
  quantum_pos : 1 ≤ quantum.toInt
  qset_pos : 1 ≤ qset.toInt
  mul_ne : quantum * qset ≠ 0

theorem Usable.exists_place {quantum qset : Int32} (h : Usable quantum qset) (p : ℕ) :
    ∃ place, locate quantum qset p = some place ∧ place.Inside quantum qset := by
  refine ⟨_, if_neg h.mul_ne, locate_inside (p := p) h.quantum_pos h.qset_pos ?_⟩
  exact if_neg h.mul_ne

theorem mul_ne_of_locate {quantum qset : Int32} {fPos : ℤ} {place : Place}
    (h : locate quantum qset fPos = some place) : quantum * qset ≠ 0 := by
  intro hzero
  rw [locate, if_pos hzero] at h
  cases h

/-! ### Devices that no read can tell apart -/

/-- A read can deliver the byte at the offset `o` of the entry `i` of the quantum set `n`: it is the
byte number `j` of a read at the position `x`, before the end of the data. -/
def Seen (dev : ScullDev) (n : ℕ) (i o : ℤ) : Prop :=
  ∃ x j : ℕ, x + j + 1 < 2 ^ 63 ∧ x + j < dev.size ∧
    ∃ place, locate dev.quantum dev.qset x = some place ∧ rounds place.item = n ∧
      place.sPos = i ∧ place.qPos + j = o ∧ o < dev.quantum.toInt

/-- Two devices that no read can tell apart: they have the same geometry and the same size, and
every byte that a read can deliver is missing in both or the same in both. -/
structure SameBytes (dev dev' : ScullDev) : Prop where
  quantum_eq : dev'.quantum = dev.quantum
  qset_eq : dev'.qset = dev.qset
  size_eq : dev'.size = dev.size
  byte_eq : ∀ n i o, Seen dev n i o →
    (entryAt dev'.data n i).map (fun q => q.cells o) =
      (entryAt dev.data n i).map (fun q => q.cells o)

/-- What a read of no bytes answers does not depend on the entry. -/
theorem readEntry_zero (entry : Option Quantum) (off : ℤ) {fPos : ℤ} (hpos : loffT fPos = fPos)
    (room : ℕ) : readEntry entry off fPos 0 room = (0, [], fPos) := by
  cases entry with
  | none => rfl
  | some q => simp [readEntry, copyToUser, hpos]

/-- What a read answers from an entry depends on the bytes in its range alone. -/
theorem readEntry_congr {entry entry' : Option Quantum} {off fPos : ℤ} {m room : ℕ}
    (hpos : loffT fPos = fPos)
    (h : ∀ j < m, entry'.map (fun q => q.cells (off + j)) =
      entry.map (fun q => q.cells (off + j))) :
    readEntry entry' off fPos m room = readEntry entry off fPos m room := by
  rcases Nat.eq_zero_or_pos m with rfl | hm
  · rw [readEntry_zero _ _ hpos, readEntry_zero _ _ hpos]
  have hfirst := h 0 hm
  cases entry with
  | none =>
    rw [Option.map_none, Option.map_eq_none_iff] at hfirst
    rw [hfirst]
  | some q =>
    obtain ⟨q', rfl, -⟩ := Option.map_eq_some_iff.mp hfirst
    have hload : Cells.load q'.cells off m = Cells.load q.cells off m := by
      refine List.map_congr_left fun j hj => ?_
      simpa using h j (List.mem_range.mp hj)
    simp only [readEntry, copyToUser, hload]

namespace SameBytes

variable {dev dev' : ScullDev}

theorem of_entries (hquantum : dev'.quantum = dev.quantum) (hqset : dev'.qset = dev.qset)
    (hsize : dev'.size = dev.size)
    (h : ∀ n i, (entryAt dev'.data n i).map Block.cells =
      (entryAt dev.data n i).map Block.cells) : SameBytes dev dev' := by
  refine ⟨hquantum, hqset, hsize, fun n i o _ => ?_⟩
  have hmap : ∀ entry : Option Quantum,
      entry.map (fun q => q.cells o) = (entry.map Block.cells).map (fun cells => cells o) := by
    intro entry
    rw [Option.map_map]
    rfl
  rw [hmap, h, ← hmap]

/-- Devices that keep their arrays, their geometry and their size stay the same. -/
theorem of_arrays {dev₁ dev₁' : ScullDev} (h : SameBytes dev dev')
    (hgeo : SameGeometry dev dev₁) (hgeo' : SameGeometry dev' dev₁') (hsize : dev₁.size = dev.size)
    (hsize' : dev₁'.size = dev'.size) (hat : ∀ n, arrayAt dev₁.data n = arrayAt dev.data n)
    (hat' : ∀ n, arrayAt dev₁'.data n = arrayAt dev'.data n) : SameBytes dev₁ dev₁' := by
  refine ⟨?_, ?_, ?_, fun n i o hseen => ?_⟩
  · rw [hgeo'.1, hgeo.1, h.quantum_eq]
  · rw [hgeo'.2, hgeo.2, h.qset_eq]
  · rw [hsize', hsize, h.size_eq]
  · rw [Seen, hgeo.1, hgeo.2, hsize] at hseen
    rw [entryAt, hat', entryAt, hat]
    exact h.byte_eq n i o hseen

theorem shaped (h : SameBytes dev dev') (hs' : dev'.InShape) :
    Shaped dev.quantum.toInt.toNat dev.qset.toInt.toNat dev'.data := by
  rwa [ScullDev.InShape, ScullDev.q, ScullDev.s, h.quantum_eq, h.qset_eq] at hs'

/-- **A read on two devices** that no read can tell apart: it returns the same value and the same
bytes, and leaves the same position and two such devices. -/
theorem read (h : SameBytes dev dev') (hgeo : Usable dev.quantum dev.qset) (hs : dev.InShape)
    (hs' : dev'.InShape) (heap heap' : Ledger) {p count : ℕ} (hcount : p + count < 2 ^ 63)
    (room : ℕ) (env : AllocEnv) :
    ∃ res res', scullReadLocked dev.quantum dev.qset dev heap p count room env = some res ∧
      scullReadLocked dev'.quantum dev'.qset dev' heap' p count room env = some res' ∧
      res'.ret = res.ret ∧ res'.bytes = res.bytes ∧ res'.fPos = res.fPos ∧
      SameBytes res.dev res'.dev := by
  have hsizeT : sizeT (p : ℤ) = p := sizeT_natCast (by omega)
  rw [h.quantum_eq, h.qset_eq]
  rcases le_or_gt dev.size p with hend | hlt
  · refine ⟨_, _, scullReadLocked_end (hsizeT.symm ▸ hend) heap count room env,
      scullReadLocked_end ?_ heap' count room env, rfl, rfl, rfl, h⟩
    rw [h.size_eq, hsizeT]
    exact hend
  obtain ⟨place, hplace, hinside⟩ := hgeo.exists_place p
  rcases scullReadLocked_outcome hs (by rw [hsizeT]; exact hlt) hplace heap count room env with
    ⟨-, hout⟩ | ⟨res, hres, hkept, hsize, harrays, -, hread⟩
  · exact absurd hinside hout
  rcases scullReadLocked_outcome (h.shaped hs') (by rw [hsizeT, h.size_eq]; exact hlt) hplace heap'
      count room env with ⟨-, hout⟩ | ⟨res', hres', hkept', hsize', harrays', -, hread'⟩
  · exact absurd hinside hout
  have hcut : upToSize dev' p count = upToSize dev p count := by
    rw [upToSize, h.size_eq, upToSize]
  have hanswer : (res'.ret, res'.bytes, res'.fPos) = (res.ret, res.bytes, res.fPos) := by
    rw [hread', hread, hcut]
    refine readEntry_congr (loffT_natCast (by omega)) fun j hj => ?_
    rw [clamp_of_inside hinside.qPos_nonneg hinside.qPos_lt, upToSize_eq hlt.le (by omega)] at hj
    exact h.byte_eq _ _ _ ⟨p, j, by omega, by omega, place, hplace, rfl, rfl, rfl, by omega⟩
  simp only [Prod.mk.injEq] at hanswer
  exact ⟨res, res', hres, hres', hanswer.1, hanswer.2.1, hanswer.2.2,
    h.of_arrays ⟨hkept.quantum_eq, hkept.qset_eq⟩ ⟨hkept'.quantum_eq, hkept'.qset_eq⟩ hsize hsize'
      harrays harrays'⟩

end SameBytes

/-! ### Reads and seeks -/

/-- A call is a read or a seek, and a read is one that the file system layer passes on: its position
is not negative and its end is a `loff_t`. -/
def Looks (s : ScullSys) : ScullOp → Prop
  | .scullRead file count _ _ _ => 0 ≤ s.files file ∧ s.files file + count < 2 ^ 63
  | .scullLlseek .. => True
  | _ => False

/-- Two systems that no read and no seek can tell apart. -/
structure SameSight (s s' : ScullSys) : Prop where
  bytes : SameBytes s.dev s'.dev
  usable : Usable s.dev.quantum s.dev.qset
  inShape : s.dev.InShape
  inShape' : s'.dev.InShape
  files_eq : s'.files = s.files

namespace SameSight

variable {s s' : ScullSys}

/-- What a step of both systems keeps, if it leaves devices that no read can tell apart and the same
positions. -/
theorem of_step {t t' : ScullSys} {op : ScullOp} {r r' : Answer} (h : SameSight s s')
    (hst : s.step op = some (r, t)) (hst' : s'.step op = some (r', t'))
    (hgeo : SameGeometry s.dev t.dev) (hbytes : SameBytes t.dev t'.dev)
    (hfiles : t'.files = t.files) : SameSight t t' := by
  refine ⟨hbytes, ?_, inShape_step h.inShape hst, inShape_step h.inShape' hst', hfiles⟩
  rw [hgeo.1, hgeo.2]
  exact h.usable

/-- **Reads and seeks** answer alike in two systems that none of them can tell apart, and leave two
such systems. -/
theorem step (h : SameSight s s') {op : ScullOp} (hop : Looks s op) :
    ∃ r t t', s.step op = some (r, t) ∧ s'.step op = some (r, t') ∧ SameSight t t' := by
  cases op with
  | scullRead file count room lockIntr env =>
    obtain ⟨hlow, hhigh⟩ := hop
    cases lockIntr with
    | true => exact ⟨_, s, s', rfl, rfl, h⟩
    | false =>
      obtain ⟨p, hp⟩ := Int.eq_ofNat_of_zero_le hlow
      have hcount : p + count < 2 ^ 63 := by omega
      obtain ⟨res, res', hres, hres', hret, hbytes, hpos, hsame⟩ :=
        h.bytes.read h.usable h.inShape h.inShape' s.heap s'.heap hcount room env
      have hst : s.step (.scullRead file count room false env) = some (s.after file res) := by
        rw [ScullSys.step, hp, hres]
        rfl
      have hst' : s'.step (.scullRead file count room false env) = some (s'.after file res') := by
        rw [ScullSys.step, h.files_eq, hp, hres']
        rfl
      have hfiles : (s'.after file res').2.files = (s.after file res).2.files := by
        simp only [ScullSys.after, h.files_eq, hpos]
      refine ⟨_, _, _, hst, ?_, h.of_step hst hst' (scullReadLocked_geometry hres) hsame hfiles⟩
      rw [hst', ← hret, ← hbytes]
      rfl
  | scullLlseek file off whence =>
    have hseek : scullLlseek s'.dev (s'.files file) off whence =
        scullLlseek s.dev (s.files file) off whence := by
      rw [scullLlseek, h.files_eq, h.bytes.size_eq, scullLlseek]
    have hst' : s'.step (.scullLlseek file off whence) =
        some (⟨(scullLlseek s.dev (s.files file) off whence).1, []⟩, { s' with
          files :=
            Function.update s'.files file (scullLlseek s.dev (s.files file) off whence).2 }) := by
      rw [ScullSys.step, hseek]
    refine ⟨_, _, _, rfl, hst', ⟨h.bytes, h.usable, h.inShape, h.inShape', ?_⟩⟩
    simp only [h.files_eq]
  | scullOpen => exact hop.elim
  | scullWrite => exact hop.elim
  | scullIoctl => exact hop.elim

/-- Every sequence of reads and seeks answers alike in two systems that none of them can tell
apart. -/
theorem exec (h : SameSight s s') {later : List ScullOp}
    (hlater : Guarded ScullSys.step Looks s later) :
    ∃ answers u u', Transition.exec ScullSys.step s later = some (answers, u) ∧
      Transition.exec ScullSys.step s' later = some (answers, u') ∧ SameSight u u' := by
  refine exec_lockstep SameSight (G := Looks) (fun s s' op op' hR hop hsame => ?_) h hlater
    (List.forall₂_same.mpr fun op _ => Eq.refl op)
  rw [← hsame]
  exact hR.step hop

theorem looks (h : SameSight s s') {later : List ScullOp}
    (hlater : Guarded ScullSys.step Looks s later) :
    ∃ answers u u', Transition.exec ScullSys.step s later = some (answers, u) ∧
      Transition.exec ScullSys.step s' later = some (answers, u') := by
  obtain ⟨answers, u, u', hrun, hrun', -⟩ := h.exec hlater
  exact ⟨answers, u, u', hrun, hrun'⟩

end SameSight

/-! ### Writes -/

/-- What two writes leave that land on devices with the same quanta. -/
theorem Landed.same {n m : ℕ} {i off fPos : ℤ} {dev dev' : ScullDev} {src : UserBuffer}
    {fresh : Option (ℤ → UInt8)} {res res' : IoResult}
    (hat : ∀ k j, entryAt dev'.data k j = entryAt dev.data k j) (hsize : dev'.size = dev.size)
    (h : Landed n i off dev fPos m src fresh res)
    (h' : Landed n i off dev' fPos m src fresh res') :
    res'.ret = res.ret ∧ res'.bytes = res.bytes ∧ res'.fPos = res.fPos ∧
      res'.dev.size = res.dev.size ∧ ∀ k j, (entryAt res'.dev.data k j).map Block.cells =
        (entryAt res.dev.data k j).map Block.cells := by
  have hanswer : res'.ret = res.ret ∧ res'.bytes = res.bytes ∧ res'.fPos = res.fPos ∧
      res'.dev.size = res.dev.size := by
    rcases le_or_gt m src.bytes.length with hm | hm
    · obtain ⟨hret, hbytes, hpos, hend⟩ := h.done hm
      obtain ⟨hret', hbytes', hpos', hend'⟩ := h'.done hm
      rw [hret, hret', hbytes, hbytes', hpos, hpos', hend, hend', hsize]
      exact ⟨rfl, rfl, rfl, rfl⟩
    · obtain ⟨hret, hbytes, hpos, hend⟩ := h.fault hm
      obtain ⟨hret', hbytes', hpos', hend'⟩ := h'.fault hm
      rw [hret, hret', hbytes, hbytes', hpos, hpos', hend, hend', hsize]
      exact ⟨rfl, rfl, rfl, rfl⟩
  refine ⟨hanswer.1, hanswer.2.1, hanswer.2.2.1, hanswer.2.2.2, fun k j => ?_⟩
  obtain ⟨q, hstored, hold, hnew⟩ := h.stored
  obtain ⟨q', hstored', hold', hnew'⟩ := h'.stored
  have hcells : q'.cells = q.cells := by
    rw [hat] at hold' hnew'
    cases hentry : entryAt dev.data n i with
    | some old => rw [hold old hentry, hold' old hentry]
    | none => exact Option.some.inj ((hnew' hentry).symm.trans (hnew hentry))
  rw [hstored, hstored', hat]
  split_ifs
  · simp only [Option.map_some, hcells]
  · rfl

theorem Landed.ret_ne {n m : ℕ} {i off fPos : ℤ} {dev : ScullDev} {src : UserBuffer}
    {fresh : Option (ℤ → UInt8)} {res : IoResult} (h : Landed n i off dev fPos m src fresh res) :
    res.ret ≠ -ENOMEM := by
  rcases le_or_gt m src.bytes.length with hm | hm
  · have hneg : -ENOMEM < 0 := by decide
    rw [(h.done hm).1]
    omega
  · rw [(h.fault hm).1]
    decide

/-- A write that comes to its copy and returns `-EFAULT` leaves the position and the size. -/
theorem Landed.of_fault {n m : ℕ} {i off fPos : ℤ} {dev : ScullDev} {src : UserBuffer}
    {fresh : Option (ℤ → UInt8)} {res : IoResult} (h : Landed n i off dev fPos m src fresh res)
    (hret : res.ret = -EFAULT) : res.fPos = fPos ∧ res.dev.size = dev.size := by
  rcases le_or_gt m src.bytes.length with hm | hm
  · have hneg : -EFAULT < 0 := by decide
    rw [(h.done hm).1] at hret
    omega
  · exact (h.fault hm).2.2

section Reachable

variable {params : Params} {ops : List ScullOp} {answers : List Answer} {s t : ScullSys}
  {file p count : ℕ} {src : UserBuffer} {lockIntr : Bool} {env : AllocEnv} {r : Answer}

/-- **A write that gets the lock**, on a device that has its shape, at a position that is not
negative: it fails for want of memory that it needs, or has it and comes to its copy. -/
theorem write_outcome (hs : s.dev.InShape) (hquantum : 1 ≤ s.dev.quantum.toInt)
    (hqset : 1 ≤ s.dev.qset.toInt) (hp : s.files file = p)
    (hst : s.step (.scullWrite file count src false env) = some (r, t)) :
    Usable s.dev.quantum s.dev.qset ∧ ∃ place res,
      locate s.dev.quantum s.dev.qset p = some place ∧ place.Inside s.dev.quantum s.dev.qset ∧
      (r, t) = s.after file res ∧ SameGeometry s.dev res.dev ∧
      ((Starved s.dev p res ∧ ¬ env.Supplies s.dev.data (rounds place.item) place.sPos) ∨
        (Landed (rounds place.item) place.sPos place.qPos s.dev p
            (clamp s.dev.quantum place.qPos count) src env.quantum res ∧
          env.Supplies s.dev.data (rounds place.item) place.sPos)) := by
  obtain ⟨res, hres, heq⟩ := Option.map_eq_some_iff.mp hst
  rw [hp] at hres
  obtain ⟨place, hplace, -⟩ := Option.bind_eq_some_iff.mp hres
  have hinside := locate_inside hquantum hqset hplace
  refine ⟨⟨hquantum, hqset, mul_ne_of_locate hplace⟩, place, res, hplace, hinside, heq.symm,
    scullWriteLocked_geometry hres, ?_⟩
  rcases scullWriteLocked_outcome hs hplace s.heap count src env with
    ⟨hstuck, -⟩ | ⟨res', hres', -, -, hcases⟩
  · rw [hstuck] at hres
    cases hres
  · rw [hres'] at hres
    cases hres
    exact hcases.imp_left fun h => ⟨h.1, h.2 hinside⟩

theorem exists_landed (hs : s.dev.InShape) (hgeo : Usable s.dev.quantum s.dev.qset) {place : Place}
    (hplace : locate s.dev.quantum s.dev.qset p = some place) (hp : s.files file = p)
    (hample : env.Ample) (count : ℕ) (src : UserBuffer) :
    ∃ res, s.step (.scullWrite file count src false env) = some (s.after file res) ∧
      SameGeometry s.dev res.dev ∧ Landed (rounds place.item) place.sPos place.qPos s.dev p
        (clamp s.dev.quantum place.qPos count) src env.quantum res := by
  have hinside := locate_inside hgeo.quantum_pos hgeo.qset_pos hplace
  rcases scullWriteLocked_outcome hs hplace s.heap count src env with
    ⟨-, hout⟩ | ⟨res, hres, -, -, ⟨-, hlacks⟩ | ⟨hlanded, -⟩⟩
  · exact absurd hinside hout
  · exact absurd (hample.supplies _ _ _) (hlacks hinside)
  · refine ⟨res, ?_, scullWriteLocked_geometry hres, hlanded⟩
    rw [ScullSys.step, hp, hres]
    rfl

/-- A write with enough memory on two systems with the same quanta. -/
theorem SameSight.write {s' : ScullSys} (h : SameSight s s')
    (hat : ∀ n i, entryAt s'.dev.data n i = entryAt s.dev.data n i) (hp : s.files file = p)
    (hample : env.Ample) (count : ℕ) (src : UserBuffer) :
    ∃ r u u', s.step (.scullWrite file count src false env) = some (r, u) ∧
      s'.step (.scullWrite file count src false env) = some (r, u') ∧ SameSight u u' := by
  obtain ⟨place, hplace, -⟩ := h.usable.exists_place p
  have husable : Usable s'.dev.quantum s'.dev.qset := by
    rw [h.bytes.quantum_eq, h.bytes.qset_eq]
    exact h.usable
  have hplace' : locate s'.dev.quantum s'.dev.qset p = some place := by
    rw [h.bytes.quantum_eq, h.bytes.qset_eq]
    exact hplace
  obtain ⟨res, hst, hgeo, hlanded⟩ := exists_landed h.inShape h.usable hplace hp hample count src
  obtain ⟨res', hst', hgeo', hlanded'⟩ := exists_landed h.inShape' husable hplace'
    (by rw [h.files_eq, hp]) hample count src
  rw [h.bytes.quantum_eq] at hlanded'
  obtain ⟨hret, hbytes, hpos, hsize, hcells⟩ := hlanded.same hat h.bytes.size_eq hlanded'
  have hsame : SameBytes res.dev res'.dev := by
    refine .of_entries ?_ ?_ hsize hcells
    · rw [hgeo'.1, hgeo.1, h.bytes.quantum_eq]
    · rw [hgeo'.2, hgeo.2, h.bytes.qset_eq]
  have hfiles : (s'.after file res').2.files = (s.after file res).2.files := by
    simp only [ScullSys.after, h.files_eq, hpos]
  refine ⟨_, _, _, hst, ?_, h.of_step hst hst' hgeo hsame hfiles⟩
  rw [hst', ← hret, ← hbytes]
  rfl

/-- A write that runs out of memory leaves a system that no read or seek can tell from the one
before, with the same quanta. -/
theorem Starved.sameSight {res : IoResult} (h : Starved s.dev p res)
    (hs : s.dev.InShape) (hgeo : Usable s.dev.quantum s.dev.qset)
    (hgeometry : SameGeometry s.dev res.dev) (hs' : res.dev.InShape) (hp : s.files file = p) :
    SameSight s (s.after file res).2 := by
  refine ⟨.of_entries hgeometry.1 hgeometry.2 h.size_eq fun n i => ?_, hgeo, hs, hs', ?_⟩
  · simp only [ScullSys.after, h.entryAt_eq]
  · simp only [ScullSys.after, h.fPos_eq, ← hp, Function.update_eq_self]

/-- **A write that runs out of memory did not happen.** Take any run from the load of the module and
the state that it leads to, with a positive geometry, and a write at a position that is not
negative, with any buffer and count and any failures of allocations. If it returns `-ENOMEM`, the
positions of all files and the size are unchanged; every sequence of reads and seeks answers as it
would have without the call; and the same write with enough memory answers the same, leaves the same
positions and size, and what every sequence of reads and seeks answers after it, as if the failed
call had not been made.

Source: `ldd/scull/main.c`, lines 264–289 and 338–389. -/
theorem starved_write_did_not_happen
    (hrun : exec ScullSys.step (.load params) ops = some (answers, s))
    (hquantum : 1 ≤ s.dev.quantum.toInt) (hqset : 1 ≤ s.dev.qset.toInt) (hp : s.files file = p)
    (hst : s.step (.scullWrite file count src lockIntr env) = some (r, t))
    (hret : r.ret = -ENOMEM) :
    t.files = s.files ∧ t.dev.size = s.dev.size ∧
      (∀ later, Guarded ScullSys.step Looks s later → ∃ replies u u',
        exec ScullSys.step s later = some (replies, u) ∧
        exec ScullSys.step t later = some (replies, u')) ∧
      ∀ env', env'.Ample → ∃ r' u u',
        s.step (.scullWrite file count src false env') = some (r', u) ∧
        t.step (.scullWrite file count src false env') = some (r', u') ∧
        u'.files = u.files ∧ u'.dev.size = u.dev.size ∧
        ∀ later, Guarded ScullSys.step Looks u later → ∃ replies v v',
          exec ScullSys.step u later = some (replies, v) ∧
          exec ScullSys.step u' later = some (replies, v') := by
  have hs := inShape_of_run hrun
  cases lockIntr with
  | true =>
    cases hst
    exact absurd hret (by decide)
  | false =>
    obtain ⟨hgeo, place, res, hplace, hinside, heq, hgeometry, hcases⟩ :=
      write_outcome hs hquantum hqset hp hst
    have hs' := inShape_step hs hst
    cases heq
    rcases hcases with ⟨hstarved, -⟩ | ⟨hlanded, -⟩
    swap
    · exact absurd hret hlanded.ret_ne
    have hsight := hstarved.sameSight hs hgeo hgeometry hs' hp
    refine ⟨hsight.files_eq, hsight.bytes.size_eq, fun later => hsight.looks, fun env' hample => ?_⟩
    obtain ⟨r', u, u', hu, hu', hsight'⟩ :=
      hsight.write hstarved.entryAt_eq hp hample count src
    exact ⟨r', u, u', hu, hu', hsight'.files_eq, hsight'.bytes.size_eq,
      fun later => hsight'.looks⟩

/-- A write that finds memory for a node and an array, but not for the quantum. -/
theorem starved_write_did_not_happen_no_quantum :
    ∃ t, (ScullSys.load .default).step
        (.scullWrite 0 1 ⟨[1], []⟩ false ⟨fun _ => true, true, none⟩) = some (⟨-ENOMEM, []⟩, t) ∧
      t.dev.data.length = 1 ∧ t.files = (ScullSys.load .default).files ∧ t.dev.size = 0 := by
  have hrun : exec ScullSys.step (.load .default) [] = some ([], .load .default) := rfl
  have hpos : (ScullSys.load .default).files 0 = ((0 : ℕ) : ℤ) := rfl
  have hst : ∃ t, (ScullSys.load .default).step
      (.scullWrite 0 1 ⟨[1], []⟩ false ⟨fun _ => true, true, none⟩) = some (⟨-ENOMEM, []⟩, t) ∧
      t.dev.data.length = 1 := ⟨_, rfl, rfl⟩
  obtain ⟨t, hst, hlen⟩ := hst
  obtain ⟨hfiles, hsize, -⟩ :=
    starved_write_did_not_happen hrun (by decide) (by decide) hpos hst rfl
  exact ⟨t, hst, hlen, hfiles, hsize⟩

/-! ### Writes whose copy fails -/

/-- No read can tell that the copy of a write at the position `fPos` took place: every byte of its
quantum that a read can deliver was there before, and is what the copy moves to it, if the copy
comes to it. -/
def CopyUnseen (dev : ScullDev) (fPos : ℤ) (count : ℕ) (src : UserBuffer) : Prop :=
  ∀ place, locate dev.quantum dev.qset fPos = some place →
    ∀ o, Seen dev (rounds place.item) place.sPos o →
      ∃ q, entryAt dev.data (rounds place.item) place.sPos = some q ∧
        ∀ (k : ℕ) b, (src.copied (clamp dev.quantum place.qPos count))[k]? = some b →
          place.qPos + k = o → q.cells o = b

/-- A seek to the position `x` and a read of `j + 1` bytes. -/
def lookAt (file x j : ℕ) : List ScullOp :=
  [.scullLlseek file (.ofNat x) 0,
    .scullRead file (j + 1) (j + 1) false ⟨fun _ => true, true, none⟩]

theorem scullLlseek_set (dev : ScullDev) (fPos : ℤ) {x : ℕ} (hx : x < 2 ^ 63) :
    scullLlseek dev fPos (.ofNat x) 0 = ((x : ℤ), (x : ℤ)) := by
  have hoff : (Int64.ofNat x).toInt = x := Int64.toInt_ofNat_of_lt hx
  simp only [scullLlseek, ↓reduceIte, hoff]
  rw [if_neg (by omega)]

theorem looks_lookAt (s : ScullSys) (file : ℕ) {x j : ℕ} (hbound : x + j + 1 < 2 ^ 63) :
    Guarded ScullSys.step Looks s (lookAt file x j) := by
  refine ⟨trivial, fun r t hst => ⟨?_, fun _ _ _ => trivial⟩⟩
  cases hst
  simp only [Looks, scullLlseek_set s.dev _ (by omega : x < 2 ^ 63), Function.update_self]
  omega

theorem exec_lookAt (hs : s.dev.InShape) (hgeo : Usable s.dev.quantum s.dev.qset) (file : ℕ)
    {x j : ℕ} {place : Place} (hbound : x + j + 1 < 2 ^ 63) (hsize : x + j < s.dev.size)
    (hplace : locate s.dev.quantum s.dev.qset x = some place)
    (hin : place.qPos + j < s.dev.quantum.toInt) :
    ∃ u, exec ScullSys.step s (lookAt file x j) = some ([⟨x, []⟩,
      ⟨(readEntry (entryAt s.dev.data (rounds place.item) place.sPos) place.qPos x (j + 1)
          (j + 1)).1,
        (readEntry (entryAt s.dev.data (rounds place.item) place.sPos) place.qPos x (j + 1)
          (j + 1)).2.1⟩], u) := by
  have hinside := locate_inside hgeo.quantum_pos hgeo.qset_pos hplace
  have hlow := hinside.qPos_nonneg
  have hsizeT : sizeT (x : ℤ) = x := sizeT_natCast (by omega)
  have hseek := scullLlseek_set s.dev (s.files file) (by omega : x < 2 ^ 63)
  rcases scullReadLocked_outcome hs (by rw [hsizeT]; omega) hplace s.heap (j + 1) (j + 1)
      ⟨fun _ => true, true, none⟩ with ⟨-, hout⟩ | ⟨res, hres, -, -, -, -, hread⟩
  · exact absurd hinside hout
  have hm : clamp s.dev.quantum place.qPos (upToSize s.dev x (j + 1)) = j + 1 := by
    rw [clamp_of_inside hlow hinside.qPos_lt, upToSize_eq (by omega) (by omega)]
    omega
  rw [hm] at hread
  refine ⟨(({ s with files := Function.update s.files file x } : ScullSys).after file res).2, ?_⟩
  rw [← hread]
  simp only [lookAt, exec, ScullSys.step, hseek, Bool.false_eq_true, ↓reduceIte,
    Function.update_self, hres, Option.map_some, ScullSys.after]

/-- What reads see alike after a copy was there before it, and is what the copy moved. -/
theorem Landed.copyUnseen {place : Place} {res : IoResult} (hs : s.dev.InShape)
    (hgeo : Usable s.dev.quantum s.dev.qset) (hs' : t.dev.InShape)
    (hgeometry : SameGeometry s.dev t.dev) (hsize : t.dev.size = s.dev.size)
    (htres : res.dev = t.dev) (hplace : locate s.dev.quantum s.dev.qset p = some place)
    (h : Landed (rounds place.item) place.sPos place.qPos s.dev p
      (clamp s.dev.quantum place.qPos count) src env.quantum res)
    (hlooks : ∀ later, Guarded ScullSys.step Looks s later → ∃ replies u u',
      exec ScullSys.step s later = some (replies, u) ∧
      exec ScullSys.step t later = some (replies, u')) :
    CopyUnseen s.dev p count src := by
  intro place' hplace' o hseen
  rw [hplace] at hplace'
  cases hplace'
  obtain ⟨x, j, hbound, hend, seenAt, hat, hitem, hsPos, rfl, hin⟩ := hseen
  obtain ⟨q, hstored, hold, -⟩ := h.stored
  rw [htres] at hstored
  obtain ⟨replies, u, u', hrun, hrun'⟩ := hlooks (lookAt 0 x j) (looks_lookAt s 0 hbound)
  obtain ⟨v, hlook⟩ := exec_lookAt hs hgeo 0 hbound hend hat hin
  have hgeo' : Usable t.dev.quantum t.dev.qset := by
    rw [hgeometry.1, hgeometry.2]
    exact hgeo
  obtain ⟨v', hlook'⟩ := exec_lookAt hs' hgeo' 0 hbound (by rw [hsize]; exact hend)
    (by rw [hgeometry.1, hgeometry.2]; exact hat) (by rw [hgeometry.1]; exact hin)
  rw [hrun] at hlook
  rw [hrun'] at hlook'
  have heq := (Prod.mk.injEq .. ▸ Option.some.inj hlook).1.symm.trans
    (Prod.mk.injEq .. ▸ Option.some.inj hlook').1
  rw [hitem, hsPos, hstored, if_pos ⟨rfl, rfl⟩] at heq
  simp only [List.cons.injEq, Answer.mk.injEq, and_true, true_and] at heq
  obtain ⟨hret, hbytes⟩ := heq
  simp only [readEntry, copyToUser, le_refl, if_true] at hret hbytes
  cases hentry : entryAt s.dev.data (rounds place.item) place.sPos with
  | none =>
    rw [hentry] at hret
    simp only at hret
    omega
  | some old =>
    rw [hentry] at hbytes
    simp only [hold old hentry] at hbytes
    have hbyte := congrArg (fun bytes => bytes[j]?) hbytes
    simp only [Cells.getElem?_load _ _ (Nat.lt_succ_self j), Option.some_inj] at hbyte
    refine ⟨old, rfl, fun k b hk ho => ?_⟩
    obtain ⟨hlt, rfl⟩ := List.getElem?_eq_some_iff.mp hk
    rw [hbyte, copyFromUser_snd, ← ho, Cells.store_of_mem]

/-- A write that leaves the position and the size, and whose copy no read can tell, leaves a system
that no read or seek can tell from the one before. -/
theorem Landed.sameSight {place : Place} {res : IoResult}
    (h : Landed (rounds place.item) place.sPos place.qPos s.dev p
      (clamp s.dev.quantum place.qPos count) src env.quantum res)
    (hs : s.dev.InShape) (hgeo : Usable s.dev.quantum s.dev.qset)
    (hgeometry : SameGeometry s.dev res.dev) (hs' : res.dev.InShape) (hpos : res.fPos = p)
    (hsize : res.dev.size = s.dev.size) (hp : s.files file = p)
    (hplace : locate s.dev.quantum s.dev.qset p = some place)
    (hunseen : CopyUnseen s.dev p count src) : SameSight s (s.after file res).2 := by
  refine ⟨⟨hgeometry.1, hgeometry.2, hsize, fun n i o hseen => ?_⟩, hgeo, hs, hs', ?_⟩
  · obtain ⟨q, hstored, hold, -⟩ := h.stored
    simp only [ScullSys.after, hstored]
    split_ifs with htarget
    · obtain ⟨rfl, rfl⟩ := htarget
      obtain ⟨old, hentry, hmoved⟩ := hunseen place hplace o hseen
      rw [hentry, hold old hentry, copyFromUser_snd, Option.map_some, Option.map_some]
      exact congrArg some (Cells.store_eq_self hmoved)
    · rfl
  · simp only [ScullSys.after, hpos, ← hp, Function.update_eq_self]

/-- **When a write whose copy fails did not happen.** Take any run from the load of the module and
the state that it leads to, with a positive geometry, and a write at a position that is not negative
that returns `-EFAULT`, however far its copy came. The positions of all files and the size are
unchanged, and every sequence of reads and seeks answers as it would have without the call, if and
only if every byte of the quantum that reads can deliver was there before, and is what the copy
moved to it.

Source: `ldd/scull/main.c`, lines 366–388. -/
theorem faulting_write_unseen_iff
    (hrun : exec ScullSys.step (.load params) ops = some (answers, s))
    (hquantum : 1 ≤ s.dev.quantum.toInt) (hqset : 1 ≤ s.dev.qset.toInt) (hp : s.files file = p)
    (hst : s.step (.scullWrite file count src lockIntr env) = some (r, t))
    (hret : r.ret = -EFAULT) :
    (t.files = s.files ∧ t.dev.size = s.dev.size ∧
      ∀ later, Guarded ScullSys.step Looks s later → ∃ replies u u',
        exec ScullSys.step s later = some (replies, u) ∧
        exec ScullSys.step t later = some (replies, u')) ↔
    CopyUnseen s.dev p count src := by
  have hs := inShape_of_run hrun
  cases lockIntr with
  | true =>
    cases hst
    exact absurd hret (by decide)
  | false =>
    obtain ⟨hgeo, place, res, hplace, hinside, heq, hgeometry, hcases⟩ :=
      write_outcome hs hquantum hqset hp hst
    have hs' := inShape_step hs hst
    cases heq
    rcases hcases with ⟨hstarved, -⟩ | ⟨hlanded, -⟩
    · have hnomem : res.ret = -ENOMEM := hstarved.ret_eq
      exact absurd (hnomem.symm.trans hret) (by decide)
    obtain ⟨hpos, hsize⟩ := hlanded.of_fault hret
    constructor
    · rintro ⟨-, -, hlooks⟩
      exact hlanded.copyUnseen hs hgeo hs' hgeometry hsize rfl hplace hlooks
    · intro hunseen
      have hsight := hlanded.sameSight hs hgeo hgeometry hs' hpos hsize hp hplace hunseen
      exact ⟨hsight.files_eq, hsight.bytes.size_eq, fun later => hsight.looks⟩

end Reachable

/-- Two bytes are written, and then a write over them, whose copy fails on its second byte, moves the
byte that was there. -/
theorem faulting_write_unseen_same_byte : ∃ replies s t,
    exec ScullSys.step (.load ⟨2, 2, 0⟩)
        [.scullWrite 0 2 ⟨[1, 2], []⟩ false ⟨fun _ => true, true, some fun _ => 0⟩,
          .scullLlseek 0 0 0] = some (replies, s) ∧
      s.step (.scullWrite 0 2 ⟨[1], []⟩ false ⟨fun _ => true, true, some fun _ => 0⟩) =
        some (⟨-EFAULT, []⟩, t) ∧
      s.dev.size = 2 ∧ ∀ later, Guarded ScullSys.step Looks s later → ∃ replies u u',
        exec ScullSys.step s later = some (replies, u) ∧
        exec ScullSys.step t later = some (replies, u') := by
  obtain ⟨replies, s, t, hrun, hst, hsize, hquantum, hqset, hpos, hunseen⟩ : ∃ replies s t,
      exec ScullSys.step (.load ⟨2, 2, 0⟩)
          [.scullWrite 0 2 ⟨[1, 2], []⟩ false ⟨fun _ => true, true, some fun _ => 0⟩,
            .scullLlseek 0 0 0] = some (replies, s) ∧
        s.step (.scullWrite 0 2 ⟨[1], []⟩ false ⟨fun _ => true, true, some fun _ => 0⟩) =
          some (⟨-EFAULT, []⟩, t) ∧
        s.dev.size = 2 ∧ 1 ≤ s.dev.quantum.toInt ∧ 1 ≤ s.dev.qset.toInt ∧
        s.files 0 = ((0 : ℕ) : ℤ) ∧ CopyUnseen s.dev (0 : ℕ) 2 ⟨[1], []⟩ := by
    refine ⟨_, _, _, rfl, rfl, rfl, by decide, by decide, rfl, ?_⟩
    rintro place hplace o -
    cases hplace
    refine ⟨_, rfl, fun k b hk ho => ?_⟩
    have hcopied : ([1] : List UInt8)[k]? = some b := hk
    cases k with
    | zero =>
      cases hcopied
      rw [← ho]
      rfl
    | succ k => cases hcopied
  obtain ⟨-, -, hlooks⟩ :=
    (faulting_write_unseen_iff hrun hquantum hqset hpos hst rfl).mpr hunseen
  exact ⟨replies, s, t, hrun, hst, hsize, hlooks⟩

/-- Two bytes are written, and then a write over them fails on its second byte: a read sees the byte
that was moved before. And a write in the hole before a third byte fails on its second byte: a read
of the hole, which had nothing to deliver, delivers what the fresh quantum contains. -/
theorem faulting_write_seen :
    (∃ replies s t, exec ScullSys.step (.load ⟨2, 2, 0⟩)
        [.scullWrite 0 2 ⟨[1, 2], []⟩ false ⟨fun _ => true, true, some fun _ => 0⟩,
          .scullLlseek 0 0 0] = some (replies, s) ∧
      s.step (.scullWrite 0 2 ⟨[9], []⟩ false ⟨fun _ => true, true, some fun _ => 0⟩) =
        some (⟨-EFAULT, []⟩, t) ∧
      (exec ScullSys.step s [.scullRead 0 2 2 false ⟨fun _ => true, true, none⟩]).map Prod.fst =
        some [⟨2, [1, 2]⟩] ∧
      (exec ScullSys.step t [.scullRead 0 2 2 false ⟨fun _ => true, true, none⟩]).map Prod.fst =
        some [⟨2, [9, 2]⟩]) ∧
    ∃ replies s t, exec ScullSys.step (.load ⟨2, 2, 0⟩)
        [.scullLlseek 0 2 0,
          .scullWrite 0 1 ⟨[3], []⟩ false ⟨fun _ => true, true, some fun _ => 0⟩,
          .scullLlseek 0 0 0] = some (replies, s) ∧
      s.step (.scullWrite 0 2 ⟨[9], []⟩ false ⟨fun _ => true, true, some fun _ => 7⟩) =
        some (⟨-EFAULT, []⟩, t) ∧
      (exec ScullSys.step s [.scullRead 0 2 2 false ⟨fun _ => true, true, none⟩]).map Prod.fst =
        some [⟨0, []⟩] ∧
      (exec ScullSys.step t [.scullRead 0 2 2 false ⟨fun _ => true, true, none⟩]).map Prod.fst =
        some [⟨2, [9, 7]⟩] :=
  ⟨⟨_, _, _, rfl, rfl, rfl, rfl⟩, ⟨_, _, _, rfl, rfl, rfl, rfl⟩⟩

end ExKernel.Scull
