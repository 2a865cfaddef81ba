import ExKernel.Scullp.Pages

/-!
# The divisors of scullp

Reads and writes compute the size of a quantum by shifting `PAGE_SIZE` by the order of the device,
and the size of a quantum set by multiplying it with the number of entries; both are kept in an
`int` and then divided by. The order and the number of entries are the module parameters at the last
time the device was emptied, and every process may set these by an ioctl, to any `int`: the driver
has no test of `CAP_SYS_ADMIN`, and none of the value. So a divisor is zero when the number of
entries is, but also when the order is so large that nothing of the shifted bit is left.

## Main definitions

* `Scullp.DivisorsExact`: the divisors have the values that they are meant to have, and are
  positive.
* `Scullp.Divides`: so it is when a read or write divides by them.
* `Scullp.EmptiesWell`: the parameters are good when an open empties the device.

## Main results

* `Scullp.divisorsExact_iff`: the divisors are exact for the good geometries and for no others.
* `Scullp.divisors_exact`: when all divisors are exact, over all runs.
* `Scullp.unprivileged_division_by_zero`: runs of a process without privileges in which they are
  not.

## References

* `ldd/scullp/main.c`, lines 117–136, 163–183, 211–228, 269–357 and 413–441.
-/

namespace ExKernel.Scullp

open Transition
open Scull (Answer)

/-- The numbers that a read or write divides by, `quantum = PAGE_SIZE << order` and
`itemsize = quantum * qset`: the shift is in range, and both `int`s are positive and have their
mathematical values.

Source: `ldd/scullp/main.c`, lines 168–170, 181–183, 216–218 and 226–228. -/
def DivisorsExact (order qset : Int32) : Prop :=
  ∃ quantum, pageQuantum order = some quantum ∧
    0 < quantum.toInt ∧ quantum.toInt = PAGE_SIZE * 2 ^ order.toInt.toNat ∧
    0 < (quantum * qset).toInt ∧
    (quantum * qset).toInt = PAGE_SIZE * 2 ^ order.toInt.toNat * qset.toInt

/-- The divisors of a read or write are exact. -/
def Divides (s : ScullpSys) : ScullpOp → Prop
  | .scullpRead .. => DivisorsExact s.dev.order s.dev.qset
  | .scullpWrite .. => DivisorsExact s.dev.order s.dev.qset
  | _ => True

/-- An open that empties the device, which it does if there are no mappings, gives it a geometry
that the driver can work with.

Source: `ldd/scullp/main.c`, lines 127–131, 419–420 and 437–438. -/
def EmptiesWell (s : ScullpSys) : ScullpOp → Prop
  | .scullpOpen _ mode lockIntr => mode = .wronly → lockIntr = false → s.dev.vmas = 0 →
    GoodOrder s.params.order s.params.qset
  | _ => True

/-- The geometry of the device is one that the driver can work with. -/
def Workable (s : ScullpSys) : Prop := GoodOrder s.dev.order s.dev.qset

/-! ### The divisors of a geometry -/

theorem pageQuantum_nonneg {order quantum : Int32} (h : pageQuantum order = some quantum) :
    0 ≤ order.toInt := by
  unfold pageQuantum at h
  split_ifs at h with horder
  exact horder.1

/-- **The divisors are exact** for the geometries that the driver can work with, and for no
others. -/
theorem divisorsExact_iff {order qset : Int32} :
    DivisorsExact order qset ↔ GoodOrder order qset := by
  have hbytes : (pageBytes order : ℤ) = PAGE_SIZE * 2 ^ order.toInt.toNat := by
    simp [pageBytes]
  constructor
  · rintro ⟨quantum, hquantum, hpos, heq, hitem, hmul⟩
    have hlt := (quantum * qset).toInt_lt
    rw [hmul] at hitem hlt
    rw [heq] at hpos
    refine ⟨pageQuantum_nonneg hquantum, pos_of_mul_pos_right hitem hpos.le, ?_⟩
    rw [hbytes, intMax]
    omega
  · intro h
    obtain ⟨quantum, hquantum, heq, hgeo⟩ := h.exists_quantum
    have hmul : (quantum * qset).toInt = pageBytes order * qset.toInt := by
      rw [hgeo.toInt_mul, Nat.cast_mul, hgeo.toNat_quantum, hgeo.toNat_qset, heq]
    have hpos := pageBytes_pos order
    refine ⟨quantum, hquantum, ?_, heq.trans hbytes, ?_, ?_⟩
    · rw [heq]
      omega
    · rw [hgeo.toInt_mul]
      exact_mod_cast hgeo.mul_pos
    · rw [hmul, hbytes]

/-! ### Single steps -/

/-- **What changes the geometry.** A step leaves the geometry of the device, unless it is an open
for writing only that gets the lock and finds no mappings: this installs the parameters. -/
theorem step_geometry {s t : ScullpSys} {op : ScullpOp} {r : Answer}
    (h : s.step op = some (r, t)) :
    (t.dev.order = s.dev.order ∧ t.dev.qset = s.dev.qset) ∨
      (∃ file, op = .scullpOpen file .wronly false) ∧ s.dev.vmas = 0 ∧
        t.dev.order = s.params.order ∧ t.dev.qset = s.params.qset := by
  cases moved_of_step h with
  | grown hgrown => exact .inl ⟨hgrown.order_eq, hgrown.qset_eq⟩
  | emptied file hop hvmas hdev =>
    rw [hdev]
    exact .inr ⟨⟨file, hop⟩, hvmas, rfl, rfl⟩
  | mapped area hop horder hdev =>
    rw [hdev]
    exact .inl ⟨rfl, rfl⟩
  | copied area copy hop hdev =>
    rw [hdev]
    exact .inl ⟨rfl, rfl⟩
  | closed area hop hdev =>
    rw [hdev]
    exact .inl ⟨rfl, rfl⟩

namespace Workable

/-- A step from a geometry that the driver can work with leaves one, if an open finds one in the
parameters. -/
theorem step {s t : ScullpSys} {op : ScullpOp} {r : Answer} (hs : Workable s)
    (hop : EmptiesWell s op) (h : s.step op = some (r, t)) : Workable t := by
  rw [Workable]
  rcases step_geometry h with ⟨horder, hqset⟩ | ⟨⟨file, rfl⟩, hvmas, horder, hqset⟩
  · rw [horder, hqset]
    exact hs
  · rw [horder, hqset]
    exact hop rfl rfl hvmas

/-- An open that leaves a geometry that the driver can work with has found it in the parameters. -/
theorem emptiesWell {s t : ScullpSys} {op : ScullpOp} {r : Answer} (ht : Workable t)
    (h : s.step op = some (r, t)) : EmptiesWell s op := by
  cases op with
  | scullpOpen file mode lockIntr =>
    rintro rfl rfl hvmas
    obtain ⟨⟨ret, dev, heap⟩, htrim, heq⟩ := Option.map_eq_some_iff.mp h
    cases heq
    rcases scullpTrim_cases htrim with ⟨hne, -⟩ | ⟨-, -, hdev⟩
    · exact absurd hvmas hne
    · rw [Workable, hdev] at ht
      exact ht
  | _ => trivial

theorem divides {s : ScullpSys} (hs : Workable s) (op : ScullpOp) : Divides s op := by
  cases op with
  | scullpRead => exact divisorsExact_iff.mpr hs
  | scullpWrite => exact divisorsExact_iff.mpr hs
  | _ => trivial

theorem load_default : Workable (.load .default) := ⟨by decide, by decide, by decide⟩

end Workable

/-! ### Whole runs -/

/-- **The divisors of reads and writes.** A module that was loaded with the default parameters, in
any run of opens, reads, writes, seeks, ioctls and mappings. If all opens that empty the device find
parameters that the driver can work with, the divisors for its geometry are exact in every state, so
that they are at every read and write. And only then: in a run that comes to its end and has such a
geometry in every state, all these opens found such parameters.

Source: `ldd/scullp/main.c`, lines 117–136, 163–263, 269–357 and 413–441. -/
theorem divisors_exact (ops : List ScullpOp) :
    (Guarded ScullpSys.step EmptiesWell (.load .default) ops →
      Always ScullpSys.step (fun s => DivisorsExact s.dev.order s.dev.qset) (.load .default) ops ∧
      Guarded ScullpSys.step Divides (.load .default) ops) ∧
    ∀ answers t, exec ScullpSys.step (.load .default) ops = some (answers, t) →
      Always ScullpSys.step (fun s => DivisorsExact s.dev.order s.dev.qset) (.load .default) ops →
      Guarded ScullpSys.step EmptiesWell (.load .default) ops := by
  constructor
  · intro hops
    have halways : Always ScullpSys.step Workable (.load .default) ops :=
      always_of_invariant Workable (fun _ _ _ _ hs hop hst => hs.step hop hst)
        Workable.load_default hops
    exact ⟨halways.mono fun _ hs => divisorsExact_iff.mpr hs,
      halways.guarded fun _ op hs => hs.divides op⟩
  · intro answers t hrun halways
    refine halways.guarded_of_next (fun s op r u _ hst hu => ?_) hrun
    exact Workable.emptiesWell (divisorsExact_iff.mp hu) hst

/-- A device that gets blocks of two pages, is emptied and is written. -/
theorem divisors_exact_two_pages :
    Guarded ScullpSys.step Divides (.load .default)
      [.scullpIoctl SCULLP_IOCTORDER 1 ⟨true, false, none, true⟩, .scullpOpen 0 .wronly false,
        .scullpWrite 0 1 ⟨[1], []⟩ false ⟨fun _ => true, true, some fun _ => 0⟩] := by
  refine ((divisors_exact _).1 ?_).2
  refine ⟨trivial, fun _ _ h => ?_⟩
  cases h
  refine ⟨fun _ _ _ => ⟨by decide, by decide, by decide⟩, fun _ _ h => ?_⟩
  cases h
  exact ⟨trivial, fun _ _ _ => trivial⟩

/-- A process without privileges sets the order to 20, or the number of entries to 0, has the device
emptied, and writes or reads a byte. The quantum is 0 in the first run, the size of a quantum set in
both, and the last call of each divides by zero. -/
theorem unprivileged_division_by_zero :
    ¬ Guarded ScullpSys.step Divides (.load .default)
        [.scullpIoctl SCULLP_IOCTORDER 20 ⟨true, false, none, true⟩, .scullpOpen 0 .wronly false,
          .scullpWrite 0 1 ⟨[1], []⟩ false ⟨fun _ => true, true, some fun _ => 0⟩] ∧
      exec ScullpSys.step (.load .default)
        [.scullpIoctl SCULLP_IOCTORDER 20 ⟨true, false, none, true⟩, .scullpOpen 0 .wronly false,
          .scullpWrite 0 1 ⟨[1], []⟩ false ⟨fun _ => true, true, some fun _ => 0⟩] = none ∧
      exec ScullpSys.step (.load .default)
        [.scullpIoctl SCULLP_IOCTQSET 0 ⟨true, false, none, true⟩, .scullpOpen 0 .wronly false,
          .scullpRead 0 1 1 false ⟨fun _ => true, true, some fun _ => 0⟩] = none := by
  refine ⟨?_, rfl, rfl⟩
  rintro ⟨-, hrest⟩
  obtain ⟨-, hrest⟩ := hrest _ _ rfl
  obtain ⟨⟨quantum, hquantum, hpos, -⟩, -⟩ := hrest _ _ rfl
  cases hquantum
  exact absurd hpos (by decide)

end ExKernel.Scullp
