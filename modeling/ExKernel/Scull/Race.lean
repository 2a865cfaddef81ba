import ExKernel.Scull.System

/-!
# The geometry that a call works with

The methods `scull_read` and `scull_write` read the geometry of the device before they take its
lock. Here each of them is two steps, the one that reads the geometry and the one that runs under
the lock, and any number of processes make these steps in any order, with ioctls and opens between
them.

A write-only open between the two steps of a call empties the device and installs the geometry of
the parameters. If this is another one, the call goes on with the old one: its place of a position,
the array that it allocates and the quantum in it are not those of the device. As long as no
write-only open changes the geometry under a call that has read it, every call works with the
geometry of the device and the list keeps its shape.

## Main definitions

* `Scull.RaceSys`, `Scull.RaceEvent`, `Scull.RaceSys.step`: the device with the calls in progress.
* `Scull.SectionCurrent`: a section under the lock has the geometry of the device.
* `Scull.TrimKeeps`: an open does not change the geometry under a call in progress.

## Main results

* `Scull.geometry_is_current`: what holds of every run in which no open changes the geometry under a
  call in progress.
* `Scull.section_with_old_geometry`: a run with such an open.

## References

* `ldd/scull/main.c`, lines 58–83, 240–255 and 294–389.
-/

namespace ExKernel.Scull

open Transition

/-! ### Calls in two steps -/

/-- The arguments of a read or write; a position is a `loff_t` that is not negative. -/
inductive Call
  | read (fPos : Fin (2 ^ 63)) (count room : ℕ)
  | write (fPos : Fin (2 ^ 63)) (count : ℕ) (src : UserBuffer)

/-- The part of a call that runs under the lock, with the geometry read before. -/
def Call.locked (quantum qset : Int32) (dev : ScullDev) (heap : Ledger) (env : AllocEnv) :
    Call → Option IoResult
  | .read fPos count room =>
    scullReadLocked quantum qset dev heap ((fPos : ℕ) : ℤ) count room env
  | .write fPos count src =>
    scullWriteLocked quantum qset dev heap ((fPos : ℕ) : ℤ) count src env

/-- A call that has read the geometry and has not taken the lock. -/
structure Started where
  call : Call
  quantum : Int32
  qset : Int32

/-- The device, the heap, the module parameters, and the call that each process is in. -/
structure RaceSys where
  dev : ScullDev
  heap : Ledger
  params : Params
  calls : ℕ → Option Started

/-- The module as it is loaded; nobody is in a call. -/
def RaceSys.load (params : Params) : RaceSys := ⟨.init params, .empty, params, fun _ => none⟩

/-- A process reads the geometry at the beginning of a call; it runs the section under the lock; it
is interrupted while it waits for the lock. Some process calls `scull_ioctl` or `scull_open`. -/
inductive RaceEvent
  | start (pid : ℕ) (call : Call)
  | locked (pid : ℕ) (env : AllocEnv)
  | interrupted (pid : ℕ)
  | scullIoctl (cmd : UInt32) (arg : UInt64) (env : IoctlEnv)
  | scullOpen (mode : AccMode) (lockIntr : Bool)

/-- One step of one process, with its return value.

Source: `ldd/scull/main.c`, lines 240–255, 294–389 and 395–516. -/
def RaceSys.step (s : RaceSys) : RaceEvent → Option (ℤ × RaceSys)
  | .start pid call =>
    match s.calls pid with
    | some _ => none
    | none => some (0,
        { s with calls := Function.update s.calls pid (some ⟨call, s.dev.quantum, s.dev.qset⟩) })
  | .locked pid env =>
    (s.calls pid).bind fun c =>
      (c.call.locked c.quantum c.qset s.dev s.heap env).map fun res =>
        (res.ret,
          { s with dev := res.dev, heap := res.heap, calls := Function.update s.calls pid none })
  | .interrupted pid =>
    (s.calls pid).map fun _ =>
      (-ERESTARTSYS, { s with calls := Function.update s.calls pid none })
  | .scullIoctl cmd arg env =>
    let out := scullIoctl s.params cmd arg env
    some (out.ret, { s with params := out.params })
  | .scullOpen mode lockIntr =>
    if mode = .wronly then
      if lockIntr then some (-ERESTARTSYS, s)
      else (scullTrim s.params s.dev s.heap).map fun out =>
        (0, { s with dev := out.1, heap := out.2 })
    else some (0, s)

/-! ### What is asked of a run -/

/-- Ioctls leave parameters that make a geometry that the driver can work with. -/
def GoodIoctl (s : RaceSys) : RaceEvent → Prop
  | .scullIoctl cmd arg env =>
    GoodGeometry (scullIoctl s.params cmd arg env).params.quantum
      (scullIoctl s.params cmd arg env).params.qset
  | _ => True

/-- The geometry that a call has read is the one of the device. -/
def Started.Current (dev : ScullDev) (c : Started) : Prop :=
  c.quantum = dev.quantum ∧ c.qset = dev.qset

/-- The section of a call runs with the geometry of the device. -/
def SectionCurrent (s : RaceSys) : RaceEvent → Prop
  | .locked pid _ => ∀ c, s.calls pid = some c → c.Current s.dev
  | _ => True

/-- A process begins a call when it is in none, and goes on with a call when it is in one. -/
def Enabled (s : RaceSys) : RaceEvent → Prop
  | .start pid _ => s.calls pid = none
  | .locked pid _ => (s.calls pid).isSome
  | .interrupted pid => (s.calls pid).isSome
  | _ => True

/-- A step that a process can make is made without an access outside a block. -/
def InBlocks (s : RaceSys) (e : RaceEvent) : Prop := Enabled s e → (s.step e).isSome

/-- A write-only open finds no call in progress, or the parameters have the geometry of the
device. -/
def TrimKeeps (s : RaceSys) : RaceEvent → Prop
  | .scullOpen .wronly false => (∀ pid, s.calls pid = none) ∨
    (s.params.quantum = s.dev.quantum ∧ s.params.qset = s.dev.qset)
  | _ => True

/-- Every array and every quantum of the list has the size that the device records. -/
def RaceSys.InShape (s : RaceSys) : Prop := Shaped s.dev.q s.dev.s s.dev.data

/-- Every call in progress has the geometry of the device. -/
def AllCurrent (s : RaceSys) : Prop := ∀ pid c, s.calls pid = some c → c.Current s.dev

/-- The invariant of the runs in which opens keep the geometry under the calls in progress. -/
structure RaceRep (s : RaceSys) : Prop where
  geometry : GoodGeometry s.dev.quantum s.dev.qset
  next_geometry : GoodGeometry s.params.quantum s.params.qset
  shaped : s.InShape
  current : AllCurrent s

/-- A section that runs with the geometry of the device is not stuck and keeps the shape. -/
theorem Call.locked_spec (c : Call) {dev : ScullDev} (hg : GoodGeometry dev.quantum dev.qset)
    (hs : Shaped dev.q dev.s dev.data) (heap : Ledger) (env : AllocEnv) :
    ∃ res, c.locked dev.quantum dev.qset dev heap env = some res ∧
      Kept dev.q dev.s dev heap res := by
  cases c with
  | read fPos count room =>
    obtain ⟨res, hres, hkept, -⟩ := scullReadLocked_spec hg hs heap fPos.isLt count room env
    exact ⟨res, hres, hkept⟩
  | write fPos count src =>
    obtain ⟨res, hres, hkept, -⟩ := scullWriteLocked_spec hg hs heap fPos count src env
    exact ⟨res, hres, hkept⟩

/-- What a write-only open leaves: an empty device with the geometry of the parameters. -/
theorem RaceSys.eq_of_trim {s t : RaceSys} {r : ℤ}
    (h : (scullTrim s.params s.dev s.heap).map
      (fun out => ((0 : ℤ), { s with dev := out.1, heap := out.2 })) = some (r, t)) :
    ∃ heap, t = { s with dev := ⟨[], s.params.quantum, s.params.qset, 0⟩, heap := heap } := by
  obtain ⟨⟨dev, heap⟩, htrim, hmap⟩ := Option.map_eq_some_iff.mp h
  obtain ⟨heap', -, hdev⟩ := Option.map_eq_some_iff.mp htrim
  cases hdev
  cases hmap
  exact ⟨heap, rfl⟩

namespace RaceRep

variable {s t : RaceSys}

theorem load {params : Params} (h : GoodGeometry params.quantum params.qset) :
    RaceRep (.load params) where
  geometry := h
  next_geometry := h
  shaped := by simp [RaceSys.InShape, RaceSys.load, ScullDev.init, Shaped]
  current := by simp [AllCurrent, RaceSys.load]

theorem locked (h : RaceRep s) {pid : ℕ} {c : Started} (hc : s.calls pid = some c)
    (env : AllocEnv) : ∃ res, c.call.locked c.quantum c.qset s.dev s.heap env = some res ∧
      Kept s.dev.q s.dev.s s.dev s.heap res := by
  obtain ⟨hq, hs⟩ := h.current pid c hc
  rw [hq, hs]
  exact c.call.locked_spec h.geometry h.shaped s.heap env

theorem sectionCurrent (h : RaceRep s) (e : RaceEvent) : SectionCurrent s e := by
  cases e with
  | locked pid env => exact h.current pid
  | _ => trivial

theorem inBlocks (h : RaceRep s) (e : RaceEvent) : InBlocks s e := by
  intro henabled
  cases e with
  | start pid call =>
    simp only [Enabled] at henabled
    simp [RaceSys.step, henabled]
  | locked pid env =>
    obtain ⟨c, hc⟩ := Option.isSome_iff_exists.mp henabled
    obtain ⟨res, hres, -⟩ := h.locked hc env
    simp [RaceSys.step, hc, hres]
  | interrupted pid =>
    obtain ⟨c, hc⟩ := Option.isSome_iff_exists.mp henabled
    simp [RaceSys.step, hc]
  | scullIoctl cmd arg env => rfl
  | scullOpen mode lockIntr =>
    have htrim : (scullTrim s.params s.dev s.heap).isSome := by
      rw [scullTrim_eq h.shaped]
      rfl
    simp only [RaceSys.step]
    split_ifs
    · rfl
    · rw [Option.isSome_map]
      exact htrim
    · rfl

/-- The calls in progress are current when one of them has ended and the geometry is kept. -/
theorem allCurrent_update (h : RaceRep s) {dev : ScullDev} (hq : dev.quantum = s.dev.quantum)
    (hs : dev.qset = s.dev.qset) {pid : ℕ} {next : Option Started}
    (hnext : ∀ c, next = some c → c.Current s.dev) :
    ∀ pid' c, Function.update s.calls pid next pid' = some c → c.Current dev := by
  intro pid' c hc
  have hcur : c.Current s.dev := by
    by_cases hp : pid' = pid
    · subst hp
      exact hnext c (by simpa using hc)
    · exact h.current pid' c (by simpa [hp] using hc)
  exact ⟨hcur.1.trans hq.symm, hcur.2.trans hs.symm⟩

/-- **One step.** -/
theorem step (h : RaceRep s) {e : RaceEvent} {r : ℤ} (hio : GoodIoctl s e) (hkeep : TrimKeeps s e)
    (hstep : s.step e = some (r, t)) : RaceRep t := by
  cases e with
  | start pid call =>
    simp only [RaceSys.step] at hstep
    split at hstep
    · cases hstep
    · cases hstep
      refine ⟨h.geometry, h.next_geometry, h.shaped, h.allCurrent_update rfl rfl ?_⟩
      rintro c ⟨⟩
      exact ⟨rfl, rfl⟩
  | locked pid env =>
    obtain ⟨c, hc, hmap⟩ := Option.bind_eq_some_iff.mp hstep
    obtain ⟨res, hres, hkept⟩ := h.locked hc env
    rw [hres] at hmap
    cases hmap
    refine ⟨?_, h.next_geometry, ?_,
      h.allCurrent_update hkept.quantum_eq hkept.qset_eq (by simp)⟩
    · simp only [hkept.quantum_eq, hkept.qset_eq]
      exact h.geometry
    · simp only [RaceSys.InShape, hkept.q_eq, hkept.s_eq]
      exact hkept.shaped
  | interrupted pid =>
    obtain ⟨c, hc, hmap⟩ := Option.map_eq_some_iff.mp hstep
    cases hmap
    exact ⟨h.geometry, h.next_geometry, h.shaped, h.allCurrent_update rfl rfl (by simp)⟩
  | scullIoctl cmd arg env =>
    cases hstep
    exact ⟨h.geometry, hio, h.shaped, h.current⟩
  | scullOpen mode lockIntr =>
    simp only [RaceSys.step] at hstep
    split_ifs at hstep with hmode hintr
    · cases hstep
      exact h
    · subst hmode
      rw [Bool.not_eq_true] at hintr
      subst hintr
      obtain ⟨heap, rfl⟩ := RaceSys.eq_of_trim hstep
      refine ⟨h.next_geometry, h.next_geometry, by simp [RaceSys.InShape, Shaped],
        fun pid c hc => ?_⟩
      rcases hkeep with hnone | ⟨hq, hs⟩
      · rw [hnone pid] at hc
        cases hc
      · obtain ⟨hcq, hcs⟩ := h.current pid c hc
        exact ⟨hcq.trans hq.symm, hcs.trans hs.symm⟩
    · cases hstep
      exact h

end RaceRep

/-- An open that leaves the calls in progress current has kept the geometry. -/
theorem trimKeeps_of_current {s t : RaceSys} {e : RaceEvent} {r : ℤ} (hs : AllCurrent s)
    (hstep : s.step e = some (r, t)) (ht : AllCurrent t) : TrimKeeps s e := by
  unfold TrimKeeps
  split
  · obtain ⟨heap, rfl⟩ := RaceSys.eq_of_trim hstep
    by_cases hnone : ∀ pid, s.calls pid = none
    · exact Or.inl hnone
    · obtain ⟨pid, hpid⟩ := not_forall.mp hnone
      obtain ⟨c, hc⟩ := Option.ne_none_iff_exists'.mp hpid
      obtain ⟨hq, hqs⟩ := hs pid c hc
      obtain ⟨hq', hqs'⟩ := ht pid c hc
      exact Or.inr ⟨hq'.symm.trans hq, hqs'.symm.trans hqs⟩
  · trivial

/-- **The geometry used is the geometry of the device.** In every run of any number of processes in
which the ioctls store geometries that the driver can work with, and no write-only open changes the
geometry of the device while a call has read it and not taken the lock: every section under the lock
has the geometry of the device, all arrays and quanta have the sizes that the device records in
every state, and no access is outside a block. The condition on the opens is the weakest one that
keeps the calls in progress current.

Source: `ldd/scull/main.c`, lines 62–83, 240–255 and 294–389. -/
theorem geometry_is_current {params : Params}
    (hgood : GoodGeometry params.quantum params.qset) {es : List RaceEvent}
    (hio : Guarded RaceSys.step GoodIoctl (.load params) es) :
    (Guarded RaceSys.step TrimKeeps (.load params) es →
      Guarded RaceSys.step SectionCurrent (.load params) es ∧
      Always RaceSys.step RaceSys.InShape (.load params) es ∧
      Guarded RaceSys.step InBlocks (.load params) es) ∧
    ∀ answers t, exec RaceSys.step (.load params) es = some (answers, t) →
      (Guarded RaceSys.step TrimKeeps (.load params) es ↔
        Always RaceSys.step AllCurrent (.load params) es) := by
  have hrep : Guarded RaceSys.step TrimKeeps (.load params) es →
      Always RaceSys.step RaceRep (.load params) es := fun hkeep =>
    always_of_invariant RaceRep (fun _ _ _ _ h hG hstep => h.step hG.1 hG.2 hstep) (.load hgood)
      (hio.and hkeep)
  refine ⟨fun hkeep => ⟨?_, ?_, ?_⟩, fun answers t hrun => ⟨fun hkeep => ?_, fun hcur => ?_⟩⟩
  · exact (hrep hkeep).guarded fun _ e h => h.sectionCurrent e
  · exact (hrep hkeep).mono fun _ h => h.shaped
  · exact (hrep hkeep).guarded fun _ e h => h.inBlocks e
  · exact (hrep hkeep).mono fun _ h => h.current
  · exact hcur.guarded_of_next (fun _ _ _ _ => trimKeeps_of_current) hrun

/-- A write, an ioctl that sets the number of entries to one between its two steps, and a write-only
open after it. -/
theorem geometry_is_current_write :
    Guarded RaceSys.step SectionCurrent (.load ⟨4, 2, 0⟩)
        [.start 0 (.write 0 1 ⟨[7], []⟩), .scullIoctl SCULL_IOCTQSET 1 ⟨true, true, none, true⟩,
          .locked 0 ⟨fun _ => true, true, some fun _ => 0⟩, .scullOpen .wronly false] ∧
      Always RaceSys.step RaceSys.InShape (.load ⟨4, 2, 0⟩)
        [.start 0 (.write 0 1 ⟨[7], []⟩), .scullIoctl SCULL_IOCTQSET 1 ⟨true, true, none, true⟩,
          .locked 0 ⟨fun _ => true, true, some fun _ => 0⟩, .scullOpen .wronly false] := by
  have hgood : GoodGeometry 4 2 := ⟨by decide, by decide, by decide⟩
  have hio : Guarded RaceSys.step GoodIoctl (.load ⟨4, 2, 0⟩)
      [.start 0 (.write 0 1 ⟨[7], []⟩), .scullIoctl SCULL_IOCTQSET 1 ⟨true, true, none, true⟩,
        .locked 0 ⟨fun _ => true, true, some fun _ => 0⟩, .scullOpen .wronly false] := by
    refine ⟨trivial, fun _ _ h => ?_⟩
    cases h
    exact ⟨⟨by decide, by decide, by decide⟩,
      fun _ _ _ => ⟨trivial, fun _ _ _ => ⟨trivial, fun _ _ _ => trivial⟩⟩⟩
  have hkeep : Guarded RaceSys.step TrimKeeps (.load ⟨4, 2, 0⟩)
      [.start 0 (.write 0 1 ⟨[7], []⟩), .scullIoctl SCULL_IOCTQSET 1 ⟨true, true, none, true⟩,
        .locked 0 ⟨fun _ => true, true, some fun _ => 0⟩, .scullOpen .wronly false] := by
    refine ⟨trivial, fun _ _ h => ?_⟩
    cases h
    refine ⟨trivial, fun _ _ h => ?_⟩
    cases h
    refine ⟨trivial, fun _ _ h => ?_⟩
    cases h
    exact ⟨Or.inl fun pid => by simp [RaceSys.load], fun _ _ _ => trivial⟩
  obtain ⟨hcur, hshape, -⟩ := (geometry_is_current hgood hio).1 hkeep
  exact ⟨hcur, hshape⟩

/-- With the open between the two steps of the write, the section runs with two entries where the
device has one, and attaches an array of two entries. -/
theorem section_with_old_geometry :
    GoodGeometry 4 2 ∧ ∃ es, Guarded RaceSys.step GoodIoctl (.load ⟨4, 2, 0⟩) es ∧
      (exec RaceSys.step (.load ⟨4, 2, 0⟩) es).isSome ∧
      ¬ Guarded RaceSys.step SectionCurrent (.load ⟨4, 2, 0⟩) es ∧
      ¬ Always RaceSys.step RaceSys.InShape (.load ⟨4, 2, 0⟩) es := by
  refine ⟨⟨by decide, by decide, by decide⟩,
    [.start 0 (.write 0 1 ⟨[7], []⟩), .scullIoctl SCULL_IOCTQSET 1 ⟨true, true, none, true⟩,
      .scullOpen .wronly false, .locked 0 ⟨fun _ => true, true, some fun _ => 0⟩], ?_, rfl, ?_, ?_⟩
  · refine ⟨trivial, fun _ _ h => ?_⟩
    cases h
    exact ⟨⟨by decide, by decide, by decide⟩,
      fun _ _ _ => ⟨trivial, fun _ _ _ => ⟨trivial, fun _ _ _ => trivial⟩⟩⟩
  · intro h
    have hlocked := (((h.2 _ _ rfl).2 _ _ rfl).2 _ _ rfl).1
    exact absurd (hlocked _ rfl).2 (by decide)
  · intro h
    have hlast := h.last rfl
    have harray := hlast _ (.head _) _ rfl
    exact absurd harray.1 (by decide)

end ExKernel.Scull
