import ExKernel.Access.Uid

/-!
# Emptying a device that is in use

`scull_open` empties the device under `dev->lock`, and so never while a read or a write of another
process works on it. The opens of the devices with access control empty the device without the lock.
They rely on the protocol that has let them in: on the single-open device this is enough, as whoever
empties it is alone. On the devices with an owner it is not, as they can be open many times; and
which files can meet is settled by who admits whom.

Reads and writes are here sections under the lock. A process can be in one while it has the device
open, and no two are in one at a time; a release is not called for a file that a section still uses.

## Main definitions

* `Trim.Files`, `Trim.Used`, `Trim.Files.step`: a protocol of opens and releases, with sections.
* `Trim.scullSngl`, `Trim.uidDevice`: the protocols of the devices.
* `Trim.Meets`: an open is about to empty the device while another file is in a section.

## Main results

* `Trim.trim_alone_on_sngl`: no open of the single-open device meets a section.
* `Trim.trim_meets_section_iff`: which opens of the devices with an owner can.

## References

* `ldd/scull/access.c`, lines 55–75, 103–136 and 174–210; `ldd/scull/main.c`, lines 62–83 and
  240–255.
-/

namespace ExKernel.Trim

open Transition Scull

/-! ### Sections -/

/-- A protocol of opens and releases: its steps, the process whose release an event begins, and
whether a process has the device open and is in no call of the protocol, which only its release
ends. -/
structure Files (ω ε : Type*) (n : ℕ) where
  protocol : ω → ε → Option (Option ℤ × ω)
  closes : ε → Option (Fin n)
  inFile : ω → Fin n → Bool
  inFile_step : ∀ w e r w' q, protocol w e = some (r, w') → closes e ≠ some q →
    inFile w q = true → inFile w' q = true

/-- The state of a protocol, and which process is in a section. -/
structure Used (ω : Type*) (n : ℕ) where
  world : ω
  inside : Fin n → Bool

/-- An event of the protocol; or a process enters or leaves a section. -/
inductive Event (ε : Type*) (n : ℕ)
  | call (e : ε)
  | enter (p : Fin n)
  | leave (p : Fin n)

variable {ω ε : Type*} {n : ℕ} (F : Files ω ε n)

/-- One step, with the lock of the device around sections. -/
def Files.step (s : Used ω n) : Event ε n → Option (Option ℤ × Used ω n)
  | .call e =>
    if ∃ p, F.closes e = some p ∧ s.inside p = true then none
    else (F.protocol s.world e).map fun out => (out.1, { s with world := out.2 })
  | .enter p =>
    if F.inFile s.world p = true ∧ ∀ q, s.inside q = false then
      some (none, { s with inside := Function.update s.inside p true })
    else none
  | .leave p =>
    if s.inside p = true then
      some (none, { s with inside := Function.update s.inside p false })
    else none

/-- The module as it is loaded. -/
def Used.load (n : ℕ) (w : ω) : Used ω n := ⟨w, fun _ => false⟩

/-- Sections are those of open files. -/
def Used.InFiles (s : Used ω n) : Prop := ∀ q, s.inside q = true → F.inFile s.world q = true

variable {F}

theorem Used.InFiles.step {s t : Used ω n} {e : Event ε n} {r : Option ℤ} (hs : s.InFiles F)
    (h : F.step s e = some (r, t)) : t.InFiles F := by
  intro q hq
  cases e with
  | call e =>
    simp only [Files.step] at h
    split_ifs at h with hcloses
    obtain ⟨⟨r', w'⟩, hprotocol, heq⟩ := Option.map_eq_some_iff.mp h
    cases heq
    exact F.inFile_step _ _ _ _ _ hprotocol (fun heq => hcloses ⟨q, heq, hq⟩) (hs q hq)
  | enter p =>
    simp only [Files.step] at h
    split_ifs at h with henter
    cases h
    dsimp only at hq ⊢
    by_cases hqp : q = p
    · rw [hqp]
      exact henter.1
    · rw [Function.update_of_ne hqp] at hq
      exact hs q hq
  | leave p =>
    simp only [Files.step] at h
    split_ifs at h with hinside
    cases h
    dsimp only at hq ⊢
    by_cases hqp : q = p
    · rw [hqp, Function.update_self] at hq
      cases hq
    · rw [Function.update_of_ne hqp] at hq
      exact hs q hq

/-- What the protocol preserves, holds throughout a run with sections, which are those of open
files. -/
theorem Files.always {I : ω → Prop} (hstep : ∀ w e r w', I w → F.protocol w e = some (r, w') → I w')
    {w : ω} (hw : I w) (es : List (Event ε n)) :
    Always F.step (fun s => I s.world ∧ s.InFiles F) (Used.load n w) es := by
  refine always_of_invariant _ (fun s e r t hs _ hst => ⟨?_, hs.2.step hst⟩) ⟨hw, nofun⟩
    (guarded_true _ es)
  cases e with
  | call e =>
    simp only [Files.step] at hst
    split_ifs at hst
    obtain ⟨⟨r', w'⟩, hprotocol, heq⟩ := Option.map_eq_some_iff.mp hst
    cases heq
    exact hstep _ _ _ _ hs.1 hprotocol
  | enter p =>
    simp only [Files.step] at hst
    split_ifs at hst
    cases hst
    exact hs.1
  | leave p =>
    simp only [Files.step] at hst
    split_ifs at hst
    cases hst
    exact hs.1

/-! ### The single-open device -/

/-- The process whose release begins. -/
def closesSngl : Single.Event n → Option (Fin n)
  | .startRelease p => some p
  | _ => none

/-- The single-open device. -/
def scullSngl (params : Params) (n : ℕ) :
    Files (Single.World (ScullDev × Ledger) n) (Single.Event n) n where
  protocol := Single.World.step (Single.scullSngl params)
  closes := closesSngl
  inFile w p := decide (w.phase p = .holding)
  inFile_step w e r w' q h hcloses hq := by
    have hphase := of_decide_eq_true hq
    refine decide_eq_true ?_
    obtain ⟨a, hmove⟩ := Single.World.step_moves h
    rw [hmove.phase_eq]
    by_cases hproc : q = e.proc
    · cases e with
      | startOpen p mode =>
        simp only [Single.World.step, Single.Event.proc] at h hproc
        rw [← hproc, hphase] at h
        cases h
      | startRelease p => exact absurd (congrArg some hproc.symm) hcloses
      | run p =>
        simp only [Single.World.step, Single.World.run, Single.Event.proc] at h hproc
        rw [← hproc, hphase] at h
        cases h
    · rw [Function.update_of_ne hproc]
      exact hphase

/-- The open that empties the device at this step does so while nobody is in a section. -/
def TrimAlone (s : Used (Single.World (ScullDev × Ledger) n) n) : Event (Single.Event n) n → Prop
  | .call (.run p) => s.world.phase p = .granted .wronly → ∀ q, s.inside q = false
  | _ => True

/-- **Emptying the single-open device.** In every interleaving of opens, releases, reads and writes
of any number of processes, no open empties the single-open device while a read or a write is in its
section, although it does not take the lock.

Source: `ldd/scull/access.c`, lines 55–75. -/
theorem trim_alone_on_sngl (params : Params) (n : ℕ) (dev : ScullDev × Ledger)
    (es : List (Event (Single.Event n) n)) :
    Guarded (scullSngl params n).step TrimAlone (Used.load n (.load n dev)) es := by
  have halways : Always (scullSngl params n).step
      (fun s => Single.Exclusive s.world ∧ s.InFiles (scullSngl params n))
      (Used.load n (.load n dev)) es :=
    Files.always (fun _ _ _ _ hw hst => hw.step hst) (.load n dev) es
  refine halways.guarded ?_
  rintro s e ⟨hexclusive, hfiles⟩
  match e with
  | .call (.startOpen _ _) => trivial
  | .call (.startRelease _) => trivial
  | .enter _ => trivial
  | .leave _ => trivial
  | .call (.run p) =>
    intro hp q
    by_contra hq
    have hholding := of_decide_eq_true (hfiles q (Bool.not_eq_false _ ▸ hq))
    have hqp : q = p := hexclusive.unique (by rw [hholding]; rfl) (by rw [hp]; rfl)
    rw [← hqp, hholding] at hp
    cases hp

/-! ### The devices with an owner -/

/-- The process whose release begins. -/
def closesUid : Uid.Event n → Option (Fin n)
  | .startRelease p => some p
  | _ => none

/-- The file that a process has open. -/
def file (w : Uid.World n) (p : Fin n) : Option Uid.Opener :=
  match (w.procs p).phase with
  | .holding o => some o
  | _ => none

theorem file_eq_some_iff {w : Uid.World n} {p : Fin n} {o : Uid.Opener} :
    file w p = some o ↔ (w.procs p).phase = .holding o := by
  unfold file
  split <;> simp_all

/-- The device `sculluid` or `scullwuid`. -/
def uidDevice (params : Params) (K : Uid.Kind) (n : ℕ) :
    Files (Uid.World n) (Uid.Event n) n where
  protocol := Uid.World.step params K
  closes := closesUid
  inFile w p := (file w p).isSome
  inFile_step w e r w' q h hcloses hq := by
    obtain ⟨o, ho⟩ := Option.isSome_iff_exists.mp hq
    rw [file_eq_some_iff] at ho
    refine Option.isSome_iff_exists.mpr ⟨o, file_eq_some_iff.mpr ?_⟩
    cases e with
    | startOpen p o' =>
      simp only [Uid.World.step] at h
      split at h
      · rename_i hidle
        have hqp : q ≠ p := by
          rintro rfl
          rw [ho] at hidle
          cases hidle
        cases h
        dsimp only
        rw [Function.update_of_ne hqp]
        exact ho
      · cases h
    | startRelease p =>
      have hqp : q ≠ p := fun heq => hcloses (congrArg some heq.symm)
      simp only [Uid.World.step] at h
      split at h
      · cases h
        dsimp only
        rw [Function.update_of_ne hqp]
        exact ho
      · cases h
    | run p signal =>
      obtain ⟨out, hrun, heq⟩ := Option.map_eq_some_iff.mp h
      have hqp : q ≠ p := by
        rintro rfl
        simp only [Uid.Proc.run, ho] at hrun
        cases hrun
      cases heq
      rw [Uid.wakeUp_phase, Function.update_of_ne hqp]
      exact ho

/-- The process `p`, in an open by `o`, is about to empty the device while the process `q`, which
has it open from an open by `o'`, is in a section. -/
structure Meets (s : Used (Uid.World n) n) (p q : Fin n) (o o' : Uid.Opener) : Prop where
  opening : (s.world.procs p).phase = .opening .rest o
  mode_eq : o.mode = .wronly
  holding : (s.world.procs q).phase = .holding o'
  inside : s.inside q = true

/-- A device with the owner `owner` is open to `c`. -/
def Admits (owner : UInt32) (c : Uid.Cred) : Prop :=
  owner = c.uid ∨ owner = c.euid ∨ c.dacOverride = true

theorem scullWAvailable_of_admits {owner : UInt32} {c : Uid.Cred} (h : Admits owner c) (count : ℤ) :
    Uid.scullWAvailable ⟨count, owner⟩ c = true := by
  unfold Uid.scullWAvailable
  rcases h with h | h | h <;> simp [h]

theorem admits_of_holder {w : Uid.World n} (hw : Uid.Owned w) {p : Fin n} {o : Uid.Opener}
    (h : (w.procs p).phase.holder = some o) : Admits w.dev.owner o.cred := by
  cases hdac : o.cred.dacOverride with
  | true => exact .inr (.inr hdac)
  | false =>
    rcases hw.owner p o h hdac with huid | heuid
    · exact .inl huid
    · exact .inr (.inl heuid)

/-- An open of a fresh device leaves it as it is, whether it empties it or not. -/
theorem bareOpen_init (params : Params) (mode : AccMode) (heap : Ledger) :
    Single.bareOpen params mode (ScullDev.init params, heap) =
      some (ScullDev.init params, heap) := by
  unfold Single.bareOpen
  split_ifs <;> rfl

section Runs

variable {params : Params} {K : Uid.Kind} {s : Used (Uid.World n) n} {p : Fin n} {o : Uid.Opener}

theorem wakeUp_false (procs : Fin n → Uid.Proc) : Uid.wakeUp false procs = procs := rfl

/-- The process `p` goes on at `phase`. -/
def goesOn (w : Uid.World n) (p : Fin n) (phase : Uid.Phase) : Uid.World n :=
  { w with procs := Function.update w.procs p ⟨phase, false⟩ }

theorem step_startOpen (hidle : s.world.procs p = ⟨.idle, false⟩) :
    (uidDevice params K n).step s (.call (.startOpen p o)) =
      some (none, { s with world := goesOn s.world p (.opening .lock o) }) := by
  simp [Files.step, uidDevice, closesUid, Uid.World.step, hidle, goesOn]

theorem step_admitted (hlock : s.world.procs p = ⟨.opening .lock o, false⟩)
    (havailable : Uid.scullWAvailable s.world.dev o.cred = true) :
    (uidDevice params K n).step s (.call (.run p false)) = some (none, { s with
      world := goesOn { s.world with dev := s.world.dev.grab o.cred } p (.opening .rest o) }) := by
  cases K <;>
    simp [Files.step, uidDevice, closesUid, Uid.World.step, Uid.Proc.run, hlock, Uid.Proc.runOpen,
      Uid.Proc.runOpen.grant, Uid.scullUBusy_eq, havailable, wakeUp_false, goesOn]

theorem step_rest (hrest : s.world.procs p = ⟨.opening .rest o, false⟩)
    (hbare : Single.bareOpen params o.mode s.world.bare = some s.world.bare) :
    (uidDevice params K n).step s (.call (.run p false)) =
      some (some 0, { s with world := goesOn s.world p (.holding o) }) := by
  simp [Files.step, uidDevice, closesUid, Uid.World.step, Uid.Proc.run, hrest, Uid.Proc.runOpen,
    hbare, wakeUp_false, goesOn]

theorem step_enter (hholding : s.world.procs p = ⟨.holding o, false⟩)
    (hfree : ∀ q, s.inside q = false) :
    (uidDevice params K n).step s (.enter p) =
      some (none, { s with inside := Function.update s.inside p true }) :=
  if_pos ⟨Option.isSome_iff_exists.mpr ⟨o, file_eq_some_iff.mpr (by rw [hholding])⟩, hfree⟩

end Runs

/-- The owner is admitted; another process opens the device and enters a section; and a third one is
admitted. -/
def meetingRun (first second third : Fin n) (owner : UInt32) (o o' : Uid.Opener) :
    List (Event (Uid.Event n) n) :=
  [.call (.startOpen first ⟨⟨owner, owner, false⟩, false, .rdonly⟩), .call (.run first false),
    .call (.startOpen second o'), .call (.run second false), .call (.run second false),
    .enter second, .call (.startOpen third o), .call (.run third false)]

theorem exec_meetingRun (params : Params) (K : Uid.Kind) {owner : UInt32} {o o' : Uid.Opener}
    (ho : Admits owner o.cred) (ho' : Admits owner o'.cred) (hmode : o.mode = .wronly) :
    ∃ rs s, exec (uidDevice params K 3).step
        (Used.load 3 (.load 3 (ScullDev.init params, Ledger.empty))) (meetingRun 0 1 2 owner o o') =
          some (rs, s) ∧ Meets s 2 1 o o' := by
  have havailable := scullWAvailable_of_admits ho 2
  have havailable' := scullWAvailable_of_admits ho' 1
  refine exists_exec_cons (step_startOpen rfl) ?_
  refine exists_exec_cons (step_admitted rfl rfl) ?_
  refine exists_exec_cons (step_startOpen rfl) ?_
  refine exists_exec_cons (step_admitted rfl havailable') ?_
  refine exists_exec_cons (step_rest rfl (bareOpen_init _ _ _)) ?_
  refine exists_exec_cons (step_enter rfl fun _ => rfl) ?_
  refine exists_exec_cons (step_startOpen rfl) ?_
  refine exists_exec_cons (step_admitted rfl havailable) ?_
  exact ⟨[], _, rfl, rfl, hmode, rfl, rfl⟩

/-- **Which opens of a device with an owner can meet a section.** A write-only open can be about to
empty the device, without the lock, while a file from another open is in a read or write, if and
only if there is an owner who admits them both.

Source: `ldd/scull/access.c`, lines 103–136 and 174–210. -/
theorem trim_meets_section_iff (params : Params) (K : Uid.Kind) (o o' : Uid.Opener)
    (hmode : o.mode = .wronly) :
    (∃ (n : ℕ) (es : List (Event (Uid.Event n) n)) (rs : List (Option ℤ)) (s : _) (p q : Fin n),
      exec (uidDevice params K n).step
          (Used.load n (.load n (ScullDev.init params, Ledger.empty))) es = some (rs, s) ∧
        Meets s p q o o') ↔
      ∃ owner, Admits owner o.cred ∧ Admits owner o'.cred := by
  constructor
  · rintro ⟨n, es, rs, s, p, q, hrun, hmeets⟩
    have halways : Always (uidDevice params K n).step
        (fun s => Uid.Owned s.world ∧ s.InFiles (uidDevice params K n))
        (Used.load n (.load n (ScullDev.init params, Ledger.empty))) es :=
      Files.always (fun _ _ _ _ hw hst => hw.step hst) (.load _) es
    have howned := (halways.last hrun).1
    exact ⟨s.world.dev.owner, admits_of_holder howned (by rw [hmeets.opening]; rfl),
      admits_of_holder howned (by rw [hmeets.holding]; rfl)⟩
  · rintro ⟨owner, ho, ho'⟩
    obtain ⟨rs, s, hrun, hmeets⟩ := exec_meetingRun params K ho ho' hmode
    exact ⟨3, meetingRun 0 1 2 owner o o', rs, s, 2, 1, hrun, hmeets⟩

/-- Who may override access checks empties `sculluid` in the middle of a write of its owner. -/
theorem root_meets_owner :
    ∃ (n : ℕ) (es : List (Event (Uid.Event n) n)) (rs : List (Option ℤ)) (s : _) (p q : Fin n),
      exec (uidDevice .default .sculluid n).step
          (Used.load n (.load n (ScullDev.init .default, Ledger.empty))) es = some (rs, s) ∧
        Meets s p q ⟨⟨0, 0, true⟩, false, .wronly⟩ ⟨⟨1000, 1000, false⟩, false, .wronly⟩ :=
  (trim_meets_section_iff .default .sculluid ⟨⟨0, 0, true⟩, false, .wronly⟩
    ⟨⟨1000, 1000, false⟩, false, .wronly⟩ rfl).mpr ⟨1000, .inr (.inr rfl), .inl rfl⟩

end ExKernel.Trim
