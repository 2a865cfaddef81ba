import ExKernel.Load.Balance
import ExKernel.Scullp.Account

/-!
# Loading and unloading the scullp module

`scullp_init` asks for a region of device numbers and for the array of the devices, and gives the
region back if there is no memory for the array; the module is then not loaded, and nothing is held.
`scullp_cleanup` deletes the character device of every device, whether it was added or not, and
empties the device. So load and unload balance unless a character device could not be added.

Between load and unload the devices are used, by any calls in any order; they share the heap and the
module parameters. A mapping holds its file, and with it the module, so that an unload finds no
mapping.

## Main definitions

* `Scullp.ScullpConfig`, `Scullp.ScullpLoadEnv`, `Scullp.ScullpMod`: the module.
* `Scullp.scullpInit`, `Scullp.scullpCleanup`, `Scullp.ScullpMod.step`.
* `Scullp.Balanced`: what is expected of load and unload.

## Main results

* `Scullp.Held.step`: what the module holds over its use.
* `Scullp.Held.cleanup`: what an unload releases.
* `Scullp.scullp_balanced_iff`: when load and unload balance.

## References

* `ldd/scullp/main.c`, lines 413–529.
-/

namespace ExKernel.Scullp

open Load (Allocated DevArray Region allocDevs majorOf mkdev)
open Scull (Answer)
open Transition

/-! ### The module -/

/-- The parameters that do not change, and the others as they are given. -/
structure ScullpConfig where
  major : Int32
  devs : Int32
  params : ScullpParams

/-- What the kernel answers to a load: what `register_chrdev_region` or `alloc_chrdev_region`
returns, and the major number that the latter hands out; whether there is memory for the array of
the devices; and what `cdev_add` returns for each of them. -/
structure ScullpLoadEnv where
  region : ℤ
  major : Int32
  devices : Bool
  cdevAdd : ℕ → ℤ

/-- Whether `cdev_add` succeeds. -/
def ScullpLoadEnv.added (env : ScullpLoadEnv) (i : ℕ) : Bool := env.cdevAdd i = 0

/-- The static data of the module and what it holds, with the position of each file and the live
mappings of each device. -/
structure ScullpMod where
  major : Int32
  params : ScullpParams
  regions : Register Region
  cdevs : Register ℕ
  heap : Ledger
  /-- `scullp_devices`, `none` for `NULL`. -/
  devices : Option (DevArray ScullpDev)
  files : ℕ → ℕ → ℤ
  areas : ℕ → Finset ℕ

/-- The module before it is loaded. -/
def ScullpMod.unloaded (cfg : ScullpConfig) : ScullpMod :=
  ⟨cfg.major, cfg.params, .empty, .empty, .empty, none, fun _ _ => 0, fun _ => ∅⟩

/-- `scullp_setup_cdev`.

Source: `ldd/scullp/main.c`, lines 444–455. -/
def scullpSetupCdev (env : ScullpLoadEnv) (s : ScullpMod) (index : ℕ) : ScullpMod :=
  if env.added index then { s with cdevs := s.cdevs.acquire index } else s

/-- The device number that the region begins with, and the major number of the module, which is
asked for if it is 0.

Source: `ldd/scullp/main.c`, lines 466–476. -/
def scullpRegion (cfg : ScullpConfig) (env : ScullpLoadEnv) : UInt32 × Int32 :=
  if cfg.major ≠ 0 then (mkdev cfg.major 0, cfg.major)
  else
    -- A failed `alloc_chrdev_region` does not store a number.
    let dev := if env.region < 0 then mkdev 0 0 else mkdev env.major 0
    (dev, majorOf dev)

/-- `scullp_init`: what it returns, and the module afterwards.

Source: `ldd/scullp/main.c`, lines 463–507. -/
def scullpInit (cfg : ScullpConfig) (env : ScullpLoadEnv) : ℤ × ScullpMod :=
  let dev := scullpRegion cfg env
  let s := { ScullpMod.unloaded cfg with major := dev.2 }
  if env.region < 0 then (env.region, s)
  else
    let region : Region := ⟨dev.1, cfg.devs.toUInt32⟩
    let got := allocDevs cfg.devs env.devices (ScullpDev.init s.params) s.heap
    let s := { s with regions := s.regions.acquire region, devices := got.1, heap := got.2 }
    match got.1 with
    | none => (-ENOMEM, { s with regions := s.regions.release region })
    | some _ => (0, (List.range cfg.devs.toInt.toNat).foldl (scullpSetupCdev env) s)

/-- The release of the devices: `cdev_del` and `scullp_trim` for each.

Source: `ldd/scullp/main.c`, lines 519–522. -/
def releaseDevices (params : ScullpParams) :
    ℕ → List ScullpDev → Ledger × Register ℕ → Option (Ledger × Register ℕ)
  | _, [], held => some held
  | i, dev :: devs, held => (scullpTrim params dev held.1).bind fun out =>
    releaseDevices params (i + 1) devs (out.2.2, held.2.release i)

/-- `scullp_cleanup`.

Source: `ldd/scullp/main.c`, lines 511–525. -/
def scullpCleanup (cfg : ScullpConfig) (s : ScullpMod) : Option ScullpMod :=
  s.devices.bind fun a => (releaseDevices s.params 0 a.devs (s.heap, s.cdevs)).map fun held =>
    { s with
      heap := held.1.free a.id
      cdevs := held.2
      regions := s.regions.release ⟨mkdev s.major 0, cfg.devs.toUInt32⟩ }

/-- The device with the number `i`, as a system of its own. -/
def ScullpMod.dev? (s : ScullpMod) (i : ℕ) : Option ScullpSys :=
  s.devices.bind fun a => (a.devs[i]?).map fun dev => ⟨dev, s.heap, s.params, s.files i, s.areas i⟩

/-- The module with another device with the number `i`. -/
def ScullpMod.setDev (s : ScullpMod) (i : ℕ) (d : ScullpSys) : ScullpMod :=
  { s with
    devices := s.devices.map fun a => { a with devs := a.devs.set i d.dev }
    heap := d.heap
    params := d.params
    files := Function.update s.files i d.files
    areas := Function.update s.areas i d.areas }

/-- A call on the device with a number. -/
def ScullpMod.step (s : ScullpMod) (e : ℕ × ScullpOp) : Option (Answer × ScullpMod) :=
  (s.dev? e.1).bind fun d => (d.step e.2).map fun out => (out.1, s.setDev e.1 out.2)

/-- The callbacks of a mapping are called for live mappings of the device. -/
def ModCall (s : ScullpMod) (e : ℕ × ScullpOp) : Prop :=
  ∀ d, s.dev? e.1 = some d → MappingCall d e.2

/-- Nothing is held, and nothing was released that was not held. -/
structure ScullpMod.Released (s : ScullpMod) : Prop where
  sound : s.heap.Sound
  live_eq : s.heap.live = []
  regions : s.regions.Clean
  cdevs : s.cdevs.Clean

/-- What is expected of load and unload: a load that fails leaves nothing behind; and after one that
succeeds, and any use of the devices, an unload without mappings releases everything. -/
structure Balanced (cfg : ScullpConfig) (env : ScullpLoadEnv) : Prop where
  failed : (scullpInit cfg env).1 ≠ 0 → (scullpInit cfg env).2.Released
  unloaded : (scullpInit cfg env).1 = 0 → ∀ calls answers s,
    Guarded ScullpMod.step ModCall (scullpInit cfg env).2 calls →
    exec ScullpMod.step (scullpInit cfg env).2 calls = some (answers, s) →
    (∀ i, s.areas i = ∅) → ∃ t, scullpCleanup cfg s = some t ∧ t.Released

/-! ### Use -/

/-- Every call keeps the count of a device at the number of its live mappings. -/
theorem vmas_of_moved {s t : ScullpSys} {op : ScullpOp} (h : s.dev.vmas = s.areas.card)
    (hop : MappingCall s op) (hmoved : Moved s op t) : t.dev.vmas = t.areas.card := by
  cases hmoved with
  | grown hgrown hareas => rw [hgrown.vmas_eq, hareas, h]
  | emptied file hop' hvmas hdev hareas => rw [hdev, hareas, ← h]
  | mapped area hop' horder hdev hheap hareas =>
    subst hop'
    rw [hdev, hareas, Finset.card_insert_of_notMem hop, scullpVmaOpen, h]
    rfl
  | copied area copy hop' hdev hheap hareas =>
    subst hop'
    rw [hdev, hareas, Finset.card_insert_of_notMem hop.2, scullpVmaOpen, h]
    rfl
  | closed area hop' hdev hheap hareas =>
    subst hop'
    have hcard := Finset.card_erase_add_one hop
    rw [hdev, hareas, scullpVmaClose, h]
    simp only
    omega

/-- What the module holds between load and unload: the array `a` of its devices, and their blocks;
each device counts its live mappings. -/
structure Held (s : ScullpMod) (a : DevArray ScullpDev) : Prop where
  devices_eq : s.devices = some a
  sized : ∀ dev ∈ a.devs, Sized dev
  sound : s.heap.Sound
  live_perm : s.heap.live.Perm (a.devs.flatMap ScullpDev.blocks ++ [a.id])
  vmas_eq : ∀ (i : ℕ) (dev : ScullpDev), a.devs[i]? = some dev → dev.vmas = (s.areas i).card

/-- From `s` to `t` the registers, the major number and the number of the devices are the same. -/
structure SameBooks (s t : ScullpMod) : Prop where
  major_eq : t.major = s.major
  regions_eq : t.regions = s.regions
  cdevs_eq : t.cdevs = s.cdevs

namespace Held

variable {s t : ScullpMod} {a : DevArray ScullpDev}

/-- **What the module holds over its use.** A call on one device trades the blocks of this device,
and leaves those of the others. -/
theorem step {e : ℕ × ScullpOp} {r : Answer} (h : Held s a) (hcall : ModCall s e)
    (hst : s.step e = some (r, t)) :
    (∃ b : DevArray ScullpDev, Held t b ∧ b.devs.length = a.devs.length) ∧ SameBooks s t := by
  obtain ⟨i, op⟩ := e
  obtain ⟨d, hd, hst⟩ := Option.bind_eq_some_iff.mp hst
  obtain ⟨⟨r', d'⟩, hstep, hst⟩ := Option.map_eq_some_iff.mp hst
  cases hst
  have hcall' : MappingCall d op := hcall d hd
  rw [ScullpMod.dev?, h.devices_eq, Option.bind_some, Option.map_eq_some_iff] at hd
  obtain ⟨dev, hi, rfl⟩ := hd
  have hvmas : d'.dev.vmas = d'.areas.card :=
    vmas_of_moved (h.vmas_eq i dev hi) hcall' (moved_of_step hstep)
  obtain ⟨rest, hold, hnew⟩ := Ledger.exists_rest_set (f := ScullpDev.blocks) hi
  have hlive : s.heap.live.Perm (dev.blocks ++ (rest ++ [a.id])) :=
    h.live_perm.trans (Ledger.perm_append_right hold [a.id])
  have hsized : Sized dev := h.sized dev (List.mem_of_getElem? hi)
  obtain ⟨hsound, hlive'⟩ := accounted_of_step hsized hstep _ h.sound hlive
  refine ⟨⟨⟨a.id, a.devs.set i d'.dev⟩, ⟨?_, ?_, hsound, ?_, ?_⟩, List.length_set⟩,
    rfl, rfl, rfl⟩
  · rw [ScullpMod.setDev, h.devices_eq]
    rfl
  · intro dev' hdev'
    rcases List.mem_or_eq_of_mem_set hdev' with hdev' | rfl
    · exact h.sized dev' hdev'
    · exact hsized.step hstep
  · exact hlive'.trans (Ledger.perm_append_right (hnew d'.dev) [a.id]).symm
  · intro j dev' hj
    by_cases hji : j = i
    · subst hji
      rw [List.getElem?_set_self (List.getElem?_eq_some_iff.mp hi).1] at hj
      cases hj
      simp only [ScullpMod.setDev, Function.update_self]
      exact hvmas
    · rw [List.getElem?_set_ne (Ne.symm hji)] at hj
      simp only [ScullpMod.setDev, Function.update_of_ne hji]
      exact h.vmas_eq j dev' hj

theorem exec {calls : List (ℕ × ScullpOp)} {answers : List Answer} (h : Held s a)
    (hcalls : Guarded ScullpMod.step ModCall s calls)
    (hrun : Transition.exec ScullpMod.step s calls = some (answers, t)) :
    (∃ b : DevArray ScullpDev, Held t b ∧ b.devs.length = a.devs.length) ∧ SameBooks s t := by
  refine exec_invariant (fun u => (∃ b : DevArray ScullpDev,
    Held u b ∧ b.devs.length = a.devs.length) ∧ SameBooks s u) ?_ ⟨⟨a, h, rfl⟩, rfl, rfl, rfl⟩
    hcalls hrun
  rintro u e r v ⟨⟨b, hb, hlength⟩, hbooks⟩ he hst
  obtain ⟨⟨c, hc, hlength'⟩, hbooks'⟩ := hb.step he hst
  exact ⟨⟨c, hc, hlength'.trans hlength⟩, hbooks'.major_eq.trans hbooks.major_eq,
    hbooks'.regions_eq.trans hbooks.regions_eq, hbooks'.cdevs_eq.trans hbooks.cdevs_eq⟩

/-! ### Unload -/

theorem releaseDevices_eq {params : ScullpParams} {devs : List ScullpDev}
    (hsized : ∀ dev ∈ devs, Sized dev) (hvmas : ∀ dev ∈ devs, dev.vmas = 0) (i : ℕ)
    (heap : Ledger) (cdevs : Register ℕ) :
    releaseDevices params i devs (heap, cdevs) =
      some (heap.freeAll (devs.flatMap ScullpDev.blocks),
        cdevs.releaseAll (List.range' i devs.length)) := by
  induction devs generalizing i heap cdevs with
  | nil => rfl
  | cons dev devs ih =>
    rw [releaseDevices,
      (hsized dev List.mem_cons_self).trim params heap (hvmas dev List.mem_cons_self),
      Option.bind_some, ih (fun d hd => hsized d (List.mem_cons_of_mem dev hd))
        fun d hd => hvmas d (List.mem_cons_of_mem dev hd),
      List.flatMap_cons, Ledger.freeAll_append]
    rfl

/-- **What an unload releases** if there is no mapping: every block once, the region that belongs to
the major number, and one character device for each device. -/
theorem cleanup (h : Held s a) (cfg : ScullpConfig) (hareas : ∀ i, s.areas i = ∅) :
    ∃ t, scullpCleanup cfg s = some t ∧ t.heap.Sound ∧ t.heap.live = [] ∧
      t.cdevs = s.cdevs.releaseAll (List.range a.devs.length) ∧
      t.regions = s.regions.release ⟨mkdev s.major 0, cfg.devs.toUInt32⟩ := by
  have hvmas : ∀ dev ∈ a.devs, dev.vmas = 0 := by
    intro dev hdev
    obtain ⟨i, hi⟩ := List.mem_iff_getElem?.mp hdev
    rw [h.vmas_eq i dev hi, hareas i, Finset.card_empty, Nat.cast_zero]
  obtain ⟨hsound, hlive⟩ := h.sound.freeAll_of_perm h.live_perm
  rw [Ledger.freeAll_append] at hsound hlive
  rw [scullpCleanup, h.devices_eq, Option.bind_some, releaseDevices_eq h.sized hvmas,
    Option.map_some, ← List.range_eq_range']
  exact ⟨_, rfl, hsound, hlive, rfl, rfl⟩

end Held

/-! ### Load -/

theorem foldl_scullpSetupCdev (env : ScullpLoadEnv) (is : List ℕ) (s : ScullpMod) :
    is.foldl (scullpSetupCdev env) s =
      { s with cdevs := s.cdevs.acquireSome env.added is } := by
  induction is generalizing s with
  | nil => rfl
  | cons i is ih =>
    rw [List.foldl_cons, ih, scullpSetupCdev]
    simp only [Register.acquireSome, List.foldl_cons]
    split_ifs <;> rfl

/-- The region that was registered is the one that belongs to the major number. -/
theorem mkdev_scullpRegion {cfg : ScullpConfig} {env : ScullpLoadEnv} (h : ¬ env.region < 0) :
    mkdev (scullpRegion cfg env).2 0 = (scullpRegion cfg env).1 := by
  unfold scullpRegion
  split_ifs
  · rfl
  · exact Load.mkdev_majorOf env.major 0

theorem scullpInit_loaded {cfg : ScullpConfig} {env : ScullpLoadEnv} (hregion : ¬ env.region < 0)
    (halloc : Allocated cfg.devs env.devices) :
    ∃ s, scullpInit cfg env = (0, s) ∧
      (∃ a : DevArray ScullpDev, Held s a ∧ a.devs.length = cfg.devs.toInt.toNat) ∧
      (∀ i, s.areas i = ∅) ∧
      s.regions = ⟨[⟨mkdev s.major 0, cfg.devs.toUInt32⟩], []⟩ ∧
      s.cdevs = Register.empty.acquireSome env.added (List.range cfg.devs.toInt.toNat) := by
  have hfirst : mkdev (scullpRegion cfg env).2 0 = (scullpRegion cfg env).1 :=
    mkdev_scullpRegion hregion
  rw [scullpInit, if_neg hregion]
  simp only [Load.allocDevs_of_allocated halloc, foldl_scullpSetupCdev]
  refine ⟨_, rfl, ⟨⟨Ledger.empty.next, List.replicate cfg.devs.toInt.toNat
    (ScullpDev.init cfg.params)⟩, ⟨rfl, ?_, Ledger.sound_empty.alloc, ?_, ?_⟩,
    List.length_replicate⟩, fun _ => rfl, ?_, rfl⟩
  · intro dev hdev
    rw [List.eq_of_mem_replicate hdev]
    exact .empty rfl rfl
  · have hnone : (List.replicate cfg.devs.toInt.toNat (ScullpDev.init cfg.params)).flatMap
        ScullpDev.blocks = [] := List.flatMap_eq_nil_iff.mpr fun dev hdev => by
      rw [List.eq_of_mem_replicate hdev]
      rfl
    rw [hnone]
    exact .refl _
  · intro i dev hi
    rw [List.eq_of_mem_replicate (List.mem_of_getElem? hi)]
    rfl
  · simp only [hfirst]
    rfl

theorem scullpInit_no_memory {cfg : ScullpConfig} {env : ScullpLoadEnv}
    (hregion : ¬ env.region < 0) (halloc : ¬ Allocated cfg.devs env.devices) :
    ∃ s, scullpInit cfg env = (-ENOMEM, s) ∧ s.Released := by
  rw [scullpInit, if_neg hregion]
  simp only [Load.allocDevs_of_not halloc]
  refine ⟨_, rfl, Ledger.sound_empty, rfl, ?_, Register.clean_empty⟩
  exact (@Register.clean_releaseAll Region _ _ [_]).mpr ⟨rfl, .refl _⟩

/-- **Load and unload of scullp.** For all parameters and all answers of the kernel, load and unload
balance, whatever calls come between, if and only if the load fails, or all character devices were
added. A load that fails leaves nothing behind; but `scullp_setup_cdev` only reports that a
character device could not be added, and an unload then deletes one that is not there.

Source: `ldd/scullp/main.c`, lines 413–525. -/
theorem scullp_balanced_iff (cfg : ScullpConfig) (env : ScullpLoadEnv) :
    Balanced cfg env ↔ env.region < 0 ∨ ¬ Allocated cfg.devs env.devices ∨
      ∀ i < cfg.devs.toInt.toNat, env.added i = true := by
  by_cases hregion : env.region < 0
  · refine iff_of_true ?_ (.inl hregion)
    have hinit : scullpInit cfg env = (env.region,
        { ScullpMod.unloaded cfg with major := (scullpRegion cfg env).2 }) := if_pos hregion
    refine ⟨fun _ => ?_, fun hzero => ?_⟩
    · rw [hinit]
      exact ⟨Ledger.sound_empty, rfl, Register.clean_empty, Register.clean_empty⟩
    · rw [hinit] at hzero
      exact absurd hzero hregion.ne
  by_cases halloc : Allocated cfg.devs env.devices
  · obtain ⟨s, hinit, ⟨a, hheld, hlength⟩, hareas, hregions, hcdevs⟩ :=
      scullpInit_loaded hregion halloc
    have hperm : s.cdevs.held.Perm ((List.range cfg.devs.toInt.toNat).filter env.added) := by
      rw [hcdevs]
      exact (Register.held_acquireSome _ _ _).trans (.of_eq (List.append_nil _))
    have hstray : s.cdevs.stray = [] := by
      rw [hcdevs]
      exact Register.stray_acquireSome _ _ _
    have hclean : (s.cdevs.releaseAll (List.range a.devs.length)).Clean ↔
        ∀ i < cfg.devs.toInt.toNat, env.added i = true := by
      rw [Register.clean_releaseAll, hlength, hperm.congr_left, Register.filter_perm_iff]
      simp only [hstray, true_and, List.mem_range]
    constructor
    · intro hbal
      obtain ⟨t, ht, hrel⟩ := hbal.unloaded (by rw [hinit]) [] [] s trivial (by rw [hinit]; rfl)
        hareas
      obtain ⟨t', ht', -, -, htc, -⟩ := hheld.cleanup cfg hareas
      rw [ht] at ht'
      cases ht'
      refine .inr (.inr (hclean.mp ?_))
      rw [← htc]
      exact hrel.cdevs
    · intro hadded
      have hadded' : ∀ i < cfg.devs.toInt.toNat, env.added i = true := by
        rcases hadded with hneg | hnot | hadded
        · exact absurd hneg hregion
        · exact absurd halloc hnot
        · exact hadded
      refine ⟨fun hne => absurd (by rw [hinit]) hne, fun _ calls answers t hcalls hrun hnone => ?_⟩
      rw [hinit] at hcalls hrun
      obtain ⟨⟨b, hb, hblength⟩, hbooks⟩ := hheld.exec hcalls hrun
      obtain ⟨u, hu, hsound, hlive, huc, hur⟩ := hb.cleanup cfg hnone
      refine ⟨u, hu, hsound, hlive, ?_, ?_⟩
      · rw [hur, hbooks.regions_eq, hbooks.major_eq, hregions]
        exact (@Register.clean_releaseAll Region _ _ [_]).mpr ⟨rfl, .refl _⟩
      · rw [huc, hbooks.cdevs_eq, hblength]
        exact hclean.mpr hadded'
  · refine iff_of_true ?_ (.inr (.inl halloc))
    obtain ⟨s, hinit, hrel⟩ := scullpInit_no_memory hregion halloc
    refine ⟨fun _ => ?_, fun hzero => ?_⟩
    · rw [hinit]
      exact hrel
    · rw [hinit] at hzero
      exact absurd hzero (show (-ENOMEM : ℤ) ≠ 0 by decide)

end ExKernel.Scullp
