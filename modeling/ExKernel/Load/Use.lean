import ExKernel.Load.Module

/-!
# The blocks of the loaded module

The blocks that the module holds are those of its arrays, of the devices in them, of the devices
with access control and of the private devices. Every call keeps account of them: it trades the
blocks of the device that it is about, and leaves all others alone. No call acquires or releases a
region or a character device, or changes what the cleanup functions go by.

## Main definitions

* `Load.ModSys.blocks`: the blocks that are reachable from the static data.
* `Load.ModRep`: they are the live ones, and every device has the shape of its geometry.
* `Load.ModSys.names`, `Load.ModSys.numbers`: what cleanup releases.
* `Load.SameBooks`: what no call changes.

## Main results

* `Load.ModRep.setDev`, `Load.ModRep.setPipe`: a call on one device leaves the others alone.
* `Load.ModRep.act`: single calls.
* `Load.exec_kept`: sequences of calls.

## References

* `ldd/scull/main.c`, lines 62–83 and 240–516; `ldd/scull/pipe.c`, lines 64–229;
  `ldd/scull/access.c`, lines 249–299.
-/

namespace ExKernel.Load

open Scull Pipe Private Single Transition

/-! ### Lists of devices -/

/-- The buffer of a pipe, if it has one. -/
def pipeBlocks (dev : ScullPipe) : List ℕ := (dev.buffer.map Block.id).toList

/-- The blocks of the devices of an array, and of the array. -/
def DevArray.blocks {α : Type*} (f : α → List ℕ) (a : DevArray α) : List ℕ :=
  a.devs.flatMap f ++ [a.id]

/-- The blocks that a pointer to an array leads to. -/
def arrayBlocks {α : Type*} (f : α → List ℕ) (a : Option (DevArray α)) : List ℕ :=
  a.elim [] (DevArray.blocks f)

/-- The blocks of an array, as those of one device and the others. -/
theorem arrayBlocks_set_perm {α : Type*} {f : α → List ℕ} {a : Option (DevArray α)} {i : ℕ} {x : α}
    (hi : (a.bind fun a => a.devs[i]?) = some x) :
    ∃ rest, (arrayBlocks f a).Perm (f x ++ rest) ∧
      ∀ y, (arrayBlocks f (a.map fun a => { a with devs := a.devs.set i y })).Perm
        (f y ++ rest) := by
  obtain ⟨a, rfl, hi⟩ := Option.bind_eq_some_iff.mp hi
  obtain ⟨rest, hold, hnew⟩ := Ledger.exists_rest_set (f := f) hi
  exact ⟨rest ++ [a.id], Ledger.perm_append_right hold _, fun y =>
    Ledger.perm_append_right (hnew y) _⟩

/-! ### The invariant -/

namespace ModSys

/-- The blocks that are reachable from the static data. -/
def blocks (s : ModSys) : List ℕ :=
  arrayBlocks ScullDev.blocks s.scullDevices ++ (arrayBlocks pipeBlocks s.pDevices ++
    (s.accessDevs.flatMap ScullDev.blocks ++ s.cList.flatMap Item.blocks))

/-- The character devices of the bare devices. -/
def scullNames (s : ModSys) : List Cdev :=
  s.scullDevices.elim [] fun a => (List.range a.devs.length).map .scull

/-- The character devices of the pipes. -/
def pipeNames (s : ModSys) : List Cdev :=
  s.pDevices.elim [] fun p => (List.range p.devs.length).map .pipe

/-- The character devices of the devices with access control. -/
def accessNames (s : ModSys) : List Cdev := (List.range s.accessDevs.length).map .access

/-- The region of the pipes. -/
def pipeNumbers (cfg : Config) (s : ModSys) : List Region :=
  s.pDevices.elim [] fun _ => [⟨s.pDevno, cfg.pNrDevs.toUInt32⟩]

/-- The character devices that cleanup releases, in order. -/
def names (s : ModSys) : List Cdev := s.scullNames ++ (s.pipeNames ++ s.accessNames)

/-- The regions that cleanup releases, in order. -/
def numbers (cfg : Config) (s : ModSys) : List Region :=
  ⟨mkdev s.major cfg.minor, cfg.nrDevs.toUInt32⟩ ::
    (s.pipeNumbers cfg ++ [⟨s.aFirstdev, UInt32.ofNat SCULL_N_ADEVS⟩])

end ModSys

/-- The live blocks are the reachable ones, and every device has the shape of its geometry. -/
structure ModRep (s : ModSys) : Prop where
  sound : s.heap.Sound
  live_perm : s.heap.live.Perm s.blocks
  scullDevices : ∀ a, s.scullDevices = some a → ∀ dev ∈ a.devs, dev.InShape
  accessDevs : ∀ dev ∈ s.accessDevs, dev.InShape
  cList : ∀ lptr ∈ s.cList, lptr.dev.InShape

/-- What no call changes: what is held of regions and character devices, and what cleanup
releases. -/
structure SameBooks (s t : ModSys) : Prop where
  regions_eq : t.regions = s.regions
  cdevs_eq : t.cdevs = s.cdevs
  names_eq : t.names = s.names
  numbers_eq : ∀ cfg, t.numbers cfg = s.numbers cfg

/-! ### Replacing a device -/

section Replace

variable {s : ModSys} {node : Node} {dev dev' : ScullDev} {heap' : Ledger} {i : ℕ}

theorem setDev_sameBooks : SameBooks s (s.setDev dev' heap' node) := by
  cases node with
  | scull i =>
    refine ⟨rfl, rfl, ?_, fun _ => rfl⟩
    cases hdevs : s.scullDevices <;>
      simp [ModSys.names, ModSys.scullNames, ModSys.pipeNames, ModSys.accessNames, ModSys.setDev,
        hdevs]
  | access i =>
    refine ⟨rfl, rfl, ?_, fun _ => rfl⟩
    simp [ModSys.names, ModSys.scullNames, ModSys.pipeNames, ModSys.accessNames, ModSys.setDev]
  | clone id => exact ⟨rfl, rfl, rfl, fun _ => rfl⟩

theorem setPipe_sameBooks {pipe : ScullPipe} : SameBooks s (s.setPipe i pipe heap') := by
  refine ⟨rfl, rfl, ?_, fun cfg => ?_⟩
  · cases hdevs : s.pDevices <;>
      simp [ModSys.names, ModSys.scullNames, ModSys.pipeNames, ModSys.accessNames, ModSys.setPipe,
        hdevs]
  · cases hdevs : s.pDevices <;>
      simp [ModSys.numbers, ModSys.pipeNumbers, ModSys.setPipe, hdevs]

end Replace

namespace ModRep

variable {s : ModSys} {node : Node} {dev dev' : ScullDev} {heap' : Ledger}

/-- The items of the list have distinct identities, since they are live blocks. -/
theorem ids_nodup (h : ModRep s) : (s.cList.map Item.id).Nodup := by
  have hnodup : s.blocks.Nodup := h.live_perm.nodup_iff.mp h.sound.live_nodup
  have hlist : (s.cList.flatMap Item.blocks).Nodup :=
    hnodup.of_append_right.of_append_right.of_append_right
  refine hlist.sublist ?_
  generalize s.cList = items
  induction items with
  | nil => exact .refl _
  | cons lptr next ih => exact (ih.trans (List.sublist_append_right _ _)).cons_cons lptr.id

theorem inShape (h : ModRep s) (hdev : s.dev? node = some dev) : dev.InShape := by
  cases node with
  | scull i =>
    obtain ⟨a, ha, hi⟩ := Option.bind_eq_some_iff.mp hdev
    exact h.scullDevices a ha dev (List.mem_of_getElem? hi)
  | access i => exact h.accessDevs dev (List.mem_of_getElem? hdev)
  | clone id =>
    obtain ⟨lptr, hfind, rfl⟩ := Option.map_eq_some_iff.mp hdev
    exact h.cList lptr (List.mem_of_find?_eq_some hfind)

/-- The blocks of the module, as those of one device and the others. -/
theorem exists_rest (h : ModRep s) (hdev : s.dev? node = some dev) :
    ∃ rest, s.blocks.Perm (dev.blocks ++ rest) ∧
      ∀ dev' heap', (s.setDev dev' heap' node).blocks.Perm (dev'.blocks ++ rest) := by
  cases node with
  | scull i =>
    obtain ⟨rest, hold, hnew⟩ := arrayBlocks_set_perm (f := ScullDev.blocks) hdev
    exact ⟨_, Ledger.perm_append_right hold _, fun dev' _ =>
      Ledger.perm_append_right (hnew dev') _⟩
  | access i =>
    obtain ⟨rest, hold, hnew⟩ := Ledger.exists_rest_set (f := ScullDev.blocks) hdev
    have hframe : ∀ {xs bs}, List.Perm xs (bs ++ rest) → List.Perm (_ ++ (_ ++ (xs ++ _))) _ :=
      fun hxs => Ledger.perm_append_left (Ledger.perm_append_left
        (Ledger.perm_append_right hxs (s.cList.flatMap Item.blocks))
        (arrayBlocks pipeBlocks s.pDevices)) (arrayBlocks ScullDev.blocks s.scullDevices)
    exact ⟨_, hframe hold, fun dev' _ => hframe (hnew dev')⟩
  | clone id =>
    obtain ⟨lptr, hfind, rfl⟩ := Option.map_eq_some_iff.mp hdev
    obtain rfl : lptr.id = id := by simpa using List.find?_some hfind
    obtain ⟨rest, hold, hnew⟩ :=
      Private.exists_rest h.ids_nodup (List.mem_of_find?_eq_some hfind)
    have hframe : ∀ {xs bs}, List.Perm xs (bs ++ rest) → List.Perm (_ ++ (_ ++ (_ ++ xs))) _ :=
      fun hxs => Ledger.perm_append_left (Ledger.perm_append_left (Ledger.perm_append_left hxs
        (s.accessDevs.flatMap ScullDev.blocks)) (arrayBlocks pipeBlocks s.pDevices))
        (arrayBlocks ScullDev.blocks s.scullDevices)
    exact ⟨_, hframe hold, fun dev' _ => hframe (hnew dev')⟩

/-- **A call on one device** keeps the invariant if it trades the blocks of the device. -/
theorem setDev (h : ModRep s) (hdev : s.dev? node = some dev) (hshape : dev'.InShape)
    (htrades : s.heap.Trades heap' dev.blocks dev'.blocks) :
    ModRep (s.setDev dev' heap' node) := by
  obtain ⟨rest, hold, hnew⟩ := h.exists_rest hdev
  obtain ⟨hsound, hlive⟩ := htrades rest h.sound (h.live_perm.trans hold)
  have hlive' := hlive.trans (hnew dev' heap').symm
  cases node with
  | scull i =>
    refine ⟨hsound, hlive', fun a ha x hx => ?_, h.accessDevs, h.cList⟩
    obtain ⟨a', ha', rfl⟩ := Option.map_eq_some_iff.mp ha
    rcases List.mem_or_eq_of_mem_set hx with hx | rfl
    · exact h.scullDevices a' ha' x hx
    · exact hshape
  | access i =>
    refine ⟨hsound, hlive', h.scullDevices, fun x hx => ?_, h.cList⟩
    rcases List.mem_or_eq_of_mem_set hx with hx | rfl
    · exact h.accessDevs x hx
    · exact hshape
  | clone id =>
    refine ⟨hsound, hlive', h.scullDevices, h.accessDevs, fun x hx => ?_⟩
    rcases mem_setDev hx with ⟨-, hx⟩ | ⟨-, hx, -⟩
    · exact h.cList x hx
    · rw [hx]
      exact hshape

/-- A call on one pipe keeps the invariant if it trades the buffer of the pipe. -/
theorem setPipe (h : ModRep s) {i : ℕ} {pipe pipe' : ScullPipe} (hpipe : s.pipe? i = some pipe)
    (htrades : s.heap.Trades heap' (pipeBlocks pipe) (pipeBlocks pipe')) :
    ModRep (s.setPipe i pipe' heap') := by
  obtain ⟨rest, hold, hnew⟩ := arrayBlocks_set_perm (f := pipeBlocks) hpipe
  have hframe : ∀ {xs bs}, List.Perm xs (bs ++ rest) → List.Perm (_ ++ (xs ++ _)) _ :=
    fun hxs => Ledger.perm_append_left (Ledger.perm_append_right hxs
      (s.accessDevs.flatMap ScullDev.blocks ++ s.cList.flatMap Item.blocks))
      (arrayBlocks ScullDev.blocks s.scullDevices)
  obtain ⟨hsound, hlive⟩ := htrades _ h.sound (h.live_perm.trans (hframe hold))
  exact ⟨hsound, hlive.trans (hframe (hnew pipe')).symm, h.scullDevices, h.accessDevs, h.cList⟩

theorem users (h : ModRep s) (n : ℕ) : ModRep { s with users := n } :=
  ⟨h.sound, h.live_perm, h.scullDevices, h.accessDevs, h.cList⟩

end ModRep

/-! ### The blocks of a pipe -/

section Pipes

variable {dev dev' : ScullPipe} {heap : Ledger}

theorem kfreeBuffer_eq (dev : ScullPipe) (heap : Ledger) :
    kfreeBuffer dev heap = heap.freeAll (pipeBlocks dev) := by
  cases hb : dev.buffer <;> simp [kfreeBuffer, pipeBlocks, hb, Ledger.freeAll]

/-- An open allocates the buffer that the pipe has afterwards, or nothing. -/
theorem scullPOpenLocked_trades (pBuffer : Int32) (mode : FMode) (answer : Option (ℤ → UInt8)) :
    heap.Trades (scullPOpenLocked pBuffer mode answer dev heap).2.2 (pipeBlocks dev)
      (pipeBlocks (scullPOpenLocked pBuffer mode answer dev heap).2.1) := by
  rcases scullPOpenLocked_cases pBuffer mode answer dev heap with
    ⟨-, heq⟩ | ⟨b, hb, heq⟩ | ⟨contents, hb, -, -, heq⟩
  · rw [heq]
    exact .refl heap _
  · rw [heq, pipeBlocks, hb]
    exact .refl heap _
  · rw [heq, pipeBlocks, hb]
    exact .alloc heap

/-- A release frees the buffer that the pipe does not have afterwards, or nothing. -/
theorem scullPReleaseLocked_trades (mode : FMode) :
    heap.Trades (scullPReleaseLocked mode dev heap).2 (pipeBlocks dev)
      (pipeBlocks (scullPReleaseLocked mode dev heap).1) := by
  have hfree : heap.Trades (kfreeBuffer dev heap) (pipeBlocks dev) [] := by
    rw [kfreeBuffer_eq]
    exact .freeAll heap _
  simp only [scullPReleaseLocked]
  generalize (if mode.read then dev.nreaders - 1 else dev.nreaders) = nreaders
  generalize (if mode.write then dev.nwriters - 1 else dev.nwriters) = nwriters
  split_ifs with hzero
  · exact hfree
  · exact .refl heap _

theorem pipeBlocks_transfer {t : Transfer} {r : Reply} (h : t.exec dev = some (r, dev')) :
    pipeBlocks dev' = pipeBlocks dev := by
  have hids := congrArg (Option.map Prod.fst) (t.sameBuffer h).block_eq
  rw [Option.map_map, Option.map_map] at hids
  exact congrArg Option.toList hids

end Pipes

/-! ### Calls -/

namespace SameBooks

variable {s t u : ModSys}

theorem refl (s : ModSys) : SameBooks s s := ⟨rfl, rfl, rfl, fun _ => rfl⟩

theorem trans (h : SameBooks s t) (h' : SameBooks t u) : SameBooks s u :=
  ⟨h'.regions_eq.trans h.regions_eq, h'.cdevs_eq.trans h.cdevs_eq, h'.names_eq.trans h.names_eq,
    fun cfg => (h'.numbers_eq cfg).trans (h.numbers_eq cfg)⟩

end SameBooks

/-- What every call keeps. -/
structure Kept (s t : ModSys) : Prop where
  rep : ModRep t
  books : SameBooks s t

theorem Kept.users {s t : ModSys} (h : Kept s t) (n : ℕ) : Kept s { t with users := n } :=
  ⟨h.rep.users n, h.books.regions_eq, h.books.cdevs_eq, h.books.names_eq, h.books.numbers_eq⟩

namespace ModRep

variable {s t : ModSys} {r : ℤ}

theorem openDev (h : ModRep s) {node : Node} {mode : AccMode}
    (hopen : s.openDev node mode = some (r, t)) : Kept s t := by
  obtain ⟨dev, hdev, hopen⟩ := Option.bind_eq_some_iff.mp hopen
  obtain ⟨out, hout, heq⟩ := Option.map_eq_some_iff.mp hopen
  cases heq
  refine Kept.users ⟨?_, setDev_sameBooks⟩ (s.users + 1)
  simp only [bareOpen] at hout
  split_ifs at hout with hmode
  · rw [(h.inShape hdev).trim] at hout
    cases hout
    exact h.setDev hdev (ScullDev.inShape_nil _ _ _) (.freeAll s.heap _)
  · cases hout
    exact h.setDev hdev (h.inShape hdev) (.refl s.heap _)

/-- A read or write keeps the invariant if it keeps the list of its device. -/
theorem onDev (h : ModRep s) {node : Node} {call : ScullDev → Ledger → Option IoResult}
    (hcall : ∀ dev res, s.dev? node = some dev → dev.InShape → call dev s.heap = some res →
      Scull.Kept dev.q dev.s dev s.heap res)
    (hon : s.onDev node call = some (r, t)) : Kept s t := by
  obtain ⟨dev, hdev, hon⟩ := Option.bind_eq_some_iff.mp hon
  obtain ⟨res, hres, heq⟩ := Option.map_eq_some_iff.mp hon
  cases heq
  obtain ⟨hshape, htrades⟩ :=
    ScullDev.InShape.kept (hcall dev res hdev (h.inShape hdev) hres)
  exact ⟨h.setDev hdev hshape htrades, setDev_sameBooks⟩

/-- The list of private devices after one was looked for: a new one has a block of its own. -/
theorem lookfor (h : ModRep s) {key : UInt32} {ok : Bool} {found : Option ℕ × List Item × Ledger}
    (hlook : scullCLookforDevice s.params key ok s.cList s.heap = some found) :
    Kept s { s with cList := found.2.1, heap := found.2.2 } := by
  refine ⟨?_, rfl, rfl, rfl, fun _ => rfl⟩
  simp only [scullCLookforDevice] at hlook
  split at hlook
  · cases hlook
    exact h
  · split_ifs at hlook with hok
    · obtain ⟨out, hout, heq⟩ := Option.map_eq_some_iff.mp hlook
      cases hout
      cases heq
      refine ⟨h.sound.alloc, ?_, h.scullDevices, h.accessDevs, fun lptr hlptr => ?_⟩
      · have hfront : List.Perm (s.heap.next :: s.cList.flatMap Item.blocks)
            ([s.heap.next] ++ s.cList.flatMap Item.blocks) := .refl _
        refine (h.live_perm.cons s.heap.next).trans (List.Perm.symm ?_)
        exact Ledger.perm_append_left (Ledger.perm_append_left
          (Ledger.perm_append_left hfront _) _) _
      · rcases List.mem_cons.mp hlptr with rfl | hlptr
        · exact ScullDev.inShape_nil _ _ _
        · exact h.cList lptr hlptr
    · cases hlook
      exact h

/-- **One call.** A call that comes to its end keeps account of the blocks, and neither acquires nor
releases anything else. -/
theorem act (h : ModRep s) {op : ModOp} (hop : Current s op) (hact : s.act op = some (r, t)) :
    Kept s t := by
  cases op with
  | scullOpen node mode => exact h.openDev hact
  | scullCOpen key ok mode =>
    obtain ⟨found, hfound, hact⟩ := Option.bind_eq_some_iff.mp hact
    have hlook := h.lookfor hfound
    split at hact
    · cases hact
      exact ⟨h, .refl _⟩
    · obtain ⟨hrep, hbooks⟩ := hlook.rep.openDev hact
      exact ⟨hrep, hlook.books.trans hbooks⟩
  | scullRead node quantum qset fPos count room env =>
    rw [ModSys.act] at hact
    exact h.onDev (fun dev res _ hshape hres => scullReadLocked_kept hshape hres) hact
  | scullWrite node quantum qset fPos count src env =>
    rw [ModSys.act] at hact
    refine h.onDev (fun dev res hdev hshape hres => ?_) hact
    obtain ⟨rfl, rfl⟩ := hop dev hdev
    exact scullWriteLocked_kept hshape hres
  | scullRelease =>
    cases hact
    exact Kept.users ⟨h, .refl s⟩ _
  | scullPOpen i mode answer =>
    obtain ⟨dev, hdev, heq⟩ := Option.map_eq_some_iff.mp hact
    cases heq
    exact Kept.users ⟨h.setPipe hdev (scullPOpenLocked_trades _ _ _), setPipe_sameBooks⟩ _
  | scullPRelease i mode =>
    obtain ⟨dev, hdev, heq⟩ := Option.map_eq_some_iff.mp hact
    cases heq
    exact Kept.users ⟨h.setPipe hdev (scullPReleaseLocked_trades _), setPipe_sameBooks⟩ _
  | transfer i tr =>
    obtain ⟨dev, hdev, hact⟩ := Option.bind_eq_some_iff.mp hact
    obtain ⟨out, hout, heq⟩ := Option.map_eq_some_iff.mp hact
    cases heq
    refine ⟨h.setPipe hdev ?_, setPipe_sameBooks⟩
    rw [pipeBlocks_transfer hout]
    exact .refl s.heap _
  | scullIoctl cmd arg env =>
    cases hact
    exact ⟨⟨h.sound, h.live_perm, h.scullDevices, h.accessDevs, h.cList⟩, rfl, rfl, rfl,
      fun _ => rfl⟩

end ModRep

end ExKernel.Load
