import ExKernel.Access.Single

/-!
# The private devices

Every controlling terminal has a scull device of its own under the name `scullpriv`. The devices are
kept in a list, which `scull_c_open` searches for the terminal of its caller, and extends when there
is none for it. All devices take their blocks from one heap.

A file is opened once, by one process, so its terminal is a function of the file.

## Main definitions

* `Private.Item`, `Private.scullCLookforDevice`: the list of devices.
* `Private.PrivSys`, `Private.PrivOp`, `Private.PrivEvent`, `Private.PrivSys.step`: the calls.
* `Private.Served`: the calls that the driver may get.
* `Private.PrivRep`: the representation invariant.
* `Private.Moved`: what a call does to the list and to the files.

## Main results

* `Private.PrivRep.step`: no call is stuck, and every one preserves the invariant.

## References

* `ldd/scull/access.c`, lines 226–308; `ldd/scull/main.c`, lines 62–83, 294–389 and 524–548.
-/

namespace ExKernel.Private

open Transition Scull Single

/-! ### The list of devices -/

/-- `struct scull_listitem`: a device and the number of its terminal; `id` is the identity of its
allocation.

Source: `ldd/scull/access.c`, lines 234–239. -/
structure Item where
  id : ℕ
  key : UInt32
  dev : ScullDev

/-- `scull_c_lookfor_device`: the identity of the device, if there is one, and the list afterwards;
`ok` is whether there is memory for a new device.

Source: `ldd/scull/access.c`, lines 249–273. -/
def scullCLookforDevice (params : Params) (key : UInt32) (ok : Bool) (items : List Item)
    (heap : Ledger) : Option (Option ℕ × List Item × Ledger) :=
  match items.find? fun lptr => lptr.key = key with
  | some lptr => some (some lptr.id, items, heap)
  | none =>
    if ok then
      -- The new device is all zero, and emptying it gives it the geometry of the parameters.
      (scullTrim params ⟨[], 0, 0, 0⟩ heap.alloc).map fun out =>
        (some heap.next, ⟨heap.next, key, out.1⟩ :: items, out.2)
    else some (none, items, heap)

/-- The list with another device under an identity. -/
def setDev (items : List Item) (id : ℕ) (dev : ScullDev) : List Item :=
  items.map fun lptr => if lptr.id = id then { lptr with dev := dev } else lptr

/-! ### The calls -/

/-- An open file: the device that `private_data` points to, and the position. -/
structure PrivFile where
  item : ℕ
  pos : ℤ

/-- The list of devices, the heap, and the open files. -/
structure PrivSys where
  items : List Item
  heap : Ledger
  files : ℕ → Option PrivFile

/-- The module as it is loaded. -/
def PrivSys.load : PrivSys := ⟨[], .empty, fun _ => none⟩

/-- A call of one of the methods of the device; `lockIntr` is whether taking the lock is
interrupted. -/
inductive PrivOp
  | scullCOpen (file : ℕ) (mode : AccMode)
  | scullRead (file count room : ℕ) (lockIntr : Bool)
  | scullWrite (file count : ℕ) (src : UserBuffer) (lockIntr : Bool)
  | scullLlseek (file : ℕ) (off : Int64) (whence : Int32)

/-- The file of a call. -/
def PrivOp.file : PrivOp → ℕ
  | scullCOpen file _ => file
  | scullRead file .. => file
  | scullWrite file .. => file
  | scullLlseek file .. => file

/-- A call, with what the allocator has for it: whether there is memory for a new device, and what a
read or write finds. -/
structure PrivEvent where
  op : PrivOp
  item : Bool
  env : AllocEnv

/-- What a call answers: its return value, the bytes that it delivered or accepted, the position
after it, and the device that an open has found. -/
structure PrivAnswer where
  ret : ℤ
  bytes : List UInt8
  pos : ℤ
  dev : Option ℕ

namespace PrivSys

/-- The device with the identity `id`. -/
def item? (s : PrivSys) (id : ℕ) : Option Item := s.items.find? fun lptr => lptr.id = id

/-- The system after a read or write on a file. -/
def after (s : PrivSys) (file : ℕ) (f : PrivFile) (res : IoResult) : PrivAnswer × PrivSys :=
  (⟨res.ret, res.bytes, res.fPos, none⟩,
    ⟨setDev s.items f.item res.dev, res.heap,
      Function.update s.files file (some { f with pos := res.fPos })⟩)

/-- A read or write on a file. -/
def transfer (s : PrivSys) (file : ℕ) (lockIntr : Bool)
    (call : ScullDev → Ledger → ℤ → Option IoResult) : Option (PrivAnswer × PrivSys) :=
  (s.files file).bind fun f => (s.item? f.item).bind fun lptr =>
    if lockIntr then some (⟨-ERESTARTSYS, [], f.pos, none⟩, s)
    else (call lptr.dev s.heap f.pos).map (s.after file f)

/-- The rest of `scull_c_open`, which has found the device `id`.

Source: `ldd/scull/access.c`, lines 294–298. -/
def opened (params : Params) (s : PrivSys) (file : ℕ) (mode : AccMode) (id : ℕ) :
    Option (PrivAnswer × PrivSys) :=
  (s.item? id).bind fun lptr => (bareOpen params mode (lptr.dev, s.heap)).map fun out =>
    (⟨0, [], 0, some id⟩,
      ⟨setDev s.items id out.1, out.2, Function.update s.files file (some ⟨id, 0⟩)⟩)

/-- One call; `tty` is the controlling terminal of the process that opens a file.

Source: `ldd/scull/access.c`, lines 275–299; `ldd/scull/main.c`, lines 294–389 and 524–548. -/
def step (params : Params) (tty : ℕ → Option UInt32) (s : PrivSys) (e : PrivEvent) :
    Option (PrivAnswer × PrivSys) :=
  match e.op with
  | .scullCOpen file mode =>
    match tty file with
    | none => some (⟨-EINVAL, [], 0, none⟩, s)
    | some key => (scullCLookforDevice params key e.item s.items s.heap).bind fun found =>
      match found.1 with
      | none => some (⟨-ENOMEM, [], 0, none⟩, s)
      | some id => opened params { s with items := found.2.1, heap := found.2.2 } file mode id
  | .scullRead file count room lockIntr => s.transfer file lockIntr fun dev heap pos =>
    scullReadLocked dev.quantum dev.qset dev heap pos count room e.env
  | .scullWrite file count src lockIntr => s.transfer file lockIntr fun dev heap pos =>
    scullWriteLocked dev.quantum dev.qset dev heap pos count src e.env
  | .scullLlseek file off whence =>
    (s.files file).bind fun f => (s.item? f.item).map fun lptr =>
      let out := scullLlseek lptr.dev f.pos off whence
      (⟨out.1, [], out.2, none⟩,
        { s with files := Function.update s.files file (some { f with pos := out.2 }) })

end PrivSys

/-! ### Lists with distinct names -/

theorem find?_of_nodup {α β : Type*} [DecidableEq β] {f : α → β} {l : List α} {x : α}
    (hnodup : (l.map f).Nodup) (hx : x ∈ l) : l.find? (fun y => f y = f x) = some x := by
  induction l with
  | nil => cases hx
  | cons y l ih =>
    rw [List.map_cons, List.nodup_cons] at hnodup
    rcases List.mem_cons.mp hx with rfl | hx
    · exact List.find?_cons_of_pos (by simp)
    · have hne : f y ≠ f x := fun heq => hnodup.1 (heq ▸ List.mem_map_of_mem hx)
      rw [List.find?_cons_of_neg (by simpa using hne)]
      exact ih hnodup.2 hx

section SetDev

variable {items : List Item} {lptr : Item} {id : ℕ} {dev : ScullDev}

theorem map_key_setDev : (setDev items id dev).map Item.key = items.map Item.key := by
  rw [setDev, List.map_map]
  refine List.map_congr_left fun lptr _ => ?_
  simp only [Function.comp_apply]
  split_ifs <;> rfl

theorem map_id_setDev : (setDev items id dev).map Item.id = items.map Item.id := by
  rw [setDev, List.map_map]
  refine List.map_congr_left fun lptr _ => ?_
  simp only [Function.comp_apply]
  split_ifs <;> rfl

/-- The device under a key after one of the devices was replaced. -/
theorem find?_setDev (k : UInt32) :
    (setDev items id dev).find? (fun lptr => lptr.key = k) =
      (items.find? fun lptr => lptr.key = k).map fun lptr =>
        if lptr.id = id then { lptr with dev := dev } else lptr := by
  rw [setDev, List.find?_map]
  congr 2
  funext lptr
  simp only [Function.comp_apply]
  split_ifs <;> rfl

theorem mem_setDev {x : Item} (hx : x ∈ setDev items id dev) :
    (x.id ≠ id ∧ x ∈ items) ∨
      (x.id = id ∧ x.dev = dev ∧ ∃ y ∈ items, y.id = id ∧ y.key = x.key) := by
  obtain ⟨y, hy, rfl⟩ := List.mem_map.mp hx
  by_cases hid : y.id = id
  · rw [if_pos hid]
    exact .inr ⟨hid, rfl, y, hy, hid, rfl⟩
  · rw [if_neg hid]
    exact .inl ⟨hid, hy⟩

/-- The blocks of a device in the list, with the block of the list itself. -/
def Item.blocks (lptr : Item) : List ℕ := lptr.id :: Scull.blocks lptr.dev.s lptr.dev.data

/-- The blocks of the list, as those of one device and the others. -/
theorem exists_rest (hids : (items.map Item.id).Nodup) (hlptr : lptr ∈ items) :
    ∃ rest, (items.flatMap Item.blocks).Perm (Scull.blocks lptr.dev.s lptr.dev.data ++ rest) ∧
      ∀ dev : ScullDev, ((setDev items lptr.id dev).flatMap Item.blocks).Perm
        (Scull.blocks dev.s dev.data ++ rest) := by
  obtain ⟨before, after, rfl⟩ := List.append_of_mem hlptr
  rw [List.map_append, List.map_cons, List.nodup_append, List.nodup_cons] at hids
  obtain ⟨-, ⟨hafter, -⟩, hbefore⟩ := hids
  have hkeep : ∀ l : List Item, lptr.id ∉ l.map Item.id → ∀ dev, setDev l lptr.id dev = l := by
    intro l hl dev
    refine (List.map_congr_left fun y hy => if_neg fun heq => hl ?_).trans (List.map_id l)
    exact heq ▸ List.mem_map_of_mem hy
  have hbefore' : lptr.id ∉ before.map Item.id := fun hmem =>
    hbefore _ hmem _ List.mem_cons_self rfl
  have hmove : ∀ bs : List ℕ, (before.flatMap Item.blocks ++ (lptr.id :: bs ++
      after.flatMap Item.blocks)).Perm
        (bs ++ lptr.id :: (before.flatMap Item.blocks ++ after.flatMap Item.blocks)) := by
    intro bs
    rw [List.cons_append]
    refine List.perm_middle.trans (.trans (.cons _ ?_) List.perm_middle.symm)
    rw [← List.append_assoc, ← List.append_assoc]
    exact List.perm_append_comm.append_right _
  refine ⟨lptr.id :: (before.flatMap Item.blocks ++ after.flatMap Item.blocks), ?_, fun dev => ?_⟩
  · rw [List.flatMap_append, List.flatMap_cons]
    exact hmove _
  · have hset : setDev (before ++ lptr :: after) lptr.id dev =
        before ++ { lptr with dev := dev } :: after := by
      have hsplit : setDev (before ++ lptr :: after) lptr.id dev =
          setDev before lptr.id dev ++ { lptr with dev := dev } :: setDev after lptr.id dev := by
        simp [setDev]
      rw [hsplit, hkeep before hbefore', hkeep after hafter]
    rw [hset, List.flatMap_append, List.flatMap_cons]
    exact hmove _

end SetDev

/-! ### The representation invariant -/

/-- The representation invariant: there is one device for a key, each keeps its invariant and has
the geometry of the parameters, the live blocks are those of the devices, and a file is open on the
device of its terminal. -/
structure PrivRep (params : Params) (tty : ℕ → Option UInt32) (s : PrivSys) : Prop where
  keys : (s.items.map Item.key).Nodup
  ids : (s.items.map Item.id).Nodup
  dev : ∀ lptr ∈ s.items, DevRep lptr.dev ∧ lptr.dev.quantum = params.quantum ∧
    lptr.dev.qset = params.qset
  sound : s.heap.Sound
  live_perm : s.heap.live.Perm (s.items.flatMap Item.blocks)
  file : ∀ file f, s.files file = some f → (∃ lptr ∈ s.items, lptr.id = f.item ∧
    tty file = some lptr.key) ∧ 0 ≤ f.pos ∧ f.pos < 2 ^ 63

/-- The number of the quantum set of a position is an `int`. -/
def PosFits (params : Params) (pos : ℤ) : Prop :=
  pos / (params.quantum.toInt * params.qset.toInt) < 2 ^ 31

/-- The calls that the driver may get: reads, writes and seeks on open files, at positions whose
quantum set has a number that is an `int`, and with memory for what opens and writes allocate. -/
def Served (params : Params) (s : PrivSys) (e : PrivEvent) : Prop :=
  match e.op with
  | .scullCOpen _ _ => e.item = true
  | .scullRead file .. => ∃ f, s.files file = some f ∧ PosFits params f.pos
  | .scullWrite file .. => (∃ f, s.files file = some f ∧ PosFits params f.pos) ∧ e.env.Ample
  | .scullLlseek file .. => ∃ f, s.files file = some f

/-- The event is an open by a process with the terminal `k`. -/
def PrivEvent.Opens (tty : ℕ → Option UInt32) (k : UInt32) (e : PrivEvent) : Prop :=
  ∃ file mode, e.op = .scullCOpen file mode ∧ tty file = some k

/-- What a call does to the list and to the files: nothing; an open by a process with a terminal
finds the device of the terminal, or puts a new one into the list; a read or write changes the
device of its file; a seek changes no device. -/
inductive Moved (tty : ℕ → Option UInt32) (s : PrivSys) (e : PrivEvent) (ans : PrivAnswer)
    (t : PrivSys) : Prop
  | stay (ht : t = s) (hopens : ∀ k, ¬ e.Opens tty k)
  | opened {key : UInt32} {lptr : Item} {dev : ScullDev} (htty : tty e.op.file = some key)
      (hkey : lptr.key = key)
      (hitems : (s.items.find? (fun x => x.key = key) = some lptr ∧
          t.items = setDev s.items lptr.id dev) ∨
        (s.items.find? (fun x => x.key = key) = none ∧
          t.items = setDev (lptr :: s.items) lptr.id dev))
      (hans : ans.ret = 0 ∧ ans.dev = some lptr.id)
      (hfiles : t.files = Function.update s.files e.op.file (some ⟨lptr.id, 0⟩))
  | used {lptr : Item} {dev : ScullDev} {f : PrivFile} (hlptr : lptr ∈ s.items)
      (htty : tty e.op.file = some lptr.key) (hitems : t.items = setDev s.items lptr.id dev)
      (hfiles : t.files = Function.update s.files e.op.file (some f))
      (hopens : ∀ k, ¬ e.Opens tty k)
  | sought {f : PrivFile} (hitems : t.items = s.items)
      (hfiles : t.files = Function.update s.files e.op.file (some f))
      (hopens : ∀ k, ¬ e.Opens tty k)

theorem Moved.after {tty : ℕ → Option UInt32} {s : PrivSys} {e : PrivEvent} {lptr : Item} {file : ℕ}
    {f : PrivFile} (hlptr : lptr ∈ s.items) (hid : lptr.id = f.item) (hfile : e.op.file = file)
    (hkey : tty file = some lptr.key) (res : IoResult) (hopens : ∀ k, ¬ e.Opens tty k) :
    Moved tty s e (s.after file f res).1 (s.after file f res).2 := by
  subst hfile
  have hitems : (s.after e.op.file f res).2.items = setDev s.items lptr.id res.dev := by
    rw [hid]
    rfl
  exact .used hlptr hkey hitems rfl hopens

namespace PrivRep

variable {params : Params} {tty : ℕ → Option UInt32} {s : PrivSys} {lptr : Item}

theorem load : PrivRep params tty .load where
  keys := List.nodup_nil
  ids := List.nodup_nil
  dev lptr hlptr := by cases hlptr
  sound := Ledger.sound_empty
  live_perm := .refl _
  file file f hf := by cases hf

theorem item?_eq (h : PrivRep params tty s) (hlptr : lptr ∈ s.items) :
    s.item? lptr.id = some lptr :=
  find?_of_nodup h.ids hlptr

theorem find?_key (h : PrivRep params tty s) (hlptr : lptr ∈ s.items) :
    s.items.find? (fun x => x.key = lptr.key) = some lptr :=
  find?_of_nodup h.keys hlptr

theorem itemFits (h : PrivRep params tty s) (hlptr : lptr ∈ s.items) {pos : ℤ}
    (hfit : PosFits params pos) : ItemFits lptr.dev pos := by
  obtain ⟨-, hquantum, hqset⟩ := h.dev lptr hlptr
  rw [ItemFits, hquantum, hqset]
  exact hfit

/-- The invariant after one of the devices was replaced, with the heap that goes with it. -/
theorem withDev (h : PrivRep params tty s) (hlptr : lptr ∈ s.items) {dev : ScullDev} {heap : Ledger}
    (hdev : DevRep dev) (hquantum : dev.quantum = params.quantum) (hqset : dev.qset = params.qset)
    (hheap : ∀ rest, s.heap.live.Perm (blocks lptr.dev.s lptr.dev.data ++ rest) →
      heap.Sound ∧ heap.live.Perm (blocks dev.s dev.data ++ rest)) :
    PrivRep params tty { s with items := setDev s.items lptr.id dev, heap := heap } := by
  obtain ⟨rest, hrest, hset⟩ := exists_rest h.ids hlptr
  obtain ⟨hsound, hlive⟩ := hheap rest (h.live_perm.trans hrest)
  constructor
  case keys => rw [map_key_setDev]; exact h.keys
  case ids => rw [map_id_setDev]; exact h.ids
  case dev =>
    intro x hx
    rcases mem_setDev hx with ⟨-, hx⟩ | ⟨-, hxdev, -⟩
    · exact h.dev x hx
    · rw [hxdev]
      exact ⟨hdev, hquantum, hqset⟩
  case sound => exact hsound
  case live_perm => exact hlive.trans (hset dev).symm
  case file =>
    intro file f hf
    obtain ⟨⟨y, hy, hyid, hykey⟩, hpos⟩ := h.file file f hf
    refine ⟨⟨if y.id = lptr.id then { y with dev := dev } else y, List.mem_map_of_mem hy, ?_, ?_⟩,
      hpos⟩
    · split_ifs <;> exact hyid
    · split_ifs <;> exact hykey

theorem withFile (h : PrivRep params tty s) {file : ℕ} {f : PrivFile}
    (hf : (∃ lptr ∈ s.items, lptr.id = f.item ∧ tty file = some lptr.key) ∧ 0 ≤ f.pos ∧
      f.pos < 2 ^ 63) :
    PrivRep params tty { s with files := Function.update s.files file (some f) } := by
  refine ⟨h.keys, h.ids, h.dev, h.sound, h.live_perm, fun file' f' hf' => ?_⟩
  by_cases hfile : file' = file
  · subst hfile
    simp only [Function.update_self, Option.some_inj] at hf'
    exact hf' ▸ hf
  · simp only [Function.update_of_ne hfile] at hf'
    exact h.file file' f' hf'

theorem exists_item (h : PrivRep params tty s) {file : ℕ} {f : PrivFile}
    (hf : s.files file = some f) : ∃ lptr ∈ s.items, lptr.id = f.item ∧ tty file = some lptr.key ∧
      s.item? f.item = some lptr ∧ s.items.find? (fun x => x.key = lptr.key) = some lptr := by
  obtain ⟨⟨lptr, hlptr, hid, hkey⟩, -⟩ := h.file file f hf
  exact ⟨lptr, hlptr, hid, hkey, hid ▸ h.item?_eq hlptr, h.find?_key hlptr⟩

theorem after (h : PrivRep params tty s) {file : ℕ} {f : PrivFile} (hf : s.files file = some f)
    (hlptr : lptr ∈ s.items) (hid : lptr.id = f.item) {res : IoResult} (hrep : DevRep res.dev)
    (hkept : Kept lptr.dev.q lptr.dev.s lptr.dev s.heap res)
    (hpos : 0 ≤ res.fPos ∧ res.fPos < 2 ^ 63) : PrivRep params tty (s.after file f res).2 := by
  obtain ⟨-, hquantum, hqset⟩ := h.dev lptr hlptr
  have hset : PrivRep params tty
      { s with items := setDev s.items lptr.id res.dev, heap := res.heap } := by
    refine h.withDev hlptr hrep (hkept.quantum_eq.trans hquantum) (hkept.qset_eq.trans hqset) ?_
    intro rest hlive
    refine ⟨hkept.sound h.sound, ?_⟩
    rw [hkept.s_eq]
    exact hkept.live_perm hlive
  rw [hid] at hset
  obtain ⟨hitem, -⟩ := hset.file file f hf
  exact hset.withFile ⟨hitem, hpos⟩

/-- Looking for the device of a terminal, with memory for a new one: it is the one in the list, or
a new one at the front. -/
theorem lookfor (h : PrivRep params tty s) (hgood : GoodGeometry params.quantum params.qset)
    (key : UInt32) : ∃ lptr items heap,
      scullCLookforDevice params key true s.items s.heap = some (some lptr.id, items, heap) ∧
      lptr ∈ items ∧ lptr.key = key ∧
      PrivRep params tty { s with items := items, heap := heap } ∧
      ((s.items.find? (fun x => x.key = key) = some lptr ∧ items = s.items) ∨
        (s.items.find? (fun x => x.key = key) = none ∧ items = lptr :: s.items ∧
          lptr.dev = ⟨[], params.quantum, params.qset, 0⟩)) := by
  cases hfind : s.items.find? fun x => x.key = key with
  | some lptr =>
    refine ⟨lptr, s.items, s.heap, by simp only [scullCLookforDevice, hfind],
      List.mem_of_find?_eq_some hfind, by simpa using List.find?_some hfind, h, .inl ⟨rfl, rfl⟩⟩
  | none =>
    have hkey : ∀ x ∈ s.items, x.key ≠ key := by simpa using hfind
    have hfresh : ∀ x ∈ s.items, x.id ≠ s.heap.next := by
      intro x hx heq
      have hmem : x.id ∈ s.heap.live :=
        h.live_perm.mem_iff.mpr (List.mem_flatMap.mpr ⟨x, hx, List.mem_cons_self⟩)
      exact absurd (h.sound.live_lt _ hmem) (by omega)
    refine ⟨⟨s.heap.next, key, ⟨[], params.quantum, params.qset, 0⟩⟩, _, s.heap.alloc, ?_,
      List.mem_cons_self, rfl, ?_, .inr ⟨rfl, rfl, rfl⟩⟩
    · simp only [scullCLookforDevice, hfind]
      rfl
    · constructor
      case keys =>
        rw [List.map_cons, List.nodup_cons]
        refine ⟨fun hmem => ?_, h.keys⟩
        obtain ⟨x, hx, heq⟩ := List.mem_map.mp hmem
        exact hkey x hx heq
      case ids =>
        rw [List.map_cons, List.nodup_cons]
        refine ⟨fun hmem => ?_, h.ids⟩
        obtain ⟨x, hx, heq⟩ := List.mem_map.mp hmem
        exact hfresh x hx heq
      case dev =>
        intro x hx
        rcases List.mem_cons.mp hx with rfl | hx
        · exact ⟨.empty hgood, rfl, rfl⟩
        · exact h.dev x hx
      case sound => exact h.sound.alloc
      case live_perm => exact h.live_perm.cons _
      case file =>
        intro file f hf
        obtain ⟨⟨x, hx, hid⟩, hpos⟩ := h.file file f hf
        exact ⟨⟨x, List.mem_cons_of_mem _ hx, hid⟩, hpos⟩

theorem opened (h : PrivRep params tty s) (hgood : GoodGeometry params.quantum params.qset)
    {file : ℕ} (hlptr : lptr ∈ s.items) (hkey : tty file = some lptr.key) (mode : AccMode) :
    ∃ dev t, s.opened params file mode lptr.id = some (⟨0, [], 0, some lptr.id⟩, t) ∧
      dev = (if mode = .wronly then ⟨[], params.quantum, params.qset, 0⟩ else lptr.dev) ∧
      t.items = setDev s.items lptr.id dev ∧
      t.files = Function.update s.files file (some ⟨lptr.id, 0⟩) ∧ PrivRep params tty t := by
  have hzero : (0 : ℤ) ≤ 0 ∧ (0 : ℤ) < 2 ^ 63 := by decide
  obtain ⟨hrep, hquantum, hqset⟩ := h.dev lptr hlptr
  obtain ⟨dev, heap, hbare, hdev, hset⟩ : ∃ dev heap,
      bareOpen params mode (lptr.dev, s.heap) = some (dev, heap) ∧
      dev = (if mode = .wronly then ⟨[], params.quantum, params.qset, 0⟩ else lptr.dev) ∧
      PrivRep params tty
        { s with items := setDev s.items lptr.id dev, heap := heap } := by
    by_cases hmode : mode = .wronly
    · refine ⟨_, s.heap.freeAll (blocks lptr.dev.s lptr.dev.data), ?_, (if_pos hmode).symm,
        h.withDev hlptr (.empty hgood) rfl rfl ?_⟩
      · rw [bareOpen, if_pos hmode]
        exact scullTrim_eq hrep.shaped params s.heap
      · intro rest hlive
        exact h.sound.freeAll_of_perm_append hlive
    · exact ⟨lptr.dev, s.heap, by rw [bareOpen, if_neg hmode], (if_neg hmode).symm,
        h.withDev hlptr hrep hquantum hqset fun rest hlive => ⟨h.sound, hlive⟩⟩
  refine ⟨dev, _, ?_, hdev, rfl, rfl, hset.withFile ⟨?_, hzero⟩⟩
  · simp only [PrivSys.opened, h.item?_eq hlptr, hbare, Option.bind_some, Option.map_some]
  · exact ⟨{ lptr with dev := dev },
      List.mem_map.mpr ⟨lptr, hlptr, if_pos rfl⟩, rfl, hkey⟩

/-- An open by a process with a terminal, with memory for a new device. -/
theorem open_spec (h : PrivRep params tty s) (hgood : GoodGeometry params.quantum params.qset)
    {e : PrivEvent} {file : ℕ} {mode : AccMode} {key : UInt32} (hop : e.op = .scullCOpen file mode)
    (hitem : e.item = true) (htty : tty file = some key) :
    ∃ lptr dev t, s.step params tty e = some (⟨0, [], 0, some lptr.id⟩, t) ∧ lptr.key = key ∧
      ((s.items.find? (fun x => x.key = key) = some lptr ∧
          t.items = setDev s.items lptr.id dev) ∨
        (s.items.find? (fun x => x.key = key) = none ∧
          t.items = setDev (lptr :: s.items) lptr.id dev ∧
          lptr.dev = ⟨[], params.quantum, params.qset, 0⟩)) ∧
      dev = (if mode = .wronly then ⟨[], params.quantum, params.qset, 0⟩ else lptr.dev) ∧
      t.files = Function.update s.files file (some ⟨lptr.id, 0⟩) ∧ PrivRep params tty t := by
  obtain ⟨lptr, items, heap, hlook, hmem, hkey, hrep, hcases⟩ := h.lookfor hgood key
  obtain ⟨dev, t, hopened, hdev, hitems, hfiles, ht⟩ :=
    hrep.opened hgood hmem (htty.trans (congrArg some hkey.symm)) mode
  refine ⟨lptr, dev, t, ?_, hkey, ?_, hdev, hfiles, ht⟩
  · simp only [PrivSys.step, hop, htty, hitem, hlook, Option.bind_some]
    exact hopened
  · rcases hcases with ⟨hfind, rfl⟩ | ⟨hfind, rfl, hempty⟩
    · exact .inl ⟨hfind, hitems⟩
    · exact .inr ⟨hfind, hitems, hempty⟩

theorem read_spec (h : PrivRep params tty s) {e : PrivEvent} {file count room : ℕ} {f : PrivFile}
    (hop : e.op = .scullRead file count room false) (hf : s.files file = some f)
    (hlptr : lptr ∈ s.items) (hid : lptr.id = f.item) (hfit : PosFits params f.pos) :
    ∃ res, scullReadLocked lptr.dev.quantum lptr.dev.qset lptr.dev s.heap f.pos count room e.env =
        some res ∧
      s.step params tty e = some (s.after file f res) ∧
      PrivRep params tty (s.after file f res).2 := by
  obtain ⟨p, hp⟩ := Int.eq_ofNat_of_zero_le (h.file file f hf).2.1
  have hrep := (h.dev lptr hlptr).1
  have hfits := h.itemFits hlptr hfit
  rw [hp] at hfits
  obtain ⟨res, hres, hdev, -, hpos, hkept, -⟩ := hrep.read_spec hfits s.heap count room e.env
  rw [← hp] at hres
  refine ⟨res, hres, ?_, h.after hf hlptr hid (hdev ▸ hrep) hkept hpos⟩
  simp only [PrivSys.step, hop, PrivSys.transfer, hf, ← hid, h.item?_eq hlptr, hres,
    Option.bind_some, Bool.false_eq_true, if_false, Option.map_some]

theorem write_spec (h : PrivRep params tty s) {e : PrivEvent} {file count : ℕ} {src : UserBuffer}
    {f : PrivFile} (hop : e.op = .scullWrite file count src false) (hf : s.files file = some f)
    (hlptr : lptr ∈ s.items) (hid : lptr.id = f.item) (hfit : PosFits params f.pos) :
    ∃ res, scullWriteLocked lptr.dev.quantum lptr.dev.qset lptr.dev s.heap f.pos count src e.env =
        some res ∧
      s.step params tty e = some (s.after file f res) ∧
      PrivRep params tty (s.after file f res).2 := by
  obtain ⟨p, hp⟩ := Int.eq_ofNat_of_zero_le (h.file file f hf).2.1
  have hrep := (h.dev lptr hlptr).1
  have hfits := h.itemFits hlptr hfit
  rw [hp] at hfits
  obtain ⟨res, hres, hrep', hpos, hkept, -⟩ := hrep.write_cases hfits s.heap count src e.env
  rw [← hp] at hres
  refine ⟨res, hres, ?_, h.after hf hlptr hid hrep' hkept hpos⟩
  simp only [PrivSys.step, hop, PrivSys.transfer, hf, ← hid, h.item?_eq hlptr, hres,
    Option.bind_some, Bool.false_eq_true, if_false, Option.map_some]

theorem interrupted (h : PrivRep params tty s) {file : ℕ} {f : PrivFile}
    (hf : s.files file = some f) (call : ScullDev → Ledger → ℤ → Option IoResult) :
    s.transfer file true call = some (⟨-ERESTARTSYS, [], f.pos, none⟩, s) := by
  obtain ⟨lptr, -, -, -, hitem, -⟩ := h.exists_item hf
  simp only [PrivSys.transfer, hf, hitem, Option.bind_some, if_true]

theorem llseek_spec (h : PrivRep params tty s) {e : PrivEvent} {file : ℕ} {off : Int64}
    {whence : Int32} {f : PrivFile} (hop : e.op = .scullLlseek file off whence)
    (hf : s.files file = some f) (hlptr : lptr ∈ s.items) (hid : lptr.id = f.item) :
    ∃ t, s.step params tty e = some (⟨(scullLlseek lptr.dev f.pos off whence).1, [],
        (scullLlseek lptr.dev f.pos off whence).2, none⟩, t) ∧
      t.items = s.items ∧ t.files = Function.update s.files file
        (some { f with pos := (scullLlseek lptr.dev f.pos off whence).2 }) ∧
      PrivRep params tty t := by
  obtain ⟨hitems, hpos⟩ := h.file file f hf
  have hset := h.withFile (f := { f with pos := (scullLlseek lptr.dev f.pos off whence).2 })
    ⟨hitems, Rep.scullLlseek_pos off whence hpos⟩
  refine ⟨⟨s.items, s.heap, Function.update s.files file _⟩, ?_, rfl, rfl, hset⟩
  simp only [PrivSys.step, hop, hf, ← hid, h.item?_eq hlptr, Option.bind_some, Option.map_some]

/-- **The representation invariant.** No call is stuck, and every one preserves it. -/
theorem step (h : PrivRep params tty s) (hgood : GoodGeometry params.quantum params.qset)
    {e : PrivEvent} (he : Served params s e) :
    ∃ ans t, s.step params tty e = some (ans, t) ∧ PrivRep params tty t ∧ Moved tty s e ans t := by
  have hopens : (∀ file mode, e.op ≠ .scullCOpen file mode) → ∀ k, ¬ e.Opens tty k := by
    rintro hne k ⟨file, mode, hop, -⟩
    exact hne file mode hop
  cases hop : e.op with
  | scullCOpen file mode =>
    have hfile : e.op.file = file := by rw [hop]; rfl
    cases htty : tty file with
    | none =>
      refine ⟨⟨-EINVAL, [], 0, none⟩, s, by simp only [PrivSys.step, hop, htty], h, .stay rfl ?_⟩
      rintro k ⟨file', mode', hop', hfile'⟩
      rw [hop'] at hop
      cases hop
      rw [htty] at hfile'
      cases hfile'
    | some key =>
      simp only [Served, hop] at he
      obtain ⟨lptr, dev, t, hst, hkey, hcases, -, hfiles, ht⟩ := h.open_spec hgood hop he htty
      exact ⟨_, t, hst, ht, .opened (hfile ▸ htty) hkey
        (hcases.imp_right fun hnew => ⟨hnew.1, hnew.2.1⟩) ⟨rfl, rfl⟩ (hfile ▸ hfiles)⟩
  | scullRead file count room lockIntr =>
    have hfile : e.op.file = file := by rw [hop]; rfl
    simp only [Served, hop] at he
    obtain ⟨f, hf, hfit⟩ := he
    obtain ⟨lptr, hlptr, hid, hkey, -⟩ := h.exists_item hf
    cases lockIntr with
    | false =>
      obtain ⟨res, -, hst, ht⟩ := h.read_spec hop hf hlptr hid hfit
      exact ⟨_, _, hst, ht, .after hlptr hid hfile hkey res (hopens fun _ _ => by rw [hop]; simp)⟩
    | true =>
      exact ⟨_, s, by simp only [PrivSys.step, hop]; exact h.interrupted hf _, h,
        .stay rfl (hopens fun _ _ => by rw [hop]; simp)⟩
  | scullWrite file count src lockIntr =>
    have hfile : e.op.file = file := by rw [hop]; rfl
    simp only [Served, hop] at he
    obtain ⟨⟨f, hf, hfit⟩, -⟩ := he
    obtain ⟨lptr, hlptr, hid, hkey, -⟩ := h.exists_item hf
    cases lockIntr with
    | false =>
      obtain ⟨res, -, hst, ht⟩ := h.write_spec hop hf hlptr hid hfit
      exact ⟨_, _, hst, ht, .after hlptr hid hfile hkey res (hopens fun _ _ => by rw [hop]; simp)⟩
    | true =>
      exact ⟨_, s, by simp only [PrivSys.step, hop]; exact h.interrupted hf _, h,
        .stay rfl (hopens fun _ _ => by rw [hop]; simp)⟩
  | scullLlseek file off whence =>
    have hfile : e.op.file = file := by rw [hop]; rfl
    simp only [Served, hop] at he
    obtain ⟨f, hf⟩ := he
    obtain ⟨lptr, hlptr, hid, hkey, -⟩ := h.exists_item hf
    obtain ⟨t, hst, hitems, hfiles, ht⟩ := h.llseek_spec hop hf hlptr hid
    refine ⟨_, t, hst, ht, .sought hitems (hfile ▸ hfiles) (hopens fun _ _ => by rw [hop]; simp)⟩

end PrivRep

end ExKernel.Private
