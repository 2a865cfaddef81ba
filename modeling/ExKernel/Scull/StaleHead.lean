import ExKernel.Scull.ProcFiles

/-!
# A list head that was read before the lock

`scull_read_procmem` reads the head of the list of a device into a variable, and takes the lock of
the device after that. While it waits for the lock, other processes may use the device. As long as
they only read and write, the head stays where it is, and the list behind it is the one of the
device. But an open for writing only empties the device; and then the head is a block that was
released. It is looked at unless the line of the device has filled the buffer beyond the limit. If
the device was empty when the head was read, the walk is over at once, whatever was written since.

Any number of processes read the file here, each in two steps, while the device is used through its
methods.

## Main definitions

* `Scull.HeadSys`, `Scull.HeadEvent`, `Scull.HeadSys.step`: the device, and the heads that were
  read.
* `Scull.scanDevice`: what is printed of a device from a head on.
* `Scull.Accounted`: the live blocks are those of the device.

## Main results

* `Scull.Accounted.step`: what one call does to the items of the device.
* `Scull.stale_head_iff`: when the walk is through blocks that were released, and what is printed
  else.

## References

* `ldd/scull/main.c`, lines 89–114.
-/

namespace ExKernel.Scull

open Transition

/-! ### The walk -/

/-- The items from a block on; there are none if the block was released. -/
def itemsFrom (dev : ScullDev) (id : ℕ) : Option (List QSet) :=
  if id ∈ dev.data.map QSet.id then some (dev.data.dropWhile fun qs => qs.id ≠ id) else none

/-- What is printed of a device under its lock, when the head that was read is `head`, `none` for
`NULL`: its line, and the items from the head on as far as the limit lets them.

Source: `ldd/scull/main.c`, lines 99–110. -/
def scanDevice (env : ProcEnv) (limit i : ℕ) (dev : ScullDev) (head : Option ℕ)
    (s : SeqFile UInt8) : Except Stop (SeqFile UInt8) :=
  let s := s.print (deviceLine i dev)
  match head with
  | none => .ok s
  | some id =>
    if s.count ≤ limit then
      match itemsFrom dev id with
      | none => .error .fault
      | some items => printItems env dev.s (fun s => s.count ≤ limit) items s
    else .ok s

/-- The head of the list of a device. -/
def ScullDev.headId (dev : ScullDev) : Option ℕ := dev.data.head?.map QSet.id

/-- The device with its files, and the head that each process has read which is about to take the
lock. -/
structure HeadSys where
  sys : ScullSys
  heads : ℕ → Option (Option ℕ)

/-- The module as it is loaded. -/
def HeadSys.load (params : Params) : HeadSys := ⟨.load params, fun _ => none⟩

/-- Some process calls a method of the device. A process reads the head of the list; it takes the
lock and prints the device with the number `i` to the buffer `buf`; it is interrupted while it waits
for the lock. -/
inductive HeadEvent
  | call (op : ScullOp)
  | readHead (pid : ℕ)
  | scan (pid limit i : ℕ) (buf : SeqFile UInt8)
  | interrupted (pid : ℕ)

/-- One step of one process, with the buffer after a device was printed; a walk through blocks that
were released is a step that the model does not make.

Source: `ldd/scull/main.c`, lines 95–111. -/
def HeadSys.step (env : ProcEnv) (s : HeadSys) :
    HeadEvent → Option (Option (SeqFile UInt8) × HeadSys)
  | .call op => (s.sys.step op).map fun out => (none, { s with sys := out.2 })
  | .readHead pid =>
    match s.heads pid with
    | some _ => none
    | none =>
      some (none, { s with heads := Function.update s.heads pid (some s.sys.dev.headId) })
  | .scan pid limit i buf =>
    (s.heads pid).bind fun head =>
      (scanDevice env limit i s.sys.dev head buf).toOption.map fun out =>
        (some out, { s with heads := Function.update s.heads pid none })
  | .interrupted pid =>
    (s.heads pid).map fun _ => (none, { s with heads := Function.update s.heads pid none })

/-- The event is a step of the process in a read of the file. -/
def HeadEvent.Of (pid : ℕ) : HeadEvent → Prop
  | .call _ => False
  | .readHead pid' => pid' = pid
  | .scan pid' .. => pid' = pid
  | .interrupted pid' => pid' = pid

/-- The call empties the device. -/
def ScullOp.Empties : ScullOp → Prop
  | .scullOpen _ mode lockIntr => mode = .wronly ∧ lockIntr = false
  | _ => False

/-- The event is a call that empties the device. -/
def HeadEvent.Empties : HeadEvent → Prop
  | .call op => op.Empties
  | _ => False

/-! ### The items of a device -/

section Calls

variable {quantum qset : Int32} {dev : ScullDev} {heap : Ledger} {fPos : ℤ} {count : ℕ}
  {env : AllocEnv} {res : IoResult}

/-- The items of one device are the first ones of another. -/
def Extends (dev dev' : ScullDev) : Prop := dev.data.map QSet.id <+: dev'.data.map QSet.id

theorem Extends.refl (dev : ScullDev) : Extends dev dev := List.prefix_rfl

theorem extends_follow (answer : ℕ → Bool) (n : ℕ) (dev : ScullDev) (heap : Ledger) :
    Extends dev { dev with data := (scullFollow answer n dev.data heap).2.1 } := by
  obtain ⟨fresh, hdata, -⟩ := scullFollow_spec answer n dev.data heap
  rw [Extends, hdata, List.map_append]
  exact List.prefix_append _ _

theorem Extends.setArray {dev' : ScullDev} {n : ℕ} {dptr : QSet} (h : Extends dev dev')
    (hn : dev'.data[n]? = some dptr) (arr : QArray) : Extends dev (dev'.setArray n dptr arr) := by
  obtain ⟨hlt, rfl⟩ := List.getElem?_eq_some_iff.mp hn
  have hids : (dev'.setArray n dev'.data[n] arr).data.map QSet.id = dev'.data.map QSet.id := by
    have hlt' : n < (dev'.data.map QSet.id).length := by rwa [List.length_map]
    have hself : (dev'.data.map QSet.id)[n] = dev'.data[n].id := List.getElem_map QSet.id
    rw [ScullDev.setArray, List.map_set]
    exact hself ▸ List.set_getElem_self hlt'
  rw [Extends, hids]
  exact h

theorem scullReadLocked_extends {room : ℕ}
    (h : scullReadLocked quantum qset dev heap fPos count room env = some res) :
    Extends dev res.dev := by
  simp only [scullReadLocked] at h
  split_ifs at h with hend
  · cases h
    exact .refl dev
  obtain ⟨place, -, h⟩ := Option.bind_eq_some_iff.mp h
  have hfollow := extends_follow env.node (rounds place.item) dev heap
  split_ifs at h with hok
  · obtain ⟨dptr, -, h⟩ := Option.bind_eq_some_iff.mp h
    repeat' split at h
    all_goals cases h <;> exact hfollow
  · cases h
    exact hfollow

theorem writeQuantum_extends {dev' : ScullDev} {place : Place} {dptr : QSet} {arr : QArray}
    {q : Quantum} {src : UserBuffer} (hdev : Extends dev dev')
    (hn : dev'.data[rounds place.item]? = some dptr)
    (h : writeQuantum quantum dev' heap fPos place dptr arr q count src = some res) :
    Extends dev res.dev := by
  simp only [writeQuantum] at h
  split_ifs at h <;> cases h <;> exact hdev.setArray hn _

theorem scullWriteLocked_extends {src : UserBuffer}
    (h : scullWriteLocked quantum qset dev heap fPos count src env = some res) :
    Extends dev res.dev := by
  obtain ⟨place, -, h⟩ := Option.bind_eq_some_iff.mp h
  have hfollow := extends_follow env.node (rounds place.item) dev heap
  simp only at h
  split_ifs at h with hok
  · obtain ⟨dptr, hn, h⟩ := Option.bind_eq_some_iff.mp h
    split at h
    · cases h
      exact hfollow
    · split_ifs at h with hin
      split at h
      · cases h
        exact hfollow.setArray hn _
      · exact writeQuantum_extends hfollow hn h
  · cases h
    exact hfollow

end Calls

/-! ### Single calls -/

/-- The live blocks are those of the device, which has its shape, and none was released twice. -/
structure Accounted (s : ScullSys) : Prop where
  inShape : s.dev.InShape
  sound : s.heap.Sound
  live_perm : s.heap.live.Perm s.dev.blocks

/-- A call that keeps the list attaches what it allocates, and releases nothing. -/
theorem Accounted.kept {s : ScullSys} (h : Accounted s) {res : IoResult} (files : ℕ → ℤ)
    (hres : Kept s.dev.q s.dev.s s.dev s.heap res) :
    Accounted { s with dev := res.dev, heap := res.heap, files := files } ∧
      res.heap.freed = s.heap.freed := by
  obtain ⟨hshape, htrades⟩ := ScullDev.InShape.kept hres
  obtain ⟨ids, hgrows, -⟩ := hres.grows
  have hlive : s.heap.live.Perm (s.dev.blocks ++ []) := by
    rw [List.append_nil]
    exact h.live_perm
  obtain ⟨hsound', hlive'⟩ := htrades [] h.sound hlive
  rw [List.append_nil] at hlive'
  exact ⟨⟨hshape, hsound', hlive'⟩, hgrows.freed_eq⟩

/-- **What one call does to the items**: it empties the device, and all its blocks are released; or
it releases nothing, and leaves the items at the beginning of the list. -/
theorem Accounted.step {s t : ScullSys} {op : ScullOp} {r : Answer} (h : Accounted s)
    (hst : s.step op = some (r, t)) :
    Accounted t ∧
      ((op.Empties ∧ t.heap.freed = s.heap.freed ++ s.dev.blocks) ∨
        (¬ op.Empties ∧ t.heap.freed = s.heap.freed ∧ Extends s.dev t.dev)) := by
  cases op with
  | scullOpen file mode lockIntr =>
    simp only [ScullSys.step] at hst
    split_ifs at hst with hmode hintr
    · cases hst
      refine ⟨⟨h.inShape, h.sound, h.live_perm⟩, .inr ⟨fun he => ?_, rfl, .refl s.dev⟩⟩
      rw [he.2] at hintr
      cases hintr
    · rw [h.inShape.trim] at hst
      cases hst
      obtain ⟨hsound, hlive⟩ := h.sound.freeAll_of_perm h.live_perm
      exact ⟨⟨ScullDev.inShape_nil _ _ _, hsound, .of_eq hlive⟩,
        .inl ⟨⟨hmode, Bool.eq_false_iff.mpr hintr⟩, Ledger.freed_freeAll _ _⟩⟩
    · cases hst
      exact ⟨⟨h.inShape, h.sound, h.live_perm⟩, .inr ⟨fun he => hmode he.1, rfl, .refl s.dev⟩⟩
  | scullRead file count room lockIntr env =>
    simp only [ScullSys.step] at hst
    split_ifs at hst with hintr
    · cases hst
      exact ⟨h, .inr ⟨not_false, rfl, .refl s.dev⟩⟩
    · obtain ⟨res, hres, heq⟩ := Option.map_eq_some_iff.mp hst
      cases heq
      have hextends := scullReadLocked_extends hres
      obtain ⟨haccounted, hfreed⟩ := h.kept _ (scullReadLocked_kept h.inShape hres)
      exact ⟨haccounted, .inr ⟨not_false, hfreed, hextends⟩⟩
  | scullWrite file count src lockIntr env =>
    simp only [ScullSys.step] at hst
    split_ifs at hst with hintr
    · cases hst
      exact ⟨h, .inr ⟨not_false, rfl, .refl s.dev⟩⟩
    · obtain ⟨res, hres, heq⟩ := Option.map_eq_some_iff.mp hst
      cases heq
      have hextends := scullWriteLocked_extends hres
      obtain ⟨haccounted, hfreed⟩ := h.kept _ (scullWriteLocked_kept h.inShape hres)
      exact ⟨haccounted, .inr ⟨not_false, hfreed, hextends⟩⟩
  | scullLlseek file off whence =>
    cases hst
    exact ⟨⟨h.inShape, h.sound, h.live_perm⟩, .inr ⟨not_false, rfl, .refl s.dev⟩⟩
  | scullIoctl cmd arg env =>
    cases hst
    exact ⟨⟨h.inShape, h.sound, h.live_perm⟩, .inr ⟨not_false, rfl, .refl s.dev⟩⟩

/-! ### Heads -/

theorem Accounted.load (params : Params) : Accounted (.load params) where
  inShape := ScullDev.inShape_nil _ _ _
  sound := Ledger.sound_empty
  live_perm := .of_eq rfl

theorem ScullDev.id_mem_blocks {dev : ScullDev} {qs : QSet} (h : qs ∈ dev.data) :
    qs.id ∈ dev.blocks :=
  List.mem_flatMap.mpr ⟨qs, h, List.mem_append_right _ (List.mem_singleton_self qs.id)⟩

theorem Accounted.id_notMem {s : ScullSys} (h : Accounted s) {id : ℕ} (hid : id ∈ s.heap.freed) :
    id ∉ s.dev.data.map QSet.id := by
  intro hmem
  obtain ⟨qs, hqs, rfl⟩ := List.mem_map.mp hmem
  exact h.sound.disjoint _ (h.live_perm.mem_iff.mpr (ScullDev.id_mem_blocks hqs)) hid

theorem Extends.headId {dev dev' : ScullDev} (h : Extends dev dev') {id : ℕ}
    (hid : dev.headId = some id) : dev'.headId = some id := by
  obtain ⟨rest, hrest⟩ := h
  rw [ScullDev.headId, ← List.head?_map] at hid ⊢
  rw [← hrest, List.head?_append, hid, Option.some_or]

/-- From the head of the list on, a device is printed as by the loop that reads the head under the
lock. -/
theorem scanDevice_headId {env : ProcEnv} {dev : ScullDev} (limit i : ℕ) (s : SeqFile UInt8) :
    scanDevice env limit i dev dev.headId s =
      printItems env dev.s (fun s => s.count ≤ limit) dev.data (s.print (deviceLine i dev)) := by
  unfold scanDevice ScullDev.headId
  cases hdata : dev.data with
  | nil => rfl
  | cons qs next =>
    have hitems : itemsFrom dev qs.id = some (qs :: next) := by
      rw [itemsFrom, hdata, if_pos (List.mem_map_of_mem List.mem_cons_self),
        List.dropWhile_cons_of_neg (by simp)]
    simp only [List.head?_cons, Option.map_some, hitems]
    split_ifs with hcount
    · rfl
    · rw [printItems, if_neg (by simpa using hcount)]

/-- Of a head that was released, only the line of the device is printed, if the limit lets it. -/
theorem scanDevice_of_notMem {env : ProcEnv} {dev : ScullDev} {id : ℕ}
    (h : id ∉ dev.data.map QSet.id) (limit i : ℕ) (s : SeqFile UInt8) :
    scanDevice env limit i dev (some id) s =
      if (s.print (deviceLine i dev)).count ≤ limit then .error .fault
      else .ok (s.print (deviceLine i dev)) := by
  simp only [scanDevice, itemsFrom, if_neg h]

/-! ### Whole runs -/

section Run

variable {env : ProcEnv} {s t : HeadSys} {e : HeadEvent} {r : Option (SeqFile UInt8)} {pid : ℕ}

/-- **What a step does**: it calls a method of the device, or leaves the device; and the head that
another process has read stays. -/
theorem HeadSys.step_cases (h : s.step env e = some (r, t)) :
    (∀ pid, ¬ e.Of pid → t.heads pid = s.heads pid) ∧
      ((∃ op answer, e = .call op ∧ s.sys.step op = some (answer, t.sys)) ∨
        (¬ e.Empties ∧ t.sys = s.sys)) := by
  cases e with
  | call op =>
    obtain ⟨out, hout, heq⟩ := Option.map_eq_some_iff.mp h
    cases heq
    exact ⟨fun _ _ => rfl, .inl ⟨op, out.1, rfl, hout⟩⟩
  | readHead pid' =>
    rw [HeadSys.step] at h
    split at h
    · cases h
    · cases h
      exact ⟨fun _ hof => Function.update_of_ne (Ne.symm hof) _ _, .inr ⟨not_false, rfl⟩⟩
  | scan pid' limit i buf =>
    obtain ⟨head, -, h⟩ := Option.bind_eq_some_iff.mp h
    obtain ⟨out, -, heq⟩ := Option.map_eq_some_iff.mp h
    cases heq
    exact ⟨fun _ hof => Function.update_of_ne (Ne.symm hof) _ _, .inr ⟨not_false, rfl⟩⟩
  | interrupted pid' =>
    obtain ⟨head, -, heq⟩ := Option.map_eq_some_iff.mp h
    cases heq
    exact ⟨fun _ hof => Function.update_of_ne (Ne.symm hof) _ _, .inr ⟨not_false, rfl⟩⟩

theorem HeadSys.step_readHead (h : s.step env (.readHead pid) = some (r, t)) :
    t.heads pid = some s.sys.dev.headId ∧ t.sys = s.sys := by
  rw [HeadSys.step] at h
  split at h
  · cases h
  · cases h
    exact ⟨Function.update_self _ _ _, rfl⟩

theorem HeadSys.step_scan {head : Option ℕ} (h : s.heads pid = some head) (limit i : ℕ)
    (buf : SeqFile UInt8) :
    s.step env (.scan pid limit i buf) =
      (scanDevice env limit i s.sys.dev head buf).toOption.map fun out =>
        (some out, { s with heads := Function.update s.heads pid none }) := by
  rw [HeadSys.step, h, Option.bind_some]

theorem HeadSys.accounted_step (hs : Accounted s.sys) (h : s.step env e = some (r, t)) :
    Accounted t.sys := by
  obtain ⟨-, ⟨op, answer, rfl, hst⟩ | ⟨-, hsys⟩⟩ := HeadSys.step_cases h
  · exact (hs.step hst).1
  · rw [hsys]
    exact hs

/-- What was released stays so, and a head stays the head, as long as the device is not emptied; and
then it is released. -/
theorem HeadSys.head_step (id : ℕ) (hs : Accounted s.sys) (h : s.step env e = some (r, t)) :
    (id ∈ s.sys.heap.freed → id ∈ t.sys.heap.freed) ∧
      (s.sys.dev.headId = some id →
        (e.Empties ∧ id ∈ t.sys.heap.freed) ∨ (¬ e.Empties ∧ t.sys.dev.headId = some id)) := by
  obtain ⟨-, ⟨op, answer, rfl, hst⟩ | ⟨hempties, hsys⟩⟩ := HeadSys.step_cases h
  · obtain ⟨-, ⟨hempties, hfreed⟩ | ⟨hempties, hfreed, hextends⟩⟩ := hs.step hst
    · refine ⟨fun hid => hfreed ▸ List.mem_append_left _ hid, fun hid => .inl ⟨hempties, ?_⟩⟩
      obtain ⟨qs, hqs, rfl⟩ := Option.map_eq_some_iff.mp hid
      rw [hfreed]
      exact List.mem_append_right _ (ScullDev.id_mem_blocks (List.mem_of_head? hqs))
    · exact ⟨fun hid => hfreed ▸ hid, fun hid => .inr ⟨hempties, hextends.headId hid⟩⟩
  · rw [hsys]
    exact ⟨fun hid => hid, fun hid => .inr ⟨hempties, hid⟩⟩

/-- The same over the steps of others. -/
theorem HeadSys.head_run (id : ℕ) {es : List HeadEvent} {rs : List (Option (SeqFile UInt8))}
    (hs : Accounted s.sys) (hrun : exec (HeadSys.step env) s es = some (rs, t))
    (hof : ∀ e ∈ es, ¬ e.Of pid) :
    t.heads pid = s.heads pid ∧ Accounted t.sys ∧
      (id ∈ s.sys.heap.freed → id ∈ t.sys.heap.freed) ∧
      (s.sys.dev.headId = some id →
        ((∃ e ∈ es, e.Empties) ∧ id ∈ t.sys.heap.freed) ∨
          ((∀ e ∈ es, ¬ e.Empties) ∧ t.sys.dev.headId = some id)) := by
  induction es generalizing s rs with
  | nil =>
    cases hrun
    exact ⟨rfl, hs, fun hid => hid, fun hid => .inr ⟨fun e he => absurd he List.not_mem_nil, hid⟩⟩
  | cons e es ih =>
    obtain ⟨r, u, rs', hst, hrest, rfl⟩ := exec_cons_eq_some.mp hrun
    have hheads : u.heads pid = s.heads pid :=
      (HeadSys.step_cases hst).1 pid (hof e List.mem_cons_self)
    obtain ⟨hfreed, hhead⟩ := HeadSys.head_step id hs hst
    obtain ⟨hheads', ht, hfreed', hhead'⟩ := ih (HeadSys.accounted_step hs hst) hrest
      fun e' he' => hof e' (List.mem_cons_of_mem e he')
    refine ⟨hheads'.trans hheads, ht, fun hid => hfreed' (hfreed hid), fun hid => ?_⟩
    rcases hhead hid with ⟨hempties, hgone⟩ | ⟨hempties, hstays⟩
    · exact .inl ⟨⟨e, List.mem_cons_self, hempties⟩, hfreed' hgone⟩
    · rcases hhead' hstays with ⟨⟨e', he', hempties'⟩, hgone⟩ | ⟨hempties', hstays'⟩
      · exact .inl ⟨⟨e', List.mem_cons_of_mem e he', hempties'⟩, hgone⟩
      · exact .inr ⟨List.forall_mem_cons.mpr ⟨hempties, hempties'⟩, hstays'⟩

end Run

/-- **When the walk is through blocks that were released.** A process that has read the head of the
list and waits for the lock comes to the end of the device, whatever the others do, unless the list
was not empty when it read the head, the device was emptied since, and the line of the device leaves
the buffer within the limit; and then the head is a block that was released. Where it comes to the
end, it has printed the line and the items that the device has now, as far as the limit lets them;
but no items if the list was empty when it read the head.

Source: `ldd/scull/main.c`, lines 95–111. -/
theorem stale_head_iff (env : ProcEnv) (params : Params) (pre mid : List HeadEvent) (pid : ℕ)
    {rs₁ rs₂ : List (Option (SeqFile UInt8))} {r : Option (SeqFile UInt8)} {s₁ s₂ s : HeadSys}
    (hpre : exec (HeadSys.step env) (.load params) pre = some (rs₁, s₁))
    (hread : s₁.step env (.readHead pid) = some (r, s₂))
    (hmid : exec (HeadSys.step env) s₂ mid = some (rs₂, s)) (hof : ∀ e ∈ mid, ¬ e.Of pid)
    (limit i : ℕ) (buf : SeqFile UInt8) :
    ((s.step env (.scan pid limit i buf)).isSome ↔ s₁.sys.dev.data = [] ∨
      (∀ e ∈ mid, ¬ e.Empties) ∨ limit < (buf.print (deviceLine i s.sys.dev)).count) ∧
    (∀ out t, s.step env (.scan pid limit i buf) = some (out, t) →
      out = some ((buf.print (deviceLine i s.sys.dev)).printWhile limit
        (if s₁.sys.dev.data.isEmpty then [] else itemChunks env s.sys.dev.s s.sys.dev.data))) ∧
    (s.step env (.scan pid limit i buf) = none →
      ∃ id, s.heads pid = some (some id) ∧ id ∈ s.sys.heap.freed) := by
  have hs₁ : Accounted s₁.sys := exec_invariant (fun s => Accounted s.sys)
    (fun _ _ _ _ hs _ hst => HeadSys.accounted_step hs hst) (Accounted.load params)
    (guarded_true _ _) hpre
  have hs₂ : Accounted s₂.sys := HeadSys.accounted_step hs₁ hread
  obtain ⟨hheads, hsys⟩ := HeadSys.step_readHead hread
  cases hdata : s₁.sys.dev.data with
  | nil =>
    obtain ⟨hstays, -⟩ := HeadSys.head_run 0 hs₂ hmid hof
    rw [hheads, ScullDev.headId, hdata] at hstays
    have hscan : s.step env (.scan pid limit i buf) = some (some (buf.print
        (deviceLine i s.sys.dev)), { s with heads := Function.update s.heads pid none }) := by
      rw [HeadSys.step_scan hstays]
      rfl
    rw [hscan]
    refine ⟨iff_of_true rfl (.inl rfl), fun out t h => ?_, nofun⟩
    cases h
    rfl
  | cons qs next =>
    obtain ⟨hstays, hs, -, hcases⟩ := HeadSys.head_run qs.id hs₂ hmid hof
    have hfirst : s₁.sys.dev.headId = some qs.id := by
      rw [ScullDev.headId, hdata]
      rfl
    rw [hheads, hfirst] at hstays
    rcases hcases (by rw [hsys, hfirst]) with ⟨⟨e, he, hempties⟩, hgone⟩ | ⟨hempties, hhead⟩
    · have hscan : scanDevice env limit i s.sys.dev (some qs.id) buf =
          if (buf.print (deviceLine i s.sys.dev)).count ≤ limit then .error .fault
          else .ok (buf.print (deviceLine i s.sys.dev)) :=
        scanDevice_of_notMem (hs.id_notMem hgone) limit i buf
      have hnot : ¬ ∀ e ∈ mid, ¬ e.Empties := fun hall => hall e he hempties
      by_cases hcount : (buf.print (deviceLine i s.sys.dev)).count ≤ limit
      · rw [if_pos hcount] at hscan
        rw [HeadSys.step_scan hstays, hscan]
        refine ⟨iff_of_false (by simp [Except.toOption]) ?_, nofun, fun _ =>
          ⟨qs.id, hstays, hgone⟩⟩
        rintro (hnil | hall | hlt)
        · cases hnil
        · exact hnot hall
        · exact absurd hcount (not_le.mpr hlt)
      · rw [if_neg hcount] at hscan
        rw [HeadSys.step_scan hstays, hscan]
        refine ⟨iff_of_true rfl (.inr (.inr (not_le.mp hcount))), fun out t h => ?_, nofun⟩
        cases h
        rw [← SeqFile.printWhile_look, if_pos (not_le.mp hcount)]
    · have hscan : scanDevice env limit i s.sys.dev (some qs.id) buf =
          .ok ((buf.print (deviceLine i s.sys.dev)).printWhile limit
            (itemChunks env s.sys.dev.s s.sys.dev.data)) := by
        rw [← hhead, scanDevice_headId, printItems_limit limit hs.inShape]
      rw [HeadSys.step_scan hstays, hscan]
      refine ⟨iff_of_true rfl (.inr (.inl hempties)), fun out t h => ?_, nofun⟩
      cases h
      rfl

/-- A process reads the head after one byte was written, and takes the lock after the device was
emptied: the head is a block that was released, and the buffer has room for it. -/
theorem stale_head_emptied : ∃ rs s,
    exec (HeadSys.step .plain) (.load ⟨4, 2, 0⟩)
        [.call (.scullWrite 0 1 ⟨[7], []⟩ false ⟨fun _ => true, true, some fun _ => 0⟩),
          .readHead 1, .call (.scullOpen 1 .wronly false)] = some (rs, s) ∧
      s.step .plain (.scan 1 4016 0 (.fresh 4096)) = none := by
  refine ⟨_, _, rfl, Option.not_isSome_iff_eq_none.mp fun hscan => ?_⟩
  have hstale := (stale_head_iff .plain ⟨4, 2, 0⟩
    [.call (.scullWrite 0 1 ⟨[7], []⟩ false ⟨fun _ => true, true, some fun _ => 0⟩)]
    [.call (.scullOpen 1 .wronly false)] 1 rfl rfl rfl
    (fun e he => List.mem_singleton.mp he ▸ not_false) 4016 0 (.fresh 4096)).1
  rcases hstale.mp hscan with hnil | hall | hlt
  · cases hnil
  · exact hall _ (List.mem_singleton_self _) ⟨rfl, rfl⟩
  · exact absurd hlt (by decide +kernel)

end ExKernel.Scull
