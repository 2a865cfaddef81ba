import ExKernel.Access.Private
import ExKernel.Scull.Twin

/-!
# Terminals do not see each other

What the calls on the files of one terminal return, where they leave the positions, and what they
read where they have written does not change when all calls on files of other terminals are left out
of the run. Bytes that were never written are those of a fresh quantum, and these are whatever the
allocator hands out; so in the run without the others it may hand out something else.

The positions that were written are recorded along the run, for each terminal since its device was
last emptied.

## Main definitions

* `Private.PrivLog`: the devices with a record of what was written.
* `Private.Unmoved`, `Private.Pair`: what one terminal sees of two states is the same.
* `Private.SameCall`, `Private.ReplyAlike`: the same call in two runs, and its answers.

## Main results

* `Private.Moved.frame`: a call leaves the devices and files of other terminals.
* `Private.Pair.own`: a call of the terminal in two runs.
* `Private.scullpriv_isolates_terminals`: the devices over all runs.

## References

* `ldd/scull/access.c`, lines 249–299; `ldd/scull/main.c`, lines 62–83 and 294–389.
-/

namespace ExKernel.Private

open Transition Scull

/-! ### What was written -/

/-- The devices, and for each terminal the positions that were written on its device since it was
last emptied. -/
structure PrivLog where
  sys : PrivSys
  written : UInt32 → ℕ → Prop

/-- The module as it is loaded. -/
def PrivLog.load : PrivLog := ⟨.load, fun _ _ => False⟩

/-- An answer, and which of the bytes delivered come from positions that were written. -/
structure PrivReply extends PrivAnswer where
  known : ℕ → Prop

/-- The positions that were written after a call with the given answer, made on a file of the
terminal `k` at the position `pos`. -/
def PrivOp.record (W : ℕ → Prop) (pos : ℕ) (ret : ℤ) : PrivOp → ℕ → Prop
  | scullCOpen _ mode => if mode = .wronly ∧ ret = 0 then fun _ => False else W
  | scullWrite .. => Alike.extend W pos ret
  | _ => W

/-- The position of a file, and 0 for a file that is not open. -/
def PrivSys.pos (s : PrivSys) (file : ℕ) : ℕ := ((s.files file).elim 0 PrivFile.pos).toNat

theorem PrivSys.pos_eq {s : PrivSys} {file : ℕ} {f : PrivFile} (hf : s.files file = some f) :
    s.pos file = f.pos.toNat := by
  rw [PrivSys.pos, hf, Option.elim_some]

/-- One call, recorded. -/
def PrivLog.step (params : Params) (tty : ℕ → Option UInt32) (a : PrivLog) (e : PrivEvent) :
    Option (PrivReply × PrivLog) :=
  (a.sys.step params tty e).map fun out =>
    match tty e.op.file with
    | none => (⟨out.1, fun _ => False⟩, ⟨out.2, a.written⟩)
    | some k => (⟨out.1, fun i => a.written k (a.sys.pos e.op.file + i)⟩,
      ⟨out.2, Function.update a.written k
        (e.op.record (a.written k) (a.sys.pos e.op.file) out.1.ret)⟩)

/-! ### What one terminal sees -/

/-- The device of a terminal. -/
def PrivSys.device (s : PrivSys) (k : UInt32) : Option Item := s.items.find? fun x => x.key = k

/-- The identity of the device of a terminal, and 0 for a terminal that has none. -/
def PrivSys.deviceId (s : PrivSys) (k : UInt32) : ℕ := (s.device k).elim 0 Item.id

theorem find?_setDev_of_ne {items : List Item} {lptr : Item} {k : UInt32}
    (hids : (items.map Item.id).Nodup) (hlptr : lptr ∈ items) (hk : lptr.key ≠ k) (dev : ScullDev) :
    (setDev items lptr.id dev).find? (fun x => x.key = k) = items.find? fun x => x.key = k := by
  rw [find?_setDev]
  cases hfind : items.find? fun x => x.key = k with
  | none => rfl
  | some x =>
    have hkey : x.key = k := by simpa using List.find?_some hfind
    have hid : x.id ≠ lptr.id := by
      intro heq
      have hx := List.inj_on_of_nodup_map hids (List.mem_of_find?_eq_some hfind) hlptr heq
      exact hk (hx ▸ hkey)
    rw [Option.map_some, if_neg hid]

theorem find?_setDev_self {items : List Item} {lptr : Item} {k : UInt32}
    (hfind : items.find? (fun x => x.key = k) = some lptr) (dev : ScullDev) :
    (setDev items lptr.id dev).find? (fun x => x.key = k) = some { lptr with dev := dev } := by
  rw [find?_setDev, hfind, Option.map_some, if_pos rfl]

/-- The device of a terminal after a read or write on one of its files. -/
theorem PrivSys.device_after {s : PrivSys} {k : UInt32} {x : Item} {f : PrivFile}
    (hid : x.id = f.item) (hx : s.device k = some x) (file : ℕ) (res : IoResult) :
    (s.after file f res).2.device k = some { x with dev := res.dev } := by
  simp only [PrivSys.device, PrivSys.after, ← hid]
  exact find?_setDev_self hx res.dev

theorem device_of_open {s t : PrivSys} {k : UInt32} {lptr : Item} {dev : ScullDev}
    (hkey : lptr.key = k)
    (h : (s.items.find? (fun x => x.key = k) = some lptr ∧ t.items = setDev s.items lptr.id dev) ∨
      (s.items.find? (fun x => x.key = k) = none ∧
        t.items = setDev (lptr :: s.items) lptr.id dev)) :
    t.device k = some { lptr with dev := dev } := by
  rw [PrivSys.device]
  rcases h with ⟨hfind, hitems⟩ | ⟨-, hitems⟩
  · rw [hitems]
    exact find?_setDev_self hfind dev
  · rw [hitems]
    exact find?_setDev_self (List.find?_cons_of_pos (by simpa using hkey)) dev

section Terminals

variable {params : Params} {tty : ℕ → Option UInt32} {s : PrivSys} {e : PrivEvent}

/-- **Frame.** A call on a file of another terminal leaves the device and the files of a
terminal. -/
theorem Moved.frame {ans : PrivAnswer} {t : PrivSys} {k : UInt32} (h : Moved tty s e ans t)
    (hs : PrivRep params tty s) (ht : PrivRep params tty t) (hk : tty e.op.file ≠ some k) :
    t.device k = s.device k ∧ ∀ file, tty file = some k → t.files file = s.files file := by
  have hfile : ∀ {f : Option PrivFile} (file : ℕ), tty file = some k →
      Function.update s.files e.op.file f file = s.files file := by
    intro f file hfile
    refine Function.update_of_ne ?_ _ _
    rintro rfl
    exact hk hfile
  cases h with
  | stay hts => exact ⟨by rw [hts], fun _ _ => by rw [hts]⟩
  | @opened key lptr dev htty hkey hitems _ hfiles =>
    have hne : lptr.key ≠ k := fun heq => hk (by rw [htty, ← hkey, heq])
    refine ⟨?_, fun file hf => by rw [hfiles]; exact hfile file hf⟩
    rcases hitems with ⟨hfind, hitems⟩ | ⟨-, hitems⟩
    · rw [PrivSys.device, hitems]
      exact find?_setDev_of_ne hs.ids (List.mem_of_find?_eq_some hfind) hne _
    · have hids := ht.ids
      rw [hitems, map_id_setDev] at hids
      rw [PrivSys.device, hitems, find?_setDev_of_ne hids List.mem_cons_self hne]
      exact List.find?_cons_of_neg (by simpa using hne)
  | @used lptr dev f hlptr htty hitems hfiles _ =>
    have hne : lptr.key ≠ k := fun heq => hk (by rw [htty, heq])
    refine ⟨?_, fun file hf => by rw [hfiles]; exact hfile file hf⟩
    rw [PrivSys.device, hitems]
    exact find?_setDev_of_ne hs.ids hlptr hne _
  | sought hitems hfiles _ =>
    refine ⟨?_, fun file hf => by rw [hfiles]; exact hfile file hf⟩
    rw [PrivSys.device, hitems]
    rfl

/-- What the terminal `k` sees of two states is the same: its device is there in both or in neither,
the two agree on everything but bytes that were never written, and so do the positions of its
files. -/
structure Unmoved (tty : ℕ → Option UInt32) (k : UInt32) (a a' : PrivLog) : Prop where
  written_eq : a'.written k = a.written k
  unwritten : a.sys.device k = none → a'.sys.device k = none ∧ ∀ x, ¬ a.written k x
  alike : ∀ x, a.sys.device k = some x →
    ∃ x', a'.sys.device k = some x' ∧ Alike (a.written k) x.dev x'.dev
  pos_eq : ∀ file, tty file = some k →
    (a'.sys.files file).map PrivFile.pos = (a.sys.files file).map PrivFile.pos

/-- Two answers that one terminal cannot tell apart, but by bytes that it never wrote. -/
structure ReplyAlike (r r' : PrivReply) : Prop where
  ret_eq : r'.ret = r.ret
  pos_eq : r'.pos = r.pos
  length_eq : r'.bytes.length = r.bytes.length
  known_eq : r'.known = r.known
  bytes_eq : ∀ i, r.known i → r'.bytes[i]? = r.bytes[i]?

/-- The same call, with memory for what it may allocate, but with whatever contents. -/
def SameCall (e e' : PrivEvent) : Prop := e'.op = e.op ∧ e'.item = true ∧ e'.env.Ample

theorem PrivLog.step_eq {a : PrivLog} {ans : PrivAnswer} {t : PrivSys} {k : UInt32}
    (hst : a.sys.step params tty e = some (ans, t)) (hk : tty e.op.file = some k) :
    a.step params tty e = some (⟨ans, fun i => a.written k (a.sys.pos e.op.file + i)⟩,
      ⟨t, Function.update a.written k
        (e.op.record (a.written k) (a.sys.pos e.op.file) ans.ret)⟩) := by
  simp only [PrivLog.step, hst, Option.map_some, hk]

namespace Unmoved

variable {k : UInt32} {a a' : PrivLog}

theorem load : Unmoved tty k .load .load where
  written_eq := rfl
  unwritten _ := ⟨rfl, fun _ hx => hx⟩
  alike x hx := by cases hx
  pos_eq _ _ := rfl

theorem other (h : Unmoved tty k a a') (ha : PrivRep params tty a.sys)
    (hgood : GoodGeometry params.quantum params.qset) (he : Served params a.sys e)
    {r : PrivReply} {t : PrivLog} (hst : a.step params tty e = some (r, t))
    (hk : tty e.op.file ≠ some k) : Unmoved tty k t a' := by
  obtain ⟨⟨ans, sys⟩, hsys, heq⟩ := Option.map_eq_some_iff.mp hst
  obtain ⟨ans', sys', hsys', hrep, hmoved⟩ := ha.step hgood he
  rw [hsys] at hsys'
  cases hsys'
  obtain ⟨hdevice, hfiles⟩ := hmoved.frame ha hrep hk
  obtain ⟨ht, hwritten⟩ : t.sys = sys ∧ t.written k = a.written k := by
    split at heq
    · cases heq
      exact ⟨rfl, rfl⟩
    · rename_i k' hk'
      cases heq
      refine ⟨rfl, Function.update_of_ne ?_ _ _⟩
      rintro rfl
      exact hk hk'
  constructor
  case written_eq => rw [hwritten]; exact h.written_eq
  case unwritten =>
    rw [ht, hdevice, hwritten]
    exact h.unwritten
  case alike =>
    rw [ht, hdevice, hwritten]
    exact h.alike
  case pos_eq =>
    intro file hfile
    rw [ht, hfiles file hfile]
    exact h.pos_eq file hfile

theorem sys_pos_eq (h : Unmoved tty k a a') {file : ℕ} (hfile : tty file = some k) :
    a'.sys.pos file = a.sys.pos file := by
  have hpos := h.pos_eq file hfile
  unfold PrivSys.pos
  cases hf : a.sys.files file <;> cases hf' : a'.sys.files file <;> simp_all

/-- What is left to show about two states after a call of the terminal. -/
theorem next (h : Unmoved tty k a a') {W : ℕ → Prop} {t t' : PrivSys} {file : ℕ} {x x' : Item}
    {f f' : PrivFile} (hx : t.device k = some x) (hx' : t'.device k = some x')
    (halike : Alike W x.dev x'.dev)
    (hfiles : t.files = Function.update a.sys.files file (some f))
    (hfiles' : t'.files = Function.update a'.sys.files file (some f')) (hpos : f'.pos = f.pos) :
    Unmoved tty k ⟨t, Function.update a.written k W⟩ ⟨t', Function.update a'.written k W⟩ := by
  constructor
  case written_eq => simp
  case unwritten =>
    intro hnone
    simp only [hx] at hnone
    cases hnone
  case alike =>
    intro y hy
    simp only [hx, Option.some_inj] at hy
    subst hy
    exact ⟨x', hx', by simpa using halike⟩
  case pos_eq =>
    intro file' hfile'
    simp only [hfiles, hfiles']
    by_cases hne : file' = file
    · subst hne
      simp [hpos]
    · simp only [Function.update_of_ne hne]
      exact h.pos_eq file' hfile'

/-- The device of an open file of the terminal, and its counterpart. -/
theorem exists_devices (h : Unmoved tty k a a') (ha : PrivRep params tty a.sys)
    (ha' : PrivRep params tty a'.sys) {file : ℕ} (hfile : tty file = some k) {f : PrivFile}
    (hf : a.sys.files file = some f) :
    ∃ f' x x', a'.sys.files file = some f' ∧ f'.pos = f.pos ∧
      (x ∈ a.sys.items ∧ x.id = f.item ∧ a.sys.device k = some x) ∧
      (x' ∈ a'.sys.items ∧ x'.id = f'.item ∧ a'.sys.device k = some x') ∧
      Alike (a.written k) x.dev x'.dev := by
  have hpos := h.pos_eq file hfile
  rw [hf, Option.map_some] at hpos
  obtain ⟨f', hf', hpos'⟩ := Option.map_eq_some_iff.mp hpos
  obtain ⟨x, hx, hid, hkey, -, hfind⟩ := ha.exists_item hf
  obtain ⟨x', hx', hid', hkey', -, hfind'⟩ := ha'.exists_item hf'
  rw [hfile, Option.some_inj] at hkey hkey'
  rw [← hkey] at hfind
  rw [← hkey'] at hfind'
  obtain ⟨y, hy, halike⟩ := h.alike x hfind
  obtain rfl : y = x' := Option.some.inj (hy.symm.trans hfind')
  exact ⟨f', x, y, hf', hpos', ⟨hx, hid, hfind⟩, ⟨hx', hid', hfind'⟩, halike⟩

end Unmoved

/-- Two states of which the terminal `k` sees the same, with their invariants. -/
structure Pair (params : Params) (tty : ℕ → Option UInt32) (k : UInt32) (a a' : PrivLog) :
    Prop where
  left : PrivRep params tty a.sys
  right : PrivRep params tty a'.sys
  unmoved : Unmoved tty k a a'

namespace Pair

variable {k : UInt32} {a a' : PrivLog} {e' : PrivEvent}

theorem recorded (h : Pair params tty k a a') (hop : e'.op = e.op) (hk : tty e.op.file = some k)
    {ans ans' : PrivAnswer} {t t' : PrivSys} (hst : a.sys.step params tty e = some (ans, t))
    (hst' : a'.sys.step params tty e' = some (ans', t')) (hret : ans'.ret = ans.ret)
    (hpos : ans'.pos = ans.pos) (hlength : ans'.bytes.length = ans.bytes.length)
    (hbytes : ∀ i, a.written k (a.sys.pos e.op.file + i) → ans'.bytes[i]? = ans.bytes[i]?)
    (ht : PrivRep params tty t) (ht' : PrivRep params tty t')
    (hnext : Unmoved tty k
      ⟨t, Function.update a.written k (e.op.record (a.written k) (a.sys.pos e.op.file) ans.ret)⟩
      ⟨t', Function.update a'.written k
        (e.op.record (a.written k) (a.sys.pos e.op.file) ans.ret)⟩) :
    ∃ r t r' t', a.step params tty e = some (r, t) ∧ a'.step params tty e' = some (r', t') ∧
      ReplyAlike r r' ∧ Pair params tty k t t' := by
  have hk' : tty e'.op.file = some k := by rw [hop]; exact hk
  have hstep' := PrivLog.step_eq hst' hk'
  rw [hop, h.unmoved.sys_pos_eq hk, h.unmoved.written_eq, hret] at hstep'
  exact ⟨_, _, _, _, PrivLog.step_eq hst hk, hstep', ⟨hret, hpos, hlength, rfl, hbytes⟩,
    ht, ht', hnext⟩

theorem interrupted (h : Pair params tty k a a') (hop : e'.op = e.op) (hk : tty e.op.file = some k)
    {f : PrivFile} (hf : a.sys.files e.op.file = some f)
    (hst : a.sys.step params tty e = some (⟨-ERESTARTSYS, [], f.pos, none⟩, a.sys))
    (hst' : ∀ f', a'.sys.files e.op.file = some f' →
      a'.sys.step params tty e' = some (⟨-ERESTARTSYS, [], f'.pos, none⟩, a'.sys))
    (hrecord : ∀ x, e.op.record (a.written k) (a.sys.pos e.op.file) (-ERESTARTSYS) x →
      a.written k x) :
    ∃ r t r' t', a.step params tty e = some (r, t) ∧ a'.step params tty e' = some (r', t') ∧
      ReplyAlike r r' ∧ Pair params tty k t t' := by
  obtain ⟨f', x, x', hf', hpos, ⟨-, -, hx⟩, ⟨-, -, hx'⟩, halike⟩ :=
    h.unmoved.exists_devices h.left h.right hk hf
  refine h.recorded hop hk hst (hst' f' hf') rfl hpos rfl (fun _ _ => rfl) h.left h.right ?_
  exact h.unmoved.next hx hx' (halike.mono hrecord)
    (by rw [← hf, Function.update_eq_self]) (by rw [← hf', Function.update_eq_self]) hpos

theorem read (h : Pair params tty k a a') (hop : e'.op = e.op) {file count room : ℕ} {f : PrivFile}
    (heop : e.op = .scullRead file count room false) (hk : tty file = some k)
    (hf : a.sys.files file = some f) (hfit : PosFits params f.pos) :
    ∃ r t r' t', a.step params tty e = some (r, t) ∧ a'.step params tty e' = some (r', t') ∧
      ReplyAlike r r' ∧ Pair params tty k t t' := by
  have hfile : e.op.file = file := by rw [heop]; rfl
  obtain ⟨f', x, x', hf', hpos, ⟨hx, hid, hdev⟩, ⟨hx', hid', hdev'⟩, halike⟩ :=
    h.unmoved.exists_devices h.left h.right hk hf
  obtain ⟨p, hp⟩ := Int.eq_ofNat_of_zero_le (h.left.file file f hf).2.1
  have hsyspos : a.sys.pos e.op.file = p := by rw [hfile, PrivSys.pos_eq hf, hp, Int.toNat_natCast]
  obtain ⟨res, hres, hst, ht⟩ := h.left.read_spec heop hf hx hid hfit
  obtain ⟨res', hres', hst', ht'⟩ :=
    h.right.read_spec (hop.trans heop) hf' hx' hid' (by rw [hpos]; exact hfit)
  have hfits := h.left.itemFits hx hfit
  rw [hp] at hfits
  rw [hp] at hres
  rw [hpos, hp] at hres'
  obtain ⟨res₁, res₁', hres₁, hres₁', hkeep, -, hkeep', -, -, hread⟩ :=
    halike.read (h.left.dev x hx).1 (h.right.dev x' hx').1 hfits a.sys.heap a'.sys.heap count room
      e.env e'.env
  obtain rfl : res = res₁ := Option.some.inj (hres.symm.trans hres₁)
  obtain rfl : res' = res₁' := Option.some.inj (hres'.symm.trans hres₁')
  refine h.recorded hop (hfile ▸ hk) hst hst' hread.ret_eq hread.fPos_eq hread.length_eq ?_ ht
    ht' ?_
  · intro i hW
    rw [hsyspos] at hW
    exact hread.bytes_eq i hW
  · rw [heop]
    refine h.unmoved.next (PrivSys.device_after hid hdev file res)
      (PrivSys.device_after hid' hdev' file res') ?_ rfl rfl hread.fPos_eq
    simp only [hkeep, hkeep']
    exact halike

/-- A write of the terminal, with memory available, in both runs. -/
theorem write (h : Pair params tty k a a') (hop : e'.op = e.op) {file count : ℕ} {src : UserBuffer}
    {f : PrivFile} (heop : e.op = .scullWrite file count src false) (hk : tty file = some k)
    (hf : a.sys.files file = some f) (hfit : PosFits params f.pos) (hample : e.env.Ample)
    (hample' : e'.env.Ample) :
    ∃ r t r' t', a.step params tty e = some (r, t) ∧ a'.step params tty e' = some (r', t') ∧
      ReplyAlike r r' ∧ Pair params tty k t t' := by
  have hfile : e.op.file = file := by rw [heop]; rfl
  obtain ⟨f', x, x', hf', hpos, ⟨hx, hid, hdev⟩, ⟨hx', hid', hdev'⟩, halike⟩ :=
    h.unmoved.exists_devices h.left h.right hk hf
  obtain ⟨p, hp⟩ := Int.eq_ofNat_of_zero_le (h.left.file file f hf).2.1
  have hsyspos : a.sys.pos e.op.file = p := by rw [hfile, PrivSys.pos_eq hf, hp, Int.toNat_natCast]
  obtain ⟨res, hres, hst, ht⟩ := h.left.write_spec heop hf hx hid hfit
  obtain ⟨res', hres', hst', ht'⟩ :=
    h.right.write_spec (hop.trans heop) hf' hx' hid' (by rw [hpos]; exact hfit)
  have hfits := h.left.itemFits hx hfit
  rw [hp] at hfits
  rw [hp] at hres
  rw [hpos, hp] at hres'
  obtain ⟨res₁, res₁', hres₁, hres₁', hret, hfPos, hbytes, hnext⟩ :=
    halike.write (h.left.dev x hx).1 (h.right.dev x' hx').1 hfits a.sys.heap a'.sys.heap count src
      hample hample'
  obtain rfl : res = res₁ := Option.some.inj (hres.symm.trans hres₁)
  obtain rfl : res' = res₁' := Option.some.inj (hres'.symm.trans hres₁')
  refine h.recorded hop (hfile ▸ hk) hst hst' hret hfPos (congrArg List.length hbytes)
    (fun i _ => congrArg (fun bytes => bytes[i]?) hbytes) ht ht' ?_
  rw [hsyspos, heop]
  exact h.unmoved.next (PrivSys.device_after hid hdev file res)
    (PrivSys.device_after hid' hdev' file res') hnext rfl rfl hfPos

theorem llseek (h : Pair params tty k a a') (hop : e'.op = e.op) {file : ℕ} {off : Int64}
    {whence : Int32} {f : PrivFile} (heop : e.op = .scullLlseek file off whence)
    (hk : tty file = some k) (hf : a.sys.files file = some f) :
    ∃ r t r' t', a.step params tty e = some (r, t) ∧ a'.step params tty e' = some (r', t') ∧
      ReplyAlike r r' ∧ Pair params tty k t t' := by
  have hfile : e.op.file = file := by rw [heop]; rfl
  obtain ⟨f', x, x', hf', hpos, ⟨hx, hid, hdev⟩, ⟨hx', hid', hdev'⟩, halike⟩ :=
    h.unmoved.exists_devices h.left h.right hk hf
  obtain ⟨t, hst, hitems, hfiles, ht⟩ := h.left.llseek_spec heop hf hx hid
  obtain ⟨t', hst', hitems', hfiles', ht'⟩ := h.right.llseek_spec (hop.trans heop) hf' hx' hid'
  have hsame : scullLlseek x'.dev f'.pos off whence = scullLlseek x.dev f.pos off whence := by
    rw [scullLlseek, halike.size_eq, hpos, scullLlseek]
  rw [hsame] at hst' hfiles'
  refine h.recorded hop (hfile ▸ hk) hst hst' rfl rfl rfl (fun _ _ => rfl) ht ht' ?_
  rw [heop]
  refine h.unmoved.next ?_ ?_ halike hfiles hfiles' rfl
  · rw [PrivSys.device, hitems]
    exact hdev
  · rw [PrivSys.device, hitems']
    exact hdev'

/-- An open of the terminal, with memory for a new device, in both runs. -/
theorem opened (h : Pair params tty k a a') (hgood : GoodGeometry params.quantum params.qset)
    (hop : e'.op = e.op) {file : ℕ} {mode : AccMode} (heop : e.op = .scullCOpen file mode)
    (hk : tty file = some k) (hitem : e.item = true) (hitem' : e'.item = true) :
    ∃ r t r' t', a.step params tty e = some (r, t) ∧ a'.step params tty e' = some (r', t') ∧
      ReplyAlike r r' ∧ Pair params tty k t t' := by
  have hfile : e.op.file = file := by rw [heop]; rfl
  obtain ⟨x, dev, t, hst, hkey, hx, hdev, hfiles, ht⟩ := h.left.open_spec hgood heop hitem hk
  obtain ⟨x', dev', t', hst', hkey', hx', hdev', hfiles', ht'⟩ :=
    h.right.open_spec hgood (hop.trans heop) hitem' hk
  refine h.recorded hop (hfile ▸ hk) hst hst' rfl rfl rfl (fun _ _ => rfl) ht ht' ?_
  refine h.unmoved.next (device_of_open hkey (hx.imp_right fun hnew => ⟨hnew.1, hnew.2.1⟩))
    (device_of_open hkey' (hx'.imp_right fun hnew => ⟨hnew.1, hnew.2.1⟩)) ?_ hfiles hfiles' rfl
  rw [heop]
  by_cases hmode : mode = .wronly
  · rw [if_pos hmode] at hdev hdev'
    simp only [PrivOp.record, hmode, true_and, if_true, hdev, hdev']
    exact Alike.empty _ _
  rw [if_neg hmode] at hdev hdev'
  simp only [PrivOp.record, hmode, false_and, if_false, hdev, hdev']
  rcases hx with ⟨hfind, -⟩ | ⟨hnone, -, hempty⟩
  · obtain ⟨y, hy, halike⟩ := h.unmoved.alike x hfind
    rcases hx' with ⟨hfind', -⟩ | ⟨hnone', -⟩
    · obtain rfl : y = x' := Option.some.inj (hy.symm.trans hfind')
      exact halike
    · exact absurd (hy.symm.trans hnone') (by simp)
  · obtain ⟨hnone', hW⟩ := h.unmoved.unwritten hnone
    rcases hx' with ⟨hfind', -⟩ | ⟨-, -, hempty'⟩
    · exact absurd (hnone'.symm.trans hfind') (by simp)
    · rw [hempty, hempty']
      exact (Alike.empty _ _).mono hW

/-- **A call of the terminal.** In both runs it has the same answer, but for bytes that the terminal
never wrote, and it leaves states of which the terminal sees the same. -/
theorem own (h : Pair params tty k a a') (hgood : GoodGeometry params.quantum params.qset)
    (he : Served params a.sys e) (hk : tty e.op.file = some k) (hsame : SameCall e e') :
    ∃ r t r' t', a.step params tty e = some (r, t) ∧ a'.step params tty e' = some (r', t') ∧
      ReplyAlike r r' ∧ Pair params tty k t t' := by
  obtain ⟨hop, hitem', hample'⟩ := hsame
  cases heop : e.op with
  | scullCOpen file mode =>
    simp only [Served, heop] at he
    rw [heop] at hk
    exact h.opened hgood hop heop hk he hitem'
  | scullRead file count room lockIntr =>
    simp only [Served, heop] at he
    obtain ⟨f, hf, hfit⟩ := he
    have hfile : e.op.file = file := by rw [heop]; rfl
    cases lockIntr with
    | false => exact h.read hop heop (hfile ▸ hk) hf hfit
    | true =>
      refine h.interrupted hop hk (hfile ▸ hf) ?_ (fun f' hf' => ?_) ?_
      · simp only [PrivSys.step, heop]
        exact h.left.interrupted hf _
      · rw [hfile] at hf'
        simp only [PrivSys.step, hop, heop]
        exact h.right.interrupted hf' _
      · rw [heop]
        exact fun x hx => hx
  | scullWrite file count src lockIntr =>
    simp only [Served, heop] at he
    obtain ⟨⟨f, hf, hfit⟩, hample⟩ := he
    have hfile : e.op.file = file := by rw [heop]; rfl
    cases lockIntr with
    | false => exact h.write hop heop (hfile ▸ hk) hf hfit hample hample'
    | true =>
      refine h.interrupted hop hk (hfile ▸ hf) ?_ (fun f' hf' => ?_) ?_
      · simp only [PrivSys.step, heop]
        exact h.left.interrupted hf _
      · rw [hfile] at hf'
        simp only [PrivSys.step, hop, heop]
        exact h.right.interrupted hf' _
      · rw [heop]
        exact Alike.extend_of_nonpos (by decide)
  | scullLlseek file off whence =>
    simp only [Served, heop] at he
    obtain ⟨f, hf⟩ := he
    rw [heop] at hk
    exact h.llseek hop heop hk hf

end Pair

/-! ### One device for a terminal -/

/-- The list has a device for the terminal `k` with the identity `id`. -/
def PrivSys.Lists (s : PrivSys) (k : UInt32) (id : ℕ) : Prop := ∃ x ∈ s.items, x.key = k ∧ x.id = id

theorem lists_setDev {items : List Item} {id : ℕ} {dev : ScullDev} {x : Item} (hx : x ∈ items) :
    ∃ y ∈ setDev items id dev, y.key = x.key ∧ y.id = x.id := by
  refine ⟨_, List.mem_map_of_mem hx, ?_⟩
  split_ifs <;> exact ⟨rfl, rfl⟩

/-- Devices stay in the list, and an open finds the device of its terminal there. -/
theorem Moved.lists {ans : PrivAnswer} {t : PrivSys} (h : Moved tty s e ans t) :
    (∀ k id, s.Lists k id → t.Lists k id) ∧
      ∀ k, e.Opens tty k → ans.ret = 0 ∧ ∃ id, ans.dev = some id ∧ t.Lists k id := by
  cases h with
  | stay hts hopens => exact ⟨fun k id hid => hts ▸ hid, fun k hk => absurd hk (hopens k)⟩
  | @opened key lptr dev htty hkey hitems hans _ =>
    constructor
    · rintro k _ ⟨x, hx, rfl, rfl⟩
      rcases hitems with ⟨-, hitems⟩ | ⟨-, hitems⟩
      · simp only [PrivSys.Lists, hitems]
        exact lists_setDev hx
      · simp only [PrivSys.Lists, hitems]
        exact lists_setDev (List.mem_cons_of_mem lptr hx)
    · rintro k ⟨file, mode, hop, hfile⟩
      have hof : e.op.file = file := by rw [hop]; rfl
      obtain rfl : key = k := Option.some.inj (htty.symm.trans (hof ▸ hfile))
      refine ⟨hans.1, lptr.id, hans.2, { lptr with dev := dev }, ?_, hkey, rfl⟩
      exact List.mem_of_find?_eq_some (device_of_open hkey hitems)
  | @used lptr dev f hlptr _ hitems _ hopens =>
    refine ⟨?_, fun k hk => absurd hk (hopens k)⟩
    rintro k _ ⟨x, hx, rfl, rfl⟩
    simp only [PrivSys.Lists, hitems]
    exact lists_setDev hx
  | sought hitems _ hopens =>
    refine ⟨fun k id hlists => ?_, fun k hk => absurd hk (hopens k)⟩
    simp only [PrivSys.Lists, hitems]
    exact hlists

/-- No recorded call is stuck, and every one preserves the invariant. -/
theorem PrivRep.step_log {a : PrivLog} (h : PrivRep params tty a.sys)
    (hgood : GoodGeometry params.quantum params.qset) (he : Served params a.sys e) :
    ∃ r b, a.step params tty e = some (r, b) ∧ PrivRep params tty b.sys ∧
      Moved tty a.sys e r.toPrivAnswer b.sys := by
  obtain ⟨ans, t, hst, ht, hmoved⟩ := h.step hgood he
  cases hk : tty e.op.file with
  | none =>
    exact ⟨⟨ans, fun _ => False⟩, ⟨t, a.written⟩,
      by simp only [PrivLog.step, hst, Option.map_some, hk],
      ht, hmoved⟩
  | some k => exact ⟨_, _, PrivLog.step_eq hst hk, ht, hmoved⟩

/-- Every open of a run finds the device that the last state of the run has for its terminal. -/
theorem exec_lists (hgood : GoodGeometry params.quantum params.qset) {a b : PrivLog}
    {es : List PrivEvent} {rs : List PrivReply} (ha : PrivRep params tty a.sys)
    (hes : Guarded (PrivLog.step params tty) (fun a e => Served params a.sys e) a es)
    (hrun : exec (PrivLog.step params tty) a es = some (rs, b)) :
    (∀ k id, a.sys.Lists k id → b.sys.Lists k id) ∧
      (∀ e r, (e, r) ∈ es.zip rs → ∀ k, e.Opens tty k →
        r.ret = 0 ∧ ∃ id, r.dev = some id ∧ b.sys.Lists k id) ∧
      ∀ e ∈ es, ∀ k, e.Opens tty k → ∃ id, b.sys.Lists k id := by
  induction es generalizing a rs with
  | nil =>
    cases hrun
    exact ⟨fun k id h => h, by simp, by simp⟩
  | cons e es ih =>
    obtain ⟨r, c, rs, hst, hrest, rfl⟩ := exec_cons_eq_some.mp hrun
    obtain ⟨r', c', hst', hc, hmoved⟩ := ha.step_log hgood hes.1
    rw [hst] at hst'
    cases hst'
    obtain ⟨hstay, hfound⟩ := hmoved.lists
    obtain ⟨hstay', hfound', hlisted⟩ := ih hc (hes.2 r c hst) hrest
    refine ⟨fun k id h => hstay' k id (hstay k id h), ?_, ?_⟩
    · intro e₁ r₁ hmem k hk
      rw [List.zip_cons_cons, List.mem_cons] at hmem
      rcases hmem with heq | hmem
      · cases heq
        obtain ⟨hret, id, hdev, hid⟩ := hfound k hk
        exact ⟨hret, id, hdev, hstay' k id hid⟩
      · exact hfound' e₁ r₁ hmem k hk
    · intro e₁ hmem k hk
      rcases List.mem_cons.mp hmem with rfl | hmem
      · obtain ⟨-, id, -, hid⟩ := hfound k hk
        exact ⟨id, hstay' k id hid⟩
      · exact hlisted e₁ hmem k hk

/-- **The private devices isolate terminals.** Take any run of opens, reads, writes and seeks, with
the parameters fixed, at positions whose quantum set has a number that is an `int`, and with memory
available. The list never has two devices with one key. All opens of a terminal find the same
device, and those of another one a different device. And take away all calls on files of other
terminals, and let the allocator fill fresh quanta with something else: the calls on files of the
terminal return the same, leave the same positions, and read the same bytes at the positions that
were written under the terminal since its device was last emptied.

Source: `ldd/scull/access.c`, lines 249–299; `ldd/scull/main.c`, lines 294–389. -/
theorem scullpriv_isolates_terminals (hgood : GoodGeometry params.quantum params.qset)
    {es : List PrivEvent}
    (hes : Guarded (PrivLog.step params tty) (fun a e => Served params a.sys e) .load es) :
    ∃ rs b, exec (PrivLog.step params tty) .load es = some (rs, b) ∧
      Always (PrivLog.step params tty) (fun a => (a.sys.items.map Item.key).Nodup) .load es ∧
      (∃ device : UInt32 → ℕ,
        (∀ e r, (e, r) ∈ es.zip rs → ∀ k, e.Opens tty k →
          r.ret = 0 ∧ r.dev = some (device k)) ∧
        ∀ e ∈ es, ∀ e' ∈ es, ∀ k k', e.Opens tty k → e'.Opens tty k' →
          device k = device k' → k = k') ∧
      ∀ k es', List.Forall₂ SameCall (es.filter fun e => tty e.op.file = some k) es' →
        ∃ rs' b', exec (PrivLog.step params tty) .load es' = some (rs', b') ∧
          List.Forall₂ ReplyAlike (repliesOf (fun e => tty e.op.file = some k) es rs) rs' := by
  have hload : PrivRep params tty PrivLog.load.sys := .load
  have hstep : ∀ (a : PrivLog) e, PrivRep params tty a.sys → Served params a.sys e →
      ∃ r b, a.step params tty e = some (r, b) ∧ PrivRep params tty b.sys := by
    intro a e ha he
    obtain ⟨r, b, hst, hb, -⟩ := ha.step_log hgood he
    exact ⟨r, b, hst, hb⟩
  obtain ⟨rs, b, hrun, hb⟩ := exec_progress _ hstep hload hes
  obtain ⟨-, hfound, hlisted⟩ := exec_lists hgood hload hes hrun
  refine ⟨rs, b, hrun, ?_, ?_, ?_⟩
  · refine (always_of_invariant (fun a : PrivLog => PrivRep params tty a.sys) ?_ hload hes).mono
      fun _ ha => ha.keys
    intro a e r c ha he hst
    obtain ⟨r', c', hst', hc⟩ := hstep a e ha he
    rw [hst] at hst'
    cases hst'
    exact hc
  · have hdevice : ∀ k id, b.sys.Lists k id → b.sys.deviceId k = id := by
      rintro _ _ ⟨x, hx, rfl, rfl⟩
      rw [PrivSys.deviceId, PrivSys.device, hb.find?_key hx]
      rfl
    refine ⟨b.sys.deviceId, ?_, ?_⟩
    · intro e r hmem k hk
      obtain ⟨hret, id, hdev, hid⟩ := hfound e r hmem k hk
      exact ⟨hret, by rw [hdev, hdevice k id hid]⟩
    · intro e he e' he' k k' hk hk' heq
      obtain ⟨id, hid⟩ := hlisted e he k hk
      obtain ⟨id', hid'⟩ := hlisted e' he' k' hk'
      rw [hdevice k id hid, hdevice k' id' hid'] at heq
      obtain ⟨x, hx, rfl, rfl⟩ := hid
      obtain ⟨x', hx', rfl, hxid'⟩ := hid'
      exact congrArg Item.key (List.inj_on_of_nodup_map hb.ids hx hx' (heq.trans hxid'.symm))
  · intro k es' hes'
    have hpair : Pair params tty k .load .load := ⟨.load, .load, .load⟩
    have hother : ∀ (a a' : PrivLog) e r c, Pair params tty k a a' → Served params a.sys e →
        decide (tty e.op.file = some k) = false → a.step params tty e = some (r, c) →
        Pair params tty k c a' := by
      intro a a' e r c h he hk hst
      obtain ⟨r', c', hst', hc⟩ := hstep a e h.left he
      rw [hst] at hst'
      cases hst'
      exact ⟨hc, h.right, h.unmoved.other h.left hgood he hst (by simpa using hk)⟩
    obtain ⟨rs', b', hrun', hall, -⟩ := exec_unwinding (Pair params tty k) hother
      (fun a a' e e' h he hk hsame => h.own hgood he (by simpa using hk) hsame) hpair hes hrun hes'
    exact ⟨rs', b', hrun', hall⟩

/-- The files of two terminals: the file 0 is of the terminal 1, all others of the terminal 2. -/
def twoTerminals (file : ℕ) : Option UInt32 := if file = 0 then some 1 else some 2

/-- Two terminals open their devices and write to them; fresh quanta are filled with `b`. -/
def twoWriters (b : UInt8) : List PrivEvent :=
  [⟨.scullCOpen 0 .rdwr, true, ⟨fun _ => true, true, some fun _ => b⟩⟩,
    ⟨.scullCOpen 1 .wronly, true, ⟨fun _ => true, true, some fun _ => b⟩⟩,
    ⟨.scullWrite 0 3 ⟨[1, 2, 3], []⟩ false, true, ⟨fun _ => true, true, some fun _ => b⟩⟩,
    ⟨.scullWrite 1 2 ⟨[8, 9], []⟩ false, true, ⟨fun _ => true, true, some fun _ => b⟩⟩]

/-- The first terminal without the second one, and with another filling. -/
theorem scullpriv_isolates_two_terminals :
    ∃ rs b rs' b',
      exec (PrivLog.step .default twoTerminals) .load (twoWriters 7) = some (rs, b) ∧
      exec (PrivLog.step .default twoTerminals) .load
        ((twoWriters 5).filter fun e => twoTerminals e.op.file = some 1) = some (rs', b') ∧
      List.Forall₂ ReplyAlike
        (repliesOf (fun e => twoTerminals e.op.file = some 1) (twoWriters 7) rs) rs' := by
  have hserved : Guarded (PrivLog.step .default twoTerminals)
      (fun a e => Served .default a.sys e) .load (twoWriters 7) := by
    refine ⟨rfl, fun _ _ h => ?_⟩
    cases h
    refine ⟨rfl, fun _ _ h => ?_⟩
    cases h
    refine ⟨⟨⟨_, rfl, by unfold PosFits; decide⟩, ⟨fun _ => rfl, rfl, rfl⟩⟩, fun _ _ h => ?_⟩
    cases h
    exact ⟨⟨⟨_, rfl, by unfold PosFits; decide⟩, ⟨fun _ => rfl, rfl, rfl⟩⟩, fun _ _ _ => trivial⟩
  obtain ⟨rs, b, hrun, -, -, hisolated⟩ :=
    scullpriv_isolates_terminals ⟨by decide, by decide, by decide⟩ hserved
  obtain ⟨rs', b', hrun', hall⟩ := hisolated 1
    ((twoWriters 5).filter fun e => twoTerminals e.op.file = some 1)
    (.cons ⟨rfl, rfl, fun _ => rfl, rfl, rfl⟩ (.cons ⟨rfl, rfl, fun _ => rfl, rfl, rfl⟩ .nil))
  exact ⟨rs, b, rs', b', hrun, hrun', hall⟩

end Terminals

end ExKernel.Private
