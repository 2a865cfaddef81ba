import ExKernel.Scull.Store
import ExKernel.Scull.Twin
import ExKernel.Scullp.Embedding
import ExKernel.Scullp.System

/-!
# scull and scullp are the same store

A scull device with quanta of `PAGE_SIZE` bytes and a scullp device of order 0 are given the same
calls. They return the same values and stay at the same positions, and they deliver the same bytes
where something was written since they were last emptied. Elsewhere scull delivers what its fresh
quanta have, and scullp zeroes.

The positions that were written are recorded along the run.

## Main definitions

* `Scullp.Both`, `Scullp.BothCall`, `Scullp.Both.step`: a device of each driver, and a call on both.
* `Scullp.Agree`: what is the same about two answers.
* `Scullp.Same`: the relation between the two devices.

## Main results

* `Scullp.Same.read`, `Scullp.Same.write`, `Scullp.Same.step`: single calls.
* `Scullp.scullp_is_scull`: the two devices over all runs.

## References

* `ldd/scull/main.c`, lines 62–83, 240–389 and 524–548; `ldd/scullp/main.c`, lines 117–263,
  363–387 and 413–441.
-/

namespace ExKernel.Scullp

open Transition
open Scull (AccMode Alike AllocEnv Answer Copied DevRep GoodGeometry ItemFits ReadEffect ScullDev
  ScullOp ScullSys quantumAt)

/-! ### Two devices -/

/-- A call that is made on both devices, with the answers of the allocator to each of them. -/
inductive BothCall
  | openFile (file : ℕ) (mode : AccMode) (lockIntr : Bool)
  | read (file count room : ℕ) (lockIntr : Bool) (env env' : AllocEnv)
  | write (file count : ℕ) (src : UserBuffer) (lockIntr : Bool) (env env' : AllocEnv)
  | llseek (file : ℕ) (off : Int64) (whence : Int32)

namespace BothCall

/-- The call on the scull device. -/
def scull : BothCall → ScullOp
  | openFile file mode lockIntr => .scullOpen file mode lockIntr
  | read file count room lockIntr env _ => .scullRead file count room lockIntr env
  | write file count src lockIntr env _ => .scullWrite file count src lockIntr env
  | llseek file off whence => .scullLlseek file off whence

/-- The call on the scullp device. -/
def scullp : BothCall → ScullpOp
  | openFile file mode lockIntr => .scullpOpen file mode lockIntr
  | read file count room lockIntr _ env' => .scullpRead file count room lockIntr env'
  | write file count src lockIntr _ env' => .scullpWrite file count src lockIntr env'
  | llseek file off whence => .scullpLlseek file off whence

/-- The positions that were written after a call with the return value `ret`, where `pos` has the
position of each file before it. -/
def record (W : ℕ → Prop) (pos : ℕ → ℤ) (ret : ℤ) : BothCall → ℕ → Prop
  | openFile _ mode _ => if mode = .wronly ∧ ret = 0 then fun _ => False else W
  | write file .. => Alike.extend W (pos file).toNat ret
  | _ => W

/-- Which bytes of an answer must be the same: those of a read that come from positions that were
written, and all that a write has accepted. -/
def known (W : ℕ → Prop) (pos : ℕ → ℤ) : BothCall → ℕ → Prop
  | read file .. => fun i => W ((pos file).toNat + i)
  | _ => fun _ => True

end BothCall

/-- A device of each driver, with their files, and the positions that were written since the devices
were last emptied. -/
structure Both where
  scull : ScullSys
  scullp : ScullpSys
  written : ℕ → Prop

/-- The two modules as they are loaded. -/
def Both.load (params : Scull.Params) (params' : ScullpParams) : Both :=
  ⟨.load params, .load params', fun _ => False⟩

/-- The answers of the two devices, and which bytes must be the same. -/
structure BothAnswer where
  scull : Answer
  scullp : Answer
  known : ℕ → Prop

/-- One call on both devices. -/
def Both.step (b : Both) (c : BothCall) : Option (BothAnswer × Both) :=
  (b.scull.step c.scull).bind fun out =>
    (b.scullp.step c.scullp).map fun out' =>
      (⟨out.1, out'.1, c.known b.written b.scull.files⟩,
        ⟨out.2, out'.2, c.record b.written b.scull.files out.1.ret⟩)

/-- The calls: with sizes that the file system layer passes on, at positions whose list item has a
number that is an `int`, with memory available and copies that succeed. -/
def BothServed (b : Both) : BothCall → Prop
  | .read file count room lockIntr env env' =>
    Scull.StoreCall b.scull (.scullRead file count room lockIntr env) ∧ env'.Ample
  | .write file count src lockIntr env env' =>
    Scull.StoreCall b.scull (.scullWrite file count src lockIntr env) ∧ env'.Ample
  | _ => True

/-- Two answers agree: the return values are the same, and so are the bytes where they must be;
other bytes of the second answer are 0. -/
structure Agree (r : BothAnswer) : Prop where
  ret_eq : r.scullp.ret = r.scull.ret
  length_eq : r.scullp.bytes.length = r.scull.bytes.length
  bytes_eq : ∀ i, r.known i → r.scullp.bytes[i]? = r.scull.bytes[i]?
  zero : ∀ i b, ¬ r.known i → r.scullp.bytes[i]? = some b → b = 0

theorem Agree.of_eq {a a' : Answer} {known : ℕ → Prop} (h : a' = a) (hknown : ∀ i, known i) :
    Agree ⟨a, a', known⟩ where
  ret_eq := congrArg Answer.ret h
  length_eq := congrArg (List.length ∘ Answer.bytes) h
  bytes_eq i _ := congrArg (fun a => a.bytes[i]?) h
  zero i _ hnot := absurd (hknown i) hnot

/-! ### Bytes that were never written -/

/-- Bytes that were never written are 0. -/
def Zeroed (W : ℕ → Prop) (dev : ScullDev) : Prop :=
  ∀ k q, quantumAt dev.s dev.data k = some q → ∀ o < dev.q, ¬ W (k * dev.q + o) →
    q.cells (o : ℕ) = 0

theorem Zeroed.congr {W : ℕ → Prop} {dev dev' : ScullDev} (h : Zeroed W dev)
    (hquantum : dev'.quantum = dev.quantum) (hqset : dev'.qset = dev.qset)
    (hat : ∀ k, quantumAt dev.s dev'.data k = quantumAt dev.s dev.data k) : Zeroed W dev' := by
  have hq : dev'.q = dev.q := congrArg (fun x : Int32 => x.toInt.toNat) hquantum
  have hs : dev'.s = dev.s := congrArg (fun x : Int32 => x.toInt.toNat) hqset
  rw [Zeroed, hq, hs]
  intro k q hk
  rw [hat] at hk
  exact h k q hk

/-- A write that comes to its copy, with a fresh block that is cleared. -/
theorem Zeroed.copied {W : ℕ → Prop} {dev : ScullDev} {res : Scull.IoResult} {n p m : ℕ}
    {src : UserBuffer} {fresh : Option (ℤ → UInt8)} (h : Zeroed W dev)
    (hfresh : ∀ cells, fresh = some cells → ∀ o < dev.q, cells (o : ℕ) = 0)
    (hq : res.dev.q = dev.q) (hs : res.dev.s = dev.s) (hm : m ≤ src.bytes.length)
    (hres : Copied dev.q dev.s n (p / dev.q) dev p m src fresh res) :
    Zeroed (Alike.extend W p m) res.dev := by
  obtain ⟨q₀, hat, hold, hnew⟩ := hres.stored
  intro k q hk o ho hnot
  rw [hq] at ho hnot
  rw [hs, hat] at hk
  have hW : ¬ W (k * dev.q + o) := fun hW => hnot (.inl hW)
  split_ifs at hk with hkp
  · cases hk
    subst hkp
    have hbefore : q₀.cells (o : ℕ) = 0 := by
      cases hprev : quantumAt dev.s dev.data (p / dev.q) with
      | none => exact hfresh _ (hnew hprev) o ho
      | some old =>
        rw [hold old hprev]
        exact h _ old hprev o ho hW
    have hout : o < p % dev.q ∨ p % dev.q + m ≤ o := by
      by_contra hin
      refine hnot (.inr ?_)
      have hdiv := Nat.div_add_mod' p dev.q
      omega
    have hlen : (src.copied m).length = m := by
      rw [UserBuffer.copied, if_pos hm, List.length_take_of_le hm]
    simp only [copyFromUser_snd]
    rcases hout with hlt | hge
    · rw [Cells.store_of_lt _ _ _ (by omega), hbefore]
    · rw [Cells.store_of_ge _ _ _ (by omega), hbefore]
  · exact h k q hk o ho hW

theorem cleared_zero {dev : ScullpDev} {env : AllocEnv} (cells : ℤ → UInt8)
    (h : (cleared env).quantum = some cells) (o : ℕ) (ho : o < dev.embed.q) :
    cells (o : ℕ) = 0 := by
  obtain ⟨contents, -, rfl⟩ := Option.map_eq_some_iff.mp h
  have hq : dev.embed.q = pageBytes 0 := rfl
  exact if_pos ⟨by omega, by omega⟩

theorem Zeroed.delivered {W : ℕ → Prop} {dev : ScullDev} {res : Scull.IoResult} {p m room : ℕ}
    (h : Zeroed W dev) (hm : m ≤ dev.q - p % dev.q)
    (hres : ReadEffect dev.q dev.s (p / dev.q) dev p m room res) {i : ℕ} {b : UInt8}
    (hW : ¬ W (p + i)) (hb : res.bytes[i]? = some b) : b = 0 := by
  cases hres with
  | nothing _ hbytes =>
    rw [hbytes] at hb
    cases hb
  | fault _ _ _ _ hbytes =>
    rw [hbytes] at hb
    cases hb
  | @delivered q _ hq _ _ hbytes _ =>
    have hi : i < m := by
      have hlt := (List.getElem?_eq_some_iff.mp hb).1
      rwa [hbytes, Cells.length_load] at hlt
    have hpos : p / dev.q * dev.q + (p % dev.q + i) = p + i := by
      have hdiv := Nat.div_add_mod' p dev.q
      omega
    rw [hbytes, Cells.getElem?_load _ _ hi] at hb
    have hzero := h _ q hq (p % dev.q + i) (by omega) (by rwa [hpos])
    rw [Nat.cast_add] at hzero
    rw [← Option.some.inj hb, hzero]

/-! ### Single calls -/

/-- The relation between the two devices, where `W` are the positions that were written. -/
structure Same (W : ℕ → Prop) (s : ScullSys) (t : ScullpSys) : Prop where
  quantum_eq : s.params.quantum = pageInt
  order_eq : t.params.order = 0
  qset_eq : t.params.qset = s.params.qset
  good : GoodGeometry pageInt s.params.qset
  left : DevRep s.dev
  right : DevRep t.dev.embed
  plain : Plain t.dev
  vmas_eq : t.dev.vmas = 0
  alike : Alike W s.dev t.dev.embed
  zeroed : Zeroed W t.dev.embed
  files_eq : t.files = s.files
  pos : ∀ file, 0 ≤ s.files file ∧ s.files file < 2 ^ 63

theorem blank_embed {dev : ScullpDev} (hdata : dev.data = none) (hnext : dev.next = []) :
    dev.embed = ⟨[⟨scullpDevices, none⟩], pageInt, dev.qset, dev.size⟩ := by
  rw [ScullpDev.embed, ScullpDev.items, hdata, hnext]
  rfl

theorem quantumAt_blank (S id k : ℕ) : quantumAt S [⟨id, none⟩] k = none := by
  rw [quantumAt]
  cases k / S <;> rfl

namespace Same

variable {W : ℕ → Prop} {s : ScullSys} {t : ScullpSys}

theorem blank (hquantum : s.params.quantum = pageInt) (horder : t.params.order = 0)
    (hqset : t.params.qset = s.params.qset) (hgood : GoodGeometry pageInt s.params.qset)
    (hdev : s.dev = ⟨[], s.params.quantum, s.params.qset, 0⟩)
    (hdev' : t.dev = ⟨none, [], 0, t.params.order, t.params.qset, 0⟩)
    (hfiles : t.files = s.files) (hpos : ∀ file, 0 ≤ s.files file ∧ s.files file < 2 ^ 63) :
    Same (fun _ => False) s t := by
  have hembed : t.dev.embed = ⟨[⟨scullpDevices, none⟩], pageInt, s.params.qset, 0⟩ := by
    rw [blank_embed (by rw [hdev']) (by rw [hdev']), hdev', hqset]
  refine ⟨hquantum, horder, hqset, hgood, ?_, ?_, ⟨?_, ?_⟩, ?_, ?_, ?_, hfiles, hpos⟩
  · rw [hdev, hquantum]
    exact .empty hgood
  · rw [hembed]
    refine ⟨hgood, fun dptr hd arr harr => ?_, by simp, by simp⟩
    rw [List.mem_singleton.mp hd] at harr
    cases harr
  · rw [hdev']
    exact horder
  · rw [hdev']
    simp
  · rw [hdev']
  · rw [hembed, hdev, hquantum]
    refine ⟨rfl, rfl, rfl, fun k => ?_, fun _ hW => hW.elim, fun _ hW => hW.elim⟩
    simp only [quantumAt_blank]
    rfl
  · intro k q hq
    rw [hembed] at hq
    simp only [quantumAt_blank] at hq
    cases hq

theorem load {params : Scull.Params} {params' : ScullpParams} (hquantum : params.quantum = pageInt)
    (horder : params'.order = 0) (hqset : params'.qset = params.qset)
    (hgood : GoodGeometry pageInt params.qset) :
    Same (fun _ => False) (.load params) (.load params') :=
  .blank hquantum horder hqset hgood rfl rfl rfl fun _ =>
    (by decide : (0 : ℤ) ≤ 0 ∧ (0 : ℤ) < 2 ^ 63)

theorem exists_pos (h : Same W s t) (file : ℕ) : ∃ p : ℕ, s.files file = p :=
  Int.eq_ofNat_of_zero_le (h.pos file).1

theorem pos_update (h : Same W s t) {file : ℕ} {x : ℤ} (hx : 0 ≤ x ∧ x < 2 ^ 63) (f : ℕ) :
    0 ≤ Function.update s.files file x f ∧ Function.update s.files file x f < 2 ^ 63 := by
  rcases eq_or_ne f file with rfl | hf
  · rwa [Function.update_self]
  · rw [Function.update_of_ne hf]
    exact h.pos f

theorem seek (h : Same W s t) {file : ℕ} {x : ℤ} (hx : 0 ≤ x ∧ x < 2 ^ 63) :
    Same W { s with files := Function.update s.files file x }
      { t with files := Function.update t.files file x } := by
  refine ⟨h.quantum_eq, h.order_eq, h.qset_eq, h.good, h.left, h.right, h.plain, h.vmas_eq, h.alike,
    h.zeroed, ?_, h.pos_update hx⟩
  simp only [h.files_eq]

theorem after (h : Same W s t) {W' : ℕ → Prop} {file : ℕ} {res : Scull.IoResult}
    {res' : ScullpResult} {P : ℕ → Prop} (hleft : DevRep res.dev) (hright : DevRep res'.dev.embed)
    (hgrown : Grown P t.dev t.heap res'.dev res'.heap) (halike : Alike W' res.dev res'.dev.embed)
    (hzeroed : Zeroed W' res'.dev.embed) (hfPos : res'.fPos = res.fPos)
    (hpos : 0 ≤ res.fPos ∧ res.fPos < 2 ^ 63) :
    Same W' (s.after file res).2 (t.after file res').2 := by
  refine ⟨h.quantum_eq, h.order_eq, h.qset_eq, h.good, hleft, hright, h.plain.grown hgrown,
    hgrown.vmas_eq.trans h.vmas_eq, halike, hzeroed, ?_, h.pos_update hpos⟩
  simp only [ScullpSys.after, ScullSys.after, h.files_eq, hfPos]

/-- **A read on both devices**, before the end of the data and after it. -/
theorem read (h : Same W s t) {file count room : ℕ} {env env' : AllocEnv}
    (hcall : Scull.StoreCall s (.scullRead file count room false env)) (hample : env'.Ample) :
    ∃ res res',
      Scull.scullReadLocked s.dev.quantum s.dev.qset s.dev s.heap (s.files file) count room env =
        some res ∧
      scullpRead t.dev t.heap (t.files file) count room false env' = some res' ∧
      Same W (s.after file res).2 (t.after file res').2 ∧
      Agree ⟨⟨res.ret, res.bytes⟩, ⟨res'.ret, res'.bytes⟩,
        fun i => W ((s.files file).toNat + i)⟩ := by
  obtain ⟨hcount, hfit, -⟩ := hcall
  obtain ⟨p, hp⟩ := h.exists_pos file
  rw [hp] at hfit ⊢
  rw [h.files_eq, hp, Int.toNat_natCast]
  obtain ⟨hlt, -, -⟩ := h.left.pos_bounds hfit
  have hfit' := h.alike.itemFits hfit
  have hsize : t.dev.size = s.dev.size := h.alike.size_eq
  obtain ⟨res, hres, hdev, -, hpos, -, heffect⟩ := h.left.read_spec hfit s.heap count room env
  rcases lt_or_ge p t.dev.size with hbefore | hend
  · obtain ⟨res₁, hres₁, hdev₁, -, -, -, heffect₁⟩ :=
      h.right.read_spec hfit' t.heap count room env'
    have hbefore' : sizeT (p : ℤ) < t.dev.size := by rwa [sizeT_natCast (by omega)]
    have hembed := read_embed h.plain hample.node t.heap hbefore' count room
    rw [show Scull.scullReadLocked pageInt t.dev.qset t.dev.embed t.heap p count room env' = _ from
      hres₁] at hembed
    obtain ⟨res', hres', rfl⟩ := Option.map_eq_some_iff.mp hembed.symm
    have hdev' : res'.dev.embed = t.dev.embed := hdev₁
    have heffect' := heffect₁
    rw [h.alike.q_eq, h.alike.s_eq, h.alike.upToSize_eq] at heffect'
    have hread := h.alike.readAlike (min_le_right _ _) heffect heffect'
    refine ⟨res, res', hres, hres', ?_, hread.ret_eq, hread.length_eq, hread.bytes_eq, ?_⟩
    · refine h.after ?_ ?_ (Grown.read (P := fun _ => True) hres').1 ?_ ?_ hread.fPos_eq hpos
      · rw [hdev]
        exact h.left
      · rw [hdev']
        exact h.right
      · rw [hdev, hdev']
        exact h.alike
      · rw [hdev']
        exact h.zeroed
    · intro i b hW hb
      exact h.zeroed.delivered (min_le_right _ _) heffect₁ hW hb
  · obtain ⟨res', hres', hret', hbytes', hfPos', hsize', hright', hat⟩ :=
      read_at_end h.plain h.right hample.node t.heap hfit' hend hcount room
    obtain ⟨hret, hbytes, hfPos⟩ : res.ret = 0 ∧ res.bytes = [] ∧ res.fPos = p := by
      cases heffect with
      | nothing hret hbytes hfPos _ => exact ⟨hret, hbytes, hfPos⟩
      | delivered hlt' => omega
      | fault hlt' => omega
    have hgrown := (Grown.read (P := fun _ => True) hres').1
    refine ⟨res, res', hres, hres', ?_, hret'.trans hret.symm, ?_, ?_, ?_⟩
    · refine h.after ?_ hright' hgrown ?_ ?_ (hfPos'.trans hfPos.symm) hpos
      · rw [hdev]
        exact h.left
      · rw [hdev]
        exact h.alike.congr_right rfl hgrown.qset_eq hsize' hat
      · exact h.zeroed.congr rfl hgrown.qset_eq hat
    · simp only [hbytes, hbytes']
    · intro i _
      simp only [hbytes, hbytes']
    · intro i b _ hb
      simp only [hbytes'] at hb
      cases hb

/-- **A write on both devices.** -/
theorem write (h : Same W s t) {file count : ℕ} {src : UserBuffer} {env env' : AllocEnv}
    (hcall : Scull.StoreCall s (.scullWrite file count src false env)) (hample : env'.Ample) :
    ∃ res res',
      Scull.scullWriteLocked s.dev.quantum s.dev.qset s.dev s.heap (s.files file) count src env =
        some res ∧
      scullpWrite t.dev t.heap (t.files file) count src false env' = some res' ∧
      Same (Alike.extend W (s.files file).toNat res.ret) (s.after file res).2
        (t.after file res').2 ∧
      (⟨res'.ret, res'.bytes⟩ : Answer) = ⟨res.ret, res.bytes⟩ := by
  obtain ⟨-, hfit, henv, hcopy⟩ := hcall
  obtain ⟨p, hp⟩ := h.exists_pos file
  rw [hp, Int.toNat_natCast] at hcopy
  rw [hp] at hfit ⊢
  rw [h.files_eq, hp, Int.toNat_natCast]
  have hfit' := h.alike.itemFits hfit
  have hcleared : (cleared env').Ample := by
    refine ⟨hample.node, hample.array, ?_⟩
    rw [cleared, Option.isSome_map]
    exact hample.quantum
  obtain ⟨res, hres, hleft, hpos, hkept, hcases⟩ := h.left.write_cases hfit s.heap count src env
  obtain ⟨res₁, hres₁, hright, -, hkept₁, hcases₁⟩ :=
    h.right.write_cases hfit' t.heap count src (cleared env')
  have hembed := write_embed h.plain hample.node t.heap p count src
  rw [show Scull.scullWriteLocked pageInt t.dev.qset t.dev.embed t.heap p count src (cleared env') =
    _ from hres₁] at hembed
  obtain ⟨res', hres', rfl⟩ := Option.map_eq_some_iff.mp hembed.symm
  rcases hcases with ⟨-, hnot⟩ | hcopied
  · exact absurd henv hnot
  rcases hcases₁ with ⟨-, hnot⟩ | hcopied₁
  · exact absurd hcleared hnot
  have hret := (hcopied.done hcopy).1
  have hcopied' := hcopied₁
  have hkept' := hkept₁
  rw [h.alike.q_eq, h.alike.s_eq] at hcopied' hkept'
  obtain ⟨hret', hfPos', hbytes', halike⟩ :=
    h.alike.copied (min_le_right _ _) hkept hkept' hcopied hcopied'
  have hzeroed : Zeroed (Alike.extend W p res.ret) res'.dev.embed := by
    rw [hret, ← h.alike.q_eq]
    rw [← h.alike.q_eq] at hcopy
    exact h.zeroed.copied cleared_zero hkept₁.q_eq hkept₁.s_eq hcopy hcopied₁
  refine ⟨res, res', hres, hres', h.after hleft hright (Grown.write hres').1 halike hzeroed hfPos'
    hpos, ?_⟩
  rw [show res'.ret = res.ret from hret', show res'.bytes = res.bytes from hbytes']

theorem scullpLlseek_eq (h : Same W s t) (file : ℕ) (off : Int64) (whence : Int32) :
    scullpLlseek t.dev (t.files file) off whence =
      Scull.scullLlseek s.dev (s.files file) off whence := by
  have hsize : t.dev.size = s.dev.size := h.alike.size_eq
  rewrite [scullpLlseek, Scull.scullLlseek, h.files_eq, hsize]
  rfl

/-- **An open that empties both devices.** -/
theorem emptied (h : Same W s t) (file : ℕ) :
    ∃ s' t', s.step (.scullOpen file .wronly false) = some (⟨0, []⟩, s') ∧
      t.step (.scullpOpen file .wronly false) = some (⟨0, []⟩, t') ∧
      Same (fun _ => False) s' t' := by
  obtain ⟨heap', htrim⟩ := trim_embed h.right h.vmas_eq t.params t.heap
  refine ⟨{ s with dev := ⟨[], s.params.quantum, s.params.qset, 0⟩,
                   heap := s.heap.freeAll (Scull.blocks s.dev.s s.dev.data),
                   files := Function.update s.files file 0 },
    { t with dev := { t.dev with data := none, next := [], order := t.params.order,
                                 qset := t.params.qset, size := 0 },
             heap := heap', files := Function.update t.files file 0 }, ?_, ?_, ?_⟩
  · simp only [ScullSys.step, if_true, Bool.false_eq_true, if_false,
      Scull.scullTrim_eq h.left.shaped, Option.map_some]
  · simp only [ScullpSys.step, if_true, Bool.false_eq_true, if_false, htrim, Option.map_some]
  · refine .blank h.quantum_eq h.order_eq h.qset_eq h.good rfl ?_ ?_
      (h.pos_update (by decide : (0 : ℤ) ≤ 0 ∧ (0 : ℤ) < 2 ^ 63))
    · simp only [h.vmas_eq]
    · simp only [h.files_eq]

theorem interrupted (h : Same W s t) (file count room : ℕ) (src : UserBuffer) (env : AllocEnv) :
    t.step (.scullpRead file count room true env) = some (⟨-ERESTARTSYS, []⟩, t) ∧
    t.step (.scullpWrite file count src true env) = some (⟨-ERESTARTSYS, []⟩, t) := by
  simp only [ScullpSys.step, scullpRead, scullpWrite, h.plain.quantum_eq, Option.bind_some, if_true,
    Option.map_some, ScullpSys.after, Function.update_eq_self, and_self]

end Same

theorem Both.step_of {b : Both} {c : BothCall} {a a' : Answer} {s : ScullSys} {t : ScullpSys}
    (hst : b.scull.step c.scull = some (a, s)) (hst' : b.scullp.step c.scullp = some (a', t))
    (hsame : Same (c.record b.written b.scull.files a.ret) s t)
    (hagree : Agree ⟨a, a', c.known b.written b.scull.files⟩) :
    ∃ r b', b.step c = some (r, b') ∧ Same b'.written b'.scull b'.scullp ∧ Agree r := by
  refine ⟨⟨a, a', c.known b.written b.scull.files⟩,
    ⟨s, t, c.record b.written b.scull.files a.ret⟩, ?_, hsame, hagree⟩
  rw [Both.step, hst, Option.bind_some, hst']
  rfl

/-- **One call on both devices.** -/
theorem Same.step {b : Both} {c : BothCall} (h : Same b.written b.scull b.scullp)
    (hc : BothServed b c) :
    ∃ r b', b.step c = some (r, b') ∧ Same b'.written b'.scull b'.scullp ∧ Agree r := by
  cases c with
  | openFile file mode lockIntr =>
    by_cases hmode : mode = .wronly
    · subst hmode
      cases lockIntr with
      | true => exact Both.step_of rfl rfl h (.of_eq rfl fun _ => trivial)
      | false =>
        obtain ⟨s', t', hst, hst', hsame⟩ := h.emptied file
        refine Both.step_of hst hst' ?_ (.of_eq rfl fun _ => trivial)
        rw [BothCall.record, if_pos ⟨rfl, rfl⟩]
        exact hsame
    · have hst : b.scull.step (.scullOpen file mode lockIntr) =
          some (⟨0, []⟩, { b.scull with files := Function.update b.scull.files file 0 }) :=
        if_neg hmode
      have hst' : b.scullp.step (.scullpOpen file mode lockIntr) =
          some (⟨0, []⟩, { b.scullp with files := Function.update b.scullp.files file 0 }) :=
        if_neg hmode
      refine Both.step_of hst hst' ?_ (.of_eq rfl fun _ => trivial)
      rw [BothCall.record, if_neg fun hc => hmode hc.1]
      exact h.seek (by decide)
  | read file count room lockIntr env env' =>
    cases lockIntr with
    | true =>
      have hst' := (h.interrupted file count room ⟨[], []⟩ env').1
      exact Both.step_of rfl hst' h ⟨rfl, rfl, fun _ _ => rfl, fun i b _ hb => by cases hb⟩
    | false =>
      obtain ⟨res, res', hres, hres', hsame, hagree⟩ := h.read hc.1 hc.2
      have hst := congrArg (Option.map (b.scull.after file)) hres
      have hst' := congrArg (Option.map (b.scullp.after file)) hres'
      exact Both.step_of hst hst' hsame hagree
  | write file count src lockIntr env env' =>
    cases lockIntr with
    | true =>
      have hst' := (h.interrupted file count 0 src env').2
      refine Both.step_of rfl hst' ?_ (.of_eq rfl fun _ => trivial)
      have hsame :
          Alike.extend b.written (b.scull.files file).toNat (-ERESTARTSYS) = b.written := by
        funext x
        exact propext ⟨Alike.extend_of_nonpos (by decide) x, .inl⟩
      rw [BothCall.record, hsame]
      exact h
    | false =>
      obtain ⟨res, res', hres, hres', hsame, hagree⟩ := h.write hc.1 hc.2
      have hst := congrArg (Option.map (b.scull.after file)) hres
      have hst' := congrArg (Option.map (b.scullp.after file)) hres'
      exact Both.step_of hst hst' hsame (.of_eq hagree fun _ => trivial)
  | llseek file off whence =>
    obtain ⟨out, hout⟩ :
        ∃ out, Scull.scullLlseek b.scull.dev (b.scull.files file) off whence = out := ⟨_, rfl⟩
    have hst : b.scull.step (.scullLlseek file off whence) =
        some (⟨out.1, []⟩, { b.scull with files := Function.update b.scull.files file out.2 }) := by
      simp only [ScullSys.step, hout]
    have hst' : b.scullp.step (.scullpLlseek file off whence) =
        some (⟨out.1, []⟩,
          { b.scullp with files := Function.update b.scullp.files file out.2 }) := by
      simp only [ScullpSys.step, h.scullpLlseek_eq, hout]
    refine Both.step_of hst hst' ?_ (.of_eq rfl fun _ => trivial)
    rw [← hout]
    exact h.seek (Scull.Rep.scullLlseek_pos off whence (h.pos file))

/-- **scull and scullp are the same store.** A scull device with quanta of `PAGE_SIZE` bytes and a
scullp device of order 0, with as many entries in a quantum set, as their modules are loaded; in
every sequence of opens, seeks, reads and writes that is given to both of them, with memory
available and copies that succeed. Every call returns the same value on both; their positions and
sizes stay the same; and a read delivers the same bytes at positions that were written since the
devices were last emptied, and elsewhere scullp delivers 0.

Source: `ldd/scull/main.c`, lines 240–389 and 524–548; `ldd/scullp/main.c`, lines 117–263, 363–387
and 413–441. -/
theorem scullp_is_scull {params : Scull.Params} {params' : ScullpParams}
    (hquantum : params.quantum.toInt = PAGE_SIZE) (horder : params'.order = 0)
    (hqset : params'.qset = params.qset) (hpos : 1 ≤ params.qset.toInt)
    (hle : PAGE_SIZE * params.qset.toInt ≤ intMax) {calls : List BothCall}
    (hcalls : Guarded Both.step BothServed (.load params params') calls) :
    ∃ answers b, exec Both.step (.load params params') calls = some (answers, b) ∧
      Always Both.step (fun b => b.scullp.files = b.scull.files ∧
        b.scullp.dev.size = b.scull.dev.size) (.load params params') calls ∧
      ∀ r ∈ answers, Agree r := by
  have hpage : params.quantum = pageInt := Int32.toInt_inj.mp hquantum
  have hgood : GoodGeometry pageInt params.qset := ⟨by decide, hpos, hle⟩
  have hload : Same (Both.load params params').written (Both.load params params').scull
      (Both.load params params').scullp := .load hpage horder hqset hgood
  have hstep : ∀ (b : Both) (c : BothCall) r b', Same b.written b.scull b.scullp → BothServed b c →
      b.step c = some (r, b') → Same b'.written b'.scull b'.scullp ∧ Agree r := by
    intro b c r b' h hc hst
    obtain ⟨r₁, b₁, hst₁, hsame, hagree⟩ := h.step hc
    rw [hst] at hst₁
    cases hst₁
    exact ⟨hsame, hagree⟩
  obtain ⟨answers, b, hrun, -⟩ := exec_progress (fun b : Both => Same b.written b.scull b.scullp)
    (fun b c h hc => by
      obtain ⟨r, b', hst, hsame, -⟩ := h.step hc
      exact ⟨r, b', hst, hsame⟩) hload hcalls
  refine ⟨answers, b, hrun, ?_, exec_replies _ hstep hload hcalls hrun⟩
  refine (always_of_invariant _ (fun b c r b' h hc hst => (hstep b c r b' h hc hst).1) hload
    hcalls).mono ?_
  intro b h
  exact ⟨h.files_eq, h.alike.size_eq⟩

/-- A program that writes two bytes and reads them again; fresh quanta are filled with 9. -/
def writeAndRead : List BothCall :=
  [.openFile 0 .wronly false,
    .write 0 2 ⟨[1, 2], []⟩ false ⟨fun _ => true, true, some fun _ => 9⟩
      ⟨fun _ => true, true, some fun _ => 9⟩,
    .llseek 0 0 0,
    .read 0 4 4 false ⟨fun _ => true, true, some fun _ => 9⟩
      ⟨fun _ => true, true, some fun _ => 9⟩]

/-- The program on two devices with two entries in a quantum set. -/
theorem scullp_is_scull_write_and_read :
    ∃ answers b, exec Both.step (.load ⟨4096, 2, 4000⟩ ⟨0, 2⟩) writeAndRead = some (answers, b) ∧
      ∀ r ∈ answers, Agree r := by
  have hcalls : Guarded Both.step BothServed (.load ⟨4096, 2, 4000⟩ ⟨0, 2⟩) writeAndRead := by
    refine ⟨trivial, fun _ _ h => ?_⟩
    cases h
    refine ⟨⟨⟨by decide, show ItemFits _ _ by unfold ItemFits; decide, ⟨fun _ => rfl, rfl, rfl⟩,
      min_le_left _ _⟩, ⟨fun _ => rfl, rfl, rfl⟩⟩, fun _ _ h => ?_⟩
    cases h
    refine ⟨trivial, fun _ _ h => ?_⟩
    cases h
    exact ⟨⟨⟨by decide, show ItemFits _ _ by unfold ItemFits; decide, min_le_left _ _⟩,
      ⟨fun _ => rfl, rfl, rfl⟩⟩, fun _ _ _ => trivial⟩
  obtain ⟨answers, b, hrun, -, hagree⟩ :=
    scullp_is_scull rfl rfl rfl (by decide) (by decide) hcalls
  exact ⟨answers, b, hrun, hagree⟩

end ExKernel.Scullp
