import ExKernel.Scull.System

/-!
# Devices that were given the same calls

Two devices that were given the same calls do not have the same contents: a fresh quantum has
whatever contents the allocator hands out. But they agree on everything else. They have the same
geometry and the same size, they have quanta in the same places, and the bytes at the positions that
were written are the same. This file has the relation between two such devices, and that a call on
both of them keeps it and answers the same, up to the bytes that a read delivers at positions that
were never written.

## Main definitions

* `Scull.Alike`: two devices agree on everything but bytes that were never written.
* `Scull.ReadAlike`: what is the same about two reads.

## Main results

* `Scull.Alike.readAlike`, `Scull.Alike.copied`: the effects of a read and of a write on both
  devices.
* `Scull.Alike.read`, `Scull.Alike.write`: a read and a write on both devices.

## References

* `ldd/scull/main.c`, lines 294–389.
-/

namespace ExKernel.Scull

/-- Two devices agree on everything but bytes that were never written: `W` is the set of positions
that were written. -/
structure Alike (W : ℕ → Prop) (dev dev' : ScullDev) : Prop where
  quantum_eq : dev'.quantum = dev.quantum
  qset_eq : dev'.qset = dev.qset
  size_eq : dev'.size = dev.size
  isSome_eq : ∀ k, (quantumAt dev.s dev'.data k).isSome = (quantumAt dev.s dev.data k).isSome
  present : ∀ x, W x → (quantumAt dev.s dev.data (x / dev.q)).isSome
  cells_eq : ∀ x, W x → ∀ q q', quantumAt dev.s dev.data (x / dev.q) = some q →
    quantumAt dev.s dev'.data (x / dev.q) = some q' →
    q'.cells ((x % dev.q : ℕ) : ℤ) = q.cells ((x % dev.q : ℕ) : ℤ)

theorem Alike.empty (quantum qset : Int32) :
    Alike (fun _ => False) ⟨[], quantum, qset, 0⟩ ⟨[], quantum, qset, 0⟩ where
  quantum_eq := rfl
  qset_eq := rfl
  size_eq := rfl
  isSome_eq _ := rfl
  present _ hW := hW.elim
  cells_eq _ hW := hW.elim

/-- Two reads at the position `p` return the same value and leave the same position, and they
deliver the same bytes at the positions that were written. -/
structure ReadAlike (W : ℕ → Prop) (p : ℕ) (res res' : IoResult) : Prop where
  ret_eq : res'.ret = res.ret
  fPos_eq : res'.fPos = res.fPos
  length_eq : res'.bytes.length = res.bytes.length
  bytes_eq : ∀ i, W (p + i) → res'.bytes[i]? = res.bytes[i]?

namespace Alike

variable {W : ℕ → Prop} {dev dev' : ScullDev}

theorem q_eq (h : Alike W dev dev') : dev'.q = dev.q := by rw [ScullDev.q, h.quantum_eq, ScullDev.q]

theorem s_eq (h : Alike W dev dev') : dev'.s = dev.s := by rw [ScullDev.s, h.qset_eq, ScullDev.s]

theorem mono {W' : ℕ → Prop} (h : Alike W dev dev') (hW : ∀ x, W' x → W x) : Alike W' dev dev' :=
  ⟨h.quantum_eq, h.qset_eq, h.size_eq, h.isSome_eq, fun x hx => h.present x (hW x hx),
    fun x hx => h.cells_eq x (hW x hx)⟩

theorem congr_right {dev'' : ScullDev} (h : Alike W dev dev')
    (hquantum : dev''.quantum = dev'.quantum)
    (hqset : dev''.qset = dev'.qset) (hsize : dev''.size = dev'.size)
    (hat : ∀ k, quantumAt dev'.s dev''.data k = quantumAt dev'.s dev'.data k) :
    Alike W dev dev'' := by
  rw [h.s_eq] at hat
  refine ⟨hquantum.trans h.quantum_eq, hqset.trans h.qset_eq, hsize.trans h.size_eq, fun k => ?_,
    h.present, fun x hW q q' hq hq' => ?_⟩
  · rw [hat]
    exact h.isSome_eq k
  · rw [hat] at hq'
    exact h.cells_eq x hW q q' hq hq'

theorem itemFits (h : Alike W dev dev') {p : ℤ} (hfit : ItemFits dev p) : ItemFits dev' p := by
  rw [ItemFits, h.quantum_eq, h.qset_eq]
  exact hfit

theorem upToSize_eq (h : Alike W dev dev') (p : ℤ) (count : ℕ) :
    upToSize dev' p count = upToSize dev p count := by
  rw [upToSize, h.size_eq, upToSize]

/-- A quantum of one of the devices has a counterpart in the other. -/
theorem exists_quantum (h : Alike W dev dev') {k : ℕ} {q : Quantum}
    (hq : quantumAt dev.s dev.data k = some q) : ∃ q', quantumAt dev.s dev'.data k = some q' := by
  rw [← Option.isSome_iff_exists, h.isSome_eq, hq]
  rfl

theorem quantum_eq_none (h : Alike W dev dev') {k : ℕ} :
    quantumAt dev.s dev'.data k = none ↔ quantumAt dev.s dev.data k = none := by
  rw [← Option.not_isSome_iff_eq_none, h.isSome_eq, Option.not_isSome_iff_eq_none]

theorem load_eq (h : Alike W dev dev') {p m i : ℕ} {q q' : Quantum} (hm : m ≤ dev.q - p % dev.q)
    (hq : quantumAt dev.s dev.data (p / dev.q) = some q)
    (hq' : quantumAt dev.s dev'.data (p / dev.q) = some q') (hW : W (p + i)) :
    (Cells.load q'.cells ((p % dev.q : ℕ) : ℤ) m)[i]? =
      (Cells.load q.cells ((p % dev.q : ℕ) : ℤ) m)[i]? := by
  rcases lt_or_ge i m with hi | hi
  · have hchunk : (p + i) / dev.q = p / dev.q := div_eq_of_chunk (by omega) (by omega)
    have hoff : (p + i) % dev.q = p % dev.q + i := by
      rw [mod_eq_of_chunk (by omega) hchunk, Nat.add_sub_cancel_left]
    have hcell := h.cells_eq (p + i) hW q q' (by rw [hchunk]; exact hq) (by rw [hchunk]; exact hq')
    rw [hoff, Nat.cast_add] at hcell
    rw [Cells.getElem?_load _ _ hi, Cells.getElem?_load _ _ hi, hcell]
  · rw [List.getElem?_eq_none (by rw [Cells.length_load]; exact hi),
      List.getElem?_eq_none (by rw [Cells.length_load]; exact hi)]

/-- **A read on both devices.** -/
theorem readAlike (h : Alike W dev dev') {p m room : ℕ} (hm : m ≤ dev.q - p % dev.q)
    {res res' : IoResult} (hres : ReadEffect dev.q dev.s (p / dev.q) dev p m room res)
    (hres' : ReadEffect dev.q dev.s (p / dev.q) dev' p m room res') : ReadAlike W p res res' := by
  cases hres with
  | nothing hret hbytes hpos hwhy =>
    cases hres' with
    | nothing hret' hbytes' hpos' _ =>
      exact ⟨hret'.trans hret.symm, hpos'.trans hpos.symm, by rw [hbytes, hbytes'],
        fun i _ => by rw [hbytes, hbytes']⟩
    | delivered hsize hq =>
      rw [h.size_eq] at hsize
      rw [← h.quantum_eq_none, hq] at hwhy
      exact absurd hwhy (by simp [hsize])
    | fault hsize hq =>
      rw [h.size_eq] at hsize
      rw [← h.quantum_eq_none, hq] at hwhy
      exact absurd hwhy (by simp [hsize])
  | @delivered q hsize hq hroom hret hbytes hpos =>
    cases hres' with
    | nothing _ _ _ hwhy =>
      rw [h.quantum_eq_none, hq, h.size_eq] at hwhy
      exact absurd hwhy (by simp [hsize])
    | @delivered q' _ hq' _ hret' hbytes' hpos' =>
      refine ⟨hret'.trans hret.symm, hpos'.trans hpos.symm, ?_, fun i hW => ?_⟩
      · rw [hbytes, hbytes', Cells.length_load, Cells.length_load]
      · rw [hbytes, hbytes']
        exact h.load_eq hm hq hq' hW
    | fault _ _ hroom' => omega
  | fault hsize hq hroom hret hbytes hpos =>
    cases hres' with
    | nothing _ _ _ hwhy =>
      rw [h.quantum_eq_none, hq, h.size_eq] at hwhy
      exact absurd hwhy (by simp [hsize])
    | delivered _ _ hroom' => omega
    | fault _ _ _ hret' hbytes' hpos' =>
      exact ⟨hret'.trans hret.symm, hpos'.trans hpos.symm, by rw [hbytes, hbytes'],
        fun i _ => by rw [hbytes, hbytes']⟩

/-- The positions that were written, after a write at `p` that returned `ret`. -/
def extend (W : ℕ → Prop) (p : ℕ) (ret : ℤ) (x : ℕ) : Prop := W x ∨ p ≤ x ∧ (x : ℤ) < p + ret

theorem extend_of_nonpos {p : ℕ} {ret : ℤ} (hret : ret ≤ 0) (x : ℕ) (hx : extend W p ret x) :
    W x := by
  rcases hx with hx | ⟨hle, hlt⟩
  · exact hx
  · omega

/-- **A write on both devices** that comes to its copy. -/
theorem copied (h : Alike W dev dev') {n p m : ℕ} {src : UserBuffer}
    {fresh fresh' : Option (ℤ → UInt8)} (hm : m ≤ dev.q - p % dev.q) {res res' : IoResult}
    {heap heap' : Ledger} (hkept : Kept dev.q dev.s dev heap res)
    (hkept' : Kept dev.q dev.s dev' heap' res')
    (hres : Copied dev.q dev.s n (p / dev.q) dev p m src fresh res)
    (hres' : Copied dev.q dev.s n (p / dev.q) dev' p m src fresh' res') :
    res'.ret = res.ret ∧ res'.fPos = res.fPos ∧ res'.bytes = res.bytes ∧
      Alike (extend W p res.ret) res.dev res'.dev := by
  obtain ⟨q, hat, hold, -⟩ := hres.stored
  obtain ⟨q', hat', hold', -⟩ := hres'.stored
  obtain ⟨hret, hpos, hbytes, hsize, hlen⟩ : res'.ret = res.ret ∧ res'.fPos = res.fPos ∧
      res'.bytes = res.bytes ∧ res'.dev.size = res.dev.size ∧
      ∀ x : ℕ, p ≤ x → (x : ℤ) < p + res.ret → x < p + (src.copied m).length ∧ x < p + m := by
    rcases le_or_gt m src.bytes.length with hle | hgt
    · obtain ⟨hret, hbytes, hpos, hsize⟩ := hres.done hle
      obtain ⟨hret', hbytes', hpos', hsize'⟩ := hres'.done hle
      refine ⟨hret'.trans hret.symm, hpos'.trans hpos.symm, hbytes'.trans hbytes.symm, ?_, ?_⟩
      · rw [hsize, hsize', h.size_eq]
      · intro x _ hx
        rw [UserBuffer.copied, if_pos hle, List.length_take_of_le hle]
        omega
    · obtain ⟨hret, hbytes, hpos, hsize⟩ := hres.fault hgt
      obtain ⟨hret', hbytes', hpos', hsize'⟩ := hres'.fault hgt
      refine ⟨hret'.trans hret.symm, hpos'.trans hpos.symm, hbytes'.trans hbytes.symm, ?_, ?_⟩
      · rw [hsize, hsize', h.size_eq]
      · intro x hle hx
        rw [hret, EFAULT] at hx
        omega
  have hchunk : ∀ x : ℕ, p ≤ x → (x : ℤ) < p + res.ret → x / dev.q = p / dev.q := fun x hle hx =>
    div_eq_of_chunk hle (by have := (hlen x hle hx).2; omega)
  refine ⟨hret, hpos, hbytes, ?_, ?_, hsize, ?_, ?_, ?_⟩
  · rw [hkept.quantum_eq, hkept'.quantum_eq, h.quantum_eq]
  · rw [hkept.qset_eq, hkept'.qset_eq, h.qset_eq]
  · intro k
    rw [hkept.s_eq, hat, hat']
    split_ifs
    · rfl
    · exact h.isSome_eq k
  · intro x hW
    rw [hkept.s_eq, hkept.q_eq, hat]
    split_ifs with hk
    · rfl
    · rcases hW with hW | ⟨hle, hx⟩
      · exact h.present x hW
      · exact absurd (hchunk x hle hx) hk
  · intro x hW r r' hr hr'
    rw [hkept.s_eq, hkept.q_eq, hat] at hr
    rw [hkept.s_eq, hkept.q_eq, hat'] at hr'
    rw [hkept.q_eq]
    by_cases hk : x / dev.q = p / dev.q
    · rw [if_pos hk] at hr hr'
      cases hr
      cases hr'
      simp only [copyFromUser_snd]
      refine Cells.store_congr fun hout => ?_
      rcases hW with hW | ⟨hle, hx⟩
      · obtain ⟨old, hq⟩ := Option.isSome_iff_exists.mp (h.present x hW)
        obtain ⟨old', hq'⟩ := h.exists_quantum hq
        rw [hold old (hk ▸ hq), hold' old' (hk ▸ hq')]
        exact h.cells_eq x hW old old' hq hq'
      · refine absurd ?_ hout
        have hx' := (hlen x hle hx).1
        have hoff := mod_eq_of_chunk hle hk
        omega
    · rw [if_neg hk] at hr hr'
      rcases hW with hW | ⟨hle, hx⟩
      · exact h.cells_eq x hW r r' hr hr'
      · exact absurd (hchunk x hle hx) hk

/-- **A read** on two devices that keep the representation invariant. -/
theorem read (h : Alike W dev dev') (hdev : DevRep dev) (hdev' : DevRep dev') {p : ℕ}
    (hfit : ItemFits dev p) (heap heap' : Ledger) (count room : ℕ) (env env' : AllocEnv) :
    ∃ res res', scullReadLocked dev.quantum dev.qset dev heap p count room env = some res ∧
      scullReadLocked dev'.quantum dev'.qset dev' heap' p count room env' = some res' ∧
      res.dev = dev ∧ res.heap = heap ∧ res'.dev = dev' ∧ res'.heap = heap' ∧
      (0 ≤ res.fPos ∧ res.fPos < 2 ^ 63) ∧ ReadAlike W p res res' := by
  obtain ⟨res, hres, hkeep, hheap, hpos, -, heffect⟩ := hdev.read_spec hfit heap count room env
  obtain ⟨res', hres', hkeep', hheap', -, -, heffect'⟩ :=
    hdev'.read_spec (h.itemFits hfit) heap' count room env'
  rw [h.q_eq, h.s_eq, h.upToSize_eq] at heffect'
  exact ⟨res, res', hres, hres', hkeep, hheap, hkeep', hheap', hpos,
    h.readAlike (min_le_right _ _) heffect heffect'⟩

/-- **A write**, with memory available, on two devices that keep the representation invariant. -/
theorem write (h : Alike W dev dev') (hdev : DevRep dev) (hdev' : DevRep dev') {p : ℕ}
    (hfit : ItemFits dev p) (heap heap' : Ledger) (count : ℕ) (src : UserBuffer)
    {env env' : AllocEnv} (hample : env.Ample) (hample' : env'.Ample) :
    ∃ res res', scullWriteLocked dev.quantum dev.qset dev heap p count src env = some res ∧
      scullWriteLocked dev'.quantum dev'.qset dev' heap' p count src env' = some res' ∧
      res'.ret = res.ret ∧ res'.fPos = res.fPos ∧ res'.bytes = res.bytes ∧
      Alike (extend W p res.ret) res.dev res'.dev := by
  obtain ⟨res, hres, -, -, hkept, hcases⟩ := hdev.write_cases hfit heap count src env
  obtain ⟨res', hres', -, -, hkept', hcases'⟩ :=
    hdev'.write_cases (h.itemFits hfit) heap' count src env'
  rw [h.q_eq, h.s_eq] at hkept' hcases'
  rcases hcases with ⟨-, hnot⟩ | hcopied
  · exact absurd hample hnot
  rcases hcases' with ⟨-, hnot⟩ | hcopied'
  · exact absurd hample' hnot
  exact ⟨res, res', hres, hres', h.copied (min_le_right _ _) hkept hkept' hcopied hcopied'⟩

end Alike

end ExKernel.Scull
