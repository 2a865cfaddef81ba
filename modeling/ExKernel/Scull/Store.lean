import ExKernel.Scull.System

/-!
# A scull device is a sparse store

The purpose of a scull device is to keep bytes at positions. This file says so: as long as the
geometry stays, memory is available and the user's buffers are accessible, the methods do on the
list of quantum sets what the operations of a sparse store, with the quanta as its chunks, do on a
partial map.

The bytes of a fresh quantum are whatever the allocator hands out, and a read delivers them. The
store knows only the bytes that were written, and its reads are free on the others.

## Main definitions

* `Scull.StoreState`, `Scull.StoreStep`: the abstract device, a sparse store and a position per
  file.
* `Scull.Represents`: the list of quantum sets represents a store.
* `Scull.StoreCall`: the calls that the abstraction is about.

## Main results

* `Scull.Represents.read`, `Scull.Represents.write`, `Scull.Represents.step`: single calls.
* `Scull.scull_is_sparse_store`: every sequence of calls on an emptied device.

## References

* `ldd/scull/main.c`, lines 264–389 and 524–548; `ldd/scull/scull.h`, lines 82–95.
-/

namespace ExKernel.Scull

open Transition

/-! ### The abstract device -/

/-- A sparse store and the position of each file. -/
structure StoreState (Q : ℕ) where
  store : SparseStore UInt8 Q
  files : ℕ → ℕ

/-- The position that a seek counts from. -/
def seekBase (size pos : ℕ) (whence : Int32) : Option ℕ :=
  if whence = 0 then some 0
  else if whence = 1 then some pos
  else if whence = 2 then some size
  else none

/-- The answer of a seek and the position after it. -/
inductive Seeks (size pos : ℕ) (off : Int64) (whence : Int32) : ℤ → ℕ → Prop
  | moved {base new : ℕ} (hbase : seekBase size pos whence = some base)
      (hnew : (new : ℤ) = loffT (base + off.toInt)) : Seeks size pos off whence new new
  | refused (hwhy : ∀ base, seekBase size pos whence = some base → loffT (base + off.toInt) < 0) :
      Seeks size pos off whence (-EINVAL) pos

/-- The calls on the abstract device. A write takes the bytes up to the end of the quantum; a read
delivers what a read of the store delivers; both move the position by the number that they
return. -/
inductive StoreStep {Q : ℕ} : StoreState Q → ScullOp → Answer → StoreState Q → Prop
  | write (a : StoreState Q) (file count : ℕ) (src : UserBuffer) (env : AllocEnv) :
      StoreStep a (.scullWrite file count src false env)
        ⟨(min count (Q - a.files file % Q) : ℕ), src.bytes.take (min count (Q - a.files file % Q))⟩
        ⟨a.store.write (a.files file) (src.bytes.take count),
          Function.update a.files file (a.files file + min count (Q - a.files file % Q))⟩
  | read (a : StoreState Q) (file count room : ℕ) (env : AllocEnv) {xs : List UInt8}
      (hxs : a.store.Reads (a.files file) count xs) :
      StoreStep a (.scullRead file count room false env) ⟨xs.length, xs⟩
        ⟨a.store, Function.update a.files file (a.files file + xs.length)⟩
  | llseek (a : StoreState Q) (file : ℕ) (off : Int64) (whence : Int32) {ret : ℤ} {new : ℕ}
      (hseek : Seeks a.store.size (a.files file) off whence ret new) :
      StoreStep a (.scullLlseek file off whence) ⟨ret, []⟩
        ⟨a.store, Function.update a.files file new⟩
  | writeInterrupted (a : StoreState Q) (file count : ℕ) (src : UserBuffer) (env : AllocEnv) :
      StoreStep a (.scullWrite file count src true env) ⟨-ERESTARTSYS, []⟩ a
  | readInterrupted (a : StoreState Q) (file count room : ℕ) (env : AllocEnv) :
      StoreStep a (.scullRead file count room true env) ⟨-ERESTARTSYS, []⟩ a

/-! ### The abstraction -/

/-- The device represents a store: the sizes agree, the touched chunks are the quanta that exist,
the known bytes are in them, and the positions agree. -/
structure Represents {Q : ℕ} (s : ScullSys) (a : StoreState Q) : Prop where
  rep : Rep s
  q_eq : s.dev.q = Q
  size_eq : a.store.size = s.dev.size
  touched_iff : ∀ k, k ∈ a.store.touched ↔ (quantumAt s.dev.s s.dev.data k).isSome
  known : ∀ x b, a.store.bytes x = some b →
    ∃ q, quantumAt s.dev.s s.dev.data (x / Q) = some q ∧ q.cells ((x % Q : ℕ) : ℤ) = b
  files_eq : ∀ file, s.files file = a.files file

/-- The calls that the abstraction is about: reads, writes and seeks; with sizes that the file
system layer passes on, at positions whose quantum set has a number that is an `int`, with memory
available and copies that succeed. -/
def StoreCall (s : ScullSys) : ScullOp → Prop
  | .scullRead file count room _ _ =>
    count ≤ maxRwCount ∧ ItemFits s.dev (s.files file) ∧
      min count (min (s.dev.size - (s.files file).toNat)
        (s.dev.q - (s.files file).toNat % s.dev.q)) ≤ room
  | .scullWrite file count src _ env =>
    count ≤ maxRwCount ∧ ItemFits s.dev (s.files file) ∧ env.Ample ∧
      min count (s.dev.q - (s.files file).toNat % s.dev.q) ≤ src.bytes.length
  | .scullLlseek .. => True
  | _ => False

/-- The device was emptied by `scull_trim`. -/
structure Trimmed (s : ScullSys) : Prop where
  dev_eq : s.dev = ⟨[], s.params.quantum, s.params.qset, 0⟩
  geometry : GoodGeometry s.params.quantum s.params.qset
  sound : s.heap.Sound
  live_eq : s.heap.live = []
  pos : ∀ file, 0 ≤ s.files file ∧ s.files file < 2 ^ 63

/-- A device is emptied by a trim in any state that can be reached. -/
theorem Rep.trimmed {s : ScullSys} (h : Rep s) {dev : ScullDev} {heap : Ledger}
    (htrim : scullTrim s.params s.dev s.heap = some (dev, heap)) :
    Trimmed { s with dev := dev, heap := heap } := by
  obtain ⟨heap', htrim', -, hlive, hsound⟩ := h.trim
  rw [htrim'] at htrim
  cases htrim
  exact ⟨rfl, h.next_geometry, hsound, hlive, h.pos⟩

namespace Trimmed

variable {s : ScullSys}

theorem load {params : Params} (h : GoodGeometry params.quantum params.qset) :
    Trimmed (.load params) :=
  ⟨rfl, h, (Rep.load h).sound, rfl, (Rep.load h).pos⟩

theorem rep (h : Trimmed s) : Rep s where
  geometry := by
    rw [h.dev_eq]
    exact h.geometry
  next_geometry := h.geometry
  shaped := by simp [h.dev_eq, Shaped]
  covered := by simp [h.dev_eq]
  size_lt := by simp [h.dev_eq]
  sound := h.sound
  live_perm := by simp [h.dev_eq, h.live_eq, blocks]
  pos := h.pos

theorem represents (h : Trimmed s) {files : ℕ → ℕ} (hfiles : ∀ file, s.files file = files file) :
    Represents s (⟨.empty, files⟩ : StoreState s.dev.q) where
  rep := h.rep
  q_eq := rfl
  size_eq := by simp [h.dev_eq, SparseStore.empty]
  touched_iff k := by simp [h.dev_eq, SparseStore.empty, quantumAt]
  known x b hb := by simp [SparseStore.empty] at hb
  files_eq := hfiles

end Trimmed

/-- Storing in a quantum is storing a segment at the positions of the quantum. -/
theorem store_segmentAt {Q p x : ℕ} {xs : List UInt8} (m : ℤ → UInt8) (h : x / Q = p / Q) :
    Cells.store m ((p % Q : ℕ) : ℤ) xs ((x % Q : ℕ) : ℤ) =
      (segmentAt p xs x).getD (m ((x % Q : ℕ) : ℤ)) := by
  have hx := Nat.div_add_mod x Q
  have hp := Nat.div_add_mod p Q
  rw [h] at hx
  unfold Cells.store segmentAt
  by_cases hle : p ≤ x
  · rw [if_pos (by omega), if_pos hle]
    congr 2
    omega
  · rw [if_neg (by omega), if_neg hle, Option.getD_none]

/-- The known bytes after a write that stored what is accepted in the quantum of its position. -/
theorem known_write {Q S p : ℕ} {st : SparseStore UInt8 Q} {data data' : List QSet} {q : Quantum}
    {xs : List UInt8}
    (hknown : ∀ x b, st.bytes x = some b →
      ∃ q, quantumAt S data (x / Q) = some q ∧ q.cells ((x % Q : ℕ) : ℤ) = b)
    (hat : ∀ j, quantumAt S data' j = if j = p / Q then
      some { q with
        cells := Cells.store q.cells ((p % Q : ℕ) : ℤ) (SparseStore.accepted Q p xs) }
      else quantumAt S data j)
    (hold : ∀ old, quantumAt S data (p / Q) = some old → q = old) :
    ∀ x b, (st.write p xs).bytes x = some b →
      ∃ q, quantumAt S data' (x / Q) = some q ∧ q.cells ((x % Q : ℕ) : ℤ) = b := by
  intro x b hb
  have hlen := SparseStore.length_accepted_le Q p xs
  rw [hat]
  rcases Option.or_eq_some_iff.mp hb with hseg | ⟨hseg, hb⟩
  · obtain ⟨hle, hlt⟩ := isSome_segmentAt.mp (Option.isSome_of_mem hseg)
    have hchunk : x / Q = p / Q := div_eq_of_chunk hle (by omega)
    rw [if_pos hchunk]
    refine ⟨_, rfl, ?_⟩
    simp only [store_segmentAt _ hchunk, hseg, Option.getD_some]
  · obtain ⟨q', hq', hcell⟩ := hknown x b hb
    by_cases hchunk : x / Q = p / Q
    · rw [if_pos hchunk]
      refine ⟨_, rfl, ?_⟩
      rw [hchunk] at hq'
      simp only [store_segmentAt _ hchunk, hseg, Option.getD_none, hold q' hq', hcell]
    · rw [if_neg hchunk]
      exact ⟨q', hq', hcell⟩

/-- A seek on the device is a seek from the position that it counts from. -/
theorem scullLlseek_spec (dev : ScullDev) (p : ℕ) (off : Int64) (whence : Int32) :
    ∃ ret : ℤ, ∃ new : ℕ, scullLlseek dev p off whence = (ret, (new : ℤ)) ∧
      Seeks dev.size p off whence ret new := by
  have hoff : loffT off.toInt = off.toInt := loffT_of_range off.le_toInt off.toInt_lt
  have heq : scullLlseek dev p off whence =
      (seekBase dev.size p whence).elim (-EINVAL, (p : ℤ)) fun base =>
        if loffT (base + off.toInt) < 0 then (-EINVAL, (p : ℤ))
        else (loffT (base + off.toInt), loffT (base + off.toInt)) := by
    unfold scullLlseek seekBase
    split_ifs <;> simp [hoff]
  rw [heq]
  cases hbase : seekBase dev.size p whence with
  | none => exact ⟨_, p, rfl, .refused (by simp [hbase])⟩
  | some base =>
    rw [Option.elim_some]
    split_ifs with hneg
    · exact ⟨_, p, rfl, .refused (by simp [hbase, hneg])⟩
    · obtain ⟨new, hnew⟩ := Int.eq_ofNat_of_zero_le (not_lt.mp hneg)
      rw [hnew]
      exact ⟨_, new, rfl, .moved hbase hnew.symm⟩

namespace Represents

variable {Q : ℕ} {s : ScullSys} {a : StoreState Q}

theorem files_update (h : Represents s a) {file : ℕ} {x : ℤ} {p : ℕ} (hx : x = p) (f : ℕ) :
    Function.update s.files file x f = (Function.update a.files file p f : ℕ) := by
  by_cases hf : f = file
  · subst hf
    simp [hx]
  · simp [hf, h.files_eq f]

/-- The bytes up to the end of the data, for a size that the file system layer passes on. -/
theorem upToSize_eq (h : Represents s a) {p count : ℕ} (hp : p < s.dev.size)
    (hcount : count ≤ maxRwCount) : upToSize s.dev p count = min count (s.dev.size - p) := by
  have hsize := h.rep.size_lt
  have hmax : maxRwCount < 2 ^ 31 := by decide
  exact Scull.upToSize_eq hp.le (by omega)

/-- **Reads.** A read delivers what a read of the store may deliver, and leaves the store. -/
theorem read (h : Represents s a) {file count room : ℕ} {env : AllocEnv}
    (hcall : StoreCall s (.scullRead file count room false env)) :
    ∃ xs t, s.step (.scullRead file count room false env) = some (⟨(xs.length : ℕ), xs⟩, t) ∧
      a.store.Reads (a.files file) count xs ∧ t.dev = s.dev ∧
      Represents t (⟨a.store, Function.update a.files file (a.files file + xs.length)⟩ :
        StoreState Q) := by
  obtain ⟨hcount, hfit, hroom⟩ := hcall
  have hp := h.files_eq file
  rw [hp, Int.toNat_natCast] at hroom
  generalize a.files file = p at hp hroom ⊢
  obtain ⟨hlt, hbound, -⟩ := h.rep.pos_bounds hp hfit
  obtain ⟨res, hres, hdev, -, hrep, heffect⟩ := h.rep.read_spec hp hfit count room env
  have hstep : s.step (.scullRead file count room false env) = some (s.after file res) := by
    simp only [ScullSys.step, hres, Option.map_some, Bool.false_eq_true, if_false]
  have hnext : ∀ n : ℕ, res.fPos = (p + n : ℕ) → Represents (s.after file res).2
      (⟨a.store, Function.update a.files file (p + n)⟩ : StoreState Q) := by
    intro n hn
    refine ⟨hrep, ?_, ?_, ?_, ?_, h.files_update hn⟩ <;> simp only [ScullSys.after, hdev]
    exacts [h.q_eq, h.size_eq, h.touched_iff, h.known]
  have hQ := h.q_eq
  rw [hQ] at heffect hroom
  cases heffect with
  | nothing hret hbytes hpos hwhy =>
    refine ⟨[], _, ?_, .nothing ?_, hdev, hnext 0 hpos⟩
    · rw [hstep, ScullSys.after, hret, hbytes]
      rfl
    · rw [h.size_eq, h.touched_iff]
      exact hwhy.imp_right fun hnone => by simp [hnone]
  | @delivered q hsize hq hle hret hbytes hpos =>
    rw [h.upToSize_eq hsize hcount, min_assoc] at hret hbytes hpos
    have hlen : res.bytes.length = min count (min (s.dev.size - p) (Q - p % Q)) := by
      rw [hbytes, Cells.length_load]
    refine ⟨res.bytes, _, ?_, .cells ?_ ?_ ?_ ?_, hdev, hnext _ ?_⟩
    · rw [hstep, ScullSys.after, hret, hlen]
    · rw [h.size_eq]
      exact hsize
    · rw [h.touched_iff, hq]
      rfl
    · rw [h.size_eq]
      exact hlen
    · intro i b hi hb
      rw [hlen] at hi
      obtain ⟨q', hq', hcell⟩ := h.known _ _ hb
      have hchunk : (p + i) / Q = p / Q := div_eq_of_chunk (by omega) (by omega)
      rw [hchunk, hq] at hq'
      cases hq'
      have hoff : (p + i) % Q = p % Q + i := by
        have hdiv := Nat.div_add_mod (p + i) Q
        have hdiv' := Nat.div_add_mod p Q
        rw [hchunk] at hdiv
        omega
      rw [hbytes, Cells.getElem?_load _ _ hi, ← hcell, hoff, Nat.cast_add]
    · rw [hpos, hlen]
      exact loffT_natCast (by omega)
  | fault hsize _ hlt' =>
    rw [h.upToSize_eq hsize hcount] at hlt'
    omega

/-- **Writes.** A write stores the bytes up to the end of the quantum, and nothing else. -/
theorem write (h : Represents s a) {file count : ℕ} {src : UserBuffer} {env : AllocEnv}
    (hcall : StoreCall s (.scullWrite file count src false env)) :
    ∃ t, s.step (.scullWrite file count src false env) =
        some (⟨(min count (Q - a.files file % Q) : ℕ),
          src.bytes.take (min count (Q - a.files file % Q))⟩, t) ∧
      t.dev.quantum = s.dev.quantum ∧ t.dev.qset = s.dev.qset ∧
      Represents t (⟨a.store.write (a.files file) (src.bytes.take count),
        Function.update a.files file (a.files file + min count (Q - a.files file % Q))⟩ :
          StoreState Q) := by
  obtain ⟨-, hfit, hample, hsrc⟩ := hcall
  have hp := h.files_eq file
  rw [hp, Int.toNat_natCast] at hsrc
  generalize a.files file = p at hp hsrc ⊢
  obtain ⟨hlt, hbound, -⟩ := h.rep.pos_bounds hp hfit
  obtain ⟨res, hres, hrep, hkept, hcases⟩ := h.rep.write_spec hp hfit count src env
  have hstep : s.step (.scullWrite file count src false env) = some (s.after file res) := by
    simp only [ScullSys.step, hres, Option.map_some, Bool.false_eq_true, if_false]
  have hQ := h.q_eq
  rw [hQ] at hcases hsrc
  rcases hcases with ⟨-, hnot⟩ | hw
  · exact absurd ⟨hample, hsrc⟩ hnot
  have hend : p + min count (Q - p % Q) < 2 ^ 63 := by omega
  have haccepted : SparseStore.accepted Q p (src.bytes.take count) =
      src.bytes.take (min count (Q - p % Q)) := by
    rw [SparseStore.accepted, List.take_take, min_comm]
  have hlen : (src.bytes.take (min count (Q - p % Q))).length = min count (Q - p % Q) :=
    List.length_take_of_le hsrc
  obtain ⟨q, hat, hold⟩ := hw.stored
  refine ⟨_, ?_, hkept.quantum_eq, hkept.qset_eq, ⟨hrep, ?_, ?_, ?_, ?_, h.files_update ?_⟩⟩
  · rw [hstep, ScullSys.after, hw.ret_eq, hw.bytes_eq]
  · exact hkept.q_eq.trans hQ
  · simp only [SparseStore.write, ScullSys.after, haccepted, hlen, hw.size_eq, h.size_eq,
      loffT_natCast hend]
    rw [sizeT_natCast (by omega)]
  · intro k
    simp only [SparseStore.write, ScullSys.after, hkept.s_eq, hat, Set.mem_insert_iff,
      h.touched_iff]
    split_ifs with hk
    · simp [hk]
    · simp [hk]
  · simp only [ScullSys.after, hkept.s_eq]
    rw [← haccepted] at hat
    exact known_write h.known hat hold
  · rw [hw.fPos_eq]
    exact loffT_natCast hend

/-- **Seeks.** A seek moves one position and leaves the store. -/
theorem llseek (h : Represents s a) (file : ℕ) (off : Int64) (whence : Int32) :
    ∃ ret new t, s.step (.scullLlseek file off whence) = some (⟨ret, []⟩, t) ∧
      Seeks a.store.size (a.files file) off whence ret new ∧
      Represents t (⟨a.store, Function.update a.files file new⟩ : StoreState Q) := by
  obtain ⟨ret, new, heq, hseeks⟩ := scullLlseek_spec s.dev (a.files file) off whence
  have hadm : Admissible s (.scullLlseek file off whence) := trivial
  obtain ⟨r, t, hstep, hrep⟩ := h.rep.step hadm
  simp only [ScullSys.step, h.files_eq, heq] at hstep ⊢
  cases hstep
  rw [h.size_eq]
  exact ⟨ret, new, _, rfl, hseeks, hrep, h.q_eq, h.size_eq, h.touched_iff, h.known,
    h.files_update rfl⟩

/-- **One call.** Every call on the device is a call on the store that it represents. -/
theorem step (h : Represents s a) {op : ScullOp} (hop : StoreCall s op) :
    ∃ r t b, s.step op = some (r, t) ∧ StoreStep a op r b ∧ Represents t b := by
  cases op with
  | scullRead file count room lockIntr env =>
    cases lockIntr with
    | false =>
      obtain ⟨xs, t, hstep, hreads, -, ht⟩ := h.read hop
      exact ⟨_, t, _, hstep, .read a file count room env hreads, ht⟩
    | true => exact ⟨_, s, a, rfl, .readInterrupted a file count room env, h⟩
  | scullWrite file count src lockIntr env =>
    cases lockIntr with
    | false =>
      obtain ⟨t, hstep, -, -, ht⟩ := h.write hop
      exact ⟨_, t, _, hstep, .write a file count src env, ht⟩
    | true => exact ⟨_, s, a, rfl, .writeInterrupted a file count src env, h⟩
  | scullLlseek file off whence =>
    obtain ⟨ret, new, t, hstep, hseeks, ht⟩ := h.llseek file off whence
    exact ⟨_, t, _, hstep, .llseek a file off whence hseeks, ht⟩
  | scullOpen _ _ _ => exact hop.elim
  | scullIoctl _ _ _ => exact hop.elim

end Represents

/-- **A scull device is a sparse store.** On a device that was emptied, every sequence of reads,
writes and seeks, at positions whose quantum set has a number that is an `int`, with memory
available and copies that succeed, has the answers of a run of the store, which starts without data,
and leaves a list of quantum sets that represents the store that the run leaves.

Source: `ldd/scull/main.c`, lines 264–389. -/
theorem scull_is_sparse_store {s : ScullSys} (hs : Trimmed s) {ops : List ScullOp}
    (hops : Guarded ScullSys.step StoreCall s ops) :
    ∃ answers t, ∃ b : StoreState s.dev.q, exec ScullSys.step s ops = some (answers, t) ∧
      Trace StoreStep ⟨.empty, fun file => (s.files file).toNat⟩ ops answers b ∧
      Represents t b := by
  have hfiles : ∀ file, s.files file = ((s.files file).toNat : ℕ) := fun file =>
    (Int.toNat_of_nonneg (hs.pos file).1).symm
  exact exec_simulation Represents StoreStep (fun _ _ _ h hop => h.step hop) (hs.represents hfiles)
    hops

/-- With quanta of four bytes, a write of six bytes is cut at the end of the quantum; a read from
the beginning delivers the four. -/
theorem scull_is_sparse_store_four :
    ∃ answers t, ∃ b : StoreState 4,
      exec ScullSys.step (.load ⟨4, 2, 0⟩) [.scullWrite 0 6 ⟨[1, 2, 3, 4, 5, 6], []⟩ false
          ⟨fun _ => true, true, some fun _ => 0⟩,
        .scullLlseek 0 0 0, .scullRead 0 9 9 false ⟨fun _ => false, false, none⟩] =
          some (answers, t) ∧
      Trace StoreStep ⟨.empty, fun _ => 0⟩ [.scullWrite 0 6 ⟨[1, 2, 3, 4, 5, 6], []⟩ false
          ⟨fun _ => true, true, some fun _ => 0⟩,
        .scullLlseek 0 0 0, .scullRead 0 9 9 false ⟨fun _ => false, false, none⟩] answers b ∧
      Represents t b := by
  have htrimmed : Trimmed (.load ⟨4, 2, 0⟩) := .load ⟨by decide, by decide, by decide⟩
  refine scull_is_sparse_store htrimmed ?_
  refine ⟨⟨by decide, by unfold ItemFits; decide, ⟨fun _ => rfl, rfl, rfl⟩, by decide⟩, ?_⟩
  intro _ _ h
  cases h
  refine ⟨trivial, fun _ _ h => ?_⟩
  cases h
  exact ⟨⟨by decide, by unfold ItemFits; decide, by decide⟩, fun _ _ _ => trivial⟩

end ExKernel.Scull
