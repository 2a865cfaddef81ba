import ExKernel.Scull.Store
import Mathlib.Algebra.BigOperators.Group.Finset.Basic
import Mathlib.Algebra.Order.BigOperators.Group.Finset

/-!
# What was written is read back

A call of `scull_write` or `scull_read` stops at the end of a quantum, so a program that wants to
write or read more calls it in a loop. This file has the loops, and any interleaving of write loops
in which a loop waits for the earlier ones with which it overlaps.

The loops cut the data at places that depend on the geometry. What is read back does not depend on
them: it is what the writes, laid over one another, leave.

## Main definitions

* `Scull.Session`, `Scull.LoopCall`, `Scull.Session.step`: write loops on a device.
* `Scull.InTurn`: the calls that may come next.
* `Scull.readLoop`: the loop that reads a number of bytes.

## Main results

* `Scull.Session.carried_out`: the write loops on one device.
* `Scull.Represents.readLoop`: the read loop.
* `Scull.round_trip`: two devices with different geometries and interleavings.

## References

* `ldd/scull/main.c`, lines 264–389.
-/

namespace ExKernel.Scull

open Transition

/-! ### The loops -/

/-- The device, and the number of bytes that each write loop has got rid of. -/
structure Session where
  sys : ScullSys
  done : ℕ → ℕ

/-- A call of the loop with the given number. -/
structure LoopCall where
  loop : ℕ
  env : AllocEnv

section Loops

variable (ws : List (ℕ × List UInt8))

/-- The bytes that a loop has still to write; `ws` are the positions and the buffers of the
loops. -/
def Session.rest (s : Session) (i : ℕ) : List UInt8 :=
  ((ws[i]?).map fun w => w.2.drop (s.done i)).getD []

/-- All loops have ended. -/
def Session.Ended (s : Session) : Prop := ∀ i, s.rest ws i = []

/-- One call of a loop that has not ended: the loop `i` has the file `i`, and writes what remains;
the file system layer passes on at most `maxRwCount` bytes. -/
def Session.step (s : Session) (c : LoopCall) : Option (Answer × Session) :=
  let rest := s.rest ws c.loop
  if rest = [] then none
  else (s.sys.step (.scullWrite c.loop (min rest.length maxRwCount) ⟨rest, []⟩ false c.env)).map
    fun out => (out.1, ⟨out.2, Function.update s.done c.loop (s.done c.loop + out.1.ret.toNat)⟩)

/-- The ranges of two loops have a position in common. -/
def Overlap (i j : ℕ) : Prop :=
  ∃ v w, ws[i]? = some v ∧ ws[j]? = some w ∧ v.1 < w.1 + w.2.length ∧ w.1 < v.1 + v.2.length

/-- The calls that may come next: those of a loop that has not ended, when the earlier loops with
which it overlaps have; there is memory for them. -/
def InTurn (s : Session) (c : LoopCall) : Prop :=
  c.env.Ample ∧ s.rest ws c.loop ≠ [] ∧ ∀ j < c.loop, Overlap ws j c.loop → s.rest ws j = []

/-- An emptied device on which the files of the loops are at the positions where the loops begin,
and the positions to be written are in quantum sets whose numbers are `int`s. -/
structure Ready (s : ScullSys) : Prop where
  trimmed : Trimmed s
  files : ∀ i w, ws[i]? = some w → s.files i = w.1
  fits : ∀ w ∈ ws, ∀ x, w.1 ≤ x → x < w.1 + w.2.length → x / (s.dev.q * s.dev.s) < 2 ^ 31

/-- The segments that the loops have written. -/
def segments (done : ℕ → ℕ) : List (ℕ × List UInt8) := ws.mapIdx fun i w => (w.1, w.2.take (done i))

/-- The number of bytes that remain to be written. -/
def Session.remaining (s : Session) : ℕ := ∑ i ∈ Finset.range ws.length, (s.rest ws i).length

end Loops

/-- A system with a file at the position `p`. -/
def ScullSys.positioned (s : ScullSys) (file p : ℕ) : ScullSys :=
  { s with files := Function.update s.files file p }

/-- The loop that reads until it has got `want` bytes: its result if it ends after at most `fuel`
calls. -/
def readLoop (file : ℕ) (env : ℕ → AllocEnv) : ℕ → ℕ → ScullSys → Option (List UInt8)
  | _, 0, _ => some []
  | 0, _ + 1, _ => none
  | fuel + 1, want + 1, s =>
    (s.step
      (.scullRead file (min (want + 1) maxRwCount) (want + 1) false (env fuel))).bind fun out =>
      (readLoop file env fuel (want + 1 - out.1.bytes.length) out.2).map (out.1.bytes ++ ·)

/-! ### The write loops -/

variable {ws : List (ℕ × List UInt8)}

theorem Session.rest_eq {s : Session} {i : ℕ} {w : ℕ × List UInt8} (h : ws[i]? = some w) :
    s.rest ws i = w.2.drop (s.done i) := by
  simp [Session.rest, h]

theorem Session.exists_of_rest_ne {s : Session} {i : ℕ} (h : s.rest ws i ≠ []) :
    ∃ w, ws[i]? = some w ∧ s.done i < w.2.length := by
  cases hw : ws[i]? with
  | none => simp [Session.rest, hw] at h
  | some w =>
    rw [Session.rest_eq hw, Ne, List.drop_eq_nil_iff, not_le] at h
    exact ⟨w, rfl, h⟩

theorem getElem?_segments (done : ℕ → ℕ) (i : ℕ) :
    (segments ws done)[i]? = (ws[i]?).map fun w => (w.1, w.2.take (done i)) :=
  List.getElem?_mapIdx

theorem segments_update {done : ℕ → ℕ} {i d : ℕ} {w : ℕ × List UInt8} (hw : ws[i]? = some w) :
    segments ws (Function.update done i d) = (segments ws done).set i (w.1, w.2.take d) := by
  refine List.ext_getElem? fun j => ?_
  rw [List.getElem?_set, getElem?_segments, getElem?_segments]
  by_cases hj : i = j
  · subst hj
    have hlt : i < (segments ws done).length := by
      rw [segments, List.length_mapIdx]
      exact (List.getElem?_eq_some_iff.mp hw).1
    simp [hw, hlt]
  · simp [hj, Function.update_of_ne (Ne.symm hj)]

/-- What holds between the calls of the write loops: the device represents a store; each file is
where its loop has got to; the bytes of the store are those that were written, the later loops on
top; and a loop that has begun finds the earlier ones with which it overlaps at their end. -/
structure Session.Inv (ws : List (ℕ × List UInt8)) (s₀ : ScullSys) {Q : ℕ} (a : StoreState Q)
    (s : Session) : Prop where
  represents : Represents s.sys a
  geometry : s.sys.dev.quantum = s₀.dev.quantum ∧ s.sys.dev.qset = s₀.dev.qset
  files : ∀ i w, ws[i]? = some w → a.files i = w.1 + s.done i ∧ s.done i ≤ w.2.length
  bytes : ∀ x, a.store.bytes x = overlay (segments ws s.done) x
  waited : ∀ i j, j < i → Overlap ws j i → 0 < s.done i → s.rest ws j = []

theorem Session.remaining_lt {s t : Session} {i m : ℕ} (hrest : s.rest ws i ≠ []) (hm : 0 < m)
    (ht : t.done = Function.update s.done i (s.done i + m)) : t.remaining ws < s.remaining ws := by
  obtain ⟨w, hw, hlt⟩ := Session.exists_of_rest_ne hrest
  have hi : i < ws.length := (List.getElem?_eq_some_iff.mp hw).1
  have hle : ∀ j, (t.rest ws j).length ≤ (s.rest ws j).length := by
    intro j
    unfold Session.rest
    rw [ht]
    by_cases hj : j = i
    · subst hj
      simp only [hw, Option.map_some, Option.getD_some, Function.update_self, List.length_drop]
      omega
    · simp [Function.update_of_ne hj]
  refine Finset.sum_lt_sum (fun j _ => hle j) ⟨i, Finset.mem_range.mpr hi, ?_⟩
  rw [Session.rest_eq hw, Session.rest_eq hw, ht]
  simp only [Function.update_self, List.length_drop]
  omega

/-- The positions that a ready device is about to write are in quantum sets with `int` numbers. -/
theorem Ready.itemFits {s₀ s : ScullSys} (h : Ready ws s₀)
    (hgeo : s.dev.quantum = s₀.dev.quantum ∧ s.dev.qset = s₀.dev.qset) {p : ℕ}
    (hp : ∃ w ∈ ws, w.1 ≤ p ∧ p < w.1 + w.2.length) : ItemFits s.dev p := by
  obtain ⟨w, hw, hle, hlt⟩ := hp
  have hfit := h.fits w hw p hle hlt
  have hg := h.trimmed.rep.geometry
  rw [ItemFits, hgeo.1, hgeo.2, ← hg.toNat_quantum, ← hg.toNat_qset]
  exact_mod_cast hfit

namespace Session.Inv

variable {s₀ : ScullSys} {s : Session} {a : StoreState s₀.dev.q}

/-- The bytes of the store after a loop has written `m` more of its bytes: no later loop has written
there, because it would have waited. -/
theorem overlay_advance (h : Session.Inv ws s₀ a s) {i : ℕ} {w : ℕ × List UInt8}
    (hw : ws[i]? = some w) (hlt : s.done i < w.2.length) (m x : ℕ) :
    overlay (segments ws (Function.update s.done i (s.done i + m))) x =
      (segmentAt (w.1 + s.done i) ((w.2.drop (s.done i)).take m) x).or (a.store.bytes x) := by
  have hold : (segments ws s.done)[i]? = some (w.1, w.2.take (s.done i)) := by
    rw [getElem?_segments, hw]
    rfl
  have hlen : (w.2.take (s.done i)).length = s.done i := List.length_take_of_le hlt.le
  rw [segments_update hw, h.bytes x]
  refine overlay_set hold ?_ ?_
  · simp only [List.take_add, segmentAt_append, hlen]
  · intro hsome j seg hj hseg
    obtain ⟨hle, hlt'⟩ := isSome_segmentAt.mp hsome
    rw [List.length_take, List.length_drop] at hlt'
    rw [getElem?_segments] at hseg
    obtain ⟨v, hv, rfl⟩ := Option.map_eq_some_iff.mp hseg
    rw [← Option.not_isSome_iff_eq_none, isSome_segmentAt, List.length_take]
    intro hx
    have hended := h.waited j i hj ⟨w, v, hw, hv, by omega, by omega⟩ (by omega)
    rw [Session.rest_eq hw, List.drop_eq_nil_iff] at hended
    omega

theorem files_advance (h : Session.Inv ws s₀ a s) {i m : ℕ} {w : ℕ × List UInt8}
    (hw : ws[i]? = some w) (hm : s.done i + m ≤ w.2.length) (j : ℕ) (v : ℕ × List UInt8)
    (hv : ws[j]? = some v) :
    Function.update a.files i (w.1 + s.done i + m) j =
        v.1 + Function.update s.done i (s.done i + m) j ∧
      Function.update s.done i (s.done i + m) j ≤ v.2.length := by
  by_cases hj : j = i
  · subst hj
    rw [hw] at hv
    cases hv
    simp only [Function.update_self]
    exact ⟨Nat.add_assoc _ _ _, hm⟩
  · simp only [Function.update_of_ne hj]
    exact h.files j v hv

/-- A loop that has written more has waited for the earlier ones with which it overlaps. -/
theorem waited_advance (h : Session.Inv ws s₀ a s) {i m : ℕ}
    (hearlier : ∀ j < i, Overlap ws j i → s.rest ws j = []) {t : Session}
    (ht : t.done = Function.update s.done i (s.done i + m)) :
    ∀ k j, j < k → Overlap ws j k → 0 < t.done k → t.rest ws j = [] := by
  intro k j hjk hover hpos
  have hrest : s.rest ws j = [] := by
    by_cases hk : k = i
    · subst hk
      exact hearlier j hjk hover
    · rw [ht, Function.update_of_ne hk] at hpos
      exact h.waited k j hjk hover hpos
  obtain ⟨v, -, hv, -⟩ := hover
  rw [Session.rest_eq hv, List.drop_eq_nil_iff] at hrest ⊢
  rw [ht]
  by_cases hj : j = i
  · subst hj
    rw [Function.update_self]
    omega
  · rw [Function.update_of_ne hj]
    exact hrest

/-- **One call of a write loop.** -/
theorem step (h : Session.Inv ws s₀ a s) (hready : Ready ws s₀) {c : LoopCall}
    (hc : InTurn ws s c) :
    ∃ r t, Session.step ws s c = some (r, t) ∧
      (∃ b : StoreState s₀.dev.q, Session.Inv ws s₀ b t) ∧ t.remaining ws < s.remaining ws := by
  obtain ⟨i, env⟩ := c
  obtain ⟨hample, hrest, hearlier⟩ := hc
  simp only at hample hrest hearlier
  obtain ⟨w, hw, hlt⟩ := Session.exists_of_rest_ne hrest
  obtain ⟨hfile, -⟩ := h.files i w hw
  have hrest_eq := Session.rest_eq (s := s) hw
  have hlen : (s.rest ws i).length = w.2.length - s.done i := by rw [hrest_eq, List.length_drop]
  have hQ : 0 < s₀.dev.q := hready.trimmed.rep.geometry.toNat_quantum_pos
  have hmod := Nat.mod_lt (w.1 + s.done i) hQ
  have hmax : 0 < maxRwCount := by decide
  have hfit : ItemFits s.sys.dev (s.sys.files i) := by
    rw [h.represents.files_eq, hfile]
    exact hready.itemFits h.geometry ⟨w, List.mem_of_getElem? hw, by omega, by omega⟩
  have hcall : StoreCall s.sys
      (.scullWrite i (min (s.rest ws i).length maxRwCount) ⟨s.rest ws i, []⟩ false env) :=
    ⟨min_le_right _ _, hfit, hample, (min_le_left _ _).trans (min_le_left _ _)⟩
  obtain ⟨t, hstep, hquantum, hqset, ht⟩ := h.represents.write hcall
  rw [hfile] at hstep ht
  have hm : 0 < min (min (s.rest ws i).length maxRwCount)
      (s₀.dev.q - (w.1 + s.done i) % s₀.dev.q) := by omega
  have hm' : min (min (s.rest ws i).length maxRwCount)
      (s₀.dev.q - (w.1 + s.done i) % s₀.dev.q) ≤ w.2.length - s.done i := by omega
  have haccepted : SparseStore.accepted s₀.dev.q (w.1 + s.done i)
      ((s.rest ws i).take (min (s.rest ws i).length maxRwCount)) =
      (w.2.drop (s.done i)).take (min (min (s.rest ws i).length maxRwCount)
        (s₀.dev.q - (w.1 + s.done i) % s₀.dev.q)) := by
    rw [SparseStore.accepted, List.take_take, min_comm, hrest_eq]
  generalize min (min (s.rest ws i).length maxRwCount)
    (s₀.dev.q - (w.1 + s.done i) % s₀.dev.q) = m at *
  refine ⟨⟨m, (s.rest ws i).take m⟩, ⟨t, Function.update s.done i (s.done i + m)⟩, ?_,
    ⟨_, ht, ?_, ?_, ?_, ?_⟩, ?_⟩
  · simp only [Session.step, if_neg hrest, hstep, Option.map_some, Int.toNat_natCast]
  · exact ⟨hquantum.trans h.geometry.1, hqset.trans h.geometry.2⟩
  · exact h.files_advance hw (by omega)
  · intro x
    rw [h.overlay_advance hw hlt, ← haccepted]
    rfl
  · exact h.waited_advance hearlier rfl
  · exact Session.remaining_lt hrest hm rfl

end Session.Inv

theorem Ready.inv {s₀ : ScullSys} (h : Ready ws s₀) :
    Session.Inv ws s₀ (⟨.empty, fun file => (s₀.files file).toNat⟩ : StoreState s₀.dev.q)
      ⟨s₀, fun _ => 0⟩ where
  represents := h.trimmed.represents fun file =>
    (Int.toNat_of_nonneg (h.trimmed.pos file).1).symm
  geometry := ⟨rfl, rfl⟩
  files i w hw := by simp [h.files i w hw]
  bytes x := by
    have hnone : overlay (segments ws fun _ => 0) x = none := by
      rw [← Option.not_isSome_iff_eq_none, isSome_overlay]
      rintro ⟨seg, hseg, hle, hlt⟩
      obtain ⟨i, hi⟩ := List.getElem?_of_mem hseg
      rw [getElem?_segments] at hi
      obtain ⟨w, -, rfl⟩ := Option.map_eq_some_iff.mp hi
      simp at hlt
      omega
    rw [hnone]
    rfl
  waited _ _ _ _ h := absurd h (lt_irrefl 0)

theorem Session.exists_inTurn {s : Session} (h : ¬ s.Ended ws) :
    ∃ i, ∀ env : AllocEnv, env.Ample → InTurn ws s ⟨i, env⟩ := by
  classical
  obtain ⟨i, hi⟩ := not_forall.mp h
  have hex : ∃ i, s.rest ws i ≠ [] := ⟨i, hi⟩
  refine ⟨Nat.find hex, fun env henv => ⟨henv, Nat.find_spec hex, fun j hj _ => ?_⟩⟩
  exact not_not.mp (Nat.find_min hex hj)

theorem Session.remaining_start (ws : List (ℕ × List UInt8)) (s₀ : ScullSys) :
    Session.remaining ws ⟨s₀, fun _ => 0⟩ = (ws.map fun w => w.2.length).sum := by
  induction ws with
  | nil => rfl
  | cons w ws ih =>
    rw [Session.remaining, List.length_cons, Finset.sum_range_succ', List.map_cons, List.sum_cons,
      ← ih, Nat.add_comm]
    rfl

/-- **The write loops on one device.** No interleaving of the loops is stuck or is longer than the
number of bytes to be written, and when it cannot be continued all loops have ended. -/
theorem Session.carried_out {s₀ : ScullSys} (h : Ready ws s₀) {cs : List LoopCall}
    (hcs : Guarded (Session.step ws) (InTurn ws) ⟨s₀, fun _ => 0⟩ cs) :
    ∃ answers t, exec (Session.step ws) ⟨s₀, fun _ => 0⟩ cs = some (answers, t) ∧
      cs.length ≤ (ws.map fun w => w.2.length).sum ∧
      ∃ b : StoreState s₀.dev.q, Session.Inv ws s₀ b t := by
  have hstart : ∃ b : StoreState s₀.dev.q, Session.Inv ws s₀ b ⟨s₀, fun _ => 0⟩ := ⟨_, h.inv⟩
  obtain ⟨answers, t, hrun, hinv⟩ := exec_progress
    (fun s => ∃ b : StoreState s₀.dev.q, Session.Inv ws s₀ b s) (fun s c ⟨b, hb⟩ hc => by
      obtain ⟨r, t, hstep, ht, -⟩ := hb.step h hc
      exact ⟨r, t, hstep, ht⟩) hstart hcs
  have hlen := exec_length_le (fun s => ∃ b : StoreState s₀.dev.q, Session.Inv ws s₀ b s)
    (Session.remaining ws) (fun s c r t ⟨b, hb⟩ hc hst => by
      obtain ⟨r', t', hstep, ht, hlt⟩ := hb.step h hc
      rw [hst] at hstep
      cases hstep
      exact ⟨ht, hlt⟩) hstart hcs hrun
  exact ⟨answers, t, hrun, hlen.trans_eq (Session.remaining_start ws s₀), hinv⟩

/-! ### The read loop -/

theorem Represents.positioned {Q : ℕ} {s : ScullSys} {a : StoreState Q} (h : Represents s a)
    (file : ℕ) {p : ℕ} (hp : p < 2 ^ 63) :
    Represents (s.positioned file p)
      (⟨a.store, Function.update a.files file p⟩ : StoreState Q) := by
  have hrep : Rep (s.positioned file p) :=
    ⟨h.rep.geometry, h.rep.next_geometry, h.rep.shaped, h.rep.covered, h.rep.size_lt, h.rep.sound,
      h.rep.live_perm, h.rep.pos_update (by omega)⟩
  exact ⟨hrep, h.q_eq, h.size_eq, h.touched_iff, h.known, h.files_update rfl⟩

/-- **The read loop.** In a range of known bytes it ends, after no more calls than bytes, and
returns them. -/
theorem Represents.readLoop {Q : ℕ} (file : ℕ) (env : ℕ → AllocEnv) {fuel n p : ℕ} {s : ScullSys}
    {a : StoreState Q} (h : Represents s a) (hp : a.files file = p) (hfuel : n ≤ fuel)
    (hknown : ∀ i < n, (a.store.bytes (p + i)).isSome)
    (hfits : ∀ i < n, ItemFits s.dev ((p + i : ℕ) : ℤ)) :
    ∃ bytes, Scull.readLoop file env fuel n s = some bytes ∧ bytes.length = n ∧
      ∀ i < n, bytes[i]? = a.store.bytes (p + i) := by
  have hQ : 0 < Q := h.q_eq ▸ h.rep.geometry.toNat_quantum_pos
  have hmax : 0 < maxRwCount := by decide
  induction fuel generalizing n p s a with
  | zero =>
    obtain rfl : n = 0 := by omega
    exact ⟨[], rfl, rfl, by simp⟩
  | succ fuel ih =>
    cases n with
    | zero => exact ⟨[], rfl, rfl, by simp⟩
    | succ n =>
      have hfit : ItemFits s.dev (s.files file) := by
        rw [h.files_eq, hp]
        exact hfits 0 (by omega)
      have hcall : StoreCall s
          (.scullRead file (min (n + 1) maxRwCount) (n + 1) false (env fuel)) :=
        ⟨min_le_right _ _, hfit, (min_le_left _ _).trans (min_le_left _ _)⟩
      obtain ⟨xs, t, hstep, hreads, hdev, ht⟩ := h.read hcall
      rw [hp] at hreads ht
      obtain ⟨hpos, hle, hxs⟩ := hreads.of_known hQ (by omega) fun i hi => hknown i (by omega)
      obtain ⟨bytes, hloop, hlen, hbytes⟩ := ih (n := n + 1 - xs.length) (p := p + xs.length) ht
        (by simp) (by omega)
        (fun i hi => by
          rw [Nat.add_assoc]
          exact hknown _ (by omega))
        (fun i hi => by
          rw [hdev, Nat.add_assoc]
          exact hfits _ (by omega))
      refine ⟨xs ++ bytes, ?_, ?_, fun i hi => ?_⟩
      · simp only [Scull.readLoop, hstep, Option.bind_some, hloop, Option.map_some]
      · rw [List.length_append]
        omega
      · rcases lt_or_ge i xs.length with hlt | hge
        · rw [List.getElem?_append_left hlt, hxs i hlt]
        · rw [List.getElem?_append_right hge, hbytes _ (by omega)]
          congr 1
          omega

/-- When all loops have ended, the segments that were written are the whole buffers. -/
theorem Session.Ended.segments_eq {s : Session} (h : s.Ended ws) : segments ws s.done = ws := by
  refine List.ext_getElem? fun i => ?_
  rw [getElem?_segments]
  cases hw : ws[i]? with
  | none => rfl
  | some w =>
    have hrest := h i
    rw [Session.rest_eq hw, List.drop_eq_nil_iff] at hrest
    rw [Option.map_some, List.take_of_length_le hrest]

/-- The positions from `a` to `b` were all written by one of the loops. -/
def Covered (ws : List (ℕ × List UInt8)) (a b : ℕ) : Prop :=
  ∀ x, a ≤ x → x < b → ∃ w ∈ ws, w.1 ≤ x ∧ x < w.1 + w.2.length

theorem Session.Inv.read_back {s₀ : ScullSys} {s : Session} {st : StoreState s₀.dev.q}
    (h : Session.Inv ws s₀ st s) (hready : Ready ws s₀) (hended : s.Ended ws) {a b : ℕ}
    (hcov : Covered ws a b) (file : ℕ) (env : ℕ → AllocEnv) :
    ∃ bytes, Scull.readLoop file env (b - a) (b - a) (s.sys.positioned file a) = some bytes ∧
      bytes.length = b - a ∧ ∀ i < b - a, bytes[i]? = overlay ws (a + i) := by
  rcases Nat.eq_zero_or_pos (b - a) with hzero | hpos
  · rw [hzero]
    exact ⟨[], rfl, rfl, by simp⟩
  · have hlt : a < 2 ^ 63 := by
      obtain ⟨w, hw, hle, hlt⟩ := hcov a le_rfl (by omega)
      have := hready.trimmed.rep.geometry.add_quantum_lt (hready.fits w hw a hle hlt)
      omega
    have hbytes : ∀ x, st.store.bytes x = overlay ws x := fun x => by
      rw [h.bytes, hended.segments_eq]
    have hread := (h.represents.positioned file hlt).readLoop file env (n := b - a) (p := a)
      (by simp) le_rfl
      (fun i hi => by
        simp only [hbytes, isSome_overlay]
        exact hcov _ (by omega) (by omega))
      (fun i hi => hready.itemFits h.geometry (hcov _ (by omega) (by omega)))
    simpa only [hbytes] using hread

/-! ### Two devices -/

/-- **Round trip.** On two devices with any geometries that the driver can work with, the same write
loops are carried out in any two interleavings in which a loop waits for the earlier ones with which
it overlaps. No call is stuck, an interleaving is no longer than the number of bytes, and as long as
not all loops have ended one of them may go on. When all have ended, the read loops over a range of
written positions end and return, on both devices, the last byte written at each position.

Source: `ldd/scull/main.c`, lines 264–389. -/
theorem round_trip {ws : List (ℕ × List UInt8)} {s₁ s₂ : ScullSys} (h₁ : Ready ws s₁)
    (h₂ : Ready ws s₂) {cs₁ cs₂ : List LoopCall}
    (hcs₁ : Guarded (Session.step ws) (InTurn ws) ⟨s₁, fun _ => 0⟩ cs₁)
    (hcs₂ : Guarded (Session.step ws) (InTurn ws) ⟨s₂, fun _ => 0⟩ cs₂) :
    ∃ answers₁ t₁ answers₂ t₂,
      exec (Session.step ws) ⟨s₁, fun _ => 0⟩ cs₁ = some (answers₁, t₁) ∧
      exec (Session.step ws) ⟨s₂, fun _ => 0⟩ cs₂ = some (answers₂, t₂) ∧
      cs₁.length ≤ (ws.map fun w => w.2.length).sum ∧
      cs₂.length ≤ (ws.map fun w => w.2.length).sum ∧
      (¬ t₁.Ended ws → ∃ i, ∀ env : AllocEnv, env.Ample → InTurn ws t₁ ⟨i, env⟩) ∧
      (¬ t₂.Ended ws → ∃ i, ∀ env : AllocEnv, env.Ample → InTurn ws t₂ ⟨i, env⟩) ∧
      (t₁.Ended ws → t₂.Ended ws → ∀ a b, Covered ws a b → ∀ file env₁ env₂, ∃ bytes,
        readLoop file env₁ (b - a) (b - a) (t₁.sys.positioned file a) = some bytes ∧
        readLoop file env₂ (b - a) (b - a) (t₂.sys.positioned file a) = some bytes ∧
        bytes.length = b - a ∧ ∀ i < b - a, bytes[i]? = overlay ws (a + i)) := by
  obtain ⟨answers₁, t₁, hrun₁, hlen₁, st₁, hinv₁⟩ := Session.carried_out h₁ hcs₁
  obtain ⟨answers₂, t₂, hrun₂, hlen₂, st₂, hinv₂⟩ := Session.carried_out h₂ hcs₂
  refine ⟨answers₁, t₁, answers₂, t₂, hrun₁, hrun₂, hlen₁, hlen₂, Session.exists_inTurn,
    Session.exists_inTurn, fun hend₁ hend₂ a b hcov file env₁ env₂ => ?_⟩
  obtain ⟨bytes₁, hread₁, hcount₁, hbytes₁⟩ := hinv₁.read_back h₁ hend₁ hcov file env₁
  obtain ⟨bytes₂, hread₂, hcount₂, hbytes₂⟩ := hinv₂.read_back h₂ hend₂ hcov file env₂
  have heq : bytes₁ = bytes₂ := by
    refine List.ext_getElem? fun i => ?_
    rcases lt_or_ge i (b - a) with hlt | hge
    · rw [hbytes₁ i hlt, hbytes₂ i hlt]
    · rw [List.getElem?_eq_none (by omega), List.getElem?_eq_none (by omega)]
  exact ⟨bytes₁, hread₁, heq ▸ hread₂, hcount₁, hbytes₁⟩

/-- Two bytes, written at once with quanta of four bytes and one by one with quanta of one byte. -/
theorem round_trip_two_bytes :
    ∃ answers₁ t₁ answers₂ t₂,
      exec (Session.step [(0, [5, 6])]) ⟨.load ⟨4, 2, 0⟩, fun _ => 0⟩
        [⟨0, ⟨fun _ => true, true, some fun _ => 0⟩⟩] = some (answers₁, t₁) ∧
      exec (Session.step [(0, [5, 6])]) ⟨.load ⟨1, 1, 0⟩, fun _ => 0⟩
        [⟨0, ⟨fun _ => true, true, some fun _ => 0⟩⟩,
          ⟨0, ⟨fun _ => true, true, some fun _ => 0⟩⟩] = some (answers₂, t₂) ∧
      (t₁.Ended [(0, [5, 6])] → t₂.Ended [(0, [5, 6])] → ∀ file env, ∃ bytes,
        readLoop file env 2 2 (t₁.sys.positioned file 0) = some bytes ∧
        readLoop file env 2 2 (t₂.sys.positioned file 0) = some bytes) := by
  have hready : ∀ params : Params, GoodGeometry params.quantum params.qset →
      Ready [(0, [5, 6])] (.load params) := by
    refine fun params hgood => ⟨.load hgood, fun i w hw => ?_, fun w hw x _ hx => ?_⟩
    · have hmem := List.mem_of_getElem? hw
      rw [List.mem_singleton] at hmem
      rw [hmem]
      rfl
    · rw [List.mem_singleton] at hw
      rw [hw] at hx
      refine (Nat.div_le_self x _).trans_lt ?_
      simp only [List.length_cons, List.length_nil] at hx
      omega
  have hample : AllocEnv.Ample ⟨fun _ => true, true, some fun _ => 0⟩ := ⟨fun _ => rfl, rfl, rfl⟩
  have hcs₁ : Guarded (Session.step [(0, [5, 6])]) (InTurn [(0, [5, 6])])
      ⟨.load ⟨4, 2, 0⟩, fun _ => 0⟩ [⟨0, ⟨fun _ => true, true, some fun _ => 0⟩⟩] :=
    ⟨⟨hample, by decide, by simp⟩, fun _ _ _ => trivial⟩
  have hcs₂ : Guarded (Session.step [(0, [5, 6])]) (InTurn [(0, [5, 6])])
      ⟨.load ⟨1, 1, 0⟩, fun _ => 0⟩ [⟨0, ⟨fun _ => true, true, some fun _ => 0⟩⟩,
        ⟨0, ⟨fun _ => true, true, some fun _ => 0⟩⟩] := by
    refine ⟨⟨hample, by decide, by simp⟩, fun _ _ h => ?_⟩
    cases h
    exact ⟨⟨hample, by decide, by simp⟩, fun _ _ _ => trivial⟩
  obtain ⟨answers₁, t₁, answers₂, t₂, hrun₁, hrun₂, -, -, -, -, hread⟩ := round_trip
    (hready _ ⟨by decide, by decide, by decide⟩) (hready _ ⟨by decide, by decide, by decide⟩)
    hcs₁ hcs₂
  refine ⟨answers₁, t₁, answers₂, t₂, hrun₁, hrun₂, fun hend₁ hend₂ file env => ?_⟩
  obtain ⟨bytes, hread₁, hread₂, -⟩ := hread hend₁ hend₂ 0 2
    (fun x _ hx => ⟨_, List.mem_singleton_self _, by omega, by simpa using hx⟩) file env env
  exact ⟨bytes, hread₁, hread₂⟩

end ExKernel.Scull
