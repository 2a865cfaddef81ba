import Mathlib.Data.Set.Insert
import Mathlib.Tactic.Common

/-!
# Sparse stores

A sparse store keeps cells at the natural numbers in chunks of `Q` cells: it has a size, the set of
chunks that were touched, and what is known of the cells. A transfer stops at the end of the chunk
in which it begins. Cells of a touched chunk that nobody wrote have contents, but none that is
known, so what a read delivers there is left open.

Every known cell is below the size and in a touched chunk; both are fields of the store, so no other
store can be built.

The second part is about a list of segments laid over one another, the later ones on top: this is
what a sequence of writes leaves.

## Main definitions

* `segmentAt`, `overlay`: the cells of a segment, and of a list of segments.
* `SparseStore`, `SparseStore.write`, `SparseStore.Reads`.

## Main results

* `SparseStore.Reads.eq_nil_iff`: when a read delivers nothing.
* `SparseStore.Reads.of_known`: a read in a range of known cells delivers some of them, and these
  are the known ones.
* `overlay_set`: the effect of extending one segment of a list.
-/

namespace ExKernel

variable {α : Type*}

/-- The positions from `p` to the end of its chunk are in one chunk. -/
theorem div_eq_of_chunk {Q p x : ℕ} (hle : p ≤ x) (hlt : x < p + (Q - p % Q)) : x / Q = p / Q := by
  have hQ : 0 < Q := by omega
  have hmod := Nat.mod_lt p hQ
  have hdiv := Nat.div_add_mod p Q
  refine le_antisymm (Nat.lt_succ_iff.mp ((Nat.div_lt_iff_lt_mul hQ).mpr ?_))
    (Nat.div_le_div_right hle)
  rw [Nat.succ_mul, Nat.mul_comm]
  omega

/-- The offset of a position in the chunk of a position before it. -/
theorem mod_eq_of_chunk {Q p x : ℕ} (hle : p ≤ x) (hdiv : x / Q = p / Q) :
    x % Q = p % Q + (x - p) := by
  have hx := Nat.div_add_mod x Q
  have hp := Nat.div_add_mod p Q
  rw [hdiv] at hx
  omega

/-! ### Segments -/

/-- The cell at the position `x` of the segment that starts at `p` and consists of `xs`. -/
def segmentAt (p : ℕ) (xs : List α) (x : ℕ) : Option α := if p ≤ x then xs[x - p]? else none

theorem isSome_segmentAt {p x : ℕ} {xs : List α} :
    (segmentAt p xs x).isSome ↔ p ≤ x ∧ x < p + xs.length := by
  unfold segmentAt
  split_ifs with h
  · simp only [isSome_getElem?]
    omega
  · simp [h]

theorem segmentAt_eq_none {p x : ℕ} {xs : List α} (h : x < p ∨ p + xs.length ≤ x) :
    segmentAt p xs x = none := by
  rw [← Option.not_isSome_iff_eq_none, isSome_segmentAt]
  omega

theorem segmentAt_append (p : ℕ) (xs ys : List α) (x : ℕ) :
    segmentAt p (xs ++ ys) x = (segmentAt (p + xs.length) ys x).or (segmentAt p xs x) := by
  rcases lt_or_ge x (p + xs.length) with hlt | hge
  · rw [segmentAt_eq_none (Or.inl hlt), Option.none_or]
    unfold segmentAt
    split_ifs with hp
    · exact List.getElem?_append_left (by omega)
    · rfl
  · have hnone : segmentAt p xs x = none := segmentAt_eq_none (Or.inr hge)
    rw [hnone, Option.or_none]
    unfold segmentAt
    rw [if_pos (by omega), if_pos hge, List.getElem?_append_right (by omega)]
    congr 1
    omega

/-- The cell at `x` when the segments of a list are laid over one another, the later ones on top. -/
def overlay : List (ℕ × List α) → ℕ → Option α
  | [], _ => none
  | seg :: segs, x => (overlay segs x).or (segmentAt seg.1 seg.2 x)

/-- The overlay has a cell exactly where one of the segments has. -/
theorem isSome_overlay {segs : List (ℕ × List α)} {x : ℕ} :
    (overlay segs x).isSome ↔ ∃ seg ∈ segs, seg.1 ≤ x ∧ x < seg.1 + seg.2.length := by
  induction segs with
  | nil => simp [overlay]
  | cons seg segs ih => simp [overlay, Option.isSome_or, ih, isSome_segmentAt, or_comm]

/-- Replacing a segment by one that differs from it only where no later segment has a cell. -/
theorem overlay_set {segs : List (ℕ × List α)} {i x : ℕ} {old new : ℕ × List α} {c : Option α}
    (hi : segs[i]? = some old)
    (hnew : segmentAt new.1 new.2 x = c.or (segmentAt old.1 old.2 x))
    (hlater : c.isSome → ∀ j seg, i < j → segs[j]? = some seg → segmentAt seg.1 seg.2 x = none) :
    overlay (segs.set i new) x = c.or (overlay segs x) := by
  induction segs generalizing i with
  | nil => cases hi
  | cons seg segs ih =>
    cases i with
    | zero =>
      cases hi
      simp only [List.set_cons_zero, overlay, hnew]
      cases c with
      | none => simp only [Option.none_or]
      | some b =>
        have hnone : overlay segs x = none := by
          rw [← Option.not_isSome_iff_eq_none, isSome_overlay]
          rintro ⟨seg, hseg, hx⟩
          obtain ⟨j, hj⟩ := List.getElem?_of_mem hseg
          have := hlater rfl (j + 1) seg (by omega) hj
          rw [← Option.not_isSome_iff_eq_none, isSome_segmentAt] at this
          exact this hx
        simp [hnone]
    | succ i =>
      have hrest := ih (i := i) hi fun hc j seg' hj hseg' =>
        hlater hc (j + 1) seg' (by omega) hseg'
      simp only [List.set_cons_succ, overlay, hrest, Option.or_assoc]

/-! ### The store -/

/-- A sparse store with chunks of `Q` cells. -/
structure SparseStore (α : Type*) (Q : ℕ) where
  /-- The end of the data. -/
  size : ℕ
  /-- The numbers of the chunks that were touched. -/
  touched : Set ℕ
  /-- The known cells. -/
  bytes : ℕ → Option α
  lt_size : ∀ {x b}, bytes x = some b → x < size
  chunk_mem : ∀ {x b}, bytes x = some b → x / Q ∈ touched

namespace SparseStore

variable {Q : ℕ}

/-- The store without data. -/
def empty : SparseStore α Q := ⟨0, ∅, fun _ => none, nofun, nofun⟩

/-- The part of `xs` that a write at `p` takes: up to the end of the chunk. -/
def accepted (Q p : ℕ) (xs : List α) : List α := xs.take (Q - p % Q)

theorem length_accepted_le (Q p : ℕ) (xs : List α) : (accepted Q p xs).length ≤ Q - p % Q :=
  List.length_take_le _ _

/-- A write of `xs` at `p`: it stores what is accepted, extends the size to the end of it, and
touches the chunk of `p`. -/
def write (st : SparseStore α Q) (p : ℕ) (xs : List α) : SparseStore α Q where
  size := max st.size (p + (accepted Q p xs).length)
  touched := insert (p / Q) st.touched
  bytes x := (segmentAt p (accepted Q p xs) x).or (st.bytes x)
  lt_size {x b} h := by
    rcases Option.or_eq_some_iff.mp h with hseg | ⟨-, hold⟩
    · have := isSome_segmentAt.mp (Option.isSome_of_mem hseg)
      omega
    · exact (st.lt_size hold).trans_le (le_max_left _ _)
  chunk_mem {x b} h := by
    rcases Option.or_eq_some_iff.mp h with hseg | ⟨-, hold⟩
    · obtain ⟨hle, hlt⟩ := isSome_segmentAt.mp (Option.isSome_of_mem hseg)
      have hlen := length_accepted_le Q p xs
      exact Or.inl (div_eq_of_chunk hle (by omega))
    · exact Or.inr (st.chunk_mem hold)

/-- What a read of `n` cells at `p` may deliver: nothing at the end of the data and in a chunk that
was never touched; otherwise the cells up to the end of the data and of the chunk, with the known
ones as they are known. -/
inductive Reads (st : SparseStore α Q) (p n : ℕ) : List α → Prop
  | nothing (h : st.size ≤ p ∨ p / Q ∉ st.touched) : Reads st p n []
  | cells {xs : List α} (hsize : p < st.size) (hchunk : p / Q ∈ st.touched)
      (hlen : xs.length = min n (min (st.size - p) (Q - p % Q)))
      (hxs : ∀ i b, i < xs.length → st.bytes (p + i) = some b → xs[i]? = some b) : Reads st p n xs

variable {st : SparseStore α Q} {p n : ℕ} {xs : List α}

/-- A read of at least one cell delivers nothing exactly at the end of the data and in a chunk that
was never touched. -/
theorem Reads.eq_nil_iff (h : st.Reads p n xs) (hQ : 0 < Q) (hn : 0 < n) :
    xs = [] ↔ st.size ≤ p ∨ p / Q ∉ st.touched := by
  have hmod := Nat.mod_lt p hQ
  cases h with
  | nothing hwhy => exact ⟨fun _ => hwhy, fun _ => rfl⟩
  | cells hsize hchunk hlen hxs =>
    refine ⟨fun hnil => ?_, fun hwhy => ?_⟩
    · rw [hnil, List.length_nil] at hlen
      omega
    · rcases hwhy with hle | hnot
      · omega
      · exact absurd hchunk hnot

/-- A read in a range of known cells delivers at least one of them, and not more than asked for. -/
theorem Reads.of_known (h : st.Reads p n xs) (hQ : 0 < Q) (hn : 0 < n)
    (hknown : ∀ i < n, (st.bytes (p + i)).isSome) :
    0 < xs.length ∧ xs.length ≤ n ∧ ∀ i < xs.length, xs[i]? = st.bytes (p + i) := by
  obtain ⟨b, hb⟩ := Option.isSome_iff_exists.mp (hknown 0 hn)
  rw [Nat.add_zero] at hb
  have hne : xs ≠ [] := by
    rw [Ne, h.eq_nil_iff hQ hn]
    rintro (hle | hnot)
    · exact absurd (st.lt_size hb) (not_lt.mpr hle)
    · exact hnot (st.chunk_mem hb)
  cases h with
  | nothing _ => exact absurd rfl hne
  | cells hsize hchunk hlen hxs =>
    have hle : xs.length ≤ n := by omega
    refine ⟨List.length_pos_iff.mpr hne, hle, fun i hi => ?_⟩
    obtain ⟨c, hc⟩ := Option.isSome_iff_exists.mp (hknown i (by omega))
    rw [hc, hxs i c hi hc]

end SparseStore

end ExKernel
