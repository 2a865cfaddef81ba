import ExKernel.Lib.Retry
import Mathlib.Algebra.Group.Nat.Defs
import Mathlib.Data.Nat.Find

/-!
# Text that is printed again when it does not fit

Text is printed line by line into a buffer. When a line does not fit, nothing more is printed, and
all of it is printed again into a buffer of twice the size, until it fits.

A function that prints may look at how full the buffer is, and stop when less than a margin is left.
With that it decides between the buffers: when it stops, everything fits, and the text is cut off
for good; only when something is long enough to get past the margin at once, the buffer is replaced.

## Main definitions

* `SeqFile`: a buffer with the text in it.
* `SeqFile.printWhile`: text in chunks, with a look at the buffer before each of them.
* `SeqFile.readRound`: a round of the loop that replaces the buffer.

## Main results

* `SeqFile.printWhile_spec`: what is printed, and why it was not more.
* `SeqFile.Prints.read_prefix`: what is read in the end are the first so many chunks.
* `SeqFile.Prints.read_whole_iff`: when it is all of the text.
* `SeqFile.Prints.read_whole_iff_of_short`: when it is all of a text of short chunks.
-/

namespace ExKernel

/-- A buffer of a size with the text in it, which leaves one place free; there is no text when
something did not fit. -/
@[ext] structure SeqFile (α : Type*) where
  size : ℕ
  text : Option (List α)
  fits : ∀ t ∈ text, t.length < size

namespace SeqFile

variable {α ε : Type*}

/-- An empty buffer. -/
def fresh (size : ℕ) : SeqFile α where
  size := size
  text := if 0 < size then some [] else none
  fits := by
    intro t ht
    split_ifs at ht with hsize
    · obtain rfl : [] = t := Option.some.inj ht
      exact hsize
    · cases ht

/-- How full the buffer is: it counts as full when something did not fit. -/
def count (s : SeqFile α) : ℕ :=
  (s.text.map List.length).getD s.size

/-- The buffer after a line was printed. -/
def print (s : SeqFile α) (line : List α) : SeqFile α where
  size := s.size
  text := s.text.bind fun t => if (t ++ line).length < s.size then some (t ++ line) else none
  fits := by
    intro t ht
    obtain ⟨t', -, ht'⟩ := Option.bind_eq_some_iff.mp ht
    split_ifs at ht' with hlen
    exact Option.some.inj ht' ▸ hlen

/-- Text in chunks, with a look at the buffer before each of them: when more than `limit` places are
taken, the rest is left out. -/
def printWhile (limit : ℕ) : List (List α) → SeqFile α → SeqFile α
  | [], s => s
  | c :: cs, s => if s.count ≤ limit then printWhile limit cs (s.print c) else s

/-- A round of the loop that replaces the buffer: the text is printed to a new buffer, if there is
memory for one, and the next round has twice the size if it did not fit. -/
def readRound (alloc : ℕ → Bool) (nomem : ε) (prints : SeqFile α → Except ε (SeqFile α))
    (size : ℕ) : List (Except ε (List α)) × Option ℕ :=
  if alloc size then
    match prints (fresh size) with
    | .error e => ([.error e], none)
    | .ok s =>
      match s.text with
      | some t => ([.ok t], none)
      | none => ([], some (2 * size))
  else ([.error nomem], none)

/-! ### Printing -/

@[simp] theorem size_print (s : SeqFile α) (line : List α) : (s.print line).size = s.size := rfl

theorem text_fresh {size : ℕ} (h : 0 < size) : (fresh size : SeqFile α).text = some [] := if_pos h

/-- An empty buffer is not full, unless it has no room at all; then nothing is taken of it. -/
theorem count_fresh (size : ℕ) : (fresh size : SeqFile α).count = 0 := by
  rcases Nat.eq_zero_or_pos size with rfl | hpos
  · rfl
  · rw [count, text_fresh hpos]
    rfl

theorem text_print (s : SeqFile α) (line : List α) :
    (s.print line).text =
      s.text.bind fun t => if (t ++ line).length < s.size then some (t ++ line) else none :=
  rfl

theorem text_print_of_none {s : SeqFile α} (h : s.text = none) (line : List α) :
    (s.print line).text = none := by
  rw [text_print, h, Option.bind_none]

theorem text_print_of_some {s : SeqFile α} {t : List α} (h : s.text = some t) (line : List α) :
    (s.print line).text = if (t ++ line).length < s.size then some (t ++ line) else none := by
  rw [text_print, h, Option.bind_some]

theorem print_print (s : SeqFile α) (l l' : List α) : (s.print l).print l' = s.print (l ++ l') := by
  ext1
  · rfl
  · cases ht : s.text with
    | none => rw [text_print_of_none (text_print_of_none ht l), text_print_of_none ht]
    | some t =>
      rw [text_print_of_some ht]
      by_cases hl : (t ++ l).length < s.size
      · have hmid : (s.print l).text = some (t ++ l) := by rw [text_print_of_some ht, if_pos hl]
        rw [text_print_of_some hmid, List.append_assoc, size_print]
      · have hmid : (s.print l).text = none := by rw [text_print_of_some ht, if_neg hl]
        rw [text_print_of_none hmid, if_neg]
        simp only [List.length_append] at hl ⊢
        omega

theorem print_nil (s : SeqFile α) : s.print [] = s := by
  ext1
  · rfl
  · cases ht : s.text with
    | none => rw [text_print_of_none ht]
    | some t => rw [text_print_of_some ht, List.append_nil, if_pos (s.fits t ht)]

theorem text_print_fresh {size : ℕ} (h : 0 < size) (t : List α) :
    ((fresh size).print t).text = if t.length < size then some t else none := by
  rw [text_print_of_some (text_fresh h), List.nil_append]
  rfl

theorem count_print_fresh {size : ℕ} (h : 0 < size) (t : List α) :
    ((fresh size).print t).count = min t.length size := by
  rw [count, text_print_fresh h]
  split_ifs with hlt
  · exact (Nat.min_eq_left hlt.le).symm
  · exact (Nat.min_eq_right (Nat.le_of_not_lt hlt)).symm

theorem printWhile_append (limit : ℕ) (cs ds : List (List α)) (s : SeqFile α) :
    printWhile limit (cs ++ ds) s = printWhile limit ds (printWhile limit cs s) := by
  induction cs generalizing s with
  | nil => rfl
  | cons c cs ih =>
    rw [List.cons_append, printWhile, printWhile]
    split_ifs with hle
    · exact ih _
    · cases ds with
      | nil => rfl
      | cons d ds => rw [printWhile, if_neg hle]

theorem printWhile_look (limit : ℕ) (cs : List (List α)) (s : SeqFile α) :
    (if limit < s.count then s else printWhile limit cs s) = printWhile limit cs s := by
  split_ifs with hlt
  · cases cs with
    | nil => rfl
    | cons c cs => rw [printWhile, if_neg (Nat.not_le_of_lt hlt)]
  · rfl

/-- **What is printed, and why it was not more.** -/
theorem printWhile_spec (limit : ℕ) (cs : List (List α)) (s : SeqFile α) :
    ∃ pre post, cs = pre ++ post ∧ printWhile limit cs s = s.print pre.flatten ∧
      (post ≠ [] → limit < (s.print pre.flatten).count) ∧
      ∀ pre' post', post' ≠ [] → pre = pre' ++ post' → (s.print pre'.flatten).count ≤ limit := by
  induction cs generalizing s with
  | nil =>
    refine ⟨[], [], rfl, (print_nil s).symm, fun h => absurd rfl h, fun pre' post' hne h => ?_⟩
    exact absurd (List.append_eq_nil_iff.mp h.symm).2 hne
  | cons c cs ih =>
    by_cases hle : s.count ≤ limit
    · obtain ⟨pre, post, rfl, hprint, hstop, hwent⟩ := ih (s.print c)
      rw [print_print] at hprint hstop
      refine ⟨c :: pre, post, rfl, ?_, hstop, fun pre' post' hne h => ?_⟩
      · rw [printWhile, if_pos hle, hprint, List.flatten_cons]
      · cases pre' with
        | nil => rwa [List.flatten_nil, print_nil]
        | cons c' pre' =>
          obtain ⟨rfl, hpre⟩ := List.cons.inj h
          rw [List.flatten_cons, ← print_print]
          exact hwent pre' post' hne hpre
    · refine ⟨[], c :: cs, rfl, ?_, fun _ => ?_, fun pre' post' hne h => ?_⟩
      · rw [printWhile, if_neg hle, List.flatten_nil, print_nil]
      · rw [List.flatten_nil, print_nil]
        exact Nat.lt_of_not_le hle
      · exact absurd (List.append_eq_nil_iff.mp h.symm).2 hne

/-! ### The buffers one after another -/

section Attempts

variable (size margin : ℕ) (cs : List (List α))

/-- What is in the buffer after it was replaced `k` times. -/
def attempt (k : ℕ) : Option (List α) :=
  (printWhile (size * 2 ^ k - margin) cs (fresh (size * 2 ^ k))).text

/-- Chunks that are not all end within the margin of the buffer that was replaced `k` times. -/
def EndsInMargin (k : ℕ) (pre post : List (List α)) : Prop :=
  cs = pre ++ post ∧ post ≠ [] ∧ size * 2 ^ k - margin < pre.flatten.length ∧
    pre.flatten.length < size * 2 ^ k

variable {size margin cs}

theorem length_flatten_append_left_le (pre post : List (List α)) :
    pre.flatten.length ≤ (pre ++ post).flatten.length := by
  rw [List.flatten_append, List.length_append]
  exact Nat.le_add_right _ _

variable (margin cs) in
/-- What is in the buffer are the first so many chunks; and if these are not all, they end within
the margin. -/
theorem attempt_spec (hsize : 0 < size) (k : ℕ) :
    ∃ pre post, cs = pre ++ post ∧
      attempt size margin cs k =
        (if pre.flatten.length < size * 2 ^ k then some pre.flatten else none) ∧
      (post ≠ [] → size * 2 ^ k - margin < min pre.flatten.length (size * 2 ^ k)) ∧
      ∀ pre' post', post' ≠ [] → pre = pre' ++ post' →
        min pre'.flatten.length (size * 2 ^ k) ≤ size * 2 ^ k - margin := by
  have hpos : 0 < size * 2 ^ k := Nat.mul_pos hsize (Nat.two_pow_pos k)
  obtain ⟨pre, post, hcs, hprint, hstop, hwent⟩ :=
    printWhile_spec (size * 2 ^ k - margin) cs (fresh (size * 2 ^ k))
  refine ⟨pre, post, hcs, ?_, fun hpost => ?_, fun pre' post' hne hpre => ?_⟩
  · rw [attempt, hprint, text_print_fresh hpos]
  · rw [← count_print_fresh hpos]
    exact hstop hpost
  · rw [← count_print_fresh hpos]
    exact hwent pre' post' hne hpre

variable (margin) in
theorem attempt_of_lt (hsize : 0 < size) {k : ℕ} (h : cs.flatten.length < size * 2 ^ k) :
    ∃ t, attempt size margin cs k = some t := by
  obtain ⟨pre, post, rfl, hattempt, -⟩ := attempt_spec margin cs hsize k
  exact ⟨_, by rw [hattempt, if_pos ((length_flatten_append_left_le pre post).trans_lt h)]⟩

/-- Where chunks end within the margin, no other buffer follows, and the text is cut off. -/
theorem EndsInMargin.attempt {k : ℕ} {pre post : List (List α)} (hsize : 0 < size)
    (h : EndsInMargin size margin cs k pre post) :
    ∃ pre' post', cs = pre' ++ post' ∧ post' ≠ [] ∧
      SeqFile.attempt size margin cs k = some pre'.flatten := by
  obtain ⟨hcs, hpost, hlow, hhigh⟩ := h
  obtain ⟨pre', post', hcs', hattempt, -, hwent⟩ := attempt_spec margin cs hsize k
  rw [hcs] at hcs'
  rcases List.append_eq_append_iff.mp hcs' with ⟨mid, rfl, rfl⟩ | ⟨mid, rfl, rfl⟩
  · cases mid with
    | nil =>
      rw [List.append_nil] at hattempt
      exact ⟨pre, post', hcs, hpost, by rw [hattempt, if_pos hhigh]⟩
    | cons c mid =>
      have hle := hwent pre (c :: mid) (List.cons_ne_nil c mid) rfl
      rw [Nat.min_eq_left hhigh.le] at hle
      omega
  · have hle := length_flatten_append_left_le pre' mid
    exact ⟨pre', mid ++ post, by rw [hcs, List.append_assoc], by simp [hpost],
      by rw [hattempt, if_pos (hle.trans_lt hhigh)]⟩

/-- Where no chunks end within the margin, the whole text is printed, if there is room for it. -/
theorem attempt_of_not_endsInMargin (hsize : 0 < size) {k : ℕ}
    (h : ∀ pre post, ¬ EndsInMargin size margin cs k pre post) :
    attempt size margin cs k =
      if cs.flatten.length < size * 2 ^ k then some cs.flatten else none := by
  obtain ⟨pre, post, hcs, hattempt, hstop, -⟩ := attempt_spec margin cs hsize k
  cases post with
  | nil =>
    rw [List.append_nil] at hcs
    rw [hattempt, hcs]
  | cons c post =>
    have hlow := hstop (List.cons_ne_nil c post)
    have hhigh : size * 2 ^ k ≤ pre.flatten.length := by
      by_contra hlt
      have hlt := Nat.lt_of_not_le hlt
      rw [Nat.min_eq_left hlt.le] at hlow
      exact h pre (c :: post) ⟨hcs, List.cons_ne_nil c post, hlow, hlt⟩
    have hle := length_flatten_append_left_le pre (c :: post)
    rw [← hcs] at hle
    rw [hattempt, if_neg (by omega), if_neg (by omega)]

end Attempts

/-! ### The loop -/

section Loop

variable {alloc : ℕ → Bool} {prints : SeqFile α → Except ε (SeqFile α)}
  {size margin : ℕ} {cs : List (List α)}

variable (alloc prints size margin cs) in
/-- The chunks are printed to every buffer that the loop can come to, and there is memory for it. -/
structure Prints : Prop where
  size_pos : 0 < size
  margin_le : margin ≤ size
  alloc_eq : ∀ k, (∀ j < k, size * 2 ^ j ≤ cs.flatten.length) → alloc (size * 2 ^ k) = true
  prints_eq : ∀ k, (∀ j < k, size * 2 ^ j ≤ cs.flatten.length) →
    prints (fresh (size * 2 ^ k)) =
      .ok (printWhile (size * 2 ^ k - margin) cs (fresh (size * 2 ^ k)))

namespace Prints

variable (h : Prints alloc prints size margin cs)

include h

theorem le_of_attempt {k : ℕ} (hk : attempt size margin cs k = none) :
    size * 2 ^ k ≤ cs.flatten.length := by
  by_contra hlt
  obtain ⟨t, ht⟩ := attempt_of_lt margin h.size_pos (Nat.lt_of_not_le hlt)
  rw [hk] at ht
  cases ht

theorem readRound_eq (nomem : ε) {k : ℕ} (hk : ∀ j < k, attempt size margin cs j = none) :
    readRound alloc nomem prints (size * 2 ^ k) =
      match attempt size margin cs k with
      | some t => ([.ok t], none)
      | none => ([], some (size * 2 ^ (k + 1))) := by
  have hreach : ∀ j < k, size * 2 ^ j ≤ cs.flatten.length := fun j hj => h.le_of_attempt (hk j hj)
  have hdouble : 2 * (size * 2 ^ k) = size * 2 ^ (k + 1) := by
    rw [Nat.pow_succ', Nat.mul_left_comm]
  rw [readRound, if_pos (h.alloc_eq k hreach), h.prints_eq k hreach, hdouble]
  rfl

/-- **The loop ends** with the first buffer that nothing was too long for. -/
theorem exists_attempt :
    ∃ k t, (∀ j < k, attempt size margin cs j = none) ∧ attempt size margin cs k = some t := by
  have hroom : ∃ k, attempt size margin cs k ≠ none := by
    refine ⟨cs.flatten.length, ?_⟩
    have hlt : cs.flatten.length < size * 2 ^ cs.flatten.length :=
      Nat.lt_two_pow_self.trans_le (Nat.le_mul_of_pos_left _ h.size_pos)
    obtain ⟨t, ht⟩ := attempt_of_lt margin h.size_pos hlt
    rw [ht]
    exact Option.some_ne_none t
  obtain ⟨t, ht⟩ := Option.ne_none_iff_exists'.mp (Nat.find_spec hroom)
  exact ⟨Nat.find hroom, t, fun j hj => not_not.mp (Nat.find_min hroom hj), ht⟩

theorem run_eq (nomem : ε) {k : ℕ} {t : List α} (hnone : ∀ j < k, attempt size margin cs j = none)
    (hsome : attempt size margin cs k = some t) {n : ℕ} (hn : k < n) :
    Retry.run (readRound alloc nomem prints) n size = some [.ok t] := by
  -- From the buffer that was replaced `i` times on, `k - i` more rounds are needed.
  have hfrom : ∀ i d m, i + d = k → d < m →
      Retry.run (readRound alloc nomem prints) m (size * 2 ^ i) = some [.ok t] := by
    intro i d
    induction d generalizing i with
    | zero =>
      intro m hi hm
      obtain rfl : i = k := hi
      obtain ⟨m, rfl⟩ := Nat.exists_eq_add_one.mpr hm
      have hround := h.readRound_eq nomem hnone
      rw [hsome] at hround
      rw [Retry.run_of_none (by rw [hround]), hround]
    | succ d ih =>
      intro m hi hm
      obtain ⟨m, rfl⟩ := Nat.exists_eq_add_one.mpr (Nat.zero_lt_of_lt hm)
      have hround := h.readRound_eq nomem fun j (hj : j < i) => hnone j (by omega)
      rw [hnone i (by omega)] at hround
      rw [Retry.run_of_some (by rw [hround]), hround,
        ih (i + 1) m (by omega) (by omega)]
      rfl
  have hzero := hfrom 0 k n (Nat.zero_add k) hn
  rwa [Nat.pow_zero, Nat.mul_one] at hzero

/-- What is read are the first so many chunks. -/
theorem read_prefix (nomem : ε) : ∃ pre post N, cs = pre ++ post ∧
    ∀ n, N ≤ n → Retry.run (readRound alloc nomem prints) n size = some [.ok pre.flatten] := by
  obtain ⟨k, t, hnone, hsome⟩ := h.exists_attempt
  obtain ⟨pre, post, hcs, hattempt, -⟩ := attempt_spec margin cs h.size_pos k
  rw [hsome] at hattempt
  split_ifs at hattempt
  cases hattempt
  exact ⟨pre, post, k + 1, hcs, fun n hn => h.run_eq nomem hnone hsome hn⟩

/-- **When all of the text is read**: if and only if, of no buffer, chunks that are not all end
within the margin. -/
theorem read_whole_iff (nomem : ε) (hne : ∀ c ∈ cs, c ≠ []) :
    (∃ N, ∀ n, N ≤ n →
        Retry.run (readRound alloc nomem prints) n size = some [.ok cs.flatten]) ↔
      ∀ k pre post, ¬ EndsInMargin size margin cs k pre post := by
  obtain ⟨k, t, hnone, hsome⟩ := h.exists_attempt
  constructor
  · rintro ⟨N, hread⟩ j pre post hends
    have hrun := h.run_eq nomem hnone hsome (Nat.lt_of_lt_of_le (Nat.lt_succ_self k)
      (Nat.le_max_right N (k + 1)))
    rw [hread _ (Nat.le_max_left N (k + 1))] at hrun
    obtain rfl : cs.flatten = t := by simpa using hrun
    obtain ⟨pre', post', hcs, hpost, hattempt⟩ := hends.attempt h.size_pos
    have hlt : cs.flatten.length < size * 2 ^ k := by
      obtain ⟨pre₀, post₀, -, hattempt₀, -⟩ := attempt_spec margin cs h.size_pos k
      rw [hsome] at hattempt₀
      split_ifs at hattempt₀ with hlt
      rwa [Option.some.inj hattempt₀]
    rcases Nat.lt_trichotomy j k with hj | rfl | hj
    · rw [hnone j hj] at hattempt
      cases hattempt
    · rw [hsome] at hattempt
      have heq := Option.some.inj hattempt
      rw [hcs, List.flatten_append, List.append_right_eq_self, List.flatten_eq_nil_iff] at heq
      obtain ⟨c, hc⟩ := List.exists_mem_of_ne_nil post' hpost
      exact hne c (hcs ▸ List.mem_append_right pre' hc) (heq c hc)
    · obtain ⟨hcs', -, hlow, -⟩ := hends
      have hle := length_flatten_append_left_le pre post
      rw [← hcs'] at hle
      have hdouble : size * 2 ^ (k + 1) ≤ size * 2 ^ j :=
        Nat.mul_le_mul_left size (Nat.pow_le_pow_right (by decide) hj)
      have hone : size ≤ size * 2 ^ k := Nat.le_mul_of_pos_right size (Nat.two_pow_pos k)
      rw [Nat.pow_succ', Nat.mul_left_comm] at hdouble
      have hmargin := h.margin_le
      omega
  · intro hall
    refine ⟨k + 1, fun n hn => ?_⟩
    rw [h.run_eq nomem hnone hsome hn]
    have hattempt := attempt_of_not_endsInMargin h.size_pos (hall k)
    rw [hsome] at hattempt
    split_ifs at hattempt
    rw [Option.some.inj hattempt]

/-- **When all of a text of short chunks is read**: if the chunks behind the first are shorter than
the margin, no margin is passed over, and the first buffer is the last one. -/
theorem read_whole_iff_of_short (nomem : ε) (hne : ∀ c ∈ cs, c ≠ []) (hmargin : 0 < margin)
    (hfirst : ∀ c ∈ cs.head?, c.length ≤ size - margin)
    (hshort : ∀ c ∈ cs.tail, c.length < margin) :
    (∃ N, ∀ n, N ≤ n →
        Retry.run (readRound alloc nomem prints) n size = some [.ok cs.flatten]) ↔
      cs.dropLast.flatten.length ≤ size - margin := by
  rw [h.read_whole_iff nomem hne]
  have hle := h.margin_le
  constructor
  · intro hall
    obtain ⟨pre, post, hcs, -, hstop, hwent⟩ := attempt_spec margin cs h.size_pos 0
    rw [Nat.pow_zero, Nat.mul_one] at hstop hwent
    have hbefore : ∀ pre' post', post' ≠ [] → pre = pre' ++ post' →
        pre'.flatten.length ≤ size - margin := by
      intro pre' post' hne' hpre
      have hmin := hwent pre' post' hne' hpre
      omega
    rcases List.eq_nil_or_concat pre with rfl | ⟨pre', c, hpre⟩
    · cases post with
      | nil => simp [hcs]
      | cons d post =>
        have hlow := hstop (List.cons_ne_nil d post)
        simp at hlow
    rw [List.concat_eq_append] at hpre
    have hpre' := hbefore pre' [c] (List.cons_ne_nil c []) hpre
    cases post with
    | nil => rwa [hcs, List.append_nil, hpre, List.dropLast_concat]
    | cons d post =>
      have hlow := hstop (List.cons_ne_nil d post)
      have hlen : pre.flatten.length = pre'.flatten.length + c.length := by
        rw [hpre, List.flatten_append, List.length_append, List.flatten_singleton]
      have hhigh : pre.flatten.length < size := by
        cases pre' with
        | nil =>
          have hc := hfirst c (by rw [hcs, hpre]; rfl)
          rw [List.flatten_nil, List.length_nil] at hlen
          omega
        | cons c' pre' =>
          have hc := hshort c (by rw [hcs, hpre]; simp)
          omega
      refine absurd ⟨hcs, List.cons_ne_nil d post, ?_, ?_⟩ (hall 0 pre (d :: post))
      · rw [Nat.pow_zero, Nat.mul_one]
        exact lt_of_lt_of_le hlow (min_le_left _ _)
      · rwa [Nat.pow_zero, Nat.mul_one]
  · rintro hlast k pre post ⟨hcs, hpost, hlow, -⟩
    obtain ⟨post', c, rfl⟩ := (List.eq_nil_or_concat post).resolve_left hpost
    rw [hcs, List.concat_eq_append, ← List.append_assoc, List.dropLast_concat] at hlast
    have hpre := length_flatten_append_left_le pre post'
    have hsize : size ≤ size * 2 ^ k := Nat.le_mul_of_pos_right size (Nat.two_pow_pos k)
    omega

end Prints

end Loop

end SeqFile

end ExKernel
