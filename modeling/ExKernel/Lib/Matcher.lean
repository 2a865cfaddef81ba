import Mathlib.Algebra.Ring.Parity
import Mathlib.Data.List.Infix

/-!
# A matcher that does not go back

A text is searched for a word in one pass, with a counter of the letters that have been matched. A
letter that is the next one of the word adds one to the counter, and every other letter sets it to
zero. The letter that ends a partial match is not looked at again, so an occurrence of the word that
begins with it is missed.

The word is given by its letters, `w 0`, `w 1` and so on up to `w (m - 1)`; those from `w m` on are
not letters of the word, but the counter may run into them. Where the first letter is not among
the others, what is found and what is missed has a description by the text alone. The text before an
occurrence ends in some number of fragments, beginnings of the word that follow each other directly.
The matcher follows the first of them, is thrown back by the first letter of the second and passes
over it, follows the third, and so on. So it finds the occurrence if their number is even.

## Main definitions

* `Matcher.advance`, `Matcher.walk`: the counter after a letter and after a text.
* `Matcher.Reaches`: the counter comes to a number.
* `Matcher.word`, `Matcher.Fragment`: the beginnings of the word.
* `Matcher.Trail`: the text ends in exactly `n` fragments.

## Main results

* `Matcher.walk_eq`: the counter in terms of the fragments.
* `Matcher.reaches_iff`: the numbers that the counter reaches.
-/

namespace ExKernel.Matcher

variable {α : Type*} (w : ℕ → α) (m : ℕ)

/-- The first `j` letters. -/
def word (j : ℕ) : List α := (List.range j).map w

/-- A beginning of the word, of at least one letter. -/
def Fragment (f : List α) : Prop := ∃ j, 0 < j ∧ j ≤ m ∧ f = word w j

/-- The text `p` ends in exactly `n` fragments that follow each other directly. -/
inductive Trail : List α → ℕ → Prop
  | zero {p : List α} (h : ∀ f, Fragment w m f → ¬ f <:+ p) : Trail p 0
  | succ {p f : List α} {n : ℕ} (h : Trail p n) (hf : Fragment w m f) : Trail (p ++ f) (n + 1)

theorem word_succ (j : ℕ) : word w (j + 1) = word w j ++ [w j] := by
  simp [word, List.range_succ]

theorem length_word (j : ℕ) : (word w j).length = j := by
  simp [word]

variable {w m} in
theorem Trail.congr {w' : ℕ → α} (hww' : ∀ i < m, w i = w' i) {p : List α} {n : ℕ}
    (h : Trail w m p n) : Trail w' m p n := by
  have hword : ∀ j ≤ m, word w j = word w' j := by
    intro j hj
    refine List.map_congr_left fun i hi => hww' i ?_
    have hlt := List.mem_range.mp hi
    omega
  induction h with
  | zero hnone =>
    refine .zero fun f hf => hnone f ?_
    obtain ⟨j, hj, hjm, rfl⟩ := hf
    exact ⟨j, hj, hjm, (hword j hjm).symm⟩
  | succ _ hf ih =>
    obtain ⟨j, hj, hjm, rfl⟩ := hf
    exact .succ ih ⟨j, hj, hjm, hword j hjm⟩

variable [DecidableEq α]

/-- The counter after a letter. -/
def advance (k : ℕ) (c : α) : ℕ := if c = w k then k + 1 else 0

/-- The counter after a text, from the counter `k`. -/
def walkFrom (k : ℕ) (p : List α) : ℕ := p.foldl (advance w) k

/-- The counter after a text. -/
def walk (p : List α) : ℕ := walkFrom w 0 p

/-- From the counter `k`, the counter is `t` after some of the letters of a text. -/
def Reaches (k t : ℕ) (text : List α) : Prop := ∃ p, p <+: text ∧ p ≠ [] ∧ walkFrom w k p = t

variable {w m}

theorem walkFrom_append (k : ℕ) (p q : List α) :
    walkFrom w k (p ++ q) = walkFrom w (walkFrom w k p) q :=
  List.foldl_append

theorem walk_concat (p : List α) (c : α) : walk w (p ++ [c]) = advance w (walk w p) c :=
  walkFrom_append 0 p [c]

theorem reaches_nil (k t : ℕ) : ¬ Reaches w k t [] := by
  rintro ⟨p, hp, hne, -⟩
  exact hne (List.prefix_nil.mp hp)

theorem reaches_cons (k t : ℕ) (c : α) (text : List α) :
    Reaches w k t (c :: text) ↔ advance w k c = t ∨ Reaches w (advance w k c) t text := by
  constructor
  · rintro ⟨p, hp, hne, hwalk⟩
    rcases List.prefix_cons_iff.mp hp with rfl | ⟨q, rfl, hq⟩
    · exact absurd rfl hne
    cases q with
    | nil => exact .inl hwalk
    | cons d q => exact .inr ⟨d :: q, hq, List.cons_ne_nil d q, hwalk⟩
  · rintro (hwalk | ⟨p, hp, -, hwalk⟩)
    · exact ⟨[c], List.cons_prefix_cons.mpr ⟨rfl, List.nil_prefix⟩, List.cons_ne_nil c [], hwalk⟩
    · exact ⟨c :: p, List.cons_prefix_cons.mpr ⟨rfl, hp⟩, List.cons_ne_nil c p, hwalk⟩

theorem reaches_iff_walk {t : ℕ} (ht : 0 < t) (text : List α) :
    Reaches w 0 t text ↔ ∃ p, p <+: text ∧ walk w p = t := by
  constructor
  · rintro ⟨p, hp, -, hwalk⟩
    exact ⟨p, hp, hwalk⟩
  · rintro ⟨p, hp, hwalk⟩
    refine ⟨p, hp, ?_, hwalk⟩
    rintro rfl
    exact ht.ne hwalk

/-! ### The counter -/

theorem walk_append_word {p : List α} (h : walk w p = 0) (t : ℕ) :
    walk w (p ++ word w t) = t := by
  induction t with
  | zero => simpa [word] using h
  | succ t ih =>
    rw [word_succ, ← List.append_assoc, walk_concat, ih, advance, if_pos rfl]

theorem exists_word_of_walk {p : List α} {t : ℕ} (h : walk w p = t) :
    ∃ q, p = q ++ word w t ∧ walk w q = 0 := by
  induction t generalizing p with
  | zero => exact ⟨p, by simp [word], h⟩
  | succ t ih =>
    rcases List.eq_nil_or_concat p with rfl | ⟨q, c, rfl⟩
    · cases h
    rw [List.concat_eq_append, walk_concat, advance] at h
    split_ifs at h with hc
    obtain ⟨r, rfl, hr⟩ := ih (Nat.succ.inj h)
    refine ⟨r, ?_, hr⟩
    rw [hc, Nat.succ.inj h, List.concat_eq_append, word_succ, List.append_assoc]

/-- The counter passes through all numbers up to the one that it comes to. -/
theorem exists_prefix_walk {p : List α} {s t : ℕ} (h : walk w p = t) (hs : s ≤ t) :
    ∃ q, q <+: p ∧ walk w q = s := by
  obtain ⟨q, rfl, hq⟩ := exists_word_of_walk h
  obtain ⟨r, rfl⟩ := Nat.exists_eq_add_of_le hs
  refine ⟨q ++ word w s, ?_, walk_append_word hq s⟩
  rw [List.prefix_append_right_inj, word, word, List.range_add, List.map_append]
  exact List.prefix_append _ _

theorem walk_le_of_ne {p : List α} {t : ℕ} (ht : t ≤ m + 1)
    (h : ¬ ∃ q, q <+: p ∧ walk w q = t) (q : List α) (hq : q <+: p) : walk w q ≤ m := by
  by_contra hgt
  obtain ⟨r, hr, hwalk⟩ := exists_prefix_walk (s := t) rfl (by omega : t ≤ walk w q)
  exact h ⟨r, hr.trans hq, hwalk⟩

/-! ### The fragments at the end of a text -/

variable (w m) in
/-- The number of fragments at the end of a text, and the length of the last one, after one more
letter. -/
def chainStep (s : ℕ × ℕ) (c : α) : ℕ × ℕ :=
  if c = w 0 then (s.1 + 1, 1)
  else if 0 < s.2 ∧ s.2 < m ∧ c = w s.2 then (s.1, s.2 + 1)
  else (0, 0)

variable (w m) in
/-- The number of fragments at the end of a text, and the length of the last one. -/
def chain (p : List α) : ℕ × ℕ := p.foldl (chainStep w m) (0, 0)

theorem chain_concat (p : List α) (c : α) :
    chain w m (p ++ [c]) = chainStep w m (chain w m p) c :=
  List.foldl_append

theorem exists_fragment_of_chain {p : List α} {n j : ℕ} (hm : 0 < m)
    (h : chain w m p = (n + 1, j)) :
    0 < j ∧ j ≤ m ∧ ∃ q, p = q ++ word w j ∧ (chain w m q).1 = n := by
  induction p using List.reverseRecOn generalizing j with
  | nil => cases h
  | append_singleton p c ih =>
    rw [chain_concat, chainStep] at h
    split_ifs at h with hfirst hnext
    · simp only [Prod.mk.injEq, Nat.add_right_cancel_iff] at h
      obtain ⟨hn, rfl⟩ := h
      exact ⟨Nat.one_pos, hm, p, by simp [word, hfirst], hn⟩
    · simp only [Prod.mk.injEq] at h
      obtain ⟨hn, rfl⟩ := h
      obtain ⟨-, -, q, hp, hq⟩ := ih (Prod.ext hn rfl)
      refine ⟨Nat.succ_pos _, hnext.2.1, q, ?_, hq⟩
      rw [word_succ, ← List.append_assoc, ← hp, hnext.2.2]
    · simp at h

theorem chain_eq_zero_iff (p : List α) :
    (chain w m p).1 = 0 ↔ (chain w m p).2 = 0 := by
  induction p using List.reverseRecOn with
  | nil => simp [chain]
  | append_singleton p c ih =>
    rw [chain_concat, chainStep]
    split_ifs with hfirst hnext
    · simp
    · have hne : (chain w m p).1 ≠ 0 := fun h0 => by
        have hlast := ih.mp h0
        omega
      simp [hne]
    · simp

section First

variable (hw : ∀ i, 0 < i → i ≤ m → w i ≠ w 0)

include hw

theorem chain_append_word (p : List α) {j : ℕ} (hj : 0 < j) (hjm : j ≤ m) :
    chain w m (p ++ word w j) = ((chain w m p).1 + 1, j) := by
  induction j, hj using Nat.le_induction with
  | base => simp [word, chain_concat, chainStep]
  | succ j hj ih =>
    rw [word_succ, ← List.append_assoc, chain_concat, ih (by omega), chainStep,
      if_neg (hw j hj (by omega)), if_pos ⟨hj, hjm, rfl⟩]

/-- **The fragments at the end of a text** are those that are counted. -/
theorem trail_iff (hm : 0 < m) (p : List α) (n : ℕ) :
    Trail w m p n ↔ (chain w m p).1 = n := by
  constructor
  · intro h
    induction h with
    | @zero p hnone =>
      by_contra hne
      obtain ⟨k, hk⟩ := Nat.exists_eq_succ_of_ne_zero hne
      obtain ⟨hj, hjm, q, hp, -⟩ := exists_fragment_of_chain hm (Prod.ext hk rfl)
      exact hnone _ ⟨_, hj, hjm, rfl⟩ ⟨q, hp.symm⟩
    | @succ p f n _ hf ih =>
      obtain ⟨j, hj, hjm, rfl⟩ := hf
      rw [chain_append_word hw p hj hjm, ih]
  · intro h
    induction n generalizing p with
    | zero =>
      refine .zero fun f hf hsuffix => ?_
      obtain ⟨j, hj, hjm, rfl⟩ := hf
      obtain ⟨q, rfl⟩ := hsuffix
      rw [chain_append_word hw q hj hjm] at h
      cases h
    | succ n ih =>
      obtain ⟨hj, hjm, q, hp, hq⟩ := exists_fragment_of_chain hm (Prod.ext h rfl)
      rw [hp]
      exact .succ (ih q hq) ⟨_, hj, hjm, rfl⟩

/-- **The counter.** As long as it has not gone past the word, it is the length of the last fragment
if the number of fragments is odd, and zero if it is even. -/
theorem walk_eq {p : List α} (hp : ∀ q, q <+: p → walk w q ≤ m) :
    walk w p = if Odd (chain w m p).1 then (chain w m p).2 else 0 := by
  induction p using List.reverseRecOn with
  | nil => simp [walk, walkFrom, chain]
  | append_singleton p c ih =>
    have hpast := hp _ (List.prefix_refl _)
    have hcount := ih fun q hq => hp q (hq.trans (List.prefix_append _ _))
    have hzero := chain_eq_zero_iff (w := w) (m := m) p
    rw [walk_concat, advance] at hpast ⊢
    rw [chain_concat]
    by_cases hodd : Odd (chain w m p).1
    · rw [if_pos hodd] at hcount
      have hlast : 0 < walk w p := by
        obtain ⟨k, hk⟩ := hodd
        omega
      have hle := hp p (List.prefix_append _ _)
      by_cases hfirst : c = w 0
      · have hne : c ≠ w (walk w p) := by
          rw [hfirst]
          exact (hw _ hlast hle).symm
        have hnew : chainStep w m (chain w m p) c = ((chain w m p).1 + 1, 1) := if_pos hfirst
        rw [if_neg hne, hnew, if_neg (Nat.not_odd_iff_even.mpr hodd.add_one)]
      · have hnew : chainStep w m (chain w m p) c = if 0 < walk w p ∧ walk w p < m ∧
            c = w (walk w p) then ((chain w m p).1, walk w p + 1) else (0, 0) := by
          rw [hcount]
          exact if_neg hfirst
        rw [hnew]
        by_cases hnext : c = w (walk w p)
        · rw [if_pos hnext] at hpast
          have hcontinues : 0 < walk w p ∧ walk w p < m ∧ c = w (walk w p) := ⟨hlast, hpast, hnext⟩
          rw [if_pos hnext, if_pos hcontinues, if_pos hodd]
        · have hends : ¬ (0 < walk w p ∧ walk w p < m ∧ c = w (walk w p)) := fun h => hnext h.2.2
          rw [if_neg hnext, if_neg hends]
          simp
    · rw [if_neg hodd] at hcount
      rw [hcount]
      by_cases hfirst : c = w 0
      · have hnew : chainStep w m (chain w m p) c = ((chain w m p).1 + 1, 1) := if_pos hfirst
        rw [if_pos hfirst, hnew, if_pos (Nat.not_odd_iff_even.mp hodd).add_one]
      · rw [if_neg hfirst, chainStep, if_neg hfirst]
        by_cases hnext : 0 < (chain w m p).2 ∧ (chain w m p).2 < m ∧ c = w (chain w m p).2
        · rw [if_pos hnext, if_neg hodd]
        · rw [if_neg hnext]
          simp

/-- **What the counter reaches.** It reaches a number, up to one past the word, exactly if these
letters occur in the text after an even number of fragments. -/
theorem reaches_iff (hm : 0 < m) {t : ℕ} (ht : 0 < t) (ht' : t ≤ m + 1) (text : List α) :
    Reaches w 0 t text ↔ ∃ p q n, text = p ++ word w t ++ q ∧ Trail w m p n ∧ Even n := by
  rw [reaches_iff_walk ht]
  constructor
  · rintro ⟨p, hp, hwalk⟩
    -- The shortest text after which the counter is `t`.
    induction hlen : p.length using Nat.strong_induction_on generalizing p with
    | _ l ih =>
      obtain ⟨r, rfl, hr⟩ := exists_word_of_walk hwalk
      by_cases hearlier : ∃ s, s <+: r ∧ walk w s = t
      · obtain ⟨s, hs, hst⟩ := hearlier
        have hlt : s.length < l := by
          have hle := hs.length_le
          rw [List.length_append, length_word] at hlen
          omega
        exact ih s.length hlt s ((hs.trans (List.prefix_append _ _)).trans hp) hst rfl
      · obtain ⟨q, hq⟩ := hp
        refine ⟨r, q, _, hq.symm, (trail_iff hw hm r _).mpr rfl, ?_⟩
        by_contra hodd
        have hcount := walk_eq hw (walk_le_of_ne ht' hearlier)
        rw [if_pos (Nat.not_even_iff_odd.mp hodd), hr] at hcount
        have hzero := (chain_eq_zero_iff (w := w) (m := m) r).mpr hcount.symm
        rw [hzero] at hodd
        exact hodd Even.zero
  · rintro ⟨p, q, n, rfl, htrail, heven⟩
    by_cases hearlier : ∃ s, s <+: p ∧ walk w s = t
    · obtain ⟨s, hs, hst⟩ := hearlier
      exact ⟨s, hs.trans ⟨word w t ++ q, by rw [List.append_assoc]⟩, hst⟩
    · have hcount := walk_eq hw (walk_le_of_ne ht' hearlier)
      rw [(trail_iff hw hm p n).mp htrail, if_neg (Nat.not_odd_iff_even.mpr heven)] at hcount
      exact ⟨p ++ word w t, List.prefix_append _ _, walk_append_word hcount t⟩

end First

end ExKernel.Matcher
