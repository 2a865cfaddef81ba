import Mathlib.Data.List.Chain
import Mathlib.Data.List.Nodup

/-!
# Doubly linked rings

Nodes have two pointers, `next` and `prev`, that may be null. A ring is a head and a list of nodes
such that `next` leads from the head through the list and back to the head, and `prev` leads the
other way. What a node is does not matter: the pointers are functions on an arbitrary type, and an
assignment to a pointer is an update of one of the functions. The head is a node like the others,
which is why inserting into an empty ring and removing the last node need no case of their own.

## Main definitions

* `Linked`: a node is followed by another, in both directions.
* `LinkedRing`: a ring through a head and a list of nodes.
* `follow`: the nodes that a pointer leads through until it comes to the head.

## Main results

* `LinkedRing.insert`, `LinkedRing.remove`: the assignments that insert a node behind the head and
  remove a node.
* `LinkedRing.follow_next`, `LinkedRing.follow_prev`: where the pointers lead.
* `LinkedRing.exists_neighbours`: the pointers of neighbours are inverse to each other.
-/

namespace ExKernel

variable {α : Type*}

/-- The node `a` is followed by the node `b`, in both directions. -/
def Linked (next prev : α → Option α) (a b : α) : Prop := next a = some b ∧ prev b = some a

/-- The ring through `head` and then the nodes `xs`, which are distinct. -/
structure LinkedRing (next prev : α → Option α) (head : α) (xs : List α) : Prop where
  nodup : (head :: xs).Nodup
  chain : List.IsChain (Linked next prev) (head :: (xs ++ [head]))

/-- The nodes that `step` leads through, from the node that is pointed at until it comes to `head`.
The answer is `none` if it comes to a null pointer, or does not come to `head` within the given
number of steps. -/
def follow [DecidableEq α] (step : α → Option α) (head : α) : ℕ → Option α → Option (List α)
  | 0, _ => none
  | n + 1, ptr =>
    if ptr = some head then some []
    else ptr.bind fun a => (follow step head n (step a)).map (a :: ·)

/-- The links of a list remain if `next` remains for all nodes that have a successor in it, and
`prev` for all that have a predecessor. -/
theorem isChain_linked_congr {next prev next' prev' : α → Option α} {l : List α}
    (h : List.IsChain (Linked next prev) l) (hnext : ∀ a ∈ l.dropLast, next' a = next a)
    (hprev : ∀ b ∈ l.tail, prev' b = prev b) : List.IsChain (Linked next' prev') l := by
  induction l with
  | nil => exact .nil
  | cons a l ih =>
    cases l with
    | nil => exact .singleton a
    | cons b l =>
      rw [List.isChain_cons_cons] at h ⊢
      refine ⟨⟨(hnext a (by simp)).trans h.1.1, (hprev b (by simp)).trans h.1.2⟩,
        ih h.2 (fun c hc => hnext c ?_) fun d hd => hprev d (List.mem_cons_of_mem b hd)⟩
      rw [List.dropLast_cons_of_ne_nil (List.cons_ne_nil b l)]
      exact List.mem_cons_of_mem a hc

namespace LinkedRing

variable {next prev : α → Option α} {head : α} {xs : List α}

theorem nil (hnext : next head = some head) (hprev : prev head = some head) :
    LinkedRing next prev head [] :=
  ⟨List.nodup_singleton head, List.isChain_cons_cons.mpr ⟨⟨hnext, hprev⟩, .singleton head⟩⟩

theorem head_notMem (h : LinkedRing next prev head xs) : head ∉ xs :=
  (List.nodup_cons.mp h.nodup).1

theorem exists_first (h : LinkedRing next prev head xs) :
    ∃ n rest, xs ++ [head] = n :: rest ∧ next head = some n ∧ prev n = some head := by
  obtain ⟨n, rest, hrest⟩ := List.exists_cons_of_ne_nil (List.append_ne_nil_of_right_ne_nil xs
    (List.cons_ne_nil head []))
  have hchain := h.chain
  rw [hrest, List.isChain_cons_cons] at hchain
  exact ⟨n, rest, hrest, hchain.1.1, hchain.1.2⟩

theorem reverse (h : LinkedRing next prev head xs) : LinkedRing prev next head xs.reverse := by
  refine ⟨?_, ?_⟩
  · have hnodup := List.nodup_cons.mp h.nodup
    exact List.nodup_cons.mpr ⟨by simpa using hnodup.1, List.nodup_reverse.mpr hnodup.2⟩
  · have hlist : head :: (xs.reverse ++ [head]) = (head :: (xs ++ [head])).reverse := by simp
    rw [hlist, List.isChain_reverse]
    exact h.chain.imp fun _ _ hab => ⟨hab.2, hab.1⟩

theorem nodup_concat (h : LinkedRing next prev head xs) : (xs ++ [head]).Nodup := by
  rw [List.nodup_append_comm]
  exact h.nodup

theorem exists_between {l r : List α} {e : α} (h : LinkedRing next prev head (l ++ e :: r)) :
    ∃ l' p n r', head :: l = l' ++ [p] ∧ r ++ [head] = n :: r' ∧ prev e = some p ∧
      next e = some n ∧ List.IsChain (Linked next prev) (head :: l) ∧
      List.IsChain (Linked next prev) (r ++ [head]) := by
  have hchain := h.chain
  rw [List.append_assoc, List.cons_append, ← List.cons_append] at hchain
  obtain ⟨l', p, hp⟩ := List.eq_nil_or_concat (head :: l) |>.resolve_left (List.cons_ne_nil _ _)
  obtain ⟨n, r', hr'⟩ := List.exists_cons_of_ne_nil (List.append_ne_nil_of_right_ne_nil r
    (List.cons_ne_nil head []))
  rw [List.concat_eq_append] at hp
  obtain ⟨hleft, hright, hjoin⟩ := List.isChain_append.mp hchain
  have hlast := hjoin p (by simp [hp]) e rfl
  rw [hr', List.isChain_cons_cons] at hright
  refine ⟨l', p, n, r', hp, hr', hlast.2, hright.1.1, hleft, ?_⟩
  rw [hr']
  exact hright.2

/-- A node of a ring, the nodes before it and the nodes behind it are distinct. -/
theorem separate {l r : List α} {e : α} (h : LinkedRing next prev head (l ++ e :: r)) :
    (head :: l).Nodup ∧ (r ++ [head]).Nodup ∧ e ∉ head :: l ∧ e ∉ r ++ [head] ∧
      (∀ a ∈ head :: l, a ∉ r) ∧ ∀ a ∈ l, a ∉ r ++ [head] := by
  have hnodup : (head :: l ++ e :: r).Nodup := h.nodup
  obtain ⟨hnodupL, hnodupE, hdisjoint⟩ := List.nodup_append.mp hnodup
  obtain ⟨heR, hnodupR⟩ := List.nodup_cons.mp hnodupE
  have hleft : ∀ a ∈ head :: l, a ∉ r := fun a ha hin =>
    hdisjoint a ha a (List.mem_cons_of_mem e hin) rfl
  have heL : e ∉ head :: l := fun hin => hdisjoint e hin e List.mem_cons_self rfl
  refine ⟨hnodupL, ?_, heL, ?_, hleft, fun a ha => ?_⟩
  · rw [List.nodup_append_comm]
    exact List.nodup_cons.mpr ⟨hleft head List.mem_cons_self, hnodupR⟩
  · rw [List.mem_append, List.mem_singleton, not_or]
    exact ⟨heR, fun heq => heL (heq ▸ List.mem_cons_self)⟩
  · rw [List.mem_append, List.mem_singleton, not_or]
    exact ⟨hleft a (List.mem_cons_of_mem head ha),
      ne_of_mem_of_not_mem ha (List.nodup_cons.mp hnodupL).1⟩

/-- **Neighbours.** Every node of a ring has a successor and a predecessor in it, and the pointers
of neighbours are inverse to each other. -/
theorem exists_neighbours (h : LinkedRing next prev head xs) {a : α} (ha : a ∈ head :: xs) :
    (∃ b ∈ head :: xs, next a = some b ∧ prev b = some a) ∧
      ∃ c ∈ head :: xs, prev a = some c ∧ next c = some a := by
  have hmem : ∀ b, b ∈ xs ++ [head] → b ∈ head :: xs := by
    intro b hb
    simpa [or_comm] using hb
  rcases List.mem_cons.mp ha with rfl | hin
  · obtain ⟨n, rest, hrest, hnext, hprev⟩ := h.exists_first
    obtain ⟨n', rest', hrest', hnext', hprev'⟩ := h.reverse.exists_first
    refine ⟨⟨n, hmem n (by simp [hrest]), hnext, hprev⟩, ⟨n', ?_, hnext', hprev'⟩⟩
    have hn' : n' ∈ xs.reverse ++ [a] := by simp [hrest']
    exact hmem n' (by simpa using hn')
  · obtain ⟨l, r, rfl⟩ := List.append_of_mem hin
    obtain ⟨l', p, n, r', hl', hr', hprev, hnext, -, -⟩ := h.exists_between
    have hchain := h.chain
    rw [List.append_assoc, List.cons_append, ← List.cons_append, hl', hr',
      List.isChain_append] at hchain
    obtain ⟨-, hright, hjoin⟩ := hchain
    have hlast := hjoin p (by simp) a rfl
    have hfirst := (List.isChain_cons_cons.mp hright).1
    have hn : n ∈ r ++ [head] := by simp [hr']
    have hp : p ∈ head :: l := by simp [hl']
    refine ⟨⟨n, hmem n ?_, hnext, hfirst.2⟩, ⟨p, ?_, hprev, hlast.1⟩⟩
    · rw [List.append_assoc, List.cons_append]
      exact List.mem_append_right l (List.mem_cons_of_mem a hn)
    · rw [← List.cons_append]
      exact List.mem_append_left (a :: r) hp

section Update

variable [DecidableEq α]

/-- **Inserting** a node behind the head. -/
theorem insert (h : LinkedRing next prev head xs) {n node : α} (hn : next head = some n)
    (hne : node ≠ head) (hnode : node ∉ xs) :
    LinkedRing (Function.update (Function.update next node (some n)) head (some node))
      (Function.update (Function.update prev n (some node)) node (some head)) head
      (node :: xs) := by
  obtain ⟨n', rest, hrest, hfirst, -⟩ := h.exists_first
  cases hn.symm.trans hfirst
  have hnodup := h.nodup_concat
  have hmem : node ∉ xs ++ [head] := by simp [hnode, hne]
  have hchain : List.IsChain (Linked next prev) (xs ++ [head]) := h.chain.tail
  rw [hrest] at hnodup hmem hchain
  refine ⟨?_, ?_⟩
  · rw [List.nodup_cons, List.mem_cons, List.nodup_cons]
    refine ⟨?_, hnode, (List.nodup_cons.mp h.nodup).2⟩
    rintro (heq | hin)
    · exact hne heq.symm
    · exact h.head_notMem hin
  rw [List.cons_append, hrest, List.isChain_cons_cons, List.isChain_cons_cons]
  refine ⟨⟨?_, ?_⟩, ⟨?_, ?_⟩, isChain_linked_congr hchain (fun a ha => ?_) fun b hb => ?_⟩
  · exact Function.update_self _ _ _
  · exact Function.update_self _ _ _
  · rw [Function.update_of_ne hne, Function.update_self]
  · rw [Function.update_of_ne (ne_of_mem_of_not_mem List.mem_cons_self hmem), Function.update_self]
  · have hin : a ∈ xs := by
      rwa [← hrest, List.dropLast_concat] at ha
    rw [Function.update_of_ne (ne_of_mem_of_not_mem hin h.head_notMem),
      Function.update_of_ne (ne_of_mem_of_not_mem hin hnode)]
  · rw [List.tail_cons] at hb
    rw [Function.update_of_ne (ne_of_mem_of_not_mem (List.mem_cons_of_mem n hb) hmem),
      Function.update_of_ne (ne_of_mem_of_not_mem hb (List.nodup_cons.mp hnodup).1)]

/-- **Removing** a node, and clearing its pointers. -/
theorem remove {l r : List α} {e p n : α} (h : LinkedRing next prev head (l ++ e :: r))
    (hp : prev e = some p) (hn : next e = some n) :
    LinkedRing (Function.update (Function.update next p (some n)) e none)
      (Function.update (Function.update prev n (some p)) e none) head (l ++ r) := by
  obtain ⟨l', p', n', r', hl', hr', hp', hn', hleft, hright⟩ := h.exists_between
  cases hp.symm.trans hp'
  cases hn.symm.trans hn'
  obtain ⟨hnodupL, hnodupR, heL, heR, hdisjoint, hdisjoint'⟩ := h.separate
  have hpL : p ∈ head :: l := by simp [hl']
  have hnR : n ∈ r ++ [head] := by simp [hr']
  refine ⟨?_, ?_⟩
  · rw [← List.cons_append, List.nodup_append]
    exact ⟨hnodupL, hnodupR.of_append_left, fun a ha b hb heq => hdisjoint a ha (heq ▸ hb)⟩
  rw [List.append_assoc, ← List.cons_append, List.isChain_append]
  refine ⟨isChain_linked_congr hleft (fun a ha => ?_) fun b hb => ?_,
    isChain_linked_congr hright (fun a ha => ?_) fun b hb => ?_, fun a ha b hb => ⟨?_, ?_⟩⟩
  · have hin := List.dropLast_subset _ ha
    rw [Function.update_of_ne (ne_of_mem_of_not_mem hin heL), Function.update_of_ne]
    rintro rfl
    rw [hl', List.dropLast_concat] at ha
    rw [hl', List.nodup_append] at hnodupL
    exact hnodupL.2.2 a ha a (by simp) rfl
  · have hin : b ∈ l := hb
    rw [Function.update_of_ne (ne_of_mem_of_not_mem (List.mem_cons_of_mem head hin) heL),
      Function.update_of_ne]
    rintro rfl
    exact hdisjoint' b hin hnR
  · have hin : a ∈ r := by rwa [List.dropLast_concat] at ha
    rw [Function.update_of_ne (ne_of_mem_of_not_mem (List.mem_append_left [head] hin) heR),
      Function.update_of_ne]
    rintro rfl
    exact hdisjoint a hpL hin
  · have hin := List.mem_of_mem_tail hb
    rw [Function.update_of_ne (ne_of_mem_of_not_mem hin heR), Function.update_of_ne]
    rintro rfl
    rw [hr', List.tail_cons] at hb
    rw [hr'] at hnodupR
    exact (List.nodup_cons.mp hnodupR).1 hb
  · rw [hl', List.getLast?_append, List.getLast?_singleton] at ha
    rw [hr', List.head?_cons] at hb
    cases ha
    cases hb
    rw [Function.update_of_ne (ne_of_mem_of_not_mem hpL heL), Function.update_self]
  · rw [hl', List.getLast?_append, List.getLast?_singleton] at ha
    rw [hr', List.head?_cons] at hb
    cases ha
    cases hb
    rw [Function.update_of_ne (ne_of_mem_of_not_mem hnR heR), Function.update_self]

/-- A pointer that leads through the nodes `ys` to the head is followed through them. -/
theorem follow_of_chain {step : α → Option α} {ys : List α} (hhead : head ∉ ys) {a : α}
    (h : List.IsChain (fun b c => step b = some c) (a :: (ys ++ [head]))) {n : ℕ}
    (hn : ys.length < n) : follow step head n (step a) = some ys := by
  induction ys generalizing a n with
  | nil =>
    obtain ⟨n, rfl⟩ := Nat.exists_eq_succ_of_ne_zero (Nat.ne_zero_of_lt hn)
    rw [(List.isChain_cons_cons.mp h).1, follow, if_pos rfl]
  | cons b ys ih =>
    obtain ⟨n, rfl⟩ := Nat.exists_eq_succ_of_ne_zero (Nat.ne_zero_of_lt hn)
    obtain ⟨hstep, hrest⟩ := List.isChain_cons_cons.mp h
    have hne : some b ≠ some head := fun heq => hhead (by simp [Option.some.inj heq])
    rw [hstep, follow, if_neg hne, Option.bind_some,
      ih (fun hin => hhead (List.mem_cons_of_mem b hin)) hrest (by simpa using hn)]
    rfl

/-- **Where `next` leads.** -/
theorem follow_next (h : LinkedRing next prev head xs) {n : ℕ} (hn : xs.length < n) :
    follow next head n (next head) = some xs :=
  follow_of_chain h.head_notMem (h.chain.imp fun _ _ hab => hab.1) hn

/-- **Where `prev` leads.** -/
theorem follow_prev (h : LinkedRing next prev head xs) {n : ℕ} (hn : xs.length < n) :
    follow prev head n (prev head) = some xs.reverse :=
  h.reverse.follow_next (by simpa using hn)

end Update

end LinkedRing

end ExKernel
