import Mathlib.Data.List.Nodup

/-!
# Singly linked lists

A singly linked list is a pointer to its first node, and a pointer from each node to the next one;
the last node points nowhere. `Chain next head l` says that the nodes found in this way are those of
`l`, in this order.

## Main definitions

* `Chain`.

## Main results

* `Chain.nodup`: a list that ends does not come back to a node.
* `Chain.congr`: the nodes of the list alone decide what the list is.
* `Chain.concat`: a fresh node is appended by one pointer in the last node.
-/

namespace ExKernel

variable {α : Type*}

/-- The pointers `next` lead from `head` through the nodes of the list and then nowhere. -/
def Chain (next : α → Option α) : Option α → List α → Prop
  | head, [] => head = none
  | head, a :: l => head = some a ∧ Chain next (next a) l

namespace Chain

variable {next : α → Option α} {head : Option α} {a b : α} {l l' : List α}

@[simp] theorem nil_iff : Chain next head [] ↔ head = none := Iff.rfl

@[simp] theorem cons_iff : Chain next head (a :: l) ↔ head = some a ∧ Chain next (next a) l :=
  Iff.rfl

theorem unique (h : Chain next head l) (h' : Chain next head l') : l = l' := by
  induction l generalizing head l' with
  | nil =>
    cases l' with
    | nil => rfl
    | cons b l' => simp_all
  | cons a l ih =>
    cases l' with
    | nil => simp_all
    | cons b l' =>
      obtain ⟨rfl, htail⟩ := h
      obtain ⟨hhead, htail'⟩ := h'
      obtain rfl : a = b := Option.some.inj hhead
      rw [ih htail htail']

theorem from_node (h : Chain next head (l ++ a :: l')) : Chain next (some a) (a :: l') := by
  induction l generalizing head with
  | nil => exact ⟨rfl, h.2⟩
  | cons b l ih => exact ih h.2

theorem next_eq (h : Chain next head (l ++ a :: l')) : next a = l'.head? := by
  have htail := h.from_node.2
  cases l' with
  | nil => exact htail
  | cons b l' => exact htail.1

theorem head_eq (h : Chain next head l) : head = l.head? := by
  cases l with
  | nil => exact h
  | cons a l => exact h.1

/-- A list that ends does not come back to a node. -/
theorem nodup (h : Chain next head l) : l.Nodup := by
  induction l generalizing head with
  | nil => exact List.nodup_nil
  | cons a l ih =>
    refine List.nodup_cons.mpr ⟨fun hmem => ?_, ih h.2⟩
    obtain ⟨s, t, rfl⟩ := List.append_of_mem hmem
    have hlater : Chain next (next a) t := (h.2 : Chain next (next a) (s ++ a :: t)).from_node.2
    have hlen := congrArg List.length (h.2.unique hlater)
    simp only [List.length_append, List.length_cons] at hlen
    omega

/-- Pointers of other nodes do not matter. -/
theorem congr {next' : α → Option α} (h : Chain next head l) (hsame : ∀ a ∈ l, next' a = next a) :
    Chain next' head l := by
  induction l generalizing head with
  | nil => exact h
  | cons a l ih =>
    refine ⟨h.1, ?_⟩
    rw [hsame a List.mem_cons_self]
    exact ih h.2 fun b hb => hsame b (List.mem_cons_of_mem a hb)

/-- **A node is appended.** The last node points to a new one, which points nowhere. -/
theorem concat {next' : α → Option α} (h : Chain next head (l ++ [a])) (hlast : next' a = some b)
    (hend : next' b = none) (hsame : ∀ c ∈ l, next' c = next c) :
    Chain next' head (l ++ [a] ++ [b]) := by
  induction l generalizing head with
  | nil => exact ⟨h.1, hlast, hend⟩
  | cons c l ih =>
    refine ⟨h.1, ?_⟩
    rw [hsame c List.mem_cons_self]
    exact ih h.2 fun d hd => hsame d (List.mem_cons_of_mem c hd)

theorem last_notMem (h : Chain next head (l ++ [a])) : a ∉ l := fun hmem =>
  (List.nodup_append.mp h.nodup).2.2 a hmem a (List.mem_singleton_self a) rfl

end Chain

end ExKernel
