import ExKernel.Lib.LinkedRing
import ExKernel.Lib.Transition
import Mathlib.Data.List.Perm.Basic

/-!
# The intrusive list

An item has a list node in it, with a pointer to the next node and one to the previous one, and the
list is a ring through a head that belongs to no item. A node is inserted behind the head, and the
items are visited by following `prev` from the head, which leads to the oldest node first.

The memory is that of all list nodes, and of the numbers in the items; an item is known by the
address of its node. Operations are the assignments of the source in their order, and an access
through a null pointer has no result.

## Main definitions

* `Ds.Mem`: the memory.
* `Ds.listAdd`, `Ds.listDel`, `Ds.forEachItem`: the operations.
* `Ds.ListSys`: the memory, with the nodes that were added and the nodes that were deleted.
* `Ds.Intact`: what holds of them.

## Main results

* `Ds.listAdd_spec`, `Ds.listDel_spec`: what the operations do to a ring.
* `Ds.list_stays_intact`: the list over all sequences of operations.

## References

* `m_modules/ds/list.h`, lines 4–63; `m_modules/ds/linked.c`, lines 7–40.
-/

namespace ExKernel.Ds

open Transition

/-- The address of a list node. -/
abbrev Addr := ℕ

/-- The pointers of all list nodes, and the numbers of the items that they are in. -/
structure Mem where
  next : Addr → Option Addr
  prev : Addr → Option Addr
  number : Addr → Int32

namespace Mem

/-- `ptr->next = value`. -/
def setNext (m : Mem) (ptr value : Option Addr) : Option Mem :=
  ptr.map fun a => { m with next := Function.update m.next a value }

/-- `ptr->prev = value`. -/
def setPrev (m : Mem) (ptr value : Option Addr) : Option Mem :=
  ptr.map fun a => { m with prev := Function.update m.prev a value }

/-- `struct list_head head = { &head, &head }`, in any memory. -/
def start (m : Mem) (head : Addr) : Mem :=
  { m with
    next := Function.update m.next head (some head)
    prev := Function.update m.prev head (some head) }

end Mem

/-- `__list_add`.

Source: `m_modules/ds/list.h`, lines 35–43. -/
def listAddBetween (m : Mem) (new prev next : Option Addr) : Option Mem :=
  (m.setPrev next new).bind fun m =>
    (m.setNext new next).bind fun m =>
      (m.setPrev new prev).bind fun m => m.setNext prev new

/-- `list_add`.

Source: `m_modules/ds/list.h`, lines 45–49. -/
def listAdd (m : Mem) (new head : Addr) : Option Mem :=
  listAddBetween m (some new) (some head) (m.next head)

/-- `__list_del`.

Source: `m_modules/ds/list.h`, lines 51–56. -/
def listDelBetween (m : Mem) (prev next : Option Addr) : Option Mem :=
  (m.setPrev next prev).bind fun m => m.setNext prev next

/-- `list_del`.

Source: `m_modules/ds/list.h`, lines 58–63. -/
def listDel (m : Mem) (entry : Addr) : Option Mem :=
  (listDelBetween m (m.prev entry) (m.next entry)).bind fun m =>
    (m.setNext (some entry) none).bind fun m => m.setPrev (some entry) none

/-- The items that `for_each_item` visits, if it ends within the given number of tests of its
condition.

Source: `m_modules/ds/list.h`, lines 26–33. -/
def forEachItem (m : Mem) (head : Addr) (fuel : ℕ) : Option (List Addr) :=
  follow m.prev head fuel (m.prev head)

/-! ### Sequences of operations -/

/-- An operation on the list. -/
inductive ListOp
  | listAdd (node : Addr)
  | listDel (node : Addr)

/-- The node of an operation. -/
def ListOp.node : ListOp → Addr
  | .listAdd node => node
  | .listDel node => node

/-- The memory, the nodes that were added and not deleted since, in the order in which they were
added, and the nodes that were deleted and not added since. -/
structure ListSys where
  mem : Mem
  present : List Addr
  deleted : List Addr

/-- The head as it is initialised, in any memory. -/
def ListSys.start (m : Mem) (head : Addr) : ListSys := ⟨m.start head, [], []⟩

/-- One operation. -/
def ListSys.step (head : Addr) (s : ListSys) : ListOp → Option (Unit × ListSys)
  | .listAdd node => (listAdd s.mem node head).map fun m =>
    ((), ⟨m, s.present ++ [node], s.deleted.filter (· ≠ node)⟩)
  | .listDel node => (listDel s.mem node).map fun m =>
    ((), ⟨m, s.present.erase node, node :: s.deleted⟩)

/-- A node that is added is not in the list, nor the head, and a node that is deleted is in the
list. -/
def Uses (head : Addr) (s : ListSys) : ListOp → Prop
  | .listAdd node => node ≠ head ∧ node ∉ s.present
  | .listDel node => node ∈ s.present

instance (head : Addr) (s : ListSys) : (op : ListOp) → Decidable (Uses head s op)
  | .listAdd node => inferInstanceAs (Decidable (node ≠ head ∧ node ∉ s.present))
  | .listDel node => inferInstanceAs (Decidable (node ∈ s.present))

/-! ### Single operations -/

section Single

variable {m : Mem} {head : Addr} {xs : List Addr}

/-- **Adding a node** to a ring: it comes behind the head, and only the memory of the ring and of
the node changes. -/
theorem listAdd_spec (h : LinkedRing m.next m.prev head xs) {node : Addr} (hne : node ≠ head)
    (hnode : node ∉ xs) :
    ∃ m', listAdd m node head = some m' ∧ LinkedRing m'.next m'.prev head (node :: xs) ∧
      m'.number = m.number ∧
      ∀ a, a ∉ head :: node :: xs → m'.next a = m.next a ∧ m'.prev a = m.prev a := by
  obtain ⟨n, rest, hrest, hnext, -⟩ := h.exists_first
  have hn : n ∈ xs ++ [head] := by simp [hrest]
  refine ⟨{ m with
      next := Function.update (Function.update m.next node (some n)) head (some node)
      prev := Function.update (Function.update m.prev n (some node)) node (some head) }, ?_,
    h.insert hnext hne hnode, rfl, fun a ha => ⟨?_, ?_⟩⟩
  · rw [listAdd, hnext]
    rfl
  · simp only [List.mem_cons, not_or] at ha
    exact (Function.update_of_ne ha.1 _ _).trans (Function.update_of_ne ha.2.1 _ _)
  · simp only [List.mem_cons, not_or] at ha
    have hne' : a ≠ n := by
      rintro rfl
      rcases List.mem_append.mp hn with hin | hin
      · exact ha.2.2 hin
      · exact ha.1 (List.mem_singleton.mp hin)
    exact (Function.update_of_ne ha.2.1 _ _).trans (Function.update_of_ne hne' _ _)

/-- **Deleting a node** from a ring: its pointers are null, and only the memory of the ring
changes. -/
theorem listDel_spec (h : LinkedRing m.next m.prev head xs) {node : Addr} (hnode : node ∈ xs) :
    ∃ m', listDel m node = some m' ∧ LinkedRing m'.next m'.prev head (xs.erase node) ∧
      m'.number = m.number ∧ m'.next node = none ∧ m'.prev node = none ∧
      ∀ a, a ∉ head :: xs → m'.next a = m.next a ∧ m'.prev a = m.prev a := by
  obtain ⟨⟨n, hn, hnext, -⟩, ⟨p, hp, hprev, -⟩⟩ :=
    h.exists_neighbours (List.mem_cons_of_mem head hnode)
  have hmem : node ∈ head :: xs := List.mem_cons_of_mem head hnode
  obtain ⟨l, r, hl, rfl, herase⟩ := List.exists_erase_eq hnode
  rw [herase]
  refine ⟨{ m with
      next := Function.update (Function.update m.next p (some n)) node none
      prev := Function.update (Function.update m.prev n (some p)) node none }, ?_,
    h.remove hprev hnext, rfl, ?_, ?_, fun a ha => ⟨?_, ?_⟩⟩
  · rw [listDel, hprev, hnext]
    rfl
  · exact Function.update_self _ _ _
  · exact Function.update_self _ _ _
  · exact (Function.update_of_ne (ne_of_mem_of_not_mem hmem ha).symm _ _).trans
      (Function.update_of_ne (ne_of_mem_of_not_mem hp ha).symm _ _)
  · exact (Function.update_of_ne (ne_of_mem_of_not_mem hmem ha).symm _ _).trans
      (Function.update_of_ne (ne_of_mem_of_not_mem hn ha).symm _ _)

end Single

/-! ### The invariant -/

/-- What holds in every state of a run from the memory `m₀`. The list is a ring through the head and
the nodes that are present, the newest one first. The nodes that were deleted are not among these
and have null pointers; all memory that is neither the head's nor that of a node that is present or
was deleted is as it was before the run, and so are all numbers. -/
structure ListRep (m₀ : Mem) (head : Addr) (s : ListSys) : Prop where
  ring : LinkedRing s.mem.next s.mem.prev head s.present.reverse
  disjoint : ∀ a ∈ s.deleted, a ≠ head ∧ a ∉ s.present
  null : ∀ a ∈ s.deleted, s.mem.next a = none ∧ s.mem.prev a = none
  frame : ∀ a, a ≠ head → a ∉ s.present → a ∉ s.deleted →
    s.mem.next a = m₀.next a ∧ s.mem.prev a = m₀.prev a
  number_eq : s.mem.number = m₀.number

namespace ListRep

variable {m₀ : Mem} {head : Addr} {s : ListSys}

theorem start (m₀ : Mem) (head : Addr) : ListRep m₀ head (.start m₀ head) := by
  refine ⟨.nil (Function.update_self _ _ _) (Function.update_self _ _ _), by simp [ListSys.start],
    by simp [ListSys.start], fun a hne _ _ => ⟨?_, ?_⟩, rfl⟩
  · exact Function.update_of_ne hne _ _
  · exact Function.update_of_ne hne _ _

theorem nodup (h : ListRep m₀ head s) : s.present.Nodup :=
  List.nodup_reverse.mp (List.nodup_cons.mp h.ring.nodup).2

/-- **Adding** a node that is not in the list keeps the invariant. -/
theorem listAdd (h : ListRep m₀ head s) {node : Addr} (hne : node ≠ head)
    (hnode : node ∉ s.present) :
    ∃ r t, s.step head (.listAdd node) = some (r, t) ∧ ListRep m₀ head t := by
  obtain ⟨m', hm', hring, hnumber, hframe⟩ := listAdd_spec h.ring hne (by simpa using hnode)
  refine ⟨(), _, by rw [ListSys.step, hm']; rfl, ?_, fun a ha => ?_, fun a ha => ?_,
    fun a hahead hapresent hadeleted => ?_, hnumber.trans h.number_eq⟩
  · simpa using hring
  · obtain ⟨hin, hanode⟩ := List.mem_filter.mp ha
    have hdisjoint := h.disjoint a hin
    simp only [decide_eq_true_eq] at hanode
    simp [hdisjoint.1, hdisjoint.2, hanode]
  · obtain ⟨hin, hanode⟩ := List.mem_filter.mp ha
    have hdisjoint := h.disjoint a hin
    have hsame := hframe a (by simpa [hdisjoint.1, hdisjoint.2] using hanode)
    rw [hsame.1, hsame.2]
    exact h.null a hin
  · simp only [List.mem_append, List.mem_singleton, not_or] at hapresent
    have hsame := hframe a (by simp [hahead, hapresent.1, hapresent.2])
    rw [hsame.1, hsame.2]
    refine h.frame a hahead hapresent.1 fun hin => hadeleted ?_
    exact List.mem_filter.mpr ⟨hin, by simpa using hapresent.2⟩

/-- **Deleting** a node that is in the list keeps the invariant. -/
theorem listDel (h : ListRep m₀ head s) {node : Addr} (hnode : node ∈ s.present) :
    ∃ r t, s.step head (.listDel node) = some (r, t) ∧ ListRep m₀ head t := by
  have hheadNot : head ∉ s.present := by simpa using h.ring.head_notMem
  have hreverse : s.present.reverse.erase node = (s.present.erase node).reverse := by
    rw [h.nodup.erase_eq_filter, (List.nodup_reverse.mpr h.nodup).erase_eq_filter,
      List.filter_reverse]
  obtain ⟨m', hm', hring, hnumber, hnext, hprev, hframe⟩ :=
    listDel_spec h.ring (List.mem_reverse.mpr hnode)
  refine ⟨(), _, by rw [ListSys.step, hm']; rfl, ?_, fun a ha => ?_, fun a ha => ?_,
    fun a hahead hapresent hadeleted => ?_, hnumber.trans h.number_eq⟩
  · rwa [hreverse] at hring
  · rcases List.mem_cons.mp ha with rfl | hin
    · exact ⟨ne_of_mem_of_not_mem hnode hheadNot, h.nodup.not_mem_erase⟩
    · have hdisjoint := h.disjoint a hin
      exact ⟨hdisjoint.1, fun hin' => hdisjoint.2 (List.mem_of_mem_erase hin')⟩
  · rcases List.mem_cons.mp ha with rfl | hin
    · exact ⟨hnext, hprev⟩
    · have hdisjoint := h.disjoint a hin
      have hsame := hframe a (by simp [hdisjoint.1, hdisjoint.2])
      rw [hsame.1, hsame.2]
      exact h.null a hin
  · rw [List.mem_cons, not_or] at hadeleted
    have hnot : a ∉ s.present := fun hin =>
      hapresent ((List.mem_erase_of_ne hadeleted.1).mpr hin)
    have hsame := hframe a (by simp [hahead, hnot])
    rw [hsame.1, hsame.2]
    exact h.frame a hahead hnot hadeleted.2

/-- **One operation** that is used as it is meant has a result, and keeps the invariant. -/
theorem step (h : ListRep m₀ head s) {op : ListOp} (hop : Uses head s op) :
    ∃ r t, s.step head op = some (r, t) ∧ ListRep m₀ head t := by
  cases op with
  | listAdd node => exact h.listAdd hop.1 hop.2
  | listDel node => exact h.listDel hop

end ListRep

/-! ### The list over all sequences of operations -/

/-- What is said of the list: `next` and `prev` lead from the head through the nodes that are
present, once each and in opposite orders, and back to the head; the pointers of neighbours are
inverse to each other; the pointers of the nodes that were deleted are null; and the items are
visited in the order in which they were added. -/
structure Intact (head : Addr) (s : ListSys) : Prop where
  nodup : (head :: s.present).Nodup
  next_cycle : ∀ fuel, s.present.length < fuel →
    follow s.mem.next head fuel (s.mem.next head) = some s.present.reverse
  prev_cycle : ∀ fuel, s.present.length < fuel →
    follow s.mem.prev head fuel (s.mem.prev head) = some s.present
  neighbours : ∀ a ∈ head :: s.present,
    (∃ b ∈ head :: s.present, s.mem.next a = some b ∧ s.mem.prev b = some a) ∧
      ∃ c ∈ head :: s.present, s.mem.prev a = some c ∧ s.mem.next c = some a
  null : ∀ a ∈ s.deleted, s.mem.next a = none ∧ s.mem.prev a = none
  items : ∀ fuel, s.present.length < fuel → forEachItem s.mem head fuel = some s.present

theorem ListRep.intact {m₀ : Mem} {head : Addr} {s : ListSys} (h : ListRep m₀ head s) :
    Intact head s := by
  have hprev : ∀ fuel, s.present.length < fuel →
      follow s.mem.prev head fuel (s.mem.prev head) = some s.present := by
    intro fuel hfuel
    rw [h.ring.follow_prev (by simpa using hfuel), List.reverse_reverse]
  refine ⟨?_, fun fuel hfuel => h.ring.follow_next (by simpa using hfuel), hprev, fun a ha => ?_,
    h.null, hprev⟩
  · exact List.nodup_cons.mpr ⟨by simpa using h.ring.head_notMem, h.nodup⟩
  · have hmem : ∀ b, b ∈ head :: s.present.reverse ↔ b ∈ head :: s.present := by simp
    obtain ⟨⟨b, hb, hnext⟩, ⟨c, hc, hprev'⟩⟩ := h.ring.exists_neighbours ((hmem a).mpr ha)
    exact ⟨⟨b, (hmem b).mp hb, hnext⟩, ⟨c, (hmem c).mp hc, hprev'⟩⟩

/-- A node that is present or was deleted is the node of some operation. -/
theorem node_mem_of_exec {m : Mem} {head : Addr} {ops : List ListOp} {replies : List Unit}
    {s : ListSys} (hrun : exec (ListSys.step head) (.start m head) ops = some (replies, s))
    {a : Addr} (ha : a ∈ s.present ++ s.deleted) : ∃ op ∈ ops, op.node = a := by
  refine exec_invariant (fun t : ListSys => ∀ b ∈ t.present ++ t.deleted, ∃ op ∈ ops, op.node = b)
    ?_ (by simp [ListSys.start]) (guarded_of_forall_mem (fun op hop => hop) _) hrun a ha
  intro t op r u ht hop hstep b hb
  cases op with
  | listAdd node =>
    obtain ⟨m', -, heq⟩ := Option.map_eq_some_iff.mp hstep
    cases heq
    simp only [List.mem_append, List.mem_singleton, List.mem_filter] at hb
    rcases hb with (hb | rfl) | hb
    · exact ht b (List.mem_append_left _ hb)
    · exact ⟨_, hop, rfl⟩
    · exact ht b (List.mem_append_right _ hb.1)
  | listDel node =>
    obtain ⟨m', -, heq⟩ := Option.map_eq_some_iff.mp hstep
    cases heq
    simp only [List.mem_append, List.mem_cons] at hb
    rcases hb with hb | rfl | hb
    · exact ht b (List.mem_append_left _ (List.mem_of_mem_erase hb))
    · exact ⟨_, hop, rfl⟩
    · exact ht b (List.mem_append_right _ hb)

/-- **The list stays intact.** A sequence of operations on an empty list that adds nodes that are
not in it and deletes nodes that are, in any order and in any memory, never follows a null pointer;
after it the list is intact, and nothing but the pointers of the head and of the nodes of the
operations was changed. -/
theorem list_stays_intact (m : Mem) (head : Addr) (ops : List ListOp)
    (h : Guarded (ListSys.step head) (Uses head) (.start m head) ops) :
    ∃ replies s, exec (ListSys.step head) (.start m head) ops = some (replies, s) ∧
      Intact head s ∧ s.mem.number = m.number ∧
      ∀ a, a ≠ head → (∀ op ∈ ops, op.node ≠ a) →
        s.mem.next a = m.next a ∧ s.mem.prev a = m.prev a := by
  obtain ⟨replies, s, hrun, hs⟩ := exec_progress (ListRep m head)
    (fun t op ht hop => ht.step hop) (.start m head) h
  refine ⟨replies, s, hrun, hs.intact, hs.number_eq, fun a hne hops => ?_⟩
  have hnot : a ∉ s.present ++ s.deleted := by
    intro ha
    obtain ⟨op, hop, hnode⟩ := node_mem_of_exec hrun ha
    exact hops op hop hnode
  rw [List.mem_append, not_or] at hnot
  exact hs.frame a hne hnot.1 hnot.2

/-- The operations of a program with three items.

Source: `m_modules/ds/linked.c`, lines 22–33. -/
def linked : List ListOp :=
  [.listAdd 1, .listAdd 2, .listAdd 3, .listDel 1, .listDel 2, .listDel 3]

/-- The items and their numbers before the program adds them. -/
def Mem.linked : Mem := ⟨fun _ => none, fun _ => none, fun a => .ofNat (100 * a)⟩

/-- After the first deletion of the program. -/
theorem list_stays_intact_linked :
    ∃ replies s, exec (ListSys.step 0) (.start .linked 0) (linked.take 4) = some (replies, s) ∧
      s.present = [2, 3] ∧ Intact 0 s := by
  obtain ⟨replies, s, hrun, hintact, -⟩ := list_stays_intact .linked 0 (linked.take 4) (by decide)
  have hpresent : some [2, 3] = some s.present :=
    congrArg (Option.map fun out : List Unit × ListSys => out.2.present) hrun
  exact ⟨replies, s, hrun, (Option.some.inj hpresent).symm, hintact⟩

end ExKernel.Ds
