import ExKernel.Lib.Chain
import ExKernel.Scull.Layout

/-!
# Following the list

`scull_follow` with its pointers: the memory of the nodes, the two branches that allocate one, and
the loop that goes along the list and extends it at the same time. The nodes appended are those that
`kmalloc` grants before it first refuses, and no more than the list lacks.

## Main definitions

* `Scull.Nodes`: the list in memory.
* `Scull.Nodes.scullFollow`: the function on it.
* `Scull.granted`: the nodes that are granted before a refusal.

## Main results

* `Scull.Nodes.scullFollow_extends`: what the list is afterwards, and what is returned.
* `Scull.Nodes.scullFollow_refines`: the function on lists does the same.

## References

* `ldd/scull/main.c`, lines 264–288.
-/

namespace ExKernel.Scull

/-- The list of a device in memory: `dev->data`, the two fields of every node, and the number of
calls of `kmalloc` so far. -/
structure Nodes where
  head : Option ℕ
  next : ℕ → Option ℕ
  data : ℕ → Option QArray
  calls : ℕ

namespace Nodes

/-- `dev->data = kmalloc(…)`. -/
def allocHead (answer : ℕ → Option ℕ) (m : Nodes) : Nodes :=
  { m with head := answer m.calls, calls := m.calls + 1 }

/-- `qs->next = kmalloc(…)`. -/
def allocNext (answer : ℕ → Option ℕ) (qs : ℕ) (m : Nodes) : Nodes :=
  { m with next := Function.update m.next qs (answer m.calls), calls := m.calls + 1 }

/-- `memset(qs, 0, sizeof(struct scull_qset))`. -/
def clear (qs : ℕ) (m : Nodes) : Nodes :=
  { m with next := Function.update m.next qs none, data := Function.update m.data qs none }

/-- The loop: the node `n` places after `qs`, and the memory afterwards. -/
def followLoop (answer : ℕ → Option ℕ) : ℕ → ℕ → Nodes → Option ℕ × Nodes
  | 0, qs, m => (some qs, m)
  | n + 1, qs, m =>
    match m.next qs with
    | some next => followLoop answer n next m
    | none =>
      let m := m.allocNext answer qs
      match m.next qs with
      | none => (none, m)
      | some next => followLoop answer n next (m.clear next)

/-- `scull_follow`, when `answer j` is what the call `j` of `kmalloc` returns: the return value, and
the memory afterwards.

Source: `ldd/scull/main.c`, lines 264–288. -/
def scullFollow (answer : ℕ → Option ℕ) (n : Int32) (m : Nodes) : Option ℕ × Nodes :=
  match m.head with
  | some qs => followLoop answer (rounds n) qs m
  | none =>
    let m := m.allocHead answer
    match m.head with
    | none => (none, m)
    | some qs => followLoop answer (rounds n) qs (m.clear qs)

/-- The nodes of the list. -/
def Holds (m : Nodes) (nodes : List ℕ) : Prop := Chain m.next m.head nodes

end Nodes

/-! ### What is granted -/

/-- The blocks that `need` calls of `kmalloc` grant, from the call `j` on and up to the first call
that is refused. -/
def granted (answer : ℕ → Option ℕ) (j : ℕ) : ℕ → List ℕ
  | 0 => []
  | need + 1 =>
    match answer j with
    | none => []
    | some qs => qs :: granted answer (j + 1) need

section Granted

variable {answer : ℕ → Option ℕ} {j need : ℕ}

theorem granted_of_none (h : answer j = none) : granted answer j need = [] := by
  cases need with
  | zero => rfl
  | succ need => rw [granted, h]

theorem granted_of_some {qs : ℕ} (h : answer j = some qs) :
    granted answer j (need + 1) = qs :: granted answer (j + 1) need := by
  rw [granted, h]

theorem length_granted_le : (granted answer j need).length ≤ need := by
  induction need generalizing j with
  | zero => exact le_rfl
  | succ need ih =>
    cases hans : answer j with
    | none => simp [granted_of_none hans]
    | some qs =>
      rw [granted_of_some hans, List.length_cons]
      exact Nat.succ_le_succ ih

theorem length_granted_of_forall (h : ∀ i < need, answer (j + i) ≠ none) :
    (granted answer j need).length = need := by
  induction need generalizing j with
  | zero => rfl
  | succ need ih =>
    obtain ⟨qs, hqs⟩ := Option.ne_none_iff_exists'.mp (h 0 (by omega))
    rw [granted_of_some (j := j) hqs, List.length_cons, ih]
    intro i hi
    have hlater := h (i + 1) (by omega)
    rwa [show j + (i + 1) = j + 1 + i from by omega] at hlater

/-- The calls before the first refusal are granted, and no others. -/
theorem length_granted_of_refused {k : ℕ} (hk : k < need) (hbefore : ∀ i < k, answer (j + i) ≠ none)
    (hrefused : answer (j + k) = none) : (granted answer j need).length = k := by
  induction need generalizing j k with
  | zero => omega
  | succ need ih =>
    cases k with
    | zero => rw [granted_of_none (j := j) hrefused, List.length_nil]
    | succ k =>
      obtain ⟨qs, hqs⟩ := Option.ne_none_iff_exists'.mp (hbefore 0 (by omega))
      rw [granted_of_some (j := j) hqs, List.length_cons, ih (k := k) (by omega)]
      · intro i hi
        have hlater := hbefore (i + 1) (by omega)
        rwa [show j + (i + 1) = j + 1 + i from by omega] at hlater
      · rwa [show j + 1 + k = j + (k + 1) from by omega]

end Granted

/-- `kmalloc` returns no block of the list, and no block twice, from the call `j` on. -/
structure Fresh (answer : ℕ → Option ℕ) (j : ℕ) (nodes : List ℕ) : Prop where
  notMem : ∀ i ≥ j, ∀ qs ∈ nodes, answer i ≠ some qs
  once : ∀ i ≥ j, ∀ i' > i, ∀ qs, answer i = some qs → answer i' ≠ some qs

theorem Fresh.concat {answer : ℕ → Option ℕ} {j : ℕ} {nodes : List ℕ} {qs : ℕ}
    (h : Fresh answer j nodes) (hans : answer j = some qs) :
    Fresh answer (j + 1) (nodes ++ [qs]) where
  notMem i hi a ha := by
    rw [List.mem_append, List.mem_singleton] at ha
    obtain hmem | rfl := ha
    · exact h.notMem i (by omega) a hmem
    · exact h.once j le_rfl i (by omega) a hans
  once i hi := h.once i (by omega)

namespace Nodes

variable {answer : ℕ → Option ℕ} {m m' : Nodes} {nodes front : List ℕ} {qs index : ℕ}
  {out : Option ℕ × Nodes}

/-- The outcome of following a list to the node `index`. -/
structure Followed (answer : ℕ → Option ℕ) (index : ℕ) (m : Nodes) (nodes : List ℕ)
    (out : Option ℕ × Nodes) : Prop where
  holds : out.2.Holds (nodes ++ granted answer m.calls (index + 1 - nodes.length))
  kept : ∀ qs ∈ nodes, out.2.data qs = m.data qs
  empty : ∀ qs ∈ granted answer m.calls (index + 1 - nodes.length), out.2.data qs = none
  ret : out.1 = (nodes ++ granted answer m.calls (index + 1 - nodes.length))[index]?
  unchanged : index < nodes.length → out.2 = m

theorem followed_of_lt (hholds : m.Holds nodes) (h : index < nodes.length) :
    Followed answer index m nodes (nodes[index]?, m) := by
  have hneed : index + 1 - nodes.length = 0 := by omega
  refine ⟨?_, fun qs _ => rfl, ?_, ?_, fun _ => rfl⟩ <;> rw [hneed, granted]
  · simpa using hholds
  · simp
  · simp

/-- The first call of `kmalloc` is refused: the fields that it is stored in were `NULL` before. -/
theorem followed_of_refused (hans : answer m.calls = none) (h : nodes.length ≤ index)
    (hholds : m'.Holds nodes) (hdata : m'.data = m.data) :
    Followed answer index m nodes (none, m') := by
  refine ⟨?_, fun qs _ => by rw [hdata], ?_, ?_, fun hlt => by omega⟩ <;>
    rw [granted_of_none hans]
  · simpa using hholds
  · simp
  · simp [h]

theorem Followed.of_concat (hans : answer m.calls = some qs) (h : nodes.length ≤ index)
    (hcalls : m'.calls = m.calls + 1) (hdata : m'.data = Function.update m.data qs none)
    (hfresh : qs ∉ nodes) (hfollowed : Followed answer index m' (nodes ++ [qs]) out) :
    Followed answer index m nodes out := by
  have hneed : granted answer m.calls (index + 1 - nodes.length) =
      qs :: granted answer m'.calls (index + 1 - (nodes ++ [qs]).length) := by
    rw [hcalls, List.length_append, List.length_singleton,
      show index + 1 - nodes.length = index + 1 - (nodes.length + 1) + 1 from by omega,
      granted_of_some hans]
  obtain ⟨hholds, hkept, hempty, hret, -⟩ := hfollowed
  rw [List.append_assoc, List.singleton_append, ← hneed] at hholds hret
  refine ⟨hholds, fun a ha => ?_, fun a ha => ?_, hret, fun hlt => by omega⟩
  · rw [hkept a (List.mem_append_left _ ha), hdata,
      Function.update_of_ne (ne_of_mem_of_not_mem ha hfresh)]
  · rw [hneed, List.mem_cons] at ha
    obtain rfl | ha := ha
    · rw [hkept a (by simp), hdata, Function.update_self]
    · exact hempty a ha

theorem Holds.clear_allocNext {last : ℕ} (h : m.Holds (front ++ [last]))
    (hans : answer m.calls = some qs) (hfresh : qs ∉ front ++ [last]) :
    ((m.allocNext answer last).clear qs).Holds (front ++ [last] ++ [qs]) := by
  have hne : last ≠ qs := fun heq => hfresh (by simp [heq])
  refine Chain.concat h ?_ (by simp [Nodes.clear]) fun a ha => ?_
  · simp [Nodes.clear, allocNext, hne, hans]
  · have hlast : a ≠ last := fun heq => Chain.last_notMem h (heq ▸ ha)
    have hqs : a ≠ qs := fun heq => hfresh (by simp [← heq, ha])
    simp [Nodes.clear, allocNext, hlast, hqs]

theorem followLoop_spec (n : ℕ) {rest : List ℕ} (hholds : m.Holds (front ++ qs :: rest))
    (hfresh : Fresh answer m.calls (front ++ qs :: rest)) :
    Followed answer (front.length + n) m (front ++ qs :: rest) (followLoop answer n qs m) := by
  induction n generalizing m front qs rest with
  | zero =>
    have hnode : Followed answer front.length m (front ++ qs :: rest) (_, m) :=
      followed_of_lt hholds (by simp)
    simpa [followLoop] using hnode
  | succ n ih =>
    have hnext : m.next qs = rest.head? := Chain.next_eq hholds
    have hlen : front.length + (n + 1) = (front ++ [qs]).length + n := by simp; omega
    rw [followLoop, hnext, hlen]
    cases rest with
    | cons after rest =>
      rw [List.append_cons front qs (after :: rest)] at hholds hfresh ⊢
      exact ih hholds hfresh
    | nil =>
      have hcalls : (m.allocNext answer qs).next qs = answer m.calls := by simp [allocNext]
      simp only [List.head?_nil, hcalls]
      cases hans : answer m.calls with
      | none =>
        refine followed_of_refused hans (by simp) (Chain.congr hholds fun a _ => ?_) rfl
        by_cases ha : a = qs
        · rw [ha, hcalls, hans, hnext, List.head?_nil]
        · simp [allocNext, ha]
      | some fresh =>
        have hnot : fresh ∉ front ++ [qs] := fun hmem =>
          hfresh.notMem m.calls le_rfl fresh hmem hans
        exact .of_concat hans (by simp) rfl rfl hnot
          (ih (hholds.clear_allocNext hans hnot) (hfresh.concat hans))

theorem followLoop_from_head (n : ℕ) {rest : List ℕ} (hholds : m.Holds (qs :: rest))
    (hfresh : Fresh answer m.calls (qs :: rest)) :
    Followed answer n m (qs :: rest) (followLoop answer n qs m) := by
  have hloop : Followed answer (List.length [] + n) m ([] ++ qs :: rest) _ :=
    followLoop_spec n hholds hfresh
  simpa using hloop

theorem scullFollow_followed (n : Int32) (hholds : m.Holds nodes)
    (hfresh : Fresh answer m.calls nodes) :
    Followed answer (rounds n) m nodes (m.scullFollow answer n) := by
  have hhead : m.head = nodes.head? := Chain.head_eq hholds
  rw [scullFollow, hhead]
  cases nodes with
  | cons first rest => exact followLoop_from_head (rounds n) hholds hfresh
  | nil =>
    have hcalls : (m.allocHead answer).head = answer m.calls := rfl
    simp only [List.head?_nil, hcalls]
    cases hans : answer m.calls with
    | none => exact followed_of_refused hans (by simp) hans rfl
    | some first =>
      have hfirst : ((m.allocHead answer).clear first).Holds [first] := by
        simp [Holds, Nodes.clear, allocHead, hans]
      exact .of_concat hans (by simp) rfl rfl (by simp)
        (followLoop_from_head (rounds n) hfirst (hfresh.concat hans))

/-- The list is the old one with empty nodes appended, as many as were granted, and not more than it
lacked. -/
structure Extended (answer : ℕ → Option ℕ) (index : ℕ) (m : Nodes) (nodes fresh : List ℕ)
    (out : Option ℕ × Nodes) : Prop where
  holds : out.2.Holds (nodes ++ fresh)
  kept : ∀ qs ∈ nodes, out.2.data qs = m.data qs
  empty : ∀ qs ∈ fresh, out.2.data qs = none
  bound : fresh.length ≤ index + 1 - nodes.length
  found : (∀ i < index + 1 - nodes.length, answer (m.calls + i) ≠ none) →
    fresh.length = index + 1 - nodes.length ∧
      ∃ qs, (nodes ++ fresh)[index]? = some qs ∧ out.1 = some qs
  refused : ∀ k < index + 1 - nodes.length, answer (m.calls + k) = none →
    (∀ i < k, answer (m.calls + i) ≠ none) → out.1 = none ∧ fresh.length = k
  unchanged : index < nodes.length → out.2 = m

theorem Followed.extended (h : Followed answer index m nodes out) :
    Extended answer index m nodes (granted answer m.calls (index + 1 - nodes.length)) out where
  holds := h.holds
  kept := h.kept
  empty := h.empty
  bound := length_granted_le
  found hall := by
    have hlen := length_granted_of_forall hall
    refine ⟨hlen, _, List.getElem?_eq_getElem (by rw [List.length_append, hlen]; omega), ?_⟩
    rw [h.ret, List.getElem?_eq_getElem]
  refused k hk hrefused hbefore := by
    have hlen := length_granted_of_refused hk hbefore hrefused
    refine ⟨?_, hlen⟩
    rw [h.ret, List.getElem?_eq_none]
    rw [List.length_append, hlen]
    omega
  unchanged := h.unchanged

/-- **The list is extended minimally and harmlessly.** For every list, every `n` that is not
negative and every pattern of refusals.

Source: `ldd/scull/main.c`, lines 264–288. -/
theorem scullFollow_extends (answer : ℕ → Option ℕ) (n : Int32) (m : Nodes) (nodes : List ℕ)
    (hn : 0 ≤ n.toInt) (hholds : m.Holds nodes) (hfresh : Fresh answer m.calls nodes) :
    ∃ fresh, Extended answer n.toInt.toNat m nodes fresh (m.scullFollow answer n) := by
  have hrounds : rounds n = n.toInt.toNat := by
    have hlt := n.toInt_lt
    have hofInt := rounds_ofInt (k := n.toInt.toNat) (by omega)
    rwa [Int.toNat_of_nonneg hn, Int32.ofInt_toInt] at hofInt
  exact ⟨_, hrounds ▸ (scullFollow_followed n hholds hfresh).extended⟩

/-- The third node of a list of one, when there is memory for one node only. -/
theorem scullFollow_extends_refused :
    ∃ fresh, Extended (fun j => if j = 0 then some 1 else none) 2
      ⟨some 0, fun _ => none, fun _ => none, 0⟩ [0] fresh
      (Nodes.scullFollow (fun j => if j = 0 then some 1 else none) 2
        ⟨some 0, fun _ => none, fun _ => none, 0⟩) ∧ fresh.length = 1 := by
  obtain ⟨fresh, hext⟩ := scullFollow_extends (fun j => if j = 0 then some 1 else none) 2
    ⟨some 0, fun _ => none, fun _ => none, 0⟩ [0] (by decide) ⟨rfl, rfl⟩
    ⟨by simp, by intro i _ i' hi'; simp; omega⟩
  refine ⟨fresh, hext, (hext.refused 1 (by decide) rfl fun i hi => ?_).2⟩
  obtain rfl : i = 0 := by omega
  simp

end Nodes

/-! ### The function on lists -/

/-- What `kmalloc` returns when blocks are numbered from `base` on, and `node k` says whether there
is memory for a node that is followed by `k` more. -/
def answers (node : ℕ → Bool) (base need j : ℕ) : Option ℕ :=
  if node (need - 1 - j) then some (base + j) else none

section Refinement

variable {node : ℕ → Bool}

theorem granted_succ (answer : ℕ → Option ℕ) (j need : ℕ) :
    granted answer (j + 1) need = granted (fun i => answer (i + 1)) j need := by
  induction need generalizing j with
  | zero => rfl
  | succ need ih =>
    rw [granted, granted]
    cases answer (j + 1) with
    | none => rfl
    | some qs => exact congrArg (qs :: ·) (ih (j + 1))

theorem answers_succ (base need : ℕ) :
    (fun j => answers node base (need + 1) (j + 1)) = answers node (base + 1) need := by
  funext j
  rw [answers, answers, show need + 1 - 1 - (j + 1) = need - 1 - j from by omega,
    show base + (j + 1) = base + 1 + j from by omega]

/-- A granted block as an empty quantum set. -/
def emptyQSet (id : ℕ) : QSet := ⟨id, none⟩

theorem scullFollow_eq_granted (n : ℕ) (slot : List QSet) (heap : Ledger) :
    (scullFollow node n slot heap).2.1 = slot ++
      (granted (answers node heap.next (n + 1 - slot.length)) 0 (n + 1 - slot.length)).map
        emptyQSet := by
  induction n generalizing slot heap with
  | zero =>
    cases slot with
    | cons dptr next => simp [scullFollow_cons_zero, granted]
    | nil =>
      cases hans : node 0 with
      | false => simp [scullFollow_nil_of_false hans, granted, answers, hans]
      | true => simp [scullFollow_nil_zero hans, granted, answers, hans, emptyQSet]
  | succ n ih =>
    cases slot with
    | cons dptr next => simp [scullFollow_cons_succ, ih]
    | nil =>
      cases hans : node (n + 1) with
      | false =>
        rw [scullFollow_nil_of_false hans, granted_of_none (by simp [answers, hans])]
        rfl
      | true =>
        have hfirst : answers node heap.next (n + 1 + 1) 0 = some heap.next := by
          simp [answers, hans]
        simp only [scullFollow_nil_succ hans, ih, List.length_nil, Nat.sub_zero, List.nil_append]
        rw [granted_of_some hfirst, granted_succ, answers_succ]
        rfl

theorem fresh_answers {base need : ℕ} {nodes : List ℕ} (h : ∀ qs ∈ nodes, qs < base) :
    Fresh (answers node base need) 0 nodes where
  notMem i _ qs hqs := by
    have := h qs hqs
    simp only [answers]
    split_ifs
    · simp only [ne_eq, Option.some.injEq]
      omega
    · simp
  once i _ i' hi' qs := by
    simp only [answers]
    split_ifs <;> simp
    omega

/-- **Lists and pointers.** The list in memory afterwards is the one that the function on lists
leaves, and the node returned is the one at the place looked for. -/
theorem Nodes.scullFollow_refines (n : Int32) {m : Nodes} {slot : List QSet} {heap : Ledger}
    (hcalls : m.calls = 0) (hholds : m.Holds (slot.map QSet.id))
    (hdata : ∀ dptr ∈ slot, m.data dptr.id = dptr.data)
    (hids : ∀ dptr ∈ slot, dptr.id < heap.next) :
    let out := m.scullFollow (answers node heap.next (rounds n + 1 - slot.length)) n
    let list := (Scull.scullFollow node (rounds n) slot heap).2.1
    out.2.Holds (list.map QSet.id) ∧ (∀ dptr ∈ list, out.2.data dptr.id = dptr.data) ∧
      out.1 = (list.map QSet.id)[rounds n]? := by
  have hfresh : Fresh (answers node heap.next (rounds n + 1 - slot.length)) m.calls
      (slot.map QSet.id) := by
    rw [hcalls]
    refine fresh_answers fun qs hqs => ?_
    obtain ⟨dptr, hdptr, rfl⟩ := List.mem_map.mp hqs
    exact hids dptr hdptr
  have hfollowed := scullFollow_followed n hholds hfresh
  have hid : QSet.id ∘ emptyQSet = id := rfl
  obtain ⟨hchain, hkept, hempty, hret, -⟩ := hfollowed
  rw [hcalls, List.length_map] at hchain hempty hret
  simp only [scullFollow_eq_granted, List.map_append, List.map_map, hid, List.map_id]
  refine ⟨hchain, fun dptr hdptr => ?_, hret⟩
  obtain hmem | hmem := List.mem_append.mp hdptr
  · rw [hkept _ (List.mem_map_of_mem hmem), hdata dptr hmem]
  · obtain ⟨qs, hqs, rfl⟩ := List.mem_map.mp hmem
    exact hempty qs hqs

end Refinement

end ExKernel.Scull
