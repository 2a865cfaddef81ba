import Mathlib.Data.List.Perm.Basic
import Mathlib.Data.List.Nodup

/-!
# Ledgers of allocations

A ledger records the blocks an allocator has handed out: the identity the next block gets, the
blocks that are live, and the log of the blocks released, in the order of the releases. Releasing
does not check anything, so a ledger can go wrong; it is `Sound` as long as every block was released
at most once, and only while it was live.

## Main definitions

* `Ledger`, with `Ledger.alloc`, `Ledger.free` and `Ledger.freeAll`.
* `Ledger.Sound`: no block was released twice, and none that was not handed out.
* `Ledger.Grows`: blocks were handed out and none released.
* `Ledger.Trades`: some blocks were given for others, whatever else is live.

## Main results

* `Ledger.Sound.alloc`, `Ledger.Sound.free`: when the operations keep a ledger sound.
* `Ledger.Sound.freeAll_of_perm`: releasing a list of all live blocks leaves none.
* `Ledger.exists_rest_set`: the blocks of one of many owners can be traded apart from the others.
-/

namespace ExKernel

/-- The blocks handed out by an allocator. -/
structure Ledger where
  /-- The identity of the next block. -/
  next : ℕ
  /-- The live blocks. -/
  live : List ℕ
  /-- The blocks released, in the order of the releases. -/
  freed : List ℕ
  deriving DecidableEq

namespace Ledger

/-- The ledger before the first allocation. -/
def empty : Ledger := ⟨0, [], []⟩

/-- Hand out the block `l.next`. -/
def alloc (l : Ledger) : Ledger := { l with next := l.next + 1, live := l.next :: l.live }

/-- Release a block. -/
def free (l : Ledger) (b : ℕ) : Ledger := { l with live := l.live.erase b, freed := l.freed ++ [b] }

/-- Release the blocks of a list, in order. -/
def freeAll (l : Ledger) (bs : List ℕ) : Ledger := bs.foldl free l

@[simp] theorem live_alloc (l : Ledger) : l.alloc.live = l.next :: l.live := rfl
@[simp] theorem freed_free (l : Ledger) (b : ℕ) : (l.free b).freed = l.freed ++ [b] := rfl
@[simp] theorem freeAll_nil (l : Ledger) : l.freeAll [] = l := rfl

theorem freeAll_append (l : Ledger) (bs cs : List ℕ) :
    l.freeAll (bs ++ cs) = (l.freeAll bs).freeAll cs :=
  List.foldl_append

theorem freed_freeAll (l : Ledger) (bs : List ℕ) : (l.freeAll bs).freed = l.freed ++ bs := by
  induction bs generalizing l with
  | nil => simp
  | cons b bs ih =>
    change ((l.free b).freeAll bs).freed = _
    rw [ih, freed_free, List.append_assoc, List.singleton_append]

/-- Every block was handed out once and released at most once, while it was live. -/
structure Sound (l : Ledger) : Prop where
  live_nodup : l.live.Nodup
  freed_nodup : l.freed.Nodup
  live_lt : ∀ b ∈ l.live, b < l.next
  freed_lt : ∀ b ∈ l.freed, b < l.next
  disjoint : ∀ b ∈ l.live, b ∉ l.freed

theorem sound_empty : empty.Sound :=
  ⟨List.nodup_nil, List.nodup_nil, by simp [empty], by simp [empty], by simp [empty]⟩

namespace Sound

variable {l : Ledger}

theorem alloc (h : l.Sound) : l.alloc.Sound where
  live_nodup := List.nodup_cons.mpr ⟨fun hm => Nat.lt_irrefl _ (h.live_lt _ hm), h.live_nodup⟩
  freed_nodup := h.freed_nodup
  live_lt b hb := by
    rcases List.mem_cons.mp hb with rfl | hb
    · exact Nat.lt_succ_self _
    · exact Nat.lt_succ_of_lt (h.live_lt b hb)
  freed_lt b hb := Nat.lt_succ_of_lt (h.freed_lt b hb)
  disjoint b hb hf := by
    rcases List.mem_cons.mp hb with rfl | hb
    · exact Nat.lt_irrefl _ (h.freed_lt _ hf)
    · exact h.disjoint b hb hf

theorem free (h : l.Sound) {b : ℕ} (hb : b ∈ l.live) : (l.free b).Sound where
  live_nodup := h.live_nodup.erase b
  freed_nodup := by
    rw [freed_free, List.nodup_append]
    refine ⟨h.freed_nodup, List.nodup_singleton b, fun c hc d hd hcd => ?_⟩
    rw [List.mem_singleton.mp hd] at hcd
    exact h.disjoint b hb (hcd ▸ hc)
  live_lt c hc := h.live_lt c (List.mem_of_mem_erase hc)
  freed_lt c hc := by
    rcases List.mem_append.mp hc with hc | hc
    · exact h.freed_lt c hc
    · exact List.mem_singleton.mp hc ▸ h.live_lt b hb
  disjoint c hc hf := by
    rcases List.mem_append.mp hf with hf | hf
    · exact h.disjoint c (List.mem_of_mem_erase hc) hf
    · rw [List.mem_singleton.mp hf] at hc
      exact (h.live_nodup.mem_erase_iff.mp hc).1 rfl

/-- Releasing some of the live blocks, each once, leaves the others and a sound ledger. -/
theorem freeAll_of_perm_append {bs rest : List ℕ} (h : l.Sound) (hbs : l.live.Perm (bs ++ rest)) :
    (l.freeAll bs).Sound ∧ (l.freeAll bs).live.Perm rest := by
  induction bs generalizing l with
  | nil => exact ⟨h, hbs⟩
  | cons b bs ih =>
    have hb : b ∈ l.live := hbs.mem_iff.mpr List.mem_cons_self
    refine ih (h.free hb) ?_
    have := hbs.erase b
    rwa [List.cons_append, List.erase_cons_head] at this

/-- Releasing a list of all live blocks, each once, leaves no live block and a sound ledger. -/
theorem freeAll_of_perm {bs : List ℕ} (h : l.Sound) (hbs : l.live.Perm bs) :
    (l.freeAll bs).Sound ∧ (l.freeAll bs).live = [] := by
  have hbs' : l.live.Perm (bs ++ []) := by rwa [List.append_nil]
  obtain ⟨hsound, hperm⟩ := h.freeAll_of_perm_append hbs'
  exact ⟨hsound, List.perm_nil.mp hperm⟩

end Sound

/-- The ledger `l'` is `l` after the blocks `ids` were handed out, in whatever order. -/
structure Grows (l l' : Ledger) (ids : List ℕ) : Prop where
  freed_eq : l'.freed = l.freed
  live_perm : l'.live.Perm (ids ++ l.live)
  sound : l.Sound → l'.Sound

namespace Grows

variable {l m k : Ledger} {ids jds : List ℕ}

theorem refl (l : Ledger) : Grows l l [] := ⟨rfl, .refl _, id⟩

theorem alloc (l : Ledger) : Grows l l.alloc [l.next] := ⟨rfl, .refl _, Sound.alloc⟩

theorem trans (h : Grows l m ids) (h' : Grows m k jds) : Grows l k (jds ++ ids) where
  freed_eq := h'.freed_eq.trans h.freed_eq
  live_perm := by
    rw [List.append_assoc]
    exact h'.live_perm.trans (h.live_perm.append_left jds)
  sound hl := h'.sound (h.sound hl)

theorem perm {bs bs' : List ℕ} (h : Grows l m ids) (hbs : l.live.Perm bs)
    (hbs' : bs'.Perm (ids ++ bs)) : m.live.Perm bs' :=
  h.live_perm.trans ((hbs.append_left ids).trans hbs'.symm)

end Grows

/-- Between the ledgers `l` and `l'` the blocks `old` were given for the blocks `new`, whatever
other blocks are live. -/
def Trades (l l' : Ledger) (old new : List ℕ) : Prop :=
  ∀ rest, l.Sound → l.live.Perm (old ++ rest) → l'.Sound ∧ l'.live.Perm (new ++ rest)

namespace Trades

variable {l m : Ledger} {old new : List ℕ}

theorem refl (l : Ledger) (old : List ℕ) : Trades l l old old := fun _ hsound hlive =>
  ⟨hsound, hlive⟩

theorem alloc (l : Ledger) : Trades l l.alloc [] [l.next] := fun _ hsound hlive =>
  ⟨hsound.alloc, hlive.cons l.next⟩

theorem freeAll (l : Ledger) (old : List ℕ) : Trades l (l.freeAll old) old [] :=
  fun _ hsound hlive => hsound.freeAll_of_perm_append hlive

theorem of_grows {ids : List ℕ} (h : Grows l m ids) (hnew : new.Perm (ids ++ old)) :
    Trades l m old new := by
  intro rest hsound hlive
  refine ⟨h.sound hsound, h.perm hlive ?_⟩
  rw [← List.append_assoc]
  exact hnew.append_right rest

end Trades

/-! ### Owners of blocks -/

/-- The blocks of a list of owners, as those of one of them and the others. -/
theorem exists_rest_set {α : Type*} {f : α → List ℕ} {l : List α} {i : ℕ} {x : α}
    (hi : l[i]? = some x) : ∃ rest, (l.flatMap f).Perm (f x ++ rest) ∧
      ∀ y, ((l.set i y).flatMap f).Perm (f y ++ rest) := by
  obtain ⟨hlt, hget⟩ := List.getElem?_eq_some_iff.mp hi
  have hmove : ∀ y, ((l.take i ++ y :: l.drop (i + 1)).flatMap f).Perm
      (f y ++ ((l.take i).flatMap f ++ (l.drop (i + 1)).flatMap f)) := by
    intro y
    rw [List.flatMap_append, List.flatMap_cons]
    exact List.perm_append_comm_assoc _ _ _
  refine ⟨(l.take i).flatMap f ++ (l.drop (i + 1)).flatMap f, ?_, fun y => ?_⟩
  · have hsplit : l.take i ++ x :: l.drop (i + 1) = l := by
      rw [← hget, List.getElem_cons_drop hlt, List.take_append_drop]
    have hold := hmove x
    rwa [hsplit] at hold
  · rw [List.set_eq_take_append_cons_drop, if_pos hlt]
    exact hmove y

theorem perm_append_left {bs xs rest : List ℕ} (h : xs.Perm (bs ++ rest)) (as : List ℕ) :
    (as ++ xs).Perm (bs ++ (as ++ rest)) :=
  (h.append_left as).trans (List.perm_append_comm_assoc _ _ _)

theorem perm_append_right {bs xs rest : List ℕ} (h : xs.Perm (bs ++ rest)) (cs : List ℕ) :
    (xs ++ cs).Perm (bs ++ (rest ++ cs)) := by
  rw [← List.append_assoc]
  exact h.append_right cs

end Ledger

end ExKernel
