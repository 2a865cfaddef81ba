import ExKernel.Lib.Pieces
import ExKernel.Proc.ListProc

/-!
# Listing records

A file of the proc file system is read in several calls. Each call takes the lock, goes to the
record at the saved index, shows records from there on and saves the index behind the last of them.
Between two calls the lock is free, and a record may be added. It is added at the head of the list,
so that all other records move by one index, and the record that was shown last is at the saved
index again.

What the file system layer does is taken as a part of the model: a call shows at least one record if
there is one at the saved index, and otherwise it is at the end of the file, which ends the listing.

## Main definitions

* `Proc.seqStart`, `Proc.seqNext`, `Proc.seqShow`: the operations of the driver.
* `Proc.Listing.step`: the calls of a listing, and additions between them.

## Main results

* `Proc.listing_of_reads`: a listing without additions shows what a single call would show.
* `Proc.mem_shown_of_pending`: what is behind the saved index will be shown.
* `Proc.listed_once_iff`: when every record is listed once.

## References

* `m_modules/proc/list_proc.c`, lines 16–34 and 59–106.
-/

namespace ExKernel.Proc

open Decimal Transition

/-! ### The driver -/

/-- A record in memory: its identity, and its contents. -/
structure Entry where
  id : ℕ
  info : MInfo
  deriving DecidableEq

/-- `seq_start`, with `seq_list_start(&m_list, *pos)`. The lock is taken until `seq_stop`, so that
the list does not change during a call.

Source: `m_modules/proc/list_proc.c`, lines 70–77. -/
def seqStart (mList : List Entry) (pos : ℕ) : Option Entry := mList[pos]?

/-- `seq_next`, with `seq_list_next(v, &m_list, pos)`, for the record at the index `pos`: the next
record, and its index.

Source: `m_modules/proc/list_proc.c`, lines 79–85. -/
def seqNext (mList : List Entry) (pos : ℕ) : Option Entry × ℕ := (mList[pos + 1]?, pos + 1)

/-- `seq_show`: the text `"%d + %d = %d\\n"`.

Source: `m_modules/proc/list_proc.c`, lines 93–99. -/
def seqShow (info : MInfo) : List UInt8 :=
  intText info.a.toInt ++ [32, 43, 32] ++ intText info.b.toInt ++ [32, 61, 32] ++
    intText (info.a + info.b).toInt ++ [newline]

/-- `simple_show`, which is used instead of the others where the whole file is read in one call.

Source: `m_modules/proc/list_proc.c`, lines 59–68. -/
def simpleShow (mList : List Entry) : List UInt8 := mList.flatMap fun e => seqShow e.info

/-- The records that a call shows, at most `n` of them, from the record `v` at an index on, and the
index behind them. -/
def showLoop (mList : List Entry) : ℕ → Option Entry → ℕ → List Entry × ℕ
  | 0, _, pos => ([], pos)
  | _ + 1, none, pos => ([], pos)
  | n + 1, some v, pos =>
    let next := seqNext mList pos
    let out := showLoop mList n next.1 next.2
    (v :: out.1, out.2)

/-- A call that has room for `n` records. -/
def readCall (mList : List Entry) (n pos : ℕ) : List Entry × ℕ :=
  showLoop mList n (seqStart mList pos) pos

/-! ### The listing -/

/-- The list, the identity of the next record, the saved index, and whether the listing has come to
the end of the file. Records have different identities, as newer ones have larger ones. -/
structure Listing where
  mList : List Entry
  next : ℕ
  index : ℕ
  ended : Bool
  ids : (next :: mList.map Entry.id).IsChain (· > ·)

theorem Listing.nodup (s : Listing) : s.mList.Nodup := by
  have hpairwise := List.pairwise_cons.mp (List.isChain_iff_pairwise.mp s.ids)
  exact List.Nodup.of_map Entry.id (hpairwise.2.imp Nat.ne_of_gt)

/-- The list with a new record at its head. -/
def Listing.push (s : Listing) (info : MInfo) : Listing :=
  { s with
    mList := ⟨s.next, info⟩ :: s.mList
    next := s.next + 1
    ids := .cons_cons (Nat.lt_succ_self s.next) s.ids }

/-- A read call, with room for `more` records after the first, or a record that is added. -/
inductive Event
  | read (more : ℕ)
  | add (info : MInfo)

/-- What happens between the beginning and the end of a listing, and which records are shown. -/
def Listing.step (s : Listing) (e : Event) : Option (List Entry × Listing) :=
  if s.ended then none
  else
    match e with
    | .read more =>
      let out := readCall s.mList (more + 1) s.index
      some (out.1, { s with index := out.2, ended := out.1.isEmpty })
    | .add info => some ([], s.push info)

theorem step_add_infos (s : Listing) (info : MInfo) (h : s.ended = false) :
    ∃ t, s.step (.add info) = some ([], t) ∧
      t.mList.map Entry.info = (addData (s.mList.map Entry.info) info.a info.b true).2 :=
  ⟨_, by rw [Listing.step, h]; rfl, rfl⟩

/-- The records shown in a listing. -/
def shown (rs : List (List Entry)) : List Entry := rs.flatten

/-! ### Single calls -/

theorem showLoop_eq (mList : List Entry) (n pos : ℕ) :
    showLoop mList n mList[pos]? pos =
      ((mList.drop pos).take n, pos + ((mList.drop pos).take n).length) := by
  induction n generalizing pos with
  | zero => simp [showLoop]
  | succ n ih =>
    cases hv : mList[pos]? with
    | none => simp [showLoop, List.drop_of_length_le (List.getElem?_eq_none_iff.mp hv)]
    | some v =>
      obtain ⟨hlt, hget⟩ := List.getElem?_eq_some_iff.mp hv
      rw [showLoop, seqNext, ih, List.drop_eq_getElem_cons hlt, hget, List.take_succ_cons,
        List.length_cons]
      simp only [Prod.mk.injEq, true_and]
      omega

theorem readCall_eq (mList : List Entry) (n pos : ℕ) :
    readCall mList n pos = ((mList.drop pos).take n, pos + ((mList.drop pos).take n).length) :=
  showLoop_eq mList n pos

/-- A read call, and nothing that is added. -/
def Event.IsRead : Event → Prop
  | .read _ => True
  | .add _ => False

instance (e : Event) : Decidable e.IsRead :=
  match e with
  | .read _ => .isTrue trivial
  | .add _ => .isFalse not_false

section Step

variable {s t : Listing} {r : List Entry}

theorem Listing.ended_of_step {e : Event} (h : s.step e = some (r, t)) : s.ended = false := by
  rw [Listing.step.eq_def] at h
  split_ifs at h with hended
  exact Bool.eq_false_iff.mpr hended

theorem Listing.step_read {more : ℕ} (h : s.step (.read more) = some (r, t)) :
    r = (s.mList.drop s.index).take (more + 1) ∧ t.mList = s.mList ∧
      t.index = s.index + r.length ∧ (t.ended = true ↔ s.mList.length ≤ s.index) := by
  have hended := Listing.ended_of_step h
  rw [Listing.step, if_neg (by simp [hended])] at h
  simp only [readCall_eq] at h
  cases h
  refine ⟨rfl, rfl, rfl, ?_⟩
  rw [List.isEmpty_iff, Pieces.eq_nil_iff]

/-- What a read call shows was behind the saved index, and the rest still is. -/
theorem Listing.append_pending {more : ℕ} (h : s.step (.read more) = some (r, t)) :
    r ++ t.mList.drop t.index = s.mList.drop s.index := by
  obtain ⟨rfl, hlist, hindex, -⟩ := Listing.step_read h
  rw [hlist, hindex, Pieces.append_drop]

theorem Listing.take_append {more : ℕ} (h : s.step (.read more) = some (r, t)) :
    s.mList.take s.index ++ r = t.mList.take t.index := by
  obtain ⟨rfl, hlist, hindex, -⟩ := Listing.step_read h
  rw [hlist, hindex, Pieces.take_append]

theorem Listing.step_add {info : MInfo} (h : s.step (.add info) = some (r, t)) :
    r = [] ∧ t.mList = ⟨s.next, info⟩ :: s.mList ∧ t.index = s.index ∧ t.ended = false := by
  have hended := Listing.ended_of_step h
  rw [Listing.step, if_neg (by simp [hended])] at h
  cases h
  exact ⟨rfl, rfl, rfl, hended⟩

end Step

/-! ### Whole listings -/

section Run

variable {es : List Event} {s u : Listing} {rs : List (List Entry)}

theorem eq_nil_of_ended (h : s.ended = true) (hrun : exec Listing.step s es = some (rs, u)) :
    es = [] := by
  cases es with
  | nil => rfl
  | cons e es =>
    obtain ⟨r, t, rs', hstep, -⟩ := exec_cons_eq_some.mp hrun
    rw [Listing.ended_of_step hstep] at h
    cases h

theorem not_ended_of_nil (hs : s.ended = false) (hrun : exec Listing.step s [] = some (rs, u)) :
    u.ended = false := by
  cases hrun
  exact hs

/-- **Without additions**, a listing shows the rest of the list, in order. -/
theorem shown_of_reads (hreads : ∀ e ∈ es, e.IsRead) (hs : s.ended = false)
    (hrun : exec Listing.step s es = some (rs, u)) (hu : u.ended = true) :
    shown rs = s.mList.drop s.index := by
  induction es generalizing s rs with
  | nil =>
    rw [not_ended_of_nil hs hrun] at hu
    cases hu
  | cons e es ih =>
    obtain ⟨r, t, rs, hstep, hrest, rfl⟩ := exec_cons_eq_some.mp hrun
    cases e with
    | add info => exact absurd (hreads _ List.mem_cons_self) not_false
    | read more =>
      rw [← Listing.append_pending hstep, shown, List.flatten_cons]
      cases ht : t.ended with
      | true =>
        obtain ⟨-, hlist, hindex, hended⟩ := Listing.step_read hstep
        obtain rfl := eq_nil_of_ended ht hrest
        cases hrest
        have hend := hended.mp ht
        rw [List.drop_of_length_le (by rw [hlist]; omega), List.flatten_nil]
      | false =>
        have htail := ih (fun e he => hreads e (List.mem_cons_of_mem _ he)) ht hrest
        rw [← htail, shown]

/-- What is behind the saved index will be shown, whatever is added. -/
theorem mem_shown_of_pending {y : Entry} (hy : y ∈ s.mList.drop s.index) (hs : s.ended = false)
    (hrun : exec Listing.step s es = some (rs, u)) (hu : u.ended = true) : y ∈ shown rs := by
  induction es generalizing s rs with
  | nil =>
    rw [not_ended_of_nil hs hrun] at hu
    cases hu
  | cons e es ih =>
    obtain ⟨r, t, rs, hstep, hrest, rfl⟩ := exec_cons_eq_some.mp hrun
    rw [shown, List.flatten_cons, List.mem_append]
    cases e with
    | add info =>
      obtain ⟨-, hlist, hindex, hended⟩ := Listing.step_add hstep
      refine Or.inr (ih ?_ hended hrest)
      -- The list has grown in front, so that more of it is behind the index.
      rw [hlist, hindex]
      exact (List.drop_sublist_drop_left _ (Nat.le_succ s.index)).mem (by simpa using hy)
    | read more =>
      rw [← Listing.append_pending hstep, List.mem_append] at hy
      rcases hy with hy | hy
      · exact Or.inl hy
      · refine Or.inr (ih hy (Bool.eq_false_iff.mpr fun ht => ?_) hrest)
        obtain ⟨-, hlist, hindex, hended⟩ := Listing.step_read hstep
        have hend := hended.mp ht
        rw [List.drop_of_length_le (by rw [hlist]; omega)] at hy
        cases hy

/-- **With an addition**, a record that was shown is shown again. -/
theorem exists_shown_twice (hadd : ¬ ∀ e ∈ es, e.IsRead) (hpos : 0 < s.index)
    (hle : s.index ≤ s.mList.length) (hrun : exec Listing.step s es = some (rs, u))
    (hu : u.ended = true) :
    ∃ y ∈ s.mList, 2 ≤ (s.mList.take s.index).count y + (shown rs).count y := by
  induction es generalizing s rs with
  | nil => exact absurd (by simp) hadd
  | cons e es ih =>
    obtain ⟨r, t, rs, hstep, hrest, rfl⟩ := exec_cons_eq_some.mp hrun
    cases e with
    | add info =>
      obtain ⟨rfl, hlist, hindex, hended⟩ := Listing.step_add hstep
      -- The record before the index, which has been shown, is at the index now.
      obtain ⟨i, hi⟩ := Nat.exists_eq_add_one.mpr hpos
      rw [hi] at hle
      have hbefore : s.mList[i] ∈ s.mList.take (i + 1) :=
        List.mem_take_iff_getElem.mpr ⟨i, by omega, rfl⟩
      have hpending : s.mList[i] ∈ t.mList.drop t.index := by
        rw [hlist, hindex, hi, List.drop_succ_cons, List.drop_eq_getElem_cons hle]
        exact List.mem_cons_self
      have hagain : s.mList[i] ∈ shown rs := mem_shown_of_pending hpending hended hrest hu
      refine ⟨s.mList[i], List.getElem_mem hle, ?_⟩
      have hone := List.count_pos_iff.mpr hbefore
      have htwo := List.count_pos_iff.mpr hagain
      rw [hi, shown, List.flatten_cons, List.nil_append]
      exact Nat.add_le_add hone htwo
    | read more =>
      obtain ⟨hr, hlist, hindex, hended⟩ := Listing.step_read hstep
      have hrest' : ¬ ∀ e ∈ es, e.IsRead := fun h =>
        hadd (List.forall_mem_cons.mpr ⟨trivial, h⟩)
      have hlen := Pieces.length_eq s.mList s.index (more + 1)
      rw [← hr] at hlen
      obtain ⟨y, hy, htwice⟩ := ih hrest' (by omega) (by rw [hlist]; omega) hrest
      rw [← Listing.take_append hstep, List.count_append] at htwice
      refine ⟨y, hlist ▸ hy, ?_⟩
      rw [shown, List.flatten_cons, List.count_append]
      exact htwice.trans_eq (Nat.add_assoc _ _ _)

end Run

/-- A listing without additions shows what a single call would show. -/
theorem listing_of_reads {s u : Listing} {es : List Event} {rs : List (List Entry)}
    (hindex : s.index = 0) (hs : s.ended = false) (hreads : ∀ e ∈ es, e.IsRead)
    (hrun : exec Listing.step s es = some (rs, u)) (hu : u.ended = true) :
    (shown rs).flatMap (fun e => seqShow e.info) = simpleShow s.mList := by
  rw [shown_of_reads hreads hs hrun hu, hindex, List.drop_zero, simpleShow]

/-- **When every record is listed once.** For every list and every complete listing, from a first
read call to one that is at the end of the file, with any additions between the calls: every record
that is in the list at the first call (no record is ever removed) is shown once exactly if nothing
is added between the first call and the last.

Source: `m_modules/proc/list_proc.c`, lines 16–34 and 70–106. -/
theorem listed_once_iff (s u : Listing) (more : ℕ) (es : List Event) (rs : List (List Entry))
    (hindex : s.index = 0)
    (hrun : exec Listing.step s (.read more :: es) = some (rs, u)) (hu : u.ended = true) :
    (∀ e ∈ s.mList, (shown rs).count e = 1) ↔ ∀ e ∈ es, e.IsRead := by
  have hcons := exec_cons_eq_some.mp hrun
  obtain ⟨r, t, rs', hstep, hrest, rfl⟩ := hcons
  constructor
  · intro honce
    by_contra hadd
    obtain ⟨hr, hlist, htindex, hended⟩ := Listing.step_read hstep
    have hlen := Pieces.length_eq s.mList s.index (more + 1)
    rw [← hr] at hlen
    have hne : s.mList.length ≠ 0 := fun hzero => by
      obtain rfl := eq_nil_of_ended (hended.mpr (by omega)) hrest
      exact hadd (by simp)
    obtain ⟨y, hy, htwice⟩ := exists_shown_twice hadd (by omega) (by rw [hlist]; omega) hrest hu
    rw [← Listing.take_append hstep, hindex, List.take_zero, List.nil_append] at htwice
    have htotal := honce y (hlist ▸ hy)
    rw [shown, List.flatten_cons, List.count_append] at htotal
    exact absurd (htwice.trans_eq htotal) (by decide)
  · intro hreads e he
    have hall : ∀ e ∈ Event.read more :: es, e.IsRead := List.forall_mem_cons.mpr ⟨trivial, hreads⟩
    rw [shown_of_reads hall (Listing.ended_of_step hstep) hrun hu, hindex, List.drop_zero]
    exact List.count_eq_one_of_mem s.nodup he

/-- The two sample records, at the beginning of a listing. -/
def Listing.sample : Listing := ⟨[⟨1, ⟨30, 40⟩⟩, ⟨0, ⟨10, 20⟩⟩], 2, 0, false, by decide⟩

/-- The records are listed once by three calls. -/
theorem listed_once_by_three_calls :
    ∃ rs u, exec Listing.step .sample [.read 0, .read 0, .read 0] = some (rs, u) ∧
      ∀ e ∈ Listing.sample.mList, (shown rs).count e = 1 :=
  ⟨_, _, rfl, (listed_once_iff .sample _ 0 [.read 0, .read 0] _ rfl rfl rfl).mpr (by decide)⟩

/-- A record that is added behind the back of a listing, after a call that shows one record: that
record is shown again, before the one that follows it. -/
theorem record_listed_twice :
    ∃ rs u, exec Listing.step .sample [.read 0, .add ⟨50, 60⟩, .read 0, .read 0, .read 0] =
        some (rs, u) ∧ u.ended = true ∧
      (shown rs).map Entry.info = [⟨30, 40⟩, ⟨30, 40⟩, ⟨10, 20⟩] ∧
      ¬ ∀ e ∈ Listing.sample.mList, (shown rs).count e = 1 :=
  ⟨_, _, rfl, rfl, by decide, by decide⟩

end ExKernel.Proc
