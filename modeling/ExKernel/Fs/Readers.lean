import ExKernel.Fs.Counter
import ExKernel.Lib.Transition

/-!
# Several readers of a counter

A read takes the value of the counter and increments the counter in two atomic steps, and every
later chunk takes the value of the counter anew. So readers can draw the same value, when one takes
it before the other has counted, and the text of a reader can change between two chunks, when
somebody else counts in between. Where neither happens, every reader obtains the text of a value of
its own.

A run is any interleaving of the atomic steps of the readers. Two fields of the state are not there
in the driver: how many values were drawn, and how many of them were counted.

## Main definitions

* `Fs.Reader`, `Fs.Readers`: a reader, and the counter with all its readers.
* `Fs.Readers.step`: an atomic step of a reader.
* `Fs.Readers.Undisturbed`: the condition on a step.

## Main results

* `Fs.Reader.alone`: the steps of a reader without others are a call of `sfs_read_file`.
* `Fs.Reading.step`: the life of a reader.
* `Fs.readers_draw_distinct_values`: what undisturbed readers obtain.

## References

* `m_modules/fs/sfs.c`, lines 30–56.
-/

namespace ExKernel.Fs

open Decimal Transition

/-! ### The steps -/

/-- Where a reader is in a call: before it, behind `atomic_read`, or behind `atomic_inc`. -/
inductive Phase
  | start
  | loaded (v : Int32)
  | counted (v : Int32)
  deriving DecidableEq

/-- A reader: the position of its file, what it has obtained, where it is in a call, whether a call
has returned zero, and the number of the value that it has drawn. -/
structure Reader where
  fPos : ℤ
  got : List UInt8
  phase : Phase
  finished : Bool
  drawn : Option ℕ
  deriving DecidableEq

/-- A reader that has just opened the file. -/
def Reader.opened : Reader := ⟨0, [], .start, false, none⟩

/-- The counter, its first value, how many values were drawn and counted, and the readers. -/
structure Readers where
  counter : Int32
  first : Int32
  draws : ℕ
  incs : ℕ
  readers : ℕ → Reader

/-- The readers before the first step. -/
def Readers.opened (counter : Int32) : Readers := ⟨counter, counter, 0, 0, fun _ => .opened⟩

/-- The value of the counter after it was incremented `j` times. -/
def valueAt (first : Int32) (j : ℕ) : Int32 := first + Int32.ofNat j

theorem valueAt_succ (first : Int32) (j : ℕ) : valueAt first (j + 1) = valueAt first j + 1 := by
  rw [valueAt, valueAt, Int32.ofNat_add, Int32.add_assoc]
  rfl

theorem valueAt_injective {first : Int32} {j j' : ℕ} (h : j < 2 ^ 32) (h' : j' < 2 ^ 32)
    (heq : valueAt first j = valueAt first j') : j = j' := by
  have hnat : Int32.ofNat j = Int32.ofNat j' := (Int32.add_right_inj first).mp heq
  have hbits : (UInt32.ofNat j).toNat = (UInt32.ofNat j').toNat :=
    congrArg (fun x : Int32 => x.toUInt32.toNat) hnat
  rwa [UInt32.toNat_ofNat_of_lt' h, UInt32.toNat_ofNat_of_lt' h'] at hbits

theorem line_injective : Function.Injective line := fun _ _ h =>
  Int32.toInt_inj.mp (intText_injective (List.append_cancel_right h))

/-- A step of a reader, and the number of bytes that it asks for in the call. -/
structure Move where
  reader : ℕ
  count : ℕ

/-- The end of a call, for the value `v`. -/
def Reader.copied (r : Reader) (v : Int32) (count : ℕ) : Reader :=
  let out := sfsCopy v count count r.fPos
  ⟨out.fPos, r.got ++ out.bytes, .start, decide (out.ret = 0), r.drawn⟩

/-- One reader goes on, and nothing else changes. -/
def Readers.put (w : Readers) (i : ℕ) (r : Reader) : Readers :=
  { w with readers := Function.update w.readers i r }

/-- The next atomic step of a reader. A reader that has come to the end takes no more.

Source: `m_modules/fs/sfs.c`, lines 37–55. -/
def Readers.step (w : Readers) (m : Move) : Option (Unit × Readers) :=
  if (w.readers m.reader).finished then none
  else
    match (w.readers m.reader).phase with
    | .start =>
      -- `v = atomic_read(counter)`
      if 0 < (w.readers m.reader).fPos then
        some ((), w.put m.reader { w.readers m.reader with phase := .loaded w.counter })
      else
        some ((), { w with
          draws := w.draws + 1
          readers := Function.update w.readers m.reader
            { w.readers m.reader with phase := .loaded w.counter, drawn := some w.draws } })
    | .loaded v =>
      -- `--v`, or `atomic_inc(counter)`
      if 0 < (w.readers m.reader).fPos then
        some ((), w.put m.reader ((w.readers m.reader).copied (v - 1) m.count))
      else
        some ((), { w with
          counter := w.counter + 1
          incs := w.incs + 1
          readers := Function.update w.readers m.reader
            { w.readers m.reader with phase := .counted v } })
    | .counted v => some ((), w.put m.reader ((w.readers m.reader).copied v m.count))

/-- **A reader who is alone.** The steps of one call are the call. -/
theorem Reader.alone (w : Readers) (i count : ℕ) (hphase : (w.readers i).phase = .start)
    (hfinished : (w.readers i).finished = false) :
    let out := sfsReadFile w.counter count count (w.readers i).fPos
    ∃ rs u, exec Readers.step w
        (List.replicate (if 0 < (w.readers i).fPos then 2 else 3) ⟨i, count⟩) = some (rs, u) ∧
      u.counter = out.2 ∧ (u.readers i).fPos = out.1.fPos ∧
      (u.readers i).got = (w.readers i).got ++ out.1.bytes ∧ (u.readers i).phase = .start ∧
      ((u.readers i).finished = true ↔ out.1.ret = 0) := by
  by_cases hpos : 0 < (w.readers i).fPos
  · simp [exec, Readers.step, Readers.put, Reader.copied, sfsReadFile, hphase, hfinished, hpos,
      List.replicate_succ]
  · simp [exec, Readers.step, Readers.put, Reader.copied, sfsReadFile, hphase, hfinished, hpos,
      List.replicate_succ]

/-- Every value drawn was counted, and there are values left. -/
def Readers.AllCounted (w : Readers) : Prop := w.draws = w.incs ∧ w.incs < 2 ^ 32

/-- The text that the counter stands for has the same end as the text that the reader has begun. -/
def Readers.SameEnd (w : Readers) (r : Reader) : Prop :=
  ∀ j ∈ r.drawn,
    (line (w.counter - 1)).drop r.fPos.toNat = (line (valueAt w.first j)).drop r.fPos.toNat

/-- What is required of a step: when a value is drawn, the values drawn before were counted, and
when the counter is read for a later chunk, the end of the text has not changed. -/
def Readers.Undisturbed (w : Readers) (m : Move) : Prop :=
  (w.readers m.reader).phase = .start →
    (0 < (w.readers m.reader).fPos → w.SameEnd (w.readers m.reader)) ∧
      (¬ 0 < (w.readers m.reader).fPos → w.AllCounted)

instance (w : Readers) : Decidable w.AllCounted := inferInstanceAs (Decidable (_ ∧ _))

instance (w : Readers) (r : Reader) : Decidable (w.SameEnd r) :=
  inferInstanceAs (Decidable (∀ j ∈ r.drawn, _ = _))

instance (w : Readers) (m : Move) : Decidable (w.Undisturbed m) :=
  inferInstanceAs (Decidable (_ → (_ → _) ∧ (_ → _)))

/-- Every reader that has come to the end has the text of a value that the counter had, and no two
of them have the same. -/
structure Readers.Whole (w : Readers) : Prop where
  value : ∀ i, (w.readers i).finished = true →
    ∃ j ≤ w.incs, (w.readers i).got = line (valueAt w.first j)
  distinct : ∀ i i', (w.readers i).finished = true → (w.readers i').finished = true → i ≠ i' →
    (w.readers i).got ≠ (w.readers i').got

/-! ### The life of a reader -/

/-- The states that an undisturbed reader goes through, when the counter was incremented `incs`
times. -/
inductive Reading (first : Int32) (incs : ℕ) : Reader → Prop
  | opened : Reading first incs .opened
  | drawn (j : ℕ) (hj : j = incs) :
      Reading first incs ⟨0, [], .loaded (valueAt first j), false, some j⟩
  | counted (j : ℕ) (hj : j < incs) :
      Reading first incs ⟨0, [], .counted (valueAt first j), false, some j⟩
  | between (j p : ℕ) (hj : j < incs) (hp : 0 < p) (hle : p ≤ (line (valueAt first j)).length) :
      Reading first incs ⟨p, (line (valueAt first j)).take p, .start, false, some j⟩
  | loaded (j p : ℕ) (v : Int32) (hj : j < incs) (hp : 0 < p)
      (hle : p ≤ (line (valueAt first j)).length)
      (hend : (line (v - 1)).drop p = (line (valueAt first j)).drop p) :
      Reading first incs ⟨p, (line (valueAt first j)).take p, .loaded v, false, some j⟩
  | finished (j p : ℕ) (hj : j < incs) :
      Reading first incs ⟨p, line (valueAt first j), .start, true, some j⟩

section Reading

variable {first : Int32} {incs : ℕ} {r : Reader}

theorem Reading.succ (h : Reading first incs r) (hne : r.drawn ≠ some incs) :
    Reading first (incs + 1) r := by
  cases h with
  | opened => exact .opened
  | drawn j hj => exact absurd (congrArg some hj) hne
  | counted j hj => exact .counted j (by omega)
  | between j p hj hp hle => exact .between j p (by omega) hp hle
  | loaded j p v hj hp hle hend => exact .loaded j p v (by omega) hp hle hend
  | finished j p hj => exact .finished j p (by omega)

theorem sfsCopy_congr {v x : Int32} {p : ℕ} (hend : (line v).drop p = (line x).drop p)
    (count : ℕ) :
    (sfsCopy v count count p).bytes = ((line x).drop p).take count ∧
      (sfsCopy v count count p).ret = (((line x).drop p).take count).length ∧
      (sfsCopy v count count p).fPos = (p + (((line x).drop p).take count).length : ℕ) := by
  rcases le_or_gt p (line v).length with hv | hv
  · rw [sfsCopy_spec v le_rfl hv, hend]
    exact ⟨rfl, rfl, rfl⟩
  · -- The text of `v` is too short, so that nothing of the other one is left, either.
    have hnil : (line x).drop p = [] := by
      rw [← hend]
      exact List.drop_of_length_le hv.le
    rw [sfsCopy_of_gt v count count (by omega), hnil]
    simp

theorem Reading.copied {j p : ℕ} {v : Int32} {phase : Phase} (hj : j < incs)
    (hle : p ≤ (line (valueAt first j)).length)
    (hend : (line v).drop p = (line (valueAt first j)).drop p) {count : ℕ} (hcount : 1 ≤ count) :
    Reading first incs
      (Reader.copied ⟨p, (line (valueAt first j)).take p, phase, false, some j⟩ v count) := by
  obtain ⟨hbytes, hret, hpos⟩ := sfsCopy_congr hend count
  have hlen := Pieces.length_eq (line (valueAt first j)) p count
  simp only [Reader.copied, hbytes, hret, hpos]
  rcases hle.eq_or_lt with heq | hlt
  · rw [heq, List.drop_length, List.take_nil, List.append_nil, List.take_length]
    simpa using Reading.finished j _ hj
  · have hpos' : ¬ ((((line (valueAt first j)).drop p).take count).length : ℤ) = 0 := by omega
    rw [Pieces.take_append, decide_eq_false hpos']
    exact .between j _ hj (by omega) (by omega)

end Reading

/-! ### All readers -/

/-- What undisturbed readers keep. -/
structure Readers.Inv (w : Readers) : Prop where
  counter_eq : w.counter = valueAt w.first w.incs
  readings : ∀ i, Reading w.first w.incs (w.readers i)
  lt_draws : ∀ i, ∀ j ∈ (w.readers i).drawn, j < w.draws ∧ j < 2 ^ 32
  distinct : ∀ i i', ∀ j ∈ (w.readers i).drawn, j ∈ (w.readers i').drawn → i = i'

namespace Readers

variable {w w' : Readers}

theorem inv_opened (counter : Int32) : (opened counter).Inv where
  counter_eq := by simp [opened, valueAt]
  readings _ := .opened
  lt_draws _ j hj := by simp [opened, Reader.opened] at hj
  distinct _ _ j hj := by simp [opened, Reader.opened] at hj

theorem Inv.update (h : w.Inv) {i : ℕ} {r : Reader}
    (hreaders : w'.readers = Function.update w.readers i r) (hfirst : w'.first = w.first)
    (hcounter : w'.counter = valueAt w.first w'.incs) (hreading : Reading w.first w'.incs r)
    (hothers : ∀ i' ≠ i, Reading w.first w'.incs (w.readers i')) (hdraws : w.draws ≤ w'.draws)
    (hdrawn : ∀ j ∈ r.drawn, j < w'.draws ∧ j < 2 ^ 32 ∧ ∀ i' ≠ i, j ∉ (w.readers i').drawn) :
    w'.Inv := by
  have hself : w'.readers i = r := by rw [hreaders, Function.update_self]
  have hother : ∀ i' ≠ i, w'.readers i' = w.readers i' := fun i' hi' => by
    rw [hreaders, Function.update_of_ne hi']
  refine ⟨by rw [hfirst, hcounter], fun i' => ?_, fun i' j hj => ?_, fun i' i'' j hj hj' => ?_⟩
  · rw [hfirst]
    by_cases hi' : i' = i
    · rw [hi', hself]
      exact hreading
    · rw [hother i' hi']
      exact hothers i' hi'
  · by_cases hi' : i' = i
    · rw [hi', hself] at hj
      exact ⟨(hdrawn j hj).1, (hdrawn j hj).2.1⟩
    · rw [hother i' hi'] at hj
      obtain ⟨hlt, hlt'⟩ := h.lt_draws i' j hj
      exact ⟨by omega, hlt'⟩
  · by_cases hi' : i' = i <;> by_cases hi'' : i'' = i
    · rw [hi', hi'']
    · rw [hi', hself] at hj
      rw [hother i'' hi''] at hj'
      exact absurd hj' ((hdrawn j hj).2.2 i'' hi'')
    · rw [hother i' hi'] at hj
      rw [hi'', hself] at hj'
      exact absurd hj ((hdrawn j hj').2.2 i' hi')
    · rw [hother i' hi'] at hj
      rw [hother i'' hi''] at hj'
      exact h.distinct i' i'' j hj hj'

theorem Inv.put (h : w.Inv) {i : ℕ} {r : Reader} (hdrawn : r.drawn = (w.readers i).drawn)
    (hreading : Reading w.first w.incs r) : (w.put i r).Inv := by
  refine h.update rfl rfl h.counter_eq hreading (fun i' _ => h.readings i') le_rfl fun j hj => ?_
  rw [hdrawn] at hj
  obtain ⟨hlt, hlt'⟩ := h.lt_draws i j hj
  exact ⟨hlt, hlt', fun i' hi' hj' => hi' (h.distinct i' i j hj' hj)⟩

/-- **The step lemma.** -/
theorem Inv.step (h : w.Inv) {m : Move} (hcount : 1 ≤ m.count) (hguard : w.Undisturbed m)
    {r : Unit} (hstep : w.step m = some (r, w')) : w'.Inv := by
  have hreading := h.readings m.reader
  rw [Undisturbed] at hguard
  rw [Readers.step] at hstep
  generalize hreader : w.readers m.reader = reader at hreading hstep hguard
  cases hreading with
  | opened =>
    obtain ⟨hdraws, hlt⟩ := (hguard rfl).2 (lt_irrefl 0)
    cases hstep
    refine h.update rfl rfl h.counter_eq ?_ (fun i' _ => h.readings i') (Nat.le_succ _) ?_
    · rw [h.counter_eq, hdraws]
      exact .drawn w.incs rfl
    · intro j hj
      obtain rfl : w.draws = j := Option.some.inj hj
      refine ⟨Nat.lt_succ_self _, hdraws ▸ hlt, fun i' _ hj' => ?_⟩
      exact absurd (h.lt_draws i' _ hj').1 (lt_irrefl _)
  | drawn j hj =>
    cases hstep
    have hdrawn : (w.readers m.reader).drawn = some w.incs := by rw [hreader, hj]
    have hothers : ∀ i' ≠ m.reader, w.incs ∉ (w.readers i').drawn := fun i' hi' hj' =>
      hi' (h.distinct i' m.reader w.incs hj' hdrawn)
    refine h.update rfl rfl ?_ (.counted j (Nat.lt_succ_of_le hj.le))
      (fun i' hi' => (h.readings i').succ (hothers i' hi')) le_rfl fun j' hj' => ?_
    · rw [h.counter_eq, valueAt_succ]
    · obtain rfl : j = j' := Option.some.inj hj'
      obtain ⟨hlt, hlt'⟩ := h.lt_draws m.reader w.incs hdrawn
      exact ⟨hj ▸ hlt, hj ▸ hlt', hj ▸ hothers⟩
  | counted j hj =>
    cases hstep
    refine h.put (by rw [hreader]; rfl) ?_
    exact Reading.copied (p := 0) hj (Nat.zero_le _) rfl hcount
  | between j p hj hp hle =>
    have hsame := (hguard rfl).1 (by simpa using hp) j rfl
    rw [Int.toNat_natCast] at hsame
    simp only [Bool.false_eq_true, if_false, if_pos (show 0 < (p : ℤ) by omega)] at hstep
    cases hstep
    exact h.put (by rw [hreader]) (.loaded j p _ hj hp hle hsame)
  | loaded j p v hj hp hle hend =>
    simp only [Bool.false_eq_true, if_false, if_pos (show 0 < (p : ℤ) by omega)] at hstep
    cases hstep
    refine h.put (by rw [hreader]; rfl) ?_
    exact Reading.copied hj hle hend hcount
  | finished j p hj => simp at hstep

theorem Inv.whole (h : w.Inv) : w.Whole := by
  have hend : ∀ i, (w.readers i).finished = true → ∃ j < w.incs,
      j ∈ (w.readers i).drawn ∧ (w.readers i).got = line (valueAt w.first j) := by
    intro i hfinished
    have hreading := h.readings i
    generalize w.readers i = r at hfinished hreading
    cases hreading with
    | finished j p hj => exact ⟨j, hj, rfl, rfl⟩
    | _ => cases hfinished
  refine ⟨fun i hi => ?_, fun i i' hi hi' hne heq => ?_⟩
  · obtain ⟨j, hj, -, hgot⟩ := hend i hi
    exact ⟨j, hj.le, hgot⟩
  · obtain ⟨j, -, hdrawn, hgot⟩ := hend i hi
    obtain ⟨j', -, hdrawn', hgot'⟩ := hend i' hi'
    obtain rfl : j = j' := valueAt_injective (h.lt_draws i j hdrawn).2 (h.lt_draws i' j' hdrawn').2
      (line_injective (hgot.symm.trans (heq.trans hgot')))
    exact hne (h.distinct i i' j hdrawn hdrawn')

end Readers

/-- **Undisturbed readers** obtain texts of values that the counter had, and no two of them the
same. In every state of every interleaving of any number of readers, in chunks of any size, such
that no reader draws a value while another has drawn one and not counted it, fewer than `2 ^ 32`
values are drawn before, and the counter has not changed the rest of the text when it is read again.

Source: `m_modules/fs/sfs.c`, lines 30–56. -/
theorem readers_draw_distinct_values (counter : Int32) (moves : List Move)
    (hcount : ∀ m ∈ moves, 1 ≤ m.count)
    (hguard : Guarded Readers.step Readers.Undisturbed (.opened counter) moves) :
    Always Readers.step Readers.Whole (.opened counter) moves := by
  have hboth := (guarded_of_forall_mem hcount (Readers.opened counter)).and hguard
  refine (always_of_invariant Readers.Inv ?_ (Readers.inv_opened counter) hboth).mono fun w hw =>
    hw.whole
  intro w m r w' hw hm hstep
  exact hw.step hm.1 hm.2 hstep

/-- Two readers, one after the other. -/
theorem readers_draw_distinct_values_in_turn :
    Always Readers.step Readers.Whole (.opened 9)
      [⟨0, 1⟩, ⟨0, 1⟩, ⟨0, 1⟩, ⟨0, 8⟩, ⟨0, 8⟩, ⟨0, 8⟩, ⟨0, 8⟩, ⟨1, 8⟩, ⟨1, 8⟩, ⟨1, 8⟩] :=
  readers_draw_distinct_values 9 _ (by decide) (by decide)

/-- Two readers that draw before either counts obtain the same value; and a reader that another one
overtakes between two chunks obtains a text that is the text of no value the counter had. -/
theorem readers_disturbed :
    (∃ rs u, exec Readers.step (.opened 0) [⟨0, 8⟩, ⟨1, 8⟩, ⟨0, 8⟩, ⟨1, 8⟩, ⟨0, 8⟩, ⟨1, 8⟩, ⟨0, 8⟩,
        ⟨1, 8⟩, ⟨0, 8⟩, ⟨1, 8⟩] = some (rs, u) ∧ ¬ u.Whole) ∧
      ∃ rs u, exec Readers.step (.opened 9) [⟨0, 1⟩, ⟨0, 1⟩, ⟨0, 1⟩, ⟨1, 8⟩, ⟨1, 8⟩, ⟨0, 8⟩, ⟨0, 8⟩,
        ⟨0, 8⟩, ⟨0, 8⟩] = some (rs, u) ∧ (u.readers 0).got = line 90 ∧ ¬ u.Whole := by
  refine ⟨⟨_, _, rfl, fun h => ?_⟩, _, _, rfl, by decide, fun h => ?_⟩
  · exact h.distinct 0 1 (by decide) (by decide) (by decide) (by decide)
  · obtain ⟨j, hj, hgot⟩ := h.value 0 (by decide)
    have hno : ∀ j ≤ 2, line 90 ≠ line (valueAt 9 j) := by decide
    exact hno j hj hgot

end ExKernel.Fs
