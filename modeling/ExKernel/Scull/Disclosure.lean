import ExKernel.Scull.Geometry
import ExKernel.Scull.Twin

/-!
# What reads disclose

`scull_write` does not clear a quantum that it allocates. The bytes of a fresh quantum that are not
overwritten are what the allocator left in them, and a read delivers them as soon as they are before
the end of the data: because the write itself began behind them, or because a later write moved the
end.

A system is run together with a log of what writes have stored at each position since the device was
emptied. A write closes the gaps if it leaves no byte before the end of the data, in a quantum that
there is, at which nothing is stored. If all writes do, every byte that a read delivers is the one
that was stored last at its position, and no answer depends on what fresh quanta contain.

## Main definitions

* `Scull.Logged`, `Scull.Logged.step`: a system with the log of what was stored.
* `Scull.Ordinary`: the calls that are considered.
* `Scull.LeavesNoGap`: a write closes the gaps.
* `Scull.Clean`: every byte that a read can deliver was stored.
* `Scull.SameButFill`: calls that differ in what fresh quanta contain.

## Main results

* `Scull.Faithful.step`: what is logged is what is in the quanta, and when a step leaves all clean.
* `Scull.Twins.step`: systems with the same log answer alike.
* `Scull.no_disclosure`: over whole runs.
* `Scull.fresh_quantum_disclosed`: a run that discloses what a fresh quantum contains.

## References

* `ldd/scull/main.c`, lines 294–389 and 524–548.
-/

namespace ExKernel.Scull

open Transition

/-- A system, and the byte that was stored last at each position since the device was emptied. -/
structure Logged where
  sys : ScullSys
  stored : ℕ → Option UInt8

namespace Logged

/-- The module as it is loaded: nothing is stored. -/
def load (params : Params) : Logged := ⟨.load params, fun _ => none⟩

/-- The position of a file. -/
def pos (a : Logged) (file : ℕ) : ℕ := (a.sys.files file).toNat

/-- The number of bytes that a write copies: up to the end of the quantum. -/
def span (a : Logged) (file count : ℕ) : ℕ :=
  min count (a.sys.dev.q - a.pos file % a.sys.dev.q)

/-- What is stored after a call that returned `r`: an open for writing only empties the device, and
a write that comes to its copy stores what the copy moves. -/
def log (a : Logged) (r : Answer) : ScullOp → ℕ → Option UInt8
  | .scullOpen _ .wronly false => fun _ => none
  | .scullWrite file count src false _ =>
    if r.ret = -ENOMEM then a.stored
    else fun x => (segmentAt (a.pos file) (src.copied (a.span file count)) x).or (a.stored x)
  | _ => a.stored

/-- One call, with the log. -/
def step (a : Logged) (op : ScullOp) : Option (Answer × Logged) :=
  (a.sys.step op).map fun out => (out.1, ⟨out.2, a.log out.1 op⟩)

theorem step_eq_some {a b : Logged} {op : ScullOp} {r : Answer} :
    a.step op = some (r, b) ↔ a.sys.step op = some (r, b.sys) ∧ b.stored = a.log r op := by
  constructor
  · intro h
    obtain ⟨out, hout, heq⟩ := Option.map_eq_some_iff.mp h
    cases heq
    exact ⟨hout, rfl⟩
  · rintro ⟨hst, hlog⟩
    rw [step, hst, Option.map_some, ← hlog]

theorem exec_sys {a b : Logged} {ops : List ScullOp} {answers : List Answer}
    (h : exec Logged.step a ops = some (answers, b)) :
    exec ScullSys.step a.sys ops = some (answers, b.sys) := by
  induction ops generalizing a answers with
  | nil =>
    cases h
    rfl
  | cons op ops ih =>
    obtain ⟨r, c, rs, hst, hrest, rfl⟩ := exec_cons_eq_some.mp h
    exact exec_cons_eq_some.mpr ⟨r, c.sys, rs, (step_eq_some.mp hst).1, ih hrest, rfl⟩

end Logged

/-- Opens, seeks, and reads and writes at positions whose quantum set has a number that is an `int`;
the end of a read is a `loff_t`. -/
def Ordinary (a : Logged) : ScullOp → Prop
  | .scullRead file count _ _ _ =>
    ItemFits a.sys.dev (a.sys.files file) ∧ a.sys.files file + count < 2 ^ 63
  | .scullWrite file .. => ItemFits a.sys.dev (a.sys.files file)
  | .scullIoctl .. => False
  | _ => True

theorem Ordinary.admissible {a : Logged} {op : ScullOp} (h : Ordinary a op) :
    Admissible a.sys op := by
  cases op with
  | scullRead => exact h.1
  | scullWrite => exact h
  | scullIoctl => exact h.elim
  | _ => trivial

/-- A write that comes to its copy leaves no gap: at every position before the end of the data after
it, in its own quantum or in one that there is already, it stores a byte or one was stored
before. -/
def LeavesNoGap (a : Logged) : ScullOp → Prop
  | .scullWrite file count src false env =>
    env.Supplies a.sys.dev.data (a.pos file / (a.sys.dev.q * a.sys.dev.s))
        (a.pos file / a.sys.dev.q % a.sys.dev.s : ℕ) →
      ∀ x, (x < a.sys.dev.size ∨
          a.span file count ≤ src.bytes.length ∧ x < a.pos file + a.span file count) →
        (x / a.sys.dev.q = a.pos file / a.sys.dev.q ∨
          (quantumAt a.sys.dev.s a.sys.dev.data (x / a.sys.dev.q)).isSome) →
        (a.pos file ≤ x ∧ x < a.pos file + (src.copied (a.span file count)).length) ∨
          (a.stored x).isSome
  | _ => True

/-- Every byte that a read can deliver is the one that was stored last at its position. -/
def Clean (a : Logged) : Prop :=
  ∀ x < a.sys.dev.size, ∀ q, quantumAt a.sys.dev.s a.sys.dev.data (x / a.sys.dev.q) = some q →
    a.stored x = some (q.cells ((x % a.sys.dev.q : ℕ) : ℤ))

/-- The representation invariant, and that what is stored is in the quanta. -/
structure Faithful (a : Logged) : Prop where
  rep : Rep a.sys
  byte : ∀ x b, a.stored x = some b → ∃ q,
    quantumAt a.sys.dev.s a.sys.dev.data (x / a.sys.dev.q) = some q ∧
      q.cells ((x % a.sys.dev.q : ℕ) : ℤ) = b

/-! ### What a copy leaves at a position -/

theorem length_copied_le (src : UserBuffer) (m : ℕ) : (src.copied m).length ≤ m := by
  rw [UserBuffer.copied]
  split_ifs <;> simp

section Copied

variable {Q S n p m : ℕ} {dev : ScullDev} {src : UserBuffer} {fresh : Option (ℤ → UInt8)}
  {res : IoResult}

theorem Copied.byte_moved (h : Copied Q S n (p / Q) dev p m src fresh res) (hm : m ≤ Q - p % Q)
    {x : ℕ} {b : UInt8} (hseg : segmentAt p (src.copied m) x = some b) :
    ∃ q, quantumAt S res.dev.data (x / Q) = some q ∧ q.cells ((x % Q : ℕ) : ℤ) = b := by
  obtain ⟨q, hat, -⟩ := h.stored
  obtain ⟨hle, hlt⟩ := isSome_segmentAt.mp (by rw [hseg]; rfl)
  have hlen := length_copied_le src m
  have hchunk : x / Q = p / Q := div_eq_of_chunk hle (by omega)
  rw [segmentAt, if_pos hle] at hseg
  obtain ⟨hi, rfl⟩ := List.getElem?_eq_some_iff.mp hseg
  refine ⟨_, (hat _).trans (if_pos hchunk), ?_⟩
  rw [copyFromUser_snd, mod_eq_of_chunk hle hchunk, Nat.cast_add]
  exact Cells.store_of_mem _ _ _ hi

theorem Copied.byte_kept (h : Copied Q S n (p / Q) dev p m src fresh res) {x : ℕ} {q : Quantum}
    (hseg : segmentAt p (src.copied m) x = none) (hq : quantumAt S dev.data (x / Q) = some q) :
    ∃ q', quantumAt S res.dev.data (x / Q) = some q' ∧
      q'.cells ((x % Q : ℕ) : ℤ) = q.cells ((x % Q : ℕ) : ℤ) := by
  obtain ⟨old, hat, hold, -⟩ := h.stored
  by_cases hk : x / Q = p / Q
  · refine ⟨_, (hat _).trans (if_pos hk), ?_⟩
    rw [copyFromUser_snd, hold q (hk ▸ hq)]
    refine Cells.store_eq_self fun i b hi hoff => ?_
    have hdiv := Nat.div_add_mod x Q
    have hdiv' := Nat.div_add_mod p Q
    rw [hk] at hdiv
    rw [show x = p + i by omega, segmentAt, if_pos (by omega), Nat.add_sub_cancel_left, hi] at hseg
    cases hseg
  · exact ⟨q, (hat _).trans ((if_neg hk).trans hq), rfl⟩

end Copied

namespace Faithful

variable {a : Logged}

theorem load {params : Params} (h : GoodGeometry params.quantum params.qset) :
    Faithful (.load params) := ⟨.load h, fun _ _ hb => by cases hb⟩

theorem pos_eq (h : Faithful a) (file : ℕ) : a.sys.files file = (a.pos file : ℕ) := by
  rw [Logged.pos, Int.toNat_of_nonneg (h.rep.pos file).1]

/-- When all is clean it is enough to know where something is stored. -/
theorem clean_iff (h : Faithful a) : Clean a ↔ ∀ x < a.sys.dev.size,
    (quantumAt a.sys.dev.s a.sys.dev.data (x / a.sys.dev.q)).isSome → (a.stored x).isSome := by
  constructor
  · intro hclean x hx hsome
    obtain ⟨q, hq⟩ := Option.isSome_iff_exists.mp hsome
    rw [hclean x hx q hq]
    rfl
  · intro hcov x hx q hq
    obtain ⟨b, hb⟩ := Option.isSome_iff_exists.mp (hcov x hx (by rw [hq]; rfl))
    obtain ⟨q', hq', hbyte⟩ := h.byte x b hb
    rw [hq] at hq'
    cases hq'
    rw [hb, hbyte]

theorem exists_write (h : Faithful a) {file : ℕ} (hfit : ItemFits a.sys.dev (a.sys.files file))
    (count : ℕ) (src : UserBuffer) (env : AllocEnv) :
    ∃ res, a.step (.scullWrite file count src false env) = some (⟨res.ret, res.bytes⟩,
        ⟨(a.sys.after file res).2,
          a.log ⟨res.ret, res.bytes⟩ (.scullWrite file count src false env)⟩) ∧
      Rep (a.sys.after file res).2 ∧ Kept a.sys.dev.q a.sys.dev.s a.sys.dev a.sys.heap res ∧
      Attached env (a.pos file / (a.sys.dev.q * a.sys.dev.s)) a.sys.dev a.sys.heap res ∧
      a.pos file + a.sys.dev.q < 2 ^ 63 ∧
      ((Starved a.sys.dev (a.pos file : ℕ) res ∧ ¬ env.Supplies a.sys.dev.data
          (a.pos file / (a.sys.dev.q * a.sys.dev.s))
          (a.pos file / a.sys.dev.q % a.sys.dev.s : ℕ)) ∨
        (Copied a.sys.dev.q a.sys.dev.s (a.pos file / (a.sys.dev.q * a.sys.dev.s))
            (a.pos file / a.sys.dev.q) a.sys.dev (a.pos file) (a.span file count) src env.quantum
            res ∧
          env.Supplies a.sys.dev.data (a.pos file / (a.sys.dev.q * a.sys.dev.s))
            (a.pos file / a.sys.dev.q % a.sys.dev.s : ℕ))) := by
  rw [h.pos_eq file] at hfit
  obtain ⟨-, hbound, -⟩ := h.rep.devRep.pos_bounds hfit
  obtain ⟨res, hres, hrep, hpos, hkept, hattached, hcases⟩ :=
    h.rep.devRep.write_outcome hfit a.sys.heap count src env
  refine ⟨res, ?_, h.rep.after hkept hrep hpos, hkept, hattached, hbound, hcases⟩
  refine Logged.step_eq_some.mpr ⟨?_, rfl⟩
  rw [ScullSys.step, h.pos_eq file, hres]
  rfl

/-- **A write that gets the lock** keeps the log faithful, and if all is clean before it, all is
clean after it exactly if it leaves no gap. -/
theorem write (h : Faithful a) {file : ℕ} (hfit : ItemFits a.sys.dev (a.sys.files file))
    (count : ℕ) (src : UserBuffer) (env : AllocEnv) :
    ∃ r b, a.step (.scullWrite file count src false env) = some (r, b) ∧ Faithful b ∧
      (Clean a → LeavesNoGap a (.scullWrite file count src false env) → Clean b) ∧
      (Clean b → LeavesNoGap a (.scullWrite file count src false env)) := by
  obtain ⟨res, hst, hrep, hkept, -, hbound, hcases⟩ := h.exists_write hfit count src env
  have hspan : a.span file count ≤ a.sys.dev.q - a.pos file % a.sys.dev.q := min_le_right _ _
  refine ⟨_, _, hst, ?_⟩
  rcases hcases with ⟨hstarved, hlacks⟩ | ⟨hcopied, hsupplies⟩
  · have hat : ∀ k,
        quantumAt a.sys.dev.s res.dev.data k = quantumAt a.sys.dev.s a.sys.dev.data k := by
      intro k
      rw [quantumAt_eq_entryAt, hstarved.entryAt_eq, quantumAt_eq_entryAt]
    have hlog : a.log ⟨res.ret, res.bytes⟩ (.scullWrite file count src false env) = a.stored :=
      if_pos hstarved.ret_eq
    refine ⟨⟨hrep, ?_⟩, ?_, fun _ hsupplies => absurd hsupplies hlacks⟩
    · simp only [ScullSys.after, hkept.q_eq, hkept.s_eq, hat, hlog]
      exact h.byte
    · intro hclean _
      simp only [Clean, ScullSys.after, hkept.q_eq, hkept.s_eq, hat, hlog, hstarved.size_eq]
      exact hclean
  have hlog : a.log ⟨res.ret, res.bytes⟩ (.scullWrite file count src false env) = fun x =>
      (segmentAt (a.pos file) (src.copied (a.span file count)) x).or (a.stored x) :=
    if_neg hcopied.ret_ne
  have hfaithful : Faithful ⟨(a.sys.after file res).2,
      a.log ⟨res.ret, res.bytes⟩ (.scullWrite file count src false env)⟩ := by
    refine ⟨hrep, fun x b hb => ?_⟩
    simp only [hlog] at hb
    simp only [ScullSys.after, hkept.q_eq, hkept.s_eq]
    cases hseg : segmentAt (a.pos file) (src.copied (a.span file count)) x with
    | some b' =>
      rw [hseg, Option.some_or] at hb
      cases hb
      exact hcopied.byte_moved hspan hseg
    | none =>
      rw [hseg, Option.none_or] at hb
      obtain ⟨old, hq, rfl⟩ := h.byte x b hb
      exact hcopied.byte_kept hseg hq
  refine ⟨hfaithful, ?_⟩
  have hsome : ∀ x, (quantumAt a.sys.dev.s res.dev.data (x / a.sys.dev.q)).isSome ↔
      x / a.sys.dev.q = a.pos file / a.sys.dev.q ∨
        (quantumAt a.sys.dev.s a.sys.dev.data (x / a.sys.dev.q)).isSome := by
    intro x
    obtain ⟨q, hat, -⟩ := hcopied.stored
    rw [hat]
    split_ifs with hk
    · simp [hk]
    · simp [hk]
  have hclean : Clean ⟨(a.sys.after file res).2,
      a.log ⟨res.ret, res.bytes⟩ (.scullWrite file count src false env)⟩ ↔
      ∀ x, (x < a.sys.dev.size ∨
          a.span file count ≤ src.bytes.length ∧ x < a.pos file + a.span file count) →
        (x / a.sys.dev.q = a.pos file / a.sys.dev.q ∨
          (quantumAt a.sys.dev.s a.sys.dev.data (x / a.sys.dev.q)).isSome) →
        (a.pos file ≤ x ∧ x < a.pos file + (src.copied (a.span file count)).length) ∨
          (a.stored x).isSome := by
    rw [hfaithful.clean_iff]
    simp only [ScullSys.after, hkept.q_eq, hkept.s_eq, hsome, hlog, Option.isSome_or,
      Bool.or_eq_true, isSome_segmentAt, hcopied.lt_size_iff (by omega)]
  exact ⟨fun _ hgap => hclean.mpr (hgap hsupplies), fun hb _ => hclean.mp hb⟩

theorem of_same (h : Faithful a) {b : Logged} (hrep : Rep b.sys) (hdev : b.sys.dev = a.sys.dev)
    (hstored : b.stored = a.stored) : Faithful b ∧ (Clean a → Clean b) := by
  constructor
  · refine ⟨hrep, ?_⟩
    rw [hdev, hstored]
    exact h.byte
  · rw [Clean, Clean, hdev, hstored]
    exact id

/-- **One call** is not stuck and keeps the log faithful, and if all is clean before it, all is
clean after it exactly if it leaves no gap. -/
theorem step (h : Faithful a) {op : ScullOp} (hop : Ordinary a op) :
    ∃ r b, a.step op = some (r, b) ∧ Faithful b ∧ (Clean a → LeavesNoGap a op → Clean b) ∧
      (Clean b → LeavesNoGap a op) := by
  obtain ⟨r, t, hst, hrep⟩ := h.rep.step hop.admissible
  have hlogged : a.step op = some (r, ⟨t, a.log r op⟩) := Logged.step_eq_some.mpr ⟨hst, rfl⟩
  -- All but writes that get the lock and opens that empty the device leave the device.
  have hsame : t.dev = a.sys.dev → a.log r op = a.stored → LeavesNoGap a op → ∃ r b,
      a.step op = some (r, b) ∧ Faithful b ∧ (Clean a → LeavesNoGap a op → Clean b) ∧
      (Clean b → LeavesNoGap a op) := by
    intro hdev hlog hgap
    obtain ⟨hfaithful, hclean⟩ := h.of_same (b := ⟨t, a.log r op⟩) hrep hdev hlog
    exact ⟨_, _, hlogged, hfaithful, fun ha _ => hclean ha, fun _ => hgap⟩
  cases op with
  | scullOpen file mode lockIntr =>
    cases mode with
    | wronly =>
      cases lockIntr with
      | true =>
        cases hst
        exact hsame rfl rfl trivial
      | false =>
        obtain ⟨heap', htrim, -⟩ := h.rep.trim
        have hout := hst
        simp only [ScullSys.step, if_true, htrim] at hout
        cases hout
        refine ⟨_, _, hlogged, ⟨hrep, fun x b hb => by cases hb⟩, fun _ _ x hx => ?_,
          fun _ => trivial⟩
        exact absurd hx (Nat.not_lt_zero x)
    | rdonly =>
      cases hst
      exact hsame rfl rfl trivial
    | rdwr =>
      cases hst
      exact hsame rfl rfl trivial
  | scullRead file count room lockIntr env =>
    refine hsame ?_ rfl trivial
    cases lockIntr with
    | true =>
      cases hst
      rfl
    | false =>
      obtain ⟨res, hres, hdev, -⟩ := h.rep.read_spec (h.pos_eq file) hop.1 count room env
      rw [ScullSys.step, hres] at hst
      cases hst
      exact hdev
  | scullWrite file count src lockIntr env =>
    cases lockIntr with
    | true =>
      cases hst
      exact hsame rfl rfl trivial
    | false => exact h.write hop count src env
  | scullLlseek file off whence =>
    cases hst
    exact hsame rfl rfl trivial
  | scullIoctl => exact hop.elim

/-- A read before the end of the data delivers bytes before the end of the data. -/
theorem read_stored (h : Faithful a) (hclean : Clean a) {file count room : ℕ} {res : IoResult}
    (hcount : a.sys.files file + count < 2 ^ 63)
    (hread : ReadEffect a.sys.dev.q a.sys.dev.s (a.pos file / a.sys.dev.q) a.sys.dev (a.pos file)
      (min (upToSize a.sys.dev (a.pos file : ℕ) count) (a.sys.dev.q - a.pos file % a.sys.dev.q))
      room res) {i : ℕ} {b : UInt8} (hb : res.bytes[i]? = some b) :
    a.stored (a.pos file + i) = some b := by
  rw [h.pos_eq file] at hcount
  cases hread with
  | nothing _ hbytes =>
    rw [hbytes] at hb
    cases hb
  | fault _ _ _ _ hbytes =>
    rw [hbytes] at hb
    cases hb
  | @delivered q hsize hq _ _ hbytes _ =>
    have hcut := Scull.upToSize_eq hsize.le (by omega : a.pos file + count < 2 ^ 64)
    rw [hcut] at hbytes
    rw [hbytes] at hb
    have hi : i < min (min count (a.sys.dev.size - a.pos file))
        (a.sys.dev.q - a.pos file % a.sys.dev.q) := by
      have hlt := (List.getElem?_eq_some_iff.mp hb).1
      rwa [Cells.length_load] at hlt
    have hchunk : (a.pos file + i) / a.sys.dev.q = a.pos file / a.sys.dev.q :=
      div_eq_of_chunk (by omega) (by omega)
    rw [Cells.getElem?_load _ _ hi] at hb
    rw [hclean _ (by omega) q (hchunk ▸ hq), ← hb, mod_eq_of_chunk (by omega) hchunk,
      Nat.add_sub_cancel_left, Nat.cast_add]

end Faithful

/-- A read delivers only what is stored. -/
def DeliversStored (a : Logged) : ScullOp → Prop
  | .scullRead file count room lockIntr env => ∀ r b,
    a.step (.scullRead file count room lockIntr env) = some (r, b) →
    ∀ i c, r.bytes[i]? = some c → a.stored (a.pos file + i) = some c
  | _ => True

/-- **When all is clean**, every byte that a read delivers was stored at its position. -/
theorem Faithful.deliversStored {a : Logged} (h : Faithful a) (hclean : Clean a) {op : ScullOp}
    (hop : Ordinary a op) : DeliversStored a op := by
  cases op with
  | scullRead file count room lockIntr env =>
    intro r b hst i c hc
    obtain ⟨out, hout, heq⟩ := Option.map_eq_some_iff.mp hst
    cases heq
    cases lockIntr with
    | true =>
      cases hout
      cases hc
    | false =>
      obtain ⟨res, hres, -, -, -, hread⟩ := h.rep.read_spec (h.pos_eq file) hop.1 count room env
      rw [ScullSys.step, hres] at hout
      cases hout
      exact h.read_stored hclean hop.2 hread hc
  | _ => trivial

/-! ### Other contents of fresh quanta -/

/-- Calls that differ at most in what a fresh quantum contains. -/
def SameButFill : ScullOp → ScullOp → Prop
  | .scullWrite file count src lockIntr env, op' => ∃ fill : ℤ → UInt8,
    op' = .scullWrite file count src lockIntr { env with quantum := env.quantum.map fun _ => fill }
  | op, op' => op' = op

/-- Two systems with the same log, which have arrays and quanta in the same places. -/
structure Twins (a a' : Logged) : Prop where
  faithful : Faithful a
  faithful' : Faithful a'
  clean : Clean a
  stored_eq : a'.stored = a.stored
  files_eq : a'.sys.files = a.sys.files
  params_eq : a'.sys.params = a.sys.params
  geometry : SameGeometry a.sys.dev a'.sys.dev
  size_eq : a'.sys.dev.size = a.sys.dev.size
  length_eq : a'.sys.dev.data.length = a.sys.dev.data.length
  array_iff : ∀ n, (arrayAt a'.sys.dev.data n).isSome ↔ (arrayAt a.sys.dev.data n).isSome
  quantum_iff : ∀ k, (quantumAt a.sys.dev.s a'.sys.dev.data k).isSome ↔
    (quantumAt a.sys.dev.s a.sys.dev.data k).isSome

namespace Twins

variable {a a' : Logged}

theorem q_eq (h : Twins a a') : a'.sys.dev.q = a.sys.dev.q := by
  rw [ScullDev.q, h.geometry.1, ScullDev.q]

theorem s_eq (h : Twins a a') : a'.sys.dev.s = a.sys.dev.s := by
  rw [ScullDev.s, h.geometry.2, ScullDev.s]

theorem pos_eq (h : Twins a a') (file : ℕ) : a'.pos file = a.pos file := by
  rw [Logged.pos, h.files_eq, Logged.pos]

theorem span_eq (h : Twins a a') (file count : ℕ) : a'.span file count = a.span file count := by
  rw [Logged.span, h.q_eq, h.pos_eq, Logged.span]

theorem alike (h : Twins a a') : Alike (fun x => (a.stored x).isSome) a.sys.dev a'.sys.dev := by
  refine ⟨h.geometry.1, h.geometry.2, h.size_eq, fun k => ?_, fun x hx => ?_,
    fun x hx q q' hq hq' => ?_⟩
  · rw [Bool.eq_iff_iff]
    exact h.quantum_iff k
  · obtain ⟨b, hb⟩ := Option.isSome_iff_exists.mp hx
    obtain ⟨q, hq, -⟩ := h.faithful.byte x b hb
    rw [hq]
    rfl
  · obtain ⟨b, hb⟩ := Option.isSome_iff_exists.mp hx
    obtain ⟨q₁, hq₁, hbyte⟩ := h.faithful.byte x b hb
    obtain ⟨q₂, hq₂, hbyte'⟩ := h.faithful'.byte x b (by rw [h.stored_eq, hb])
    rw [h.q_eq, h.s_eq] at hq₂
    rw [h.q_eq] at hbyte'
    rw [hq] at hq₁
    rw [hq'] at hq₂
    cases hq₁
    cases hq₂
    rw [hbyte, hbyte']

theorem itemFits (h : Twins a a') {file : ℕ} (hfit : ItemFits a.sys.dev (a.sys.files file)) :
    ItemFits a'.sys.dev (a'.sys.files file) := by
  rw [h.files_eq]
  exact h.alike.itemFits hfit

theorem supplies_iff (h : Twins a a') {env env' : AllocEnv} (hnode : env'.node = env.node)
    (harray : env'.array = env.array) (hquantum : env'.quantum.isSome = env.quantum.isSome)
    (p : ℕ) :
    env'.Supplies a'.sys.dev.data (p / (a.sys.dev.q * a.sys.dev.s))
        (p / a.sys.dev.q % a.sys.dev.s : ℕ) ↔
      env.Supplies a.sys.dev.data (p / (a.sys.dev.q * a.sys.dev.s))
        (p / a.sys.dev.q % a.sys.dev.s : ℕ) := by
  have hentry : ∀ data, entryAt data (p / (a.sys.dev.q * a.sys.dev.s))
      (p / a.sys.dev.q % a.sys.dev.s : ℕ) = quantumAt a.sys.dev.s data (p / a.sys.dev.q) := by
    intro data
    rw [quantumAt_eq_entryAt, Nat.div_div_eq_div_mul]
  have hiff := h.quantum_iff (p / a.sys.dev.q)
  constructor
  · rintro ⟨hnodes, harrays, hquanta⟩
    rw [hentry, hquantum, hiff] at hquanta
    rw [harray, h.array_iff] at harrays
    rw [hnode, h.length_eq] at hnodes
    exact ⟨hnodes, harrays, by rw [hentry]; exact hquanta⟩
  · rintro ⟨hnodes, harrays, hquanta⟩
    rw [hentry, ← hquantum, ← hiff] at hquanta
    rw [← harray, ← h.array_iff] at harrays
    rw [← hnode, ← h.length_eq] at hnodes
    exact ⟨hnodes, harrays, by rw [hentry]; exact hquanta⟩

/-- What a call keeps that leaves the devices, the parameters and the log. -/
theorem of_same (h : Twins a a') {t t' : ScullSys} (hrep : Rep t) (hrep' : Rep t')
    (hdev : t.dev = a.sys.dev) (hdev' : t'.dev = a'.sys.dev) (hparams : t.params = a.sys.params)
    (hparams' : t'.params = a'.sys.params) (hfiles : t'.files = t.files) :
    Twins ⟨t, a.stored⟩ ⟨t', a'.stored⟩ := by
  obtain ⟨hfaithful, hclean⟩ := h.faithful.of_same (b := ⟨t, a.stored⟩) hrep hdev rfl
  obtain ⟨hfaithful', -⟩ := h.faithful'.of_same (b := ⟨t', a'.stored⟩) hrep' hdev' rfl
  refine ⟨hfaithful, hfaithful', hclean h.clean, h.stored_eq, hfiles, ?_, ?_, ?_, ?_, ?_, ?_⟩
  · rw [hparams', hparams, h.params_eq]
  · rw [hdev, hdev']
    exact h.geometry
  · rw [hdev, hdev', h.size_eq]
  · rw [hdev, hdev', h.length_eq]
  · rw [hdev, hdev']
    exact h.array_iff
  · rw [hdev, hdev']
    exact h.quantum_iff

/-- **A read** answers alike in both systems. -/
theorem read (h : Twins a a') {file count : ℕ} (hfit : ItemFits a.sys.dev (a.sys.files file))
    (hcount : a.sys.files file + count < 2 ^ 63) (room : ℕ) (env : AllocEnv) :
    ∃ r b b', a.step (.scullRead file count room false env) = some (r, b) ∧
      a'.step (.scullRead file count room false env) = some (r, b') ∧ Twins b b' := by
  have hp := h.faithful.pos_eq file
  have hp' : a'.sys.files file = (a.pos file : ℕ) := by rw [h.files_eq, hp]
  obtain ⟨res, hres, hdev, -, hrep, hread⟩ := h.faithful.rep.read_spec hp hfit count room env
  obtain ⟨res', hres', hdev', -, hrep', hread'⟩ :=
    h.faithful'.rep.read_spec hp' (h.itemFits hfit) count room env
  rw [h.q_eq, h.s_eq, h.alike.upToSize_eq] at hread'
  have halike := h.alike.readAlike (min_le_right _ _) hread hread'
  have hbytes : res'.bytes = res.bytes := by
    refine List.ext_getElem? fun i => ?_
    cases hb : res.bytes[i]? with
    | none =>
      rw [List.getElem?_eq_none_iff] at hb ⊢
      rw [halike.length_eq]
      exact hb
    | some b =>
      have hstored := h.faithful.read_stored h.clean hcount hread hb
      rw [halike.bytes_eq i (by rw [hstored]; rfl), hb]
  have hst : a.step (.scullRead file count room false env) =
      some (⟨res.ret, res.bytes⟩, ⟨(a.sys.after file res).2, a.stored⟩) := by
    refine Logged.step_eq_some.mpr ⟨?_, rfl⟩
    rw [ScullSys.step, hres]
    rfl
  have hst' : a'.step (.scullRead file count room false env) =
      some (⟨res.ret, res.bytes⟩, ⟨(a'.sys.after file res').2, a'.stored⟩) := by
    refine Logged.step_eq_some.mpr ⟨?_, rfl⟩
    rw [ScullSys.step, hres', ← halike.ret_eq, ← hbytes]
    rfl
  refine ⟨_, _, _, hst, hst', h.of_same hrep hrep' hdev hdev' rfl rfl ?_⟩
  simp only [ScullSys.after, h.files_eq, halike.fPos_eq]

/-- **A write** that leaves no gap answers alike in both systems, whatever a fresh quantum
contains. -/
theorem write (h : Twins a a') {file count : ℕ} (hfit : ItemFits a.sys.dev (a.sys.files file))
    {src : UserBuffer} {env env' : AllocEnv} (hnode : env'.node = env.node)
    (harray : env'.array = env.array) (hquantum : env'.quantum.isSome = env.quantum.isSome)
    (hgap : LeavesNoGap a (.scullWrite file count src false env)) :
    ∃ r b b', a.step (.scullWrite file count src false env) = some (r, b) ∧
      a'.step (.scullWrite file count src false env') = some (r, b') ∧ Twins b b' := by
  obtain ⟨r₁, b₁, hst₁, hfaithful, hclean, -⟩ := h.faithful.write hfit count src env
  obtain ⟨r₂, b₂, hst₂, hfaithful', -, -⟩ :=
    h.faithful'.write (h.itemFits hfit) count src env'
  obtain ⟨res, hst, -, hkept, hattached, -, hcases⟩ := h.faithful.exists_write hfit count src env
  obtain ⟨res', hst', -, hkept', hattached', -, hcases'⟩ :=
    h.faithful'.exists_write (h.itemFits hfit) count src env'
  rw [hst] at hst₁
  rw [hst'] at hst₂
  cases hst₁
  cases hst₂
  rw [h.q_eq, h.s_eq, h.pos_eq] at hattached' hcases'
  rw [h.q_eq, h.s_eq] at hkept'
  rw [h.span_eq] at hcases'
  have hfollow := scullFollow_length_congr env.node
    (a.pos file / (a.sys.dev.q * a.sys.dev.s)) h.length_eq a.sys.heap a'.sys.heap
  have hlength : res'.dev.data.length = res.dev.data.length := by
    rw [hattached'.length_eq, hattached.length_eq, hnode, hfollow.2]
  have harrays : ∀ n, (arrayAt res'.dev.data n).isSome ↔ (arrayAt res.dev.data n).isSome := by
    intro n
    rw [hattached'.isSome_iff, hattached.isSome_iff, hnode, harray, hfollow.1, h.array_iff]
  have hgeometry : SameGeometry res.dev res'.dev := by
    rw [SameGeometry, hkept.quantum_eq, hkept.qset_eq, hkept'.quantum_eq, hkept'.qset_eq]
    exact h.geometry
  have hsupplies := h.supplies_iff hnode harray hquantum (a.pos file)
  have hsame : res'.ret = res.ret ∧ res'.bytes = res.bytes ∧ res'.fPos = res.fPos ∧
      res'.dev.size = res.dev.size ∧
      (∀ k, (quantumAt a.sys.dev.s res'.dev.data k).isSome ↔
        (quantumAt a.sys.dev.s res.dev.data k).isSome) ∧
      a'.log ⟨res'.ret, res'.bytes⟩ (.scullWrite file count src false env') =
        a.log ⟨res.ret, res.bytes⟩ (.scullWrite file count src false env) := by
    rcases hcases with ⟨hstarved, hlacks⟩ | ⟨hcopied, hsup⟩
    · rcases hcases' with ⟨hstarved', -⟩ | ⟨-, hsup'⟩
      · refine ⟨?_, ?_, ?_, ?_, fun k => ?_, ?_⟩
        · rw [hstarved.ret_eq, hstarved'.ret_eq]
        · rw [hstarved.bytes_eq, hstarved'.bytes_eq]
        · rw [hstarved.fPos_eq, hstarved'.fPos_eq]
        · rw [hstarved.size_eq, hstarved'.size_eq, h.size_eq]
        · have hiff := h.quantum_iff k
          rw [quantumAt_eq_entryAt, quantumAt_eq_entryAt] at hiff ⊢
          rw [hstarved.entryAt_eq, hstarved'.entryAt_eq]
          exact hiff
        · simp only [Logged.log, hstarved.ret_eq, hstarved'.ret_eq, if_true, h.stored_eq]
      · exact absurd (hsupplies.mp hsup') hlacks
    · rcases hcases' with ⟨-, hlacks'⟩ | ⟨hcopied', -⟩
      · exact absurd (hsupplies.mpr hsup) hlacks'
      · obtain ⟨hret, hpos, hbytes, halike⟩ :=
          h.alike.copied (min_le_right _ _) hkept hkept' hcopied hcopied'
        refine ⟨hret, hbytes, hpos, halike.size_eq, fun k => ?_, ?_⟩
        · rw [← Bool.eq_iff_iff, ← hkept.s_eq]
          exact halike.isSome_eq k
        · simp only [Logged.log, if_neg hcopied.ret_ne, if_neg hcopied'.ret_ne, h.stored_eq,
            h.pos_eq, h.span_eq]
  obtain ⟨hret, hbytes, hpos, hsize, hquanta, hlog⟩ := hsame
  refine ⟨_, _, _, hst, ?_, ⟨hfaithful, hfaithful', hclean h.clean hgap, hlog, ?_, h.params_eq,
    hgeometry, hsize, hlength, harrays, ?_⟩⟩
  · rw [hst', hret, hbytes]
  · simp only [ScullSys.after, h.files_eq, hpos]
  · simp only [ScullSys.after, hkept.s_eq]
    exact hquanta

theorem trim (h : Twins a a') (file : ℕ) :
    ∃ r b b', a.step (.scullOpen file .wronly false) = some (r, b) ∧
      a'.step (.scullOpen file .wronly false) = some (r, b') ∧ Twins b b' := by
  have hop : ∀ b : Logged, Ordinary b (.scullOpen file .wronly false) := fun _ => trivial
  obtain ⟨r₁, b₁, hst₁, hfaithful, hclean, -⟩ := h.faithful.step (hop a)
  obtain ⟨r₂, b₂, hst₂, hfaithful', -, -⟩ := h.faithful'.step (hop a')
  obtain ⟨heap, htrim, -⟩ := h.faithful.rep.trim
  obtain ⟨heap', htrim', -⟩ := h.faithful'.rep.trim
  have hopen := hst₁
  have hopen' := hst₂
  simp only [Logged.step, ScullSys.step, if_true, htrim] at hopen
  simp only [Logged.step, ScullSys.step, if_true, htrim'] at hopen'
  cases hopen
  cases hopen'
  refine ⟨_, _, _, hst₁, hst₂, hfaithful, hfaithful', hclean h.clean trivial, rfl, ?_, h.params_eq,
    ?_, rfl, rfl, fun n => Iff.rfl, fun k => Iff.rfl⟩
  · simp only [h.files_eq]
  · rw [SameGeometry, h.params_eq]
    exact ⟨rfl, rfl⟩

/-- A call that only moves a position, to the same place in both systems. -/
theorem moved (h : Twins a a') {op : ScullOp} {r : Answer} {file : ℕ} {pos : ℤ}
    (hop : Admissible a.sys op) (hop' : Admissible a'.sys op)
    (hst : a.sys.step op = some (r, { a.sys with files := Function.update a.sys.files file pos }))
    (hst' : a'.sys.step op =
      some (r, { a'.sys with files := Function.update a'.sys.files file pos }))
    (hlog : ∀ b : Logged, b.log r op = b.stored) :
    ∃ r b b', a.step op = some (r, b) ∧ a'.step op = some (r, b') ∧ Twins b b' := by
  obtain ⟨r₁, t, hst₁, hrep⟩ := h.faithful.rep.step hop
  obtain ⟨r₂, t', hst₂, hrep'⟩ := h.faithful'.rep.step hop'
  cases hst.symm.trans hst₁
  cases hst'.symm.trans hst₂
  have htwins := h.of_same hrep hrep' rfl rfl rfl rfl (by simp only [h.files_eq])
  refine ⟨r, _, _, ?_, ?_, htwins⟩
  · exact Logged.step_eq_some.mpr ⟨hst, (hlog a).symm⟩
  · exact Logged.step_eq_some.mpr ⟨hst', (hlog a').symm⟩

/-- **One call** that leaves no gap answers alike in both systems, whatever a fresh quantum
contains. -/
theorem step (h : Twins a a') {op op' : ScullOp} (hop : Ordinary a op) (hgap : LeavesNoGap a op)
    (hlike : SameButFill op op') :
    ∃ r b b', a.step op = some (r, b) ∧ a'.step op' = some (r, b') ∧ Twins b b' := by
  have hkeep : ∀ r op, a.step op = some (r, a) → a'.step op = some (r, a') → ∃ r b b',
      a.step op = some (r, b) ∧ a'.step op = some (r, b') ∧ Twins b b' :=
    fun r op hst hst' => ⟨r, a, a', hst, hst', h⟩
  cases op with
  | scullOpen file mode lockIntr =>
    cases hlike
    cases mode with
    | wronly =>
      cases lockIntr with
      | true => exact hkeep _ _ rfl rfl
      | false => exact h.trim file
    | rdonly => exact h.moved hop.admissible trivial rfl rfl fun _ => rfl
    | rdwr => exact h.moved hop.admissible trivial rfl rfl fun _ => rfl
  | scullRead file count room lockIntr env =>
    cases hlike
    cases lockIntr with
    | true => exact hkeep _ _ rfl rfl
    | false => exact h.read hop.1 hop.2 room env
  | scullWrite file count src lockIntr env =>
    obtain ⟨fill, rfl⟩ := hlike
    cases lockIntr with
    | true => exact ⟨_, a, a', rfl, rfl, h⟩
    | false => exact h.write hop rfl rfl (by simp) hgap
  | scullLlseek file off whence =>
    cases hlike
    have hseek : scullLlseek a'.sys.dev (a'.sys.files file) off whence =
        scullLlseek a.sys.dev (a.sys.files file) off whence := by
      rw [scullLlseek, h.files_eq, h.size_eq, scullLlseek]
    refine h.moved hop.admissible trivial rfl ?_ fun _ => rfl
    rw [ScullSys.step, hseek]
  | scullIoctl => exact hop.elim

end Twins

/-! ### Whole runs -/

theorem clean_load (params : Params) : Clean (.load params) :=
  fun x hx => absurd hx (Nat.not_lt_zero x)

theorem Twins.load {params : Params} (h : GoodGeometry params.quantum params.qset) :
    Twins (.load params) (.load params) :=
  ⟨.load h, .load h, clean_load params, rfl, rfl, rfl, ⟨rfl, rfl⟩, rfl, rfl, fun _ => Iff.rfl,
    fun _ => Iff.rfl⟩

/-- **What reads disclose.** A module is loaded with a geometry that the driver can work with, and
there is any sequence of opens, seeks, reads and writes, at positions whose quantum set has a number
that is an `int`, with whatever failures of allocations and copies. If no write leaves a gap, then
in every state all that can be read was stored, every byte that a read delivers is the one that was
stored last at its position since the device was emptied, and with any other contents of fresh
quanta all answers are the same. And only then: if in every state all that can be read was stored,
no write has left a gap.

Source: `ldd/scull/main.c`, lines 294–389 and 524–548. -/
theorem no_disclosure {params : Params} (hgood : GoodGeometry params.quantum params.qset)
    {ops : List ScullOp} (hops : Guarded Logged.step Ordinary (.load params) ops) :
    (Guarded Logged.step LeavesNoGap (.load params) ops →
      Always Logged.step Clean (.load params) ops ∧
      Guarded Logged.step DeliversStored (.load params) ops ∧
      ∃ answers s, exec ScullSys.step (.load params) ops = some (answers, s) ∧
        ∀ ops', List.Forall₂ SameButFill ops ops' →
          ∃ s', exec ScullSys.step (.load params) ops' = some (answers, s')) ∧
    (Always Logged.step Clean (.load params) ops →
      Guarded Logged.step LeavesNoGap (.load params) ops) := by
  have hfaithful : Always Logged.step Faithful (.load params) ops := by
    refine always_of_invariant Faithful (fun a op r b ha hop hst => ?_) (.load hgood) hops
    obtain ⟨r', b', hst', hb, -⟩ := ha.step hop
    rw [hst] at hst'
    cases hst'
    exact hb
  constructor
  · intro hgaps
    have hclean : Always Logged.step (fun a => Faithful a ∧ Clean a) (.load params) ops := by
      refine always_of_invariant _ (fun a op r b ha hop hst => ?_)
        ⟨Faithful.load hgood, clean_load params⟩ (hops.and hgaps)
      obtain ⟨r', b', hst', hb, hkeep, -⟩ := ha.1.step hop.1
      rw [hst] at hst'
      cases hst'
      exact ⟨hb, hkeep ha.2 hop.2⟩
    refine ⟨hclean.mono fun _ ha => ha.2, ?_, ?_⟩
    · have hdelivers : Guarded Logged.step (fun a op => Faithful a ∧ Clean a) (.load params) ops :=
        hclean.guarded fun _ _ ha => ha
      exact (hops.and hdelivers).mono fun a op h => h.2.1.deliversStored h.2.2 h.1
    · obtain ⟨answers, u, hrun, -⟩ := exec_progress Faithful (fun a op ha hop => by
        obtain ⟨r, b, hst, hb, -⟩ := ha.step hop
        exact ⟨r, b, hst, hb⟩) (.load hgood) hops
      refine ⟨answers, u.sys, Logged.exec_sys hrun, fun ops' hlike => ?_⟩
      have hstep : ∀ a a' op op', Twins a a' → Ordinary a op ∧ LeavesNoGap a op →
          SameButFill op op' → ∃ r b b', a.step op = some (r, b) ∧ a'.step op' = some (r, b') ∧
            Twins b b' := fun a a' op op' h hop hsame => h.step hop.1 hop.2 hsame
      obtain ⟨rs, v, v', hrun₁, hrun₂, -⟩ :=
        exec_lockstep Twins hstep (.load hgood) (hops.and hgaps) hlike
      rw [hrun] at hrun₁
      cases hrun₁
      exact ⟨v'.sys, Logged.exec_sys hrun₂⟩
  · intro hclean
    have hsteps := (hfaithful.and hclean).guarded_of_steps
      (G := fun a op => Ordinary a op → LeavesNoGap a op) ?_
    · exact (hops.and hsteps).mono fun _ _ h => h.2 h.1
    · intro a op ha hnext hop
      obtain ⟨r, b, hst, -, -, hgap⟩ := ha.1.step hop
      exact hgap (hnext r b hst).2

/-- A write from the start of the device, and a read of what it has stored. -/
theorem no_disclosure_sequential :
    Guarded Logged.step DeliversStored (.load ⟨4, 2, 0⟩)
      [.scullWrite 0 2 ⟨[1, 2], []⟩ false ⟨fun _ => true, true, some fun _ => 9⟩,
        .scullLlseek 0 0 0, .scullRead 0 2 2 false ⟨fun _ => true, true, none⟩] := by
  have hops : Guarded Logged.step Ordinary (.load ⟨4, 2, 0⟩)
      [.scullWrite 0 2 ⟨[1, 2], []⟩ false ⟨fun _ => true, true, some fun _ => 9⟩,
        .scullLlseek 0 0 0, .scullRead 0 2 2 false ⟨fun _ => true, true, none⟩] := by
    refine ⟨show ItemFits _ _ by unfold ItemFits; decide, fun _ _ h => ?_⟩
    cases h
    refine ⟨trivial, fun _ _ h => ?_⟩
    cases h
    exact ⟨⟨show ItemFits _ _ by unfold ItemFits; decide, by decide⟩, fun _ _ _ => trivial⟩
  refine ((no_disclosure ⟨by decide, by decide, by decide⟩ hops).1 ?_).2.1
  refine ⟨fun _ x hx _ => .inl ?_,
    fun _ _ h => ⟨trivial, fun _ _ h => ⟨trivial, fun _ _ _ => trivial⟩⟩⟩
  rcases hx with hx | ⟨-, hx⟩
  · exact absurd hx (Nat.not_lt_zero x)
  · exact ⟨Nat.zero_le x, hx⟩

/-- A write of the second byte of the device, and a read from its start: the first byte, where
nothing was written, is what the fresh quantum contains. -/
theorem fresh_quantum_disclosed :
    (exec ScullSys.step (.load ⟨4, 2, 0⟩)
      [.scullLlseek 0 1 0, .scullWrite 0 1 ⟨[1], []⟩ false ⟨fun _ => true, true, some fun _ => 9⟩,
        .scullLlseek 0 0 0, .scullRead 0 2 2 false ⟨fun _ => true, true, none⟩]).map Prod.fst =
      some [⟨1, []⟩, ⟨1, [1]⟩, ⟨0, []⟩, ⟨2, [9, 1]⟩] ∧
    (exec ScullSys.step (.load ⟨4, 2, 0⟩)
      [.scullLlseek 0 1 0, .scullWrite 0 1 ⟨[1], []⟩ false ⟨fun _ => true, true, some fun _ => 7⟩,
        .scullLlseek 0 0 0, .scullRead 0 2 2 false ⟨fun _ => true, true, none⟩]).map Prod.fst =
      some [⟨1, []⟩, ⟨1, [1]⟩, ⟨0, []⟩, ⟨2, [7, 1]⟩] := ⟨rfl, rfl⟩

end ExKernel.Scull
