import Mathlib.Data.List.Forall2
import Mathlib.Tactic.Common

/-!
# Runs of a transition function

A system is given by a partial transition function `step : σ → ε → Option (ρ × σ)`: in a state, on
an event, it answers a reply and moves to a new state, or is stuck. This file has the runs of such
a function and the rules by which everything about runs is proved from single steps.

Hypotheses on a run are read along it: `Guarded step G s es` says that every event of `es` satisfies
`G` in the state in which it happens.

## Main definitions

* `Transition.exec`: the replies and the last state of a list of events.
* `Transition.Guarded`: a condition on every step of a run, in the state before the step.
* `Transition.Always`: a condition on every state that a run passes through.
* `Transition.Trace`: the runs of an abstract, possibly nondeterministic, step relation.
* `Transition.repliesOf`: the replies to some of the events of a run.

## Main results

* `Transition.always_of_invariant`, `Transition.exec_invariant`: what every step preserves, every
  run preserves.
* `Transition.exec_progress`: a run is never stuck when no step from the invariant is.
* `Transition.exec_length_le`: a run is no longer than what every step decreases.
* `Transition.exec_simulation`: a simulation of single steps is a simulation of runs.
* `Transition.exec_lockstep`: states that answer alike step by step answer alike in whole runs.
* `Transition.exec_forward`: a state that can do the steps of another can do its runs.
* `Transition.exec_agrees_iff`: when two systems answer alike.
* `Transition.exec_unwinding`: what a part of the events sees is not changed by the others.
-/

namespace ExKernel.Transition

variable {σ ε ρ α : Type*}

/-- The replies and the last state of the run of `es` from `s`, if no step is stuck. -/
def exec (step : σ → ε → Option (ρ × σ)) (s : σ) : List ε → Option (List ρ × σ)
  | [] => some ([], s)
  | e :: es =>
    match step s e with
    | none => none
    | some (r, t) => (exec step t es).map fun out => (r :: out.1, out.2)

/-- Every event of the run of `es` from `s` satisfies `G` in the state in which it happens. -/
def Guarded (step : σ → ε → Option (ρ × σ)) (G : σ → ε → Prop) (s : σ) : List ε → Prop
  | [] => True
  | e :: es => G s e ∧ ∀ r t, step s e = some (r, t) → Guarded step G t es

/-- Every state that the run of `es` from `s` passes through, the last one included, satisfies
`P`. -/
def Always (step : σ → ε → Option (ρ × σ)) (P : σ → Prop) (s : σ) : List ε → Prop
  | [] => P s
  | e :: es => P s ∧ ∀ r t, step s e = some (r, t) → Always step P t es

/-- The runs of an abstract step relation: `A a e r a'` is a step from `a` to `a'` on the event `e`
with the reply `r`. -/
inductive Trace (A : α → ε → ρ → α → Prop) : α → List ε → List ρ → α → Prop
  | nil (a : α) : Trace A a [] [] a
  | cons {a b c : α} {e : ε} {es : List ε} {r : ρ} {rs : List ρ} (hstep : A a e r b)
      (hrest : Trace A b es rs c) : Trace A a (e :: es) (r :: rs) c

variable {step : σ → ε → Option (ρ × σ)} {G : σ → ε → Prop}

theorem exec_cons_eq_some {s : σ} {e : ε} {es : List ε} {rs : List ρ} {u : σ} :
    exec step s (e :: es) = some (rs, u) ↔
      ∃ r t rs', step s e = some (r, t) ∧ exec step t es = some (rs', u) ∧ rs = r :: rs' := by
  constructor
  · intro h
    simp only [exec] at h
    split at h
    · cases h
    · rename_i r t hst
      obtain ⟨out, hout, heq⟩ := Option.map_eq_some_iff.mp h
      cases heq
      exact ⟨r, t, out.1, hst, hout, rfl⟩
  · rintro ⟨r, t, rs', hst, hrest, rfl⟩
    simp only [exec, hst, hrest, Option.map_some]

theorem exists_exec_cons {s t : σ} {e : ε} {es : List ε} {r : ρ} {P : σ → Prop}
    (hstep : step s e = some (r, t)) (h : ∃ rs u, exec step t es = some (rs, u) ∧ P u) :
    ∃ rs u, exec step s (e :: es) = some (rs, u) ∧ P u := by
  obtain ⟨rs, u, hrun, hu⟩ := h
  exact ⟨r :: rs, u, exec_cons_eq_some.mpr ⟨r, t, rs, hstep, hrun, rfl⟩, hu⟩

theorem guarded_true (s : σ) (es : List ε) : Guarded step (fun _ _ => True) s es := by
  induction es generalizing s with
  | nil => trivial
  | cons e es ih => exact ⟨trivial, fun _ t _ => ih t⟩

theorem Guarded.and {G' : σ → ε → Prop} {s : σ} {es : List ε} (h : Guarded step G s es)
    (h' : Guarded step G' s es) : Guarded step (fun s e => G s e ∧ G' s e) s es := by
  induction es generalizing s with
  | nil => trivial
  | cons e es ih => exact ⟨⟨h.1, h'.1⟩, fun r t hst => ih (h.2 r t hst) (h'.2 r t hst)⟩

theorem Guarded.mono {G' : σ → ε → Prop} (hGG' : ∀ s e, G s e → G' s e) {s : σ} {es : List ε}
    (h : Guarded step G s es) : Guarded step G' s es := by
  induction es generalizing s with
  | nil => trivial
  | cons e es ih => exact ⟨hGG' s e h.1, fun r t hst => ih (h.2 r t hst)⟩

theorem guarded_of_forall_mem {P : ε → Prop} {es : List ε} (h : ∀ e ∈ es, P e) (s : σ) :
    Guarded step (fun _ e => P e) s es := by
  induction es generalizing s with
  | nil => trivial
  | cons e es ih =>
    exact ⟨h e List.mem_cons_self, fun _ t _ => ih (fun d hd => h d (List.mem_cons_of_mem e hd)) t⟩

theorem Guarded.append_left {s : σ} {es fs : List ε} (h : Guarded step G s (es ++ fs)) :
    Guarded step G s es := by
  induction es generalizing s with
  | nil => trivial
  | cons e es ih => exact ⟨h.1, fun r t hst => ih (h.2 r t hst)⟩

theorem Guarded.append_right {s t : σ} {es fs : List ε} {rs : List ρ}
    (h : Guarded step G s (es ++ fs)) (hrun : exec step s es = some (rs, t)) :
    Guarded step G t fs := by
  induction es generalizing s rs with
  | nil =>
    cases hrun
    exact h
  | cons e es ih =>
    obtain ⟨r, u, rs', hst, hrest, rfl⟩ := exec_cons_eq_some.mp hrun
    exact ih (h.2 r u hst) hrest

/-- The condition on the event that follows a part of the run. -/
theorem Guarded.of_exec {s t : σ} {es : List ε} {e : ε} {rs : List ρ}
    (h : Guarded step G s (es ++ [e])) (hrun : exec step s es = some (rs, t)) : G t e :=
  (h.append_right hrun).1

/-- A condition on the steps of a run is decided by running. -/
instance Guarded.decidable (step : σ → ε → Option (ρ × σ)) (G : σ → ε → Prop)
    [∀ s e, Decidable (G s e)] (s : σ) : (es : List ε) → Decidable (Guarded step G s es)
  | [] => isTrue trivial
  | e :: es =>
    match hst : step s e with
    | none => decidable_of_iff (G s e) (by simp [Guarded, hst])
    | some (r, t) =>
      have := Guarded.decidable step G t es
      decidable_of_iff (G s e ∧ Guarded step G t es) (by simp [Guarded, hst])

theorem Always.head {P : σ → Prop} {s : σ} {es : List ε} (h : Always step P s es) : P s := by
  cases es with
  | nil => exact h
  | cons e es => exact h.1

theorem Always.last {P : σ → Prop} {s u : σ} {es : List ε} {rs : List ρ}
    (h : Always step P s es) (hrun : exec step s es = some (rs, u)) : P u := by
  induction es generalizing s rs with
  | nil =>
    cases hrun
    exact h
  | cons e es ih =>
    obtain ⟨r, t, rs', hst, hrest, rfl⟩ := exec_cons_eq_some.mp hrun
    exact ih (h.2 r t hst) hrest

theorem Always.mono {P Q : σ → Prop} (hPQ : ∀ s, P s → Q s) {s : σ} {es : List ε}
    (h : Always step P s es) : Always step Q s es := by
  induction es generalizing s with
  | nil => exact hPQ s h
  | cons e es ih => exact ⟨hPQ s h.1, fun r t hst => ih (h.2 r t hst)⟩

/-- **The invariant rule.** What every guarded step preserves holds in every state of a guarded
run. -/
theorem always_of_invariant (I : σ → Prop)
    (hstep : ∀ s e r t, I s → G s e → step s e = some (r, t) → I t) {s : σ} {es : List ε}
    (hs : I s) (hG : Guarded step G s es) : Always step I s es := by
  induction es generalizing s with
  | nil => exact hs
  | cons e es ih => exact ⟨hs, fun r t hst => ih (hstep s e r t hs hG.1 hst) (hG.2 r t hst)⟩

/-- The invariant rule for the last state. -/
theorem exec_invariant (I : σ → Prop)
    (hstep : ∀ s e r t, I s → G s e → step s e = some (r, t) → I t) {s u : σ} {es : List ε}
    {rs : List ρ} (hs : I s) (hG : Guarded step G s es) (h : exec step s es = some (rs, u)) :
    I u :=
  (always_of_invariant I hstep hs hG).last h

/-- What follows from a condition on the state before every event. -/
theorem Always.guarded {P : σ → Prop} {G : σ → ε → Prop} (hPG : ∀ s e, P s → G s e) {s : σ}
    {es : List ε} (h : Always step P s es) : Guarded step G s es := by
  induction es generalizing s with
  | nil => trivial
  | cons e es ih => exact ⟨hPG s e h.1, fun r t hst => ih (h.2 r t hst)⟩

theorem Always.and {P Q : σ → Prop} {s : σ} {es : List ε} (h : Always step P s es)
    (h' : Always step Q s es) : Always step (fun s => P s ∧ Q s) s es := by
  induction es generalizing s with
  | nil => exact ⟨h, h'⟩
  | cons e es ih => exact ⟨⟨h.1, h'.1⟩, fun r t hst => ih (h.2 r t hst) (h'.2 r t hst)⟩

/-- What follows from a condition on the states before and after every event. -/
theorem Always.guarded_of_next {P : σ → Prop} {G : σ → ε → Prop}
    (hPG : ∀ s e r t, P s → step s e = some (r, t) → P t → G s e) {s u : σ} {es : List ε}
    {rs : List ρ} (hrun : exec step s es = some (rs, u)) (h : Always step P s es) :
    Guarded step G s es := by
  induction es generalizing s rs with
  | nil => trivial
  | cons e es ih =>
    obtain ⟨r, t, rs', hst, hrest, rfl⟩ := exec_cons_eq_some.mp hrun
    refine ⟨hPG s e r t h.1 hst (h.2 r t hst).head, fun r' t' hst' => ?_⟩
    rw [hst] at hst'
    cases hst'
    exact ih hrest (h.2 r t hst)

/-- What follows from a condition on the state before an event and on all states that the event can
lead to. -/
theorem Always.guarded_of_steps {P : σ → Prop} {G : σ → ε → Prop}
    (hPG : ∀ s e, P s → (∀ r t, step s e = some (r, t) → P t) → G s e) {s : σ} {es : List ε}
    (h : Always step P s es) : Guarded step G s es := by
  induction es generalizing s with
  | nil => trivial
  | cons e es ih =>
    exact ⟨hPG s e h.1 fun r t hst => (h.2 r t hst).head, fun r t hst => ih (h.2 r t hst)⟩

/-- **The progress rule.** If no guarded step from the invariant is stuck, no guarded run is. -/
theorem exec_progress (I : σ → Prop)
    (hstep : ∀ s e, I s → G s e → ∃ r t, step s e = some (r, t) ∧ I t) {s : σ} {es : List ε}
    (hs : I s) (hG : Guarded step G s es) :
    ∃ rs u, exec step s es = some (rs, u) ∧ I u := by
  induction es generalizing s with
  | nil => exact ⟨[], s, rfl, hs⟩
  | cons e es ih =>
    obtain ⟨r, t, hst, ht⟩ := hstep s e hs hG.1
    obtain ⟨rs, u, hrun, hu⟩ := ih ht (hG.2 r t hst)
    exact ⟨r :: rs, u, exec_cons_eq_some.mpr ⟨r, t, rs, hst, hrun, rfl⟩, hu⟩

/-- What every guarded step from the invariant says of its reply, a guarded run says of all. -/
theorem exec_replies (I : σ → Prop) {R : ρ → Prop}
    (hstep : ∀ s e r t, I s → G s e → step s e = some (r, t) → I t ∧ R r) {s u : σ} {es : List ε}
    {rs : List ρ} (hs : I s) (hG : Guarded step G s es) (h : exec step s es = some (rs, u)) :
    ∀ r ∈ rs, R r := by
  induction es generalizing s rs with
  | nil =>
    cases h
    simp
  | cons e es ih =>
    obtain ⟨r, t, rs', hst, hrest, rfl⟩ := exec_cons_eq_some.mp h
    obtain ⟨ht, hr⟩ := hstep s e r t hs hG.1 hst
    intro r' hr'
    rcases List.mem_cons.mp hr' with rfl | hr'
    · exact hr
    · exact ih ht (hG.2 r t hst) hrest r' hr'

/-- **The termination rule.** A run is no longer than what every guarded step from the invariant
decreases. -/
theorem exec_length_le (I : σ → Prop) (μ : σ → ℕ)
    (hstep : ∀ s e r t, I s → G s e → step s e = some (r, t) → I t ∧ μ t < μ s) {s u : σ}
    {es : List ε} {rs : List ρ} (hs : I s) (hG : Guarded step G s es)
    (h : exec step s es = some (rs, u)) : es.length ≤ μ s := by
  induction es generalizing s rs with
  | nil => exact Nat.zero_le _
  | cons e es ih =>
    obtain ⟨r, t, rs', hst, hrest, rfl⟩ := exec_cons_eq_some.mp h
    obtain ⟨ht, hlt⟩ := hstep s e r t hs hG.1 hst
    have hle := ih ht (hG.2 r t hst) hrest
    rw [List.length_cons]
    omega

/-- **The simulation rule.** If every guarded step from related states has an abstract step with the
same reply to related states, every guarded run has an abstract run with the same replies. -/
theorem exec_simulation (R : σ → α → Prop) (A : α → ε → ρ → α → Prop)
    (hstep : ∀ s a e, R s a → G s e → ∃ r t b, step s e = some (r, t) ∧ A a e r b ∧ R t b)
    {s : σ} {a : α} {es : List ε} (hR : R s a) (hG : Guarded step G s es) :
    ∃ rs u b, exec step s es = some (rs, u) ∧ Trace A a es rs b ∧ R u b := by
  induction es generalizing s a with
  | nil => exact ⟨[], s, a, rfl, .nil a, hR⟩
  | cons e es ih =>
    obtain ⟨r, t, b, hst, hab, ht⟩ := hstep s a e hR hG.1
    obtain ⟨rs, u, c, hrun, htrace, hu⟩ := ih ht (hG.2 r t hst)
    exact ⟨r :: rs, u, c, exec_cons_eq_some.mpr ⟨r, t, rs, hst, hrun, rfl⟩,
      .cons hab htrace, hu⟩

/-- **The lockstep rule.** If related states answer a guarded event and a like one alike and stay
related, a guarded run from the one has the same replies as a run of like events from the other. -/
theorem exec_lockstep {Like : ε → ε → Prop} (R : σ → σ → Prop)
    (hstep : ∀ s s' e e', R s s' → G s e → Like e e' →
      ∃ r t t', step s e = some (r, t) ∧ step s' e' = some (r, t') ∧ R t t')
    {s s' : σ} {es es' : List ε} (hR : R s s') (hG : Guarded step G s es)
    (hlike : List.Forall₂ Like es es') :
    ∃ rs u u', exec step s es = some (rs, u) ∧ exec step s' es' = some (rs, u') ∧ R u u' := by
  induction hlike generalizing s s' with
  | nil => exact ⟨[], s, s', rfl, rfl, hR⟩
  | cons hee' _ ih =>
    obtain ⟨r, t, t', hst, hst', ht⟩ := hstep s s' _ _ hR hG.1 hee'
    obtain ⟨rs, u, u', hrun, hrun', hu⟩ := ih ht (hG.2 r t hst)
    exact ⟨r :: rs, u, u', exec_cons_eq_some.mpr ⟨r, t, rs, hst, hrun, rfl⟩,
      exec_cons_eq_some.mpr ⟨r, t', rs, hst', hrun', rfl⟩, hu⟩

/-- **The forward rule.** If every guarded step of a state is a step, with the same reply, of each
state related to it, and the two stay related, then every guarded run is one of each related
state. -/
theorem exec_forward (R : σ → σ → Prop)
    (hstep : ∀ s s' e r t, R s s' → G s e → step s e = some (r, t) →
      ∃ t', step s' e = some (r, t') ∧ R t t')
    {s s' u : σ} {es : List ε} {rs : List ρ} (hR : R s s') (hG : Guarded step G s es)
    (hrun : exec step s es = some (rs, u)) : ∃ u', exec step s' es = some (rs, u') ∧ R u u' := by
  induction es generalizing s s' rs with
  | nil =>
    cases hrun
    exact ⟨s', rfl, hR⟩
  | cons e es ih =>
    obtain ⟨r, t, rs', hst, hrest, rfl⟩ := exec_cons_eq_some.mp hrun
    obtain ⟨t', hst', ht⟩ := hstep s s' e r t hR hG.1 hst
    obtain ⟨u', hrun', hu⟩ := ih ht (hG.2 r t hst) hrest
    exact ⟨u', exec_cons_eq_some.mpr ⟨r, t', rs', hst', hrun', rfl⟩, hu⟩

/-- **The agreement rule.** Two systems that are never stuck run side by side. If from related
states their replies agree exactly on the events that satisfy the condition, and on these they stay
related, then the replies of a run all agree exactly if its events all satisfy the condition. -/
theorem exec_agrees_iff {ρ' : Type*} {step' : α → ε → Option (ρ' × α)} (R : σ → α → Prop)
    {Q : ρ → ρ' → Prop}
    (hstep : ∀ s a e, R s a → ∃ r t r' b, step s e = some (r, t) ∧ step' a e = some (r', b) ∧
      (Q r r' ↔ G s e) ∧ (G s e → R t b))
    {s : σ} {a : α} {es : List ε} (hR : R s a) :
    (∃ rs u rs' b, exec step s es = some (rs, u) ∧ exec step' a es = some (rs', b) ∧
      List.Forall₂ Q rs rs') ↔ Guarded step G s es := by
  induction es generalizing s a with
  | nil => exact iff_of_true ⟨[], s, [], a, rfl, rfl, .nil⟩ trivial
  | cons e es ih =>
    obtain ⟨r, t, r', b, hst, hst', hagree, hnext⟩ := hstep s a e hR
    constructor
    · rintro ⟨rs, u, rs', c, hrun, hrun', hall⟩
      obtain ⟨r₁, t₁, rs₁, hst₁, hrest, rfl⟩ := exec_cons_eq_some.mp hrun
      obtain ⟨r₂, t₂, rs₂, hst₂, hrest', rfl⟩ := exec_cons_eq_some.mp hrun'
      cases hst.symm.trans hst₁
      cases hst'.symm.trans hst₂
      obtain ⟨hhead, htail⟩ := List.forall₂_cons.mp hall
      have hguard := hagree.mp hhead
      refine ⟨hguard, fun r₃ t₃ hst₃ => ?_⟩
      cases hst.symm.trans hst₃
      exact (ih (hnext hguard)).mp ⟨rs₁, u, rs₂, c, hrest, hrest', htail⟩
    · rintro ⟨hguard, hG⟩
      obtain ⟨rs, u, rs', c, hrun, hrun', hall⟩ := (ih (hnext hguard)).mpr (hG r t hst)
      exact ⟨r :: rs, u, r' :: rs', c, exec_cons_eq_some.mpr ⟨r, t, rs, hst, hrun, rfl⟩,
        exec_cons_eq_some.mpr ⟨r', b, rs', hst', hrun', rfl⟩, .cons (hagree.mpr hguard) hall⟩

/-- The replies to those events of a run that satisfy `own`. -/
def repliesOf (own : ε → Bool) (es : List ε) (rs : List ρ) : List ρ :=
  ((es.zip rs).filter fun x => own x.1).map Prod.snd

/-- **The unwinding rule.** Two runs are compared, of which the second has only those events that
satisfy `own`, each replaced by a like one. If events that do not satisfy `own` do not leave the
relation between the states, and like events that do have like replies and keep it, then the replies
to the events that satisfy `own` are alike in the two runs. -/
theorem exec_unwinding {own : ε → Bool} {Like : ε → ε → Prop} (R : σ → σ → Prop) {A : ρ → ρ → Prop}
    (hother : ∀ s s' e r t, R s s' → G s e → own e = false → step s e = some (r, t) → R t s')
    (hown : ∀ s s' e e', R s s' → G s e → own e = true → Like e e' →
      ∃ r t r' t', step s e = some (r, t) ∧ step s' e' = some (r', t') ∧ A r r' ∧ R t t')
    {s s' u : σ} {es es' : List ε} {rs : List ρ} (hR : R s s') (hG : Guarded step G s es)
    (hrun : exec step s es = some (rs, u)) (hlike : List.Forall₂ Like (es.filter own) es') :
    ∃ rs' u', exec step s' es' = some (rs', u') ∧ List.Forall₂ A (repliesOf own es rs) rs' ∧
      R u u' := by
  induction es generalizing s s' es' rs with
  | nil =>
    cases hrun
    cases hlike
    exact ⟨[], s', rfl, .nil, hR⟩
  | cons e es ih =>
    obtain ⟨r, t, rs, hst, hrest, rfl⟩ := exec_cons_eq_some.mp hrun
    cases he : own e with
    | false =>
      rw [List.filter_cons_of_neg (by simp [he])] at hlike
      have hkeep : repliesOf own (e :: es) (r :: rs) = repliesOf own es rs := by
        simp [repliesOf, he]
      rw [hkeep]
      exact ih (hother s s' e r t hR hG.1 he hst) (hG.2 r t hst) hrest hlike
    | true =>
      rw [List.filter_cons_of_pos he] at hlike
      obtain ⟨e', es', hee', hees', rfl⟩ := List.forall₂_cons_left_iff.mp hlike
      obtain ⟨r₁, t₁, r', t', hst₁, hst', hA, hR'⟩ := hown s s' e e' hR hG.1 he hee'
      rw [hst] at hst₁
      cases hst₁
      obtain ⟨rs', u', hrun', hall, hu⟩ := ih hR' (hG.2 r t hst) hrest hees'
      have hkeep : repliesOf own (e :: es) (r :: rs) = r :: repliesOf own es rs := by
        simp [repliesOf, he]
      rw [hkeep]
      exact ⟨r' :: rs', u', exec_cons_eq_some.mpr ⟨r', t', rs', hst', hrun', rfl⟩, .cons hA hall,
        hu⟩

end ExKernel.Transition
