import ExKernel.Lib.Transition

/-!
# Systems of independent components

The state of a system has many parts, and every event is about one of them: it does to this part
what it would do to it alone, with the same reply, and leaves the others as they are. Then a run of
the system is a run of every component, by itself, over its own events.

The parts need not be stored apart. What they are is given by a function of the state, and that an
event leaves the others may rest on an invariant.

## Main results

* `Transition.exec_components`: the runs of a system and those of its components.
-/

namespace ExKernel.Transition

variable {σ ε ρ α κ : Type*} [DecidableEq κ] {step : σ → ε → Option (ρ × σ)}
  {pstep : α → ε → Option (ρ × α)} {part : κ → σ → α} {comp : ε → κ}

/-- The events of a component. -/
def eventsOf (comp : ε → κ) (k : κ) (es : List ε) : List ε := es.filter fun e => comp e = k

theorem eventsOf_cons_self (e : ε) (es : List ε) :
    eventsOf comp (comp e) (e :: es) = e :: eventsOf comp (comp e) es :=
  List.filter_cons_of_pos (decide_eq_true rfl)

theorem eventsOf_cons_of_ne {k : κ} {e : ε} (h : k ≠ comp e) (es : List ε) :
    eventsOf comp k (e :: es) = eventsOf comp k es :=
  List.filter_cons_of_neg (by simpa using h.symm)

variable (pstep part comp) in
/-- **The component rule.** If every event does to its own part what a component does by itself, and
leaves the other parts, then there is a run of the system exactly if every component has a run over
its own events; and the replies to these events and the part that is left are those of the
component. -/
theorem exec_components (I : σ → Prop)
    (hself : ∀ s e, I s →
      (step s e).map (fun out => (out.1, part (comp e) out.2)) = pstep (part (comp e) s) e)
    (hother : ∀ s e r t, I s → step s e = some (r, t) →
      I t ∧ ∀ k, k ≠ comp e → part k t = part k s)
    {s : σ} (hs : I s) (es : List ε) :
    ((∃ rs u, exec step s es = some (rs, u)) ↔
      ∀ k, ∃ rs b, exec pstep (part k s) (eventsOf comp k es) = some (rs, b)) ∧
    ∀ rs u, exec step s es = some (rs, u) → I u ∧ ∀ k,
      exec pstep (part k s) (eventsOf comp k es) =
        some (repliesOf (fun e => comp e = k) es rs, part k u) := by
  induction es generalizing s with
  | nil =>
    refine ⟨iff_of_true ⟨[], s, rfl⟩ fun k => ⟨[], part k s, rfl⟩, fun rs u hrun => ?_⟩
    cases hrun
    exact ⟨hs, fun k => rfl⟩
  | cons e es ih =>
    constructor
    · constructor
      · rintro ⟨rs, u, hrun⟩ k
        obtain ⟨r, t, rs, hst, hrest, rfl⟩ := exec_cons_eq_some.mp hrun
        obtain ⟨ht, hkeep⟩ := hother s e r t hs hst
        obtain ⟨rs', b, hpart⟩ := (ih ht).1.mp ⟨rs, u, hrest⟩ k
        by_cases hk : k = comp e
        · subst hk
          have hpst := hself s e hs
          rw [hst, Option.map_some] at hpst
          rw [eventsOf_cons_self]
          exact ⟨r :: rs', b, exec_cons_eq_some.mpr ⟨r, _, rs', hpst.symm, hpart, rfl⟩⟩
        · rw [eventsOf_cons_of_ne hk, ← hkeep k hk]
          exact ⟨rs', b, hpart⟩
      · intro hall
        obtain ⟨rs₁, b₁, hfirst⟩ := hall (comp e)
        rw [eventsOf_cons_self] at hfirst
        obtain ⟨r, b, rs', hpst, -, -⟩ := exec_cons_eq_some.mp hfirst
        rw [← hself s e hs] at hpst
        obtain ⟨⟨r', t⟩, hst, heq⟩ := Option.map_eq_some_iff.mp hpst
        obtain ⟨ht, hkeep⟩ := hother s e r' t hs hst
        obtain ⟨rs, u, hrest⟩ := (ih ht).1.mpr fun k => by
          obtain ⟨rs₂, b₂, hpart⟩ := hall k
          by_cases hk : k = comp e
          · subst hk
            rw [eventsOf_cons_self] at hpart
            obtain ⟨r₃, b₃, rs₃, hpst', hpart', -⟩ := exec_cons_eq_some.mp hpart
            have hsame := hself s e hs
            rw [hst, Option.map_some, hpst'] at hsame
            cases hsame
            exact ⟨rs₃, b₂, hpart'⟩
          · rw [eventsOf_cons_of_ne hk, ← hkeep k hk] at hpart
            exact ⟨rs₂, b₂, hpart⟩
        exact ⟨r' :: rs, u, exec_cons_eq_some.mpr ⟨r', t, rs, hst, hrest, rfl⟩⟩
    · intro rs u hrun
      obtain ⟨r, t, rs, hst, hrest, rfl⟩ := exec_cons_eq_some.mp hrun
      obtain ⟨ht, hkeep⟩ := hother s e r t hs hst
      obtain ⟨hu, hparts⟩ := (ih ht).2 rs u hrest
      refine ⟨hu, fun k => ?_⟩
      have hpart := hparts k
      by_cases hk : k = comp e
      · subst hk
        have hpst := hself s e hs
        rw [hst, Option.map_some] at hpst
        have hreplies : repliesOf (fun e' => comp e' = comp e) (e :: es) (r :: rs) =
            r :: repliesOf (fun e' => comp e' = comp e) es rs := by
          simp [repliesOf]
        rw [eventsOf_cons_self, hreplies]
        exact exec_cons_eq_some.mpr ⟨r, _, _, hpst.symm, hpart, rfl⟩
      · have hreplies : repliesOf (fun e' => comp e' = k) (e :: es) (r :: rs) =
            repliesOf (fun e' => comp e' = k) es rs := by
          simp [repliesOf, Ne.symm hk]
        rw [eventsOf_cons_of_ne hk, hreplies, ← hkeep k hk]
        exact hpart

end ExKernel.Transition
