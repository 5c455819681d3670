import Mathlib

/-!
# Traces of a step relation

A trace lists the events of a run, each with the state that it found. An invariant is
an induction over it. The two main results are about properties that some steps break:
`always_iff` gives the steps that a run must not take for the property to hold in all
its states, and `final_iff` those for a property that cannot be got back.
-/

namespace Steps

variable {σ ε : Type} (step : σ → ε → σ → Prop)

/-- A run from the first state to the last. -/
inductive Trace : σ → List (σ × ε) → σ → Prop where
  | nil (s : σ) : Trace s [] s
  | cons {s s' s'' : σ} {e : ε} {tr : List (σ × ε)} (h : step s e s') (ht : Trace s' tr s'') :
      Trace s ((s, e) :: tr) s''

variable {step}

/-- What every step keeps holds of every state. -/
theorem Trace.invariant {J : σ → Prop} (hstep : ∀ s e s', J s → step s e s' → J s')
    {s s' : σ} {tr : List (σ × ε)} (ht : Trace step s tr s') (h : J s) :
    (∀ p ∈ tr, J p.1) ∧ J s' := by
  induction ht with
  | nil s => exact ⟨by simp, h⟩
  | cons hs _ ih =>
    obtain ⟨hall, hlast⟩ := ih (hstep _ _ _ h hs)
    exact ⟨List.forall_mem_cons.mpr ⟨h, hall⟩, hlast⟩

/-- What is kept by the steps that meet `C` holds behind a run of such steps. -/
theorem Trace.invariant_of {J : σ → Prop} {C : ε → Prop}
    (hstep : ∀ s e s', J s → step s e s' → C e → J s')
    {s s' : σ} {tr : List (σ × ε)} (ht : Trace step s tr s') (hC : ∀ p ∈ tr, C p.2) (h : J s) :
    J s' := by
  induction ht with
  | nil s => exact h
  | cons hs _ ih =>
    obtain ⟨hfirst, hrest⟩ := List.forall_mem_cons.mp hC
    exact ih hrest (hstep _ _ _ h hs hfirst)

/-- If a step keeps `I` exactly under the condition `C`, then `I` holds in all states of a run
    exactly if the condition holds of all its steps. -/
theorem Trace.always_iff {J I : σ → Prop} {C : σ → ε → Prop}
    (hstep : ∀ s e s', J s → step s e s' → J s')
    (hiff : ∀ s e s', J s → I s → step s e s' → (I s' ↔ C s e))
    {s s' : σ} {tr : List (σ × ε)} (ht : Trace step s tr s') (hJ : J s) (hI : I s) :
    ((∀ p ∈ tr, I p.1) ∧ I s') ↔ ∀ p ∈ tr, C p.1 p.2 := by
  induction ht with
  | nil s => simp [hI]
  | @cons s s' s'' e tr hs ht ih =>
    have hC := hiff s e s' hJ hI hs
    have hJ' := hstep s e s' hJ hs
    rw [List.forall_mem_cons, List.forall_mem_cons]
    constructor
    · rintro ⟨⟨-, hall⟩, hlast⟩
      -- The next state is in the trace, or it is the last one.
      have hI' : I s' := by
        cases ht with
        | nil => exact hlast
        | cons => exact hall _ List.mem_cons_self
      exact ⟨hC.mp hI', (ih hJ' hI').mp ⟨hall, hlast⟩⟩
    · rintro ⟨h₀, hrest⟩
      have hI' := hC.mpr h₀
      obtain ⟨hall, hlast⟩ := (ih hJ' hI').mpr hrest
      exact ⟨⟨hI, hall⟩, hlast⟩

/-- If moreover `I` is never got back, the last state is enough to tell. -/
theorem Trace.final_iff {J I : σ → Prop} {C : σ → ε → Prop}
    (hstep : ∀ s e s', J s → step s e s' → J s')
    (hiff : ∀ s e s', J s → I s → step s e s' → (I s' ↔ C s e))
    (hlost : ∀ s e s', J s → ¬ I s → step s e s' → ¬ I s')
    {s s' : σ} {tr : List (σ × ε)} (ht : Trace step s tr s') (hJ : J s) (hI : I s) :
    I s' ↔ ∀ p ∈ tr, C p.1 p.2 := by
  rw [← ht.always_iff hstep hiff hJ hI]
  refine ⟨fun hlast => ⟨?_, hlast⟩, And.right⟩
  -- A state without it would be followed by such states only.
  clear hI
  induction ht with
  | nil s => simp
  | @cons s s' s'' e tr hs ht ih =>
    have hJ' := hstep s e s' hJ hs
    have hI : I s := by
      by_contra hs₀
      have hinv := ht.invariant (J := fun s => J s ∧ ¬ I s)
        (fun a e b hab hst => ⟨hstep a e b hab.1 hst, hlost a e b hab.1 hab.2 hst⟩)
        ⟨hJ', hlost s e s' hJ hs₀ hs⟩
      exact hinv.2.2 hlast
    exact List.forall_mem_cons.mpr ⟨hI, ih hJ' hlast⟩

end Steps
