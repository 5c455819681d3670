import Udb.ForStd.Trace

/-!
# Resources and who answers for them

Tasks take resources that are free, and give them back. A ledger says which resources
are live, and which task answers for which. Tasks that drop what they hold leave
live resources that nobody gives back: `covered_iff` says that this is the only way,
and that what is left behind stays.
-/

namespace Ledgers

open Steps

/-- The resources that are live, and those that each task has taken. -/
@[ext] structure Ledger (T R : Type) where
  held : T → Set R
  live : Set R

/-- What one step does. -/
inductive Entry (T R : Type) where
  | keep
  /-- Task `t` takes new resources. -/
  | take (t : T) (new : Set R)
  /-- It gives some of its resources back. -/
  | free (t : T) (old : Set R)
  /-- Some tasks give nothing back, and hold nothing any more. -/
  | drop (ts : Set T)

variable {T R : Type} [DecidableEq T] {L : Ledger T R} {en : Entry T R} {t t' : T} {r : R}

namespace Ledger

def post (L : Ledger T R) : Entry T R → Ledger T R
  | .keep => L
  | .take t new => ⟨Function.update L.held t (L.held t ∪ new), L.live ∪ new⟩
  | .free t old => ⟨Function.update L.held t (L.held t \ old), L.live \ old⟩
  | .drop ts => ⟨fun t => {r | r ∈ L.held t ∧ t ∉ ts}, L.live⟩

/-- New resources were not live before, old ones are the task's own, and what is dropped is
    something. -/
def Valid (L : Ledger T R) : Entry T R → Prop
  | .keep => True
  | .take _ new => Disjoint new L.live
  | .free t old => old ⊆ L.held t
  | .drop ts => ∃ t ∈ ts, (L.held t).Nonempty

/-- What is held is live, and held once. -/
structure Sound (L : Ledger T R) : Prop where
  live : ∀ t, L.held t ⊆ L.live
  own : ∀ t t' r, r ∈ L.held t → r ∈ L.held t' → t = t'

/-- Somebody answers for all that is live. -/
def Covered (L : Ledger T R) : Prop := ∀ r ∈ L.live, ∃ t, r ∈ L.held t

/-- What a task holds behind a step of task `t`. -/
theorem mem_update {held : T → Set R} {A : Set R} (h : r ∈ Function.update held t A t') :
    t' = t ∧ r ∈ A ∨ t' ≠ t ∧ r ∈ held t' := by
  by_cases ht : t' = t
  · subst ht
    rw [Function.update_self] at h
    exact .inl ⟨rfl, h⟩
  · rw [Function.update_of_ne ht] at h
    exact .inr ⟨ht, h⟩

/-- A valid entry keeps the ledger sound. -/
theorem Sound.post (h : L.Sound) (hv : L.Valid en) : (L.post en).Sound := by
  cases en with
  | keep => exact h
  | take t new =>
    -- Nobody holds what is taken.
    have hnew : ∀ t' r, r ∈ L.held t' → r ∉ new := fun t' r hr hn =>
      Set.disjoint_left.mp hv hn (h.live t' hr)
    have hcases : ∀ t' r, r ∈ (L.post (.take t new)).held t' →
        r ∈ L.held t' ∨ t' = t ∧ r ∈ new := by
      intro t' r hr
      rcases mem_update hr with ⟨ht, hr⟩ | ⟨-, hr⟩
      · rw [← ht] at hr
        exact hr.imp_right (⟨ht, ·⟩)
      · exact .inl hr
    constructor
    · intro t' r hr
      rcases hcases t' r hr with hr | ⟨-, hr⟩
      · exact .inl (h.live t' hr)
      · exact .inr hr
    · intro t₁ t₂ r h₁ h₂
      rcases hcases t₁ r h₁ with hr₁ | ⟨ht₁, hn₁⟩ <;> rcases hcases t₂ r h₂ with hr₂ | ⟨ht₂, hn₂⟩
      · exact h.own t₁ t₂ r hr₁ hr₂
      · exact absurd hn₂ (hnew t₁ r hr₁)
      · exact absurd hn₁ (hnew t₂ r hr₂)
      · rw [ht₁, ht₂]
  | free t old =>
    have hold : ∀ t' r, r ∈ (L.post (.free t old)).held t' → r ∈ L.held t' := by
      intro t' r hr
      rcases mem_update hr with ⟨rfl, hr⟩ | ⟨-, hr⟩
      · exact hr.1
      · exact hr
    constructor
    · intro t' r hr
      refine ⟨h.live t' (hold t' r hr), fun hgone => ?_⟩
      rcases mem_update hr with ⟨-, hr⟩ | ⟨hne, hr⟩
      · exact hr.2 hgone
      · exact hne (h.own t' t r hr (hv hgone))
    · exact fun t₁ t₂ r h₁ h₂ => h.own t₁ t₂ r (hold t₁ r h₁) (hold t₂ r h₂)
  | drop ts =>
    constructor
    · exact fun t r hr => h.live t hr.1
    · exact fun t₁ t₂ r h₁ h₂ => h.own t₁ t₂ r h₁.1 h₂.1

/-- A step keeps the ledger covered unless it drops something. -/
theorem covered_post_iff (h : L.Sound) (hc : L.Covered) (hv : L.Valid en) :
    (L.post en).Covered ↔ ∀ ts, en ≠ .drop ts := by
  cases en with
  | keep => exact iff_of_true hc (by simp)
  | take t new =>
    refine iff_of_true (fun r hr => ?_) (by simp)
    rcases hr with hr | hr
    · obtain ⟨t', hheld⟩ := hc r hr
      refine ⟨t', ?_⟩
      by_cases ht : t' = t
      · subst ht
        simp [Ledger.post, hheld]
      · simp [Ledger.post, ht, hheld]
    · exact ⟨t, by simp [Ledger.post, hr]⟩
  | free t old =>
    refine iff_of_true (fun r hr => ?_) (by simp)
    obtain ⟨t', hheld⟩ := hc r hr.1
    refine ⟨t', ?_⟩
    by_cases ht : t' = t
    · subst ht
      have hrest : r ∉ old := hr.2
      simp [Ledger.post, hheld, hrest]
    · simp [Ledger.post, ht, hheld]
  | drop ts =>
    -- What was held is still there, and its only owner has let it go.
    refine iff_of_false (fun hcov => ?_) (by simp)
    obtain ⟨t, ht, r, hr⟩ := hv
    obtain ⟨t', hheld, hkept⟩ := hcov r (h.live t hr)
    obtain rfl := h.own t' t r hheld hr
    exact hkept ht

/-- What nobody answers for is never given back. -/
theorem not_covered_post (hc : ¬ L.Covered) (hv : L.Valid en) : ¬ (L.post en).Covered := by
  obtain ⟨r, hr⟩ := not_forall.mp hc
  obtain ⟨hlive, hnone⟩ := Classical.not_imp.mp hr
  have hfree : ∀ t, r ∉ L.held t := not_exists.mp hnone
  intro hcov
  -- A step takes what is not there and gives back what is held: it can do neither to `r`.
  have hlost : r ∈ (L.post en).live → ∃ t, r ∈ (L.post en).held t := hcov r
  cases en with
  | keep => exact hnone (hlost hlive)
  | take t new =>
    obtain ⟨t', ht'⟩ := hlost (.inl hlive)
    rcases mem_update ht' with ⟨-, ht' | ht'⟩ | ⟨-, ht'⟩
    · exact hfree t ht'
    · exact Set.disjoint_left.mp hv ht' hlive
    · exact hfree t' ht'
  | free t old =>
    obtain ⟨t', ht'⟩ := hlost ⟨hlive, fun hgone => hfree t (hv hgone)⟩
    rcases mem_update ht' with ⟨-, ht'⟩ | ⟨-, ht'⟩
    · exact hfree t ht'.1
    · exact hfree t' ht'
  | drop ts =>
    obtain ⟨t', ht', -⟩ := hlost hlive
    exact hfree t' ht'

end Ledger

section Runs

variable {σ ε : Type} {step : σ → ε → σ → Prop} (J : σ → Prop) (ledger : σ → Ledger T R)
  (drops : σ → ε → Prop)

/-- Each step is an entry of the ledger, and drops something where its event says so. -/
structure Follows (step : σ → ε → σ → Prop) : Prop where
  keeps : ∀ s e s', J s → step s e s' → J s'
  entry : ∀ s e s', J s → step s e s' → ∃ en, (ledger s).Valid en ∧
    ledger s' = (ledger s).post en ∧ (drops s e ↔ ∃ ts, en = .drop ts)

variable {J ledger drops} {s s' : σ} {tr : List (σ × ε)}

/-- A run leaves something behind exactly if one of its steps drops something. -/
theorem Follows.covered_iff (hf : Follows J ledger drops step) (ht : Trace step s tr s')
    (hJ : J s) (hs : (ledger s).Sound) (hc : (ledger s).Covered) :
    (ledger s').Covered ↔ ∀ p ∈ tr, ¬ drops p.1 p.2 := by
  refine ht.final_iff (J := fun s => J s ∧ (ledger s).Sound) (I := fun s => (ledger s).Covered)
    (C := fun s e => ¬ drops s e) ?_ ?_ ?_ ⟨hJ, hs⟩ hc
  · rintro s e s' ⟨hj, hsound⟩ hstep
    obtain ⟨en, hv, hpost, -⟩ := hf.entry s e s' hj hstep
    rw [hpost]
    exact ⟨hf.keeps s e s' hj hstep, hsound.post hv⟩
  · rintro s e s' ⟨hj, hsound⟩ hcov hstep
    obtain ⟨en, hv, hpost, hdrops⟩ := hf.entry s e s' hj hstep
    rw [hpost, Ledger.covered_post_iff hsound hcov hv, hdrops, not_exists]
  · rintro s e s' ⟨hj, -⟩ hcov hstep
    obtain ⟨en, hv, hpost, -⟩ := hf.entry s e s' hj hstep
    rw [hpost]
    exact Ledger.not_covered_post hcov hv

end Runs

end Ledgers
