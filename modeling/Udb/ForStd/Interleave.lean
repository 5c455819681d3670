import Mathlib

/-!
# Interleaved sessions

A machine takes events one after the other. Each event has an output, or stops the
machine for good. Several parties share a machine when each event is the event of
one of them, and what a party sees of a run is the outputs of its own events.

The main results compare an interleaving with what one party does alone. All rest
on a relation between the shared state and the state of the party's own run, which
the party's own events carry along and the events of the others keep. The first
goes from the interleaving to the run of one party, the second from that run back
to an interleaving in which the others are handled, and the third from the runs of
two parties, each alone, to their interleaving.
-/

namespace Interleave

variable {σ ε ο φ : Type}

/-- A machine: the new state and the output of an event, or a fault. -/
abbrev Machine (σ ε ο φ : Type) := ε → σ → Except φ (σ × ο)

variable (m : Machine σ ε ο φ)

/-! ## Runs -/

/-- The state after all events, and their outputs. -/
def run : List ε → σ → Except φ (σ × List ο)
  | [], s => .ok (s, [])
  | e :: es, s =>
    match m e s with
    | .error f => .error f
    | .ok (s', o) =>
      match run es s' with
      | .error f => .error f
      | .ok (s'', os) => .ok (s'', o :: os)

/-- The outputs up to the first fault. -/
def trace : List ε → σ → List ο
  | [], _ => []
  | e :: es, s =>
    match m e s with
    | .error _ => []
    | .ok (s', o) => o :: trace es s'

/-- `P` holds of each event and the state it finds. -/
def Along (P : ε → σ → Prop) : List ε → σ → Prop
  | [], _ => True
  | e :: es, s => P e s ∧ ∀ s' o, m e s = .ok (s', o) → Along P es s'

/-- The outputs of the events that `own` selects. -/
def view (own : ε → Bool) : List ε → List ο → List ο
  | e :: es, o :: os => if own e then o :: view own es os else view own es os
  | _, _ => []

variable {m}

/-- A run takes its first step and goes on. -/
theorem run_cons_eq_ok {e : ε} {es : List ε} {s s'' : σ} {outs : List ο} :
    run m (e :: es) s = .ok (s'', outs) ↔
      ∃ s' o os, m e s = .ok (s', o) ∧ run m es s' = .ok (s'', os) ∧ outs = o :: os := by
  rw [run]
  cases he : m e s with
  | error f => simp
  | ok p =>
    obtain ⟨s', o⟩ := p
    dsimp only
    cases hr : run m es s' with
    | error f => simp [hr]
    | ok q =>
      obtain ⟨t, os⟩ := q
      simp only [Except.ok.injEq, Prod.mk.injEq]
      constructor
      · rintro ⟨rfl, rfl⟩
        exact ⟨s', o, os, ⟨rfl, rfl⟩, hr, rfl⟩
      · rintro ⟨s₁, o₁, os₁, ⟨rfl, rfl⟩, hr₁, rfl⟩
        rw [hr, Except.ok.injEq, Prod.mk.injEq] at hr₁
        exact ⟨hr₁.1, by rw [hr₁.2]⟩

/-- So does a trace. -/
theorem trace_cons {e : ε} {es : List ε} {s s' : σ} {o : ο} (h : m e s = .ok (s', o)) :
    trace m (e :: es) s = o :: trace m es s' := by
  rw [trace, h]

/-- What holds of every event in every state holds along every run. -/
theorem Along.of_forall {P : ε → σ → Prop} {es : List ε} (h : ∀ e ∈ es, ∀ s, P e s) (s : σ) :
    Along m P es s := by
  induction es generalizing s with
  | nil => trivial
  | cons e es ih =>
    refine ⟨h e List.mem_cons_self s, fun s' o _ => ?_⟩
    exact ih (fun e' he' => h e' (List.mem_cons_of_mem _ he')) s'

/-- A weaker condition holds along the run too. -/
theorem Along.imp {P Q : ε → σ → Prop} {es : List ε} {s : σ} (h : Along m P es s)
    (hPQ : ∀ e ∈ es, ∀ s, P e s → Q e s) : Along m Q es s := by
  induction es generalizing s with
  | nil => trivial
  | cons e es ih =>
    obtain ⟨h₀, hrest⟩ := h
    refine ⟨hPQ e List.mem_cons_self s h₀, fun s' o he => ?_⟩
    exact ih (hrest s' o he) fun e' he' => hPQ e' (List.mem_cons_of_mem _ he')

/-! ## From an interleaving to one party -/

section Alone

variable {own : ε → Bool} {safe : ε → σ → Prop} {R : σ → σ → Prop}

/-- A party that gets the same answers from related states, and whose part of the state the
    others leave related, sees in the interleaving what it sees alone. -/
theorem run_filter
    (hown : ∀ e s s' t o, own e = true → safe e s → R s t → m e s = .ok (s', o) →
      ∃ t', m e t = .ok (t', o) ∧ R s' t')
    (hother : ∀ e s s' t o, own e = false → safe e s → R s t → m e s = .ok (s', o) → R s' t)
    {es : List ε} {s s' t : σ} {outs : List ο} (hR : R s t) (hsafe : Along m safe es s)
    (hrun : run m es s = .ok (s', outs)) :
    ∃ t', run m (es.filter own) t = .ok (t', view own es outs) ∧ R s' t' := by
  -- Induction on the interleaving. The other run takes a step only at the party's own events.
  induction es generalizing s t outs with
  | nil =>
    simp only [run, Except.ok.injEq, Prod.mk.injEq] at hrun
    obtain ⟨rfl, rfl⟩ := hrun
    exact ⟨t, rfl, hR⟩
  | cons e es ih =>
    obtain ⟨s₁, o, os, he, hr, rfl⟩ := run_cons_eq_ok.mp hrun
    obtain ⟨hsafe₀, hsafe⟩ := hsafe
    cases htag : own e with
    | true =>
      obtain ⟨t₁, het, hR₁⟩ := hown e s s₁ t o htag hsafe₀ hR he
      obtain ⟨t', hrt, hR'⟩ := ih hR₁ (hsafe s₁ o he) hr
      refine ⟨t', ?_, hR'⟩
      rw [List.filter_cons_of_pos htag, view, if_pos htag]
      exact run_cons_eq_ok.mpr ⟨t₁, o, _, het, hrt, rfl⟩
    | false =>
      obtain ⟨t', hrt, hR'⟩ := ih (hother e s s₁ t o htag hsafe₀ hR he) (hsafe s₁ o he) hr
      refine ⟨t', ?_, hR'⟩
      have hno : ¬ own e = true := by simp [htag]
      rwa [List.filter_cons_of_neg hno, view, if_neg hno]

end Alone

/-! ## From one party to an interleaving -/

/-- The events of the others are handled, in every state that the run comes to. -/
def OthersHandled (m : Machine σ ε ο φ) (own : ε → Bool) (es : List ε) (s : σ) : Prop :=
  Along m (fun e s => own e = false → ∃ p, m e s = .ok p) es s

/-- In a run that comes to its end everything is handled. -/
theorem OthersHandled.of_run {own : ε → Bool} {es : List ε} {s s' : σ} {outs : List ο}
    (h : run m es s = .ok (s', outs)) : OthersHandled m own es s := by
  induction es generalizing s outs with
  | nil => trivial
  | cons e es ih =>
    obtain ⟨s₁, o, os, hes, hrest, -⟩ := run_cons_eq_ok.mp h
    refine ⟨fun _ => ⟨_, hes⟩, fun s₂ o₂ hes₂ => ?_⟩
    obtain ⟨rfl, -⟩ := Prod.mk.inj (Except.ok.inj (hes.symm.trans hes₂))
    exact ih hrest

section Within

variable {own : ε → Bool} {safe : ε → σ → Prop} {R : σ → σ → Prop}

/-- A party whose session runs through alone also runs through among others that are handled, and
    sees what it sees alone. -/
theorem run_unfilter
    (hown : ∀ e s t t' o, own e = true → safe e s → R s t → m e t = .ok (t', o) →
      ∃ s', m e s = .ok (s', o) ∧ R s' t')
    (hother : ∀ e s s' t o, own e = false → safe e s → R s t → m e s = .ok (s', o) → R s' t)
    {es : List ε} {s t t' : σ} {outs : List ο} (hR : R s t) (hsafe : Along m safe es s)
    (hothers : OthersHandled m own es s) (hrun : run m (es.filter own) t = .ok (t', outs)) :
    ∃ s' all, run m es s = .ok (s', all) ∧ view own es all = outs ∧ R s' t' := by
  -- Induction on the interleaving. A step of the party is taken because its own run takes it, a
  -- step of another because it is handled.
  induction es generalizing s t outs with
  | nil =>
    simp only [List.filter_nil, run, Except.ok.injEq, Prod.mk.injEq] at hrun
    obtain ⟨rfl, rfl⟩ := hrun
    exact ⟨s, [], rfl, rfl, hR⟩
  | cons e es ih =>
    obtain ⟨hsafe₀, hsafe⟩ := hsafe
    obtain ⟨hother₀, hothers⟩ := hothers
    cases htag : own e with
    | true =>
      rw [List.filter_cons_of_pos htag] at hrun
      obtain ⟨t₁, o, os, het, hrt, rfl⟩ := run_cons_eq_ok.mp hrun
      obtain ⟨s₁, hes, hR₁⟩ := hown e s t t₁ o htag hsafe₀ hR het
      obtain ⟨s', all, hrs, hview, hR'⟩ := ih hR₁ (hsafe s₁ o hes) (hothers s₁ o hes) hrt
      refine ⟨s', o :: all, run_cons_eq_ok.mpr ⟨s₁, o, all, hes, hrs, rfl⟩, ?_, hR'⟩
      rw [view, if_pos htag, hview]
    | false =>
      have hno : ¬ own e = true := by simp [htag]
      rw [List.filter_cons_of_neg hno] at hrun
      obtain ⟨⟨s₁, o⟩, hes⟩ := hother₀ htag
      obtain ⟨s', all, hrs, hview, hR'⟩ := ih (hother e s s₁ t o htag hsafe₀ hR hes)
        (hsafe s₁ o hes) (hothers s₁ o hes) hrun
      refine ⟨s', o :: all, run_cons_eq_ok.mpr ⟨s₁, o, all, hes, hrs, rfl⟩, ?_, hR'⟩
      rw [view, if_neg hno, hview]

end Within

/-! ## From two parties to their interleaving -/

section Both

variable {party : ε → Bool} {safe : ε → σ → Prop} {R : Bool → σ → σ → Prop}

/-- Two parties whose sessions run through alone also run through when they are interleaved, and
    each sees what it sees alone, if the answers depend on a party's part of the state only and
    the events of the other leave that part related. -/
theorem run_both
    (hown : ∀ b e s t t' o, party e = b → safe e s → R b s t → m e t = .ok (t', o) →
      ∃ s', m e s = .ok (s', o) ∧ R b s' t')
    (hother : ∀ b e s s' t o, party e = !b → safe e s → R b s t → m e s = .ok (s', o) → R b s' t)
    {es : List ε} {s : σ} {t t' : Bool → σ} {outs : Bool → List ο} (hR : ∀ b, R b s (t b))
    (hsafe : Along m safe es s)
    (hrun : ∀ b, run m (es.filter fun e => party e == b) (t b) = .ok (t' b, outs b)) :
    ∃ s' all, run m es s = .ok (s', all) ∧
      ∀ b, view (fun e => party e == b) es all = outs b ∧ R b s' (t' b) := by
  induction es generalizing s t outs with
  | nil =>
    refine ⟨s, [], rfl, fun b => ?_⟩
    have hb := hrun b
    simp only [List.filter_nil, run, Except.ok.injEq, Prod.mk.injEq] at hb
    exact ⟨hb.2, hb.1 ▸ hR b⟩
  | cons e es ih =>
    obtain ⟨hsafe₀, hsafe⟩ := hsafe
    -- The party of `e` has it at the front of its own run.
    have hfront := hrun (party e)
    rw [List.filter_cons_of_pos (by simp)] at hfront
    obtain ⟨t₁, o, os, het, hrt, hos⟩ := run_cons_eq_ok.mp hfront
    obtain ⟨s₁, hes, hR₁⟩ := hown (party e) e s (t (party e)) t₁ o rfl hsafe₀ (hR _) het
    have hrest : ∀ b, b ≠ party e →
        R b s₁ (t b) ∧ run m (es.filter fun e => party e == b) (t b) = .ok (t' b, outs b) := by
      intro b hb
      have hrb := hrun b
      rw [List.filter_cons_of_neg (by simpa using Ne.symm hb)] at hrb
      exact ⟨hother b e s s₁ (t b) o (by cases b <;> simp_all) hsafe₀ (hR b) hes, hrb⟩
    have hR' : ∀ b, R b s₁ (Function.update t (party e) t₁ b) := by
      intro b
      by_cases hb : b = party e
      · subst hb
        rwa [Function.update_self]
      · rw [Function.update_of_ne hb]
        exact (hrest b hb).1
    have hrun' : ∀ b, run m (es.filter fun e => party e == b) (Function.update t (party e) t₁ b) =
        .ok (t' b, Function.update outs (party e) os b) := by
      intro b
      by_cases hb : b = party e
      · subst hb
        rwa [Function.update_self, Function.update_self]
      · rw [Function.update_of_ne hb, Function.update_of_ne hb]
        exact (hrest b hb).2
    obtain ⟨s', all, hall, hview⟩ := ih hR' (hsafe s₁ o hes) hrun'
    refine ⟨s', o :: all, run_cons_eq_ok.mpr ⟨s₁, o, all, hes, hall, rfl⟩, fun b => ?_⟩
    obtain ⟨hv, hRb⟩ := hview b
    refine ⟨?_, hRb⟩
    by_cases hb : b = party e
    · subst hb
      rw [Function.update_self] at hv
      rw [view, if_pos (by simp), hv, hos]
    · rw [Function.update_of_ne hb] at hv
      rw [view, if_neg (by simpa using Ne.symm hb), hv]

end Both

/-! ## Two runs of the same events -/

section Beside

variable {own : ε → Bool} {safe : ε → σ → Prop} {R : σ → σ → Prop}

/-- What a party sees of a run, it also sees of a run of the same events from a related state in
    which the others are handled. -/
theorem run_beside
    (hown : ∀ e s s' t o, own e = true → safe e t → R s t → m e s = .ok (s', o) →
      ∃ t', m e t = .ok (t', o) ∧ R s' t')
    (hother : ∀ e s s' t t' o o', own e = false → R s t → m e s = .ok (s', o) →
      m e t = .ok (t', o') → R s' t')
    {es : List ε} {s s' t : σ} {outs : List ο} (hR : R s t) (hsafe : Along m safe es t)
    (hothers : OthersHandled m own es t) (hs : run m es s = .ok (s', outs)) :
    ∃ t' outs', run m es t = .ok (t', outs') ∧ view own es outs = view own es outs' ∧ R s' t' := by
  induction es generalizing s t outs with
  | nil =>
    simp only [run, Except.ok.injEq, Prod.mk.injEq] at hs
    obtain ⟨rfl, rfl⟩ := hs
    exact ⟨t, [], rfl, rfl, hR⟩
  | cons e es ih =>
    obtain ⟨s₁, o, os, hes, hrs, rfl⟩ := run_cons_eq_ok.mp hs
    obtain ⟨hsafe₀, hsafe⟩ := hsafe
    obtain ⟨hother₀, hothers⟩ := hothers
    cases htag : own e with
    | true =>
      -- One of its own: the second run takes the same step with the same output.
      obtain ⟨t₁, het, hR₁⟩ := hown e s s₁ t o htag hsafe₀ hR hes
      obtain ⟨t', outs', hrt, hview, hR'⟩ := ih hR₁ (hsafe t₁ o het) (hothers t₁ o het) hrs
      refine ⟨t', o :: outs', run_cons_eq_ok.mpr ⟨t₁, o, outs', het, hrt, rfl⟩, ?_, hR'⟩
      rw [view, view, if_pos htag, if_pos htag, hview]
    | false =>
      have hno : ¬ own e = true := by simp [htag]
      -- Another's: the second run handles it in its own way, and the outputs are not compared.
      obtain ⟨⟨t₁, o'⟩, het⟩ := hother₀ htag
      have hR₁ := hother e s s₁ t t₁ o o' htag hR hes het
      obtain ⟨t', outs', hrt, hview, hR'⟩ := ih hR₁ (hsafe t₁ o' het) (hothers t₁ o' het) hrs
      refine ⟨t', o' :: outs', run_cons_eq_ok.mpr ⟨t₁, o', outs', het, hrt, rfl⟩, ?_, hR'⟩
      rw [view, view, if_neg hno, if_neg hno, hview]

end Beside

/-! ## Answers that come, and answers that never come -/

section Progress

variable {I : σ → Prop} {P : ε → Prop} {good : ο → Prop}

/-- If every event either has a good output or brings the machine closer, a run that is long
    enough has a good output. -/
theorem run_progress {rest : σ → Nat}
    (hstep : ∀ e s, P e → I s →
      ∃ s' o, m e s = .ok (s', o) ∧ I s' ∧ (good o ∨ rest s' < rest s))
    {es : List ε} {s : σ} (hI : I s) (hes : ∀ e ∈ es, P e) :
    ∃ s' outs, run m es s = .ok (s', outs) ∧ (rest s < es.length → ∃ o ∈ outs, good o) := by
  induction es generalizing s with
  | nil => exact ⟨s, [], rfl, fun hlt => absurd hlt (Nat.not_lt_zero _)⟩
  | cons e es ih =>
    obtain ⟨s₁, o, he, hI₁, hcase⟩ := hstep e s (hes e List.mem_cons_self) hI
    obtain ⟨s', outs, hrun, hlater⟩ := ih hI₁ fun e' he' => hes e' (List.mem_cons_of_mem _ he')
    refine ⟨s', o :: outs, run_cons_eq_ok.mpr ⟨s₁, o, outs, he, hrun, rfl⟩, fun hlt => ?_⟩
    rcases hcase with hgood | hcloser
    · exact ⟨o, List.mem_cons_self, hgood⟩
    · -- The rest has shrunk, so the events that are left are enough for it.
      rw [List.length_cons] at hlt
      obtain ⟨o', hmem, hgood⟩ := hlater (by omega)
      exact ⟨o', List.mem_cons_of_mem _ hmem, hgood⟩

/-- If no event that returns has a good output, no run that returns has one. -/
theorem run_silent
    (hstep : ∀ e s s' o, P e → I s → m e s = .ok (s', o) → I s' ∧ ¬ good o)
    {es : List ε} {s s' : σ} {outs : List ο} (hI : I s) (hes : ∀ e ∈ es, P e)
    (hrun : run m es s = .ok (s', outs)) : ∀ o ∈ outs, ¬ good o := by
  induction es generalizing s outs with
  | nil =>
    simp only [run, Except.ok.injEq, Prod.mk.injEq] at hrun
    rw [← hrun.2]
    exact fun o hmem => absurd hmem List.not_mem_nil
  | cons e es ih =>
    -- No step is good, and the invariant carries this to the next one.
    obtain ⟨s₁, o, os, he, hr, rfl⟩ := run_cons_eq_ok.mp hrun
    obtain ⟨hI₁, hno⟩ := hstep e s s₁ o (hes e List.mem_cons_self) hI he
    intro o' hmem
    rcases List.mem_cons.mp hmem with rfl | hmem
    · exact hno
    · exact ih hI₁ (fun e' he' => hes e' (List.mem_cons_of_mem _ he')) hr o' hmem

end Progress

end Interleave
