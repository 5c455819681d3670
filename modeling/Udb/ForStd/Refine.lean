import Mathlib

/-!
# Refinement of a machine with outputs

An abstract machine `spec` is a function: a label takes a state to the next one and
an output. An implementation `step` is a relation, since its environment has a say
in what happens, and it need not be able to take a step at all. `Implements` says
for one step that the implementation can go on and that it shows what the abstract
machine shows; the two run theorems say it for whole runs.
-/

namespace Refine

variable {A C L O : Type}

/-- A run of an implementation over the labels, with its outputs. -/
inductive Run (step : L → C → O → C → Prop) : List L → C → List O → C → Prop where
  | nil {c : C} : Run step [] c [] c
  | cons {l : L} {ls : List L} {c c₁ c' : C} {o : O} {os : List O} (h : step l c o c₁)
      (hrun : Run step ls c₁ os c') : Run step (l :: ls) c (o :: os) c'

/-- The run of the abstract machine: where it ends, and its outputs. -/
def specRun (spec : A → L → A × O) : A → List L → A × List O
  | a, [] => (a, [])
  | a, l :: ls =>
    ((specRun spec (spec a l).1 ls).1, (spec a l).2 :: (specRun spec (spec a l).1 ls).2)

/-- From related states, a step for a label that is `ok` exists, and every such step has the
    abstract output and leads to related states. -/
structure Implements (R : A → C → Prop) (ok : L → Prop) (spec : A → L → A × O)
    (step : L → C → O → C → Prop) : Prop where
  total : ∀ {a c l}, R a c → ok l → ∃ o c', step l c o c'
  sound : ∀ {a c l o c'}, R a c → ok l → step l c o c' → o = (spec a l).2 ∧ R (spec a l).1 c'

variable {R : A → C → Prop} {ok : L → Prop} {spec : A → L → A × O} {step : L → C → O → C → Prop}

/-- A run over two lists. -/
theorem specRun_append (a : A) (ls ls' : List L) :
    specRun spec a (ls ++ ls') =
      ((specRun spec (specRun spec a ls).1 ls').1,
        (specRun spec a ls).2 ++ (specRun spec (specRun spec a ls).1 ls').2) := by
  induction ls generalizing a with
  | nil => rfl
  | cons l ls ih => simp only [List.cons_append, specRun, ih]

namespace Implements

/-- Every run shows what the abstract machine shows. -/
theorem run_sound (h : Implements R ok spec step) {a : A} {c c' : C} {ls : List L} {os : List O}
    (hR : R a c) (hok : ∀ l ∈ ls, ok l) (hrun : Run step ls c os c') :
    os = (specRun spec a ls).2 ∧ R (specRun spec a ls).1 c' := by
  induction hrun generalizing a with
  | nil => exact ⟨rfl, hR⟩
  | cons hstep _ ih =>
    obtain ⟨rfl, hR₁⟩ := h.sound hR (hok _ List.mem_cons_self) hstep
    obtain ⟨rfl, hR'⟩ := ih hR₁ fun l hl => hok l (List.mem_cons_of_mem _ hl)
    exact ⟨rfl, hR'⟩

/-- There is a run over every list of labels. -/
theorem run_total (h : Implements R ok spec step) {a : A} {c : C} {ls : List L}
    (hR : R a c) (hok : ∀ l ∈ ls, ok l) : ∃ os c', Run step ls c os c' := by
  induction ls generalizing a c with
  | nil => exact ⟨[], c, .nil⟩
  | cons l ls ih =>
    have hl := hok l List.mem_cons_self
    obtain ⟨o, c₁, hstep⟩ := h.total hR hl
    obtain ⟨os, c', hrun⟩ :=
      ih (h.sound hR hl hstep).2 fun l hl => hok l (List.mem_cons_of_mem _ hl)
    exact ⟨o :: os, c', .cons hstep hrun⟩

end Implements

end Refine
