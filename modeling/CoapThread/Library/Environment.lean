import CoapThread.Library.Simulation

/-!
# A Machine Among Others

A machine that is not alone with its state. Between two of its steps the
others may do whatever `Rely` allows them, as often as they like, and a label
is an own step or none.

What is proved of a machine among others holds wherever the others keep to
what they are relied on for. `simulates_among` is how it gets there: a system
is seen from one of its parts, and each of its steps is a step of that part or
something the others may do.

What is read off such a run may depend on the states its steps are taken from.
`Reads` is a run with its reading.

## Main definitions

* `Among`: The machine and the others, in turns.
* `Reads`: A run, and what is read off its own steps.

## Theorems

* `among_invariant`: What every own step keeps, and the others keep, holds
  after every run.
* `among_path`: A run without the others.
* `reads_path`: Every run can be read.
* `reads_history`: What holds of a state and of what was read before.
* `simulates_among`: A system simulates each of its parts among the others.
-/

namespace Machine

variable {σ ε τ δ α : Type}

/-- A step of the machine, or of the others. -/
inductive Among (Step : σ → ε → σ → Prop) (Rely : σ → σ → Prop) : σ → Option ε → σ → Prop where
  | own (s t : σ) (e : ε) : Step s e t → Among Step Rely s (some e) t
  | other (s t : σ) : Rely s t → Among Step Rely s none t

/-- A run of the machine among the others, and what is read off its own
    steps. -/
inductive Reads (Step : σ → ε → σ → Prop) (Rely : σ → σ → Prop) (read : σ → ε → List α) :
    σ → List (Option ε) → List α → σ → Prop where
  | nil (s : σ) : Reads Step Rely read s [] [] s
  | own (s t u : σ) (e : ε) (es : List (Option ε)) (as : List α) :
      Step s e t → Reads Step Rely read t es as u →
      Reads Step Rely read s (some e :: es) (read s e ++ as) u
  | other (s t u : σ) (es : List (Option ε)) (as : List α) :
      Rely s t → Reads Step Rely read t es as u → Reads Step Rely read s (none :: es) as u

section Runs

variable {Step : σ → ε → σ → Prop} {Rely : σ → σ → Prop}

/-- What every own step keeps, and the others keep, holds after every run. -/
theorem among_invariant {I : σ → Prop} (hkeep : ∀ s e t, I s → Step s e t → I t)
    (hstable : ∀ s t, I s → Rely s t → I t) {s t : σ} {es : List (Option ε)}
    (h : Path (Among Step Rely) s es t) (hs : I s) : I t := by
  refine path_invariant (fun s e t hi hstep => ?_) h hs
  cases hstep with
  | own _ e hown => exact hkeep s e t hi hown
  | other _ hother => exact hstable s t hi hother

/-- A run of the machine is one in which the others do nothing. -/
theorem among_path {s t : σ} {es : List ε} (h : Path Step s es t) :
    Path (Among Step Rely) s (es.map some) t := by
  induction h with
  | nil s => exact Path.nil s
  | cons s t u e es hstep _ ih => exact Path.cons s t u (some e) _ (Among.own s t e hstep) ih

/-- Every run can be read. -/
theorem reads_path (read : σ → ε → List α) {s t : σ} {es : List (Option ε)}
    (h : Path (Among Step Rely) s es t) : ∃ as, Reads Step Rely read s es as t := by
  induction h with
  | nil s => exact ⟨[], Reads.nil s⟩
  | cons s t u e es hstep _ ih =>
      rcases ih with ⟨as, hrest⟩
      cases hstep with
      | own _ e hown => exact ⟨_, Reads.own s t u e es as hown hrest⟩
      | other _ hother => exact ⟨as, Reads.other s t u es as hother hrest⟩

/-- What holds of a state and of what has been read before it, one step at a
    time. -/
theorem reads_history {read : σ → ε → List α} {J : List α → σ → Prop} {s t : σ}
    {es : List (Option ε)} {as : List α}
    (hkeep : ∀ as s e t, J as s → Step s e t → J (as ++ read s e) t)
    (hstable : ∀ as s t, J as s → Rely s t → J as t)
    (h : Reads Step Rely read s es as t) (hs : J [] s) : J as t := by
  -- Something may have been read before the run.
  have hrest : ∀ pre, J pre s → J (pre ++ as) t := by
    clear hs
    induction h with
    | nil s =>
        intro pre hpre
        rw [List.append_nil]
        exact hpre
    | own s t u e es as hstep _ ih =>
        intro pre hpre
        rw [← List.append_assoc]
        exact ih _ (hkeep pre s e t hpre hstep)
    | other s t u es as hother _ ih =>
        intro pre hpre
        exact ih pre (hstable pre s t hpre hother)
  exact hrest [] hs

/-- A system simulates a part of it among the others, where every step that
    keeps an invariant of the system is, seen from the part, one of either. -/
theorem simulates_among {Whole : τ → δ → τ → Prop} {I : τ → Prop} {view : τ → σ}
    {read : δ → Option ε} (hkeep : ∀ w d w', I w → Whole w d w' → I w')
    (hview : ∀ w d w', I w → Whole w d w' → Among Step Rely (view w) (read d) (view w')) :
    Simulates Whole (Among Step Rely) (fun d => [read d]) (fun w s => I w ∧ view w = s) := by
  rintro w d w' s ⟨hi, hs⟩ hstep
  subst hs
  have hseen := hview w d w' hi hstep
  exact ⟨view w', Path.cons _ _ _ _ _ hseen (Path.nil _), hkeep w d w' hi hstep, rfl⟩

end Runs

end Machine
