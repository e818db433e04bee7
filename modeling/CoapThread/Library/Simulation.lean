import CoapThread.Library.Machine

/-!
# Simulations Between Machines

One machine does what another does, as far as a relation between their states
says.

A step of the first is matched by a run of the second, which may be empty: the
first machine may have steps the second does not see. How a label is read as
labels of the other machine does not depend on the state, so a run of the
first has a run of the second that is read off it.

So what holds after every run of the second machine holds of the first
machine's states as well, through the relation, and a property proved of a part
need not be proved again of the whole.

## Main definitions

* `Simulates`: Every step is matched by a run between related states.

## Theorems

* `Simulates.path`: Every run is matched by the run read off it.
* `Simulates.comp`: Simulations compose.
-/

namespace Machine

variable {σ ε τ δ υ φ : Type} {Step : σ → ε → σ → Prop} {Step' : τ → δ → τ → Prop}
  {Step'' : υ → φ → υ → Prop}

/-- Every step from related states is matched by a run of the other machine,
    under the labels the step's is read as, to related states. -/
def Simulates (Step : σ → ε → σ → Prop) (Step' : τ → δ → τ → Prop) (read : ε → List δ)
    (R : σ → τ → Prop) : Prop :=
  ∀ s e s' t, R s t → Step s e s' → ∃ t', Path Step' t (read e) t' ∧ R s' t'

namespace Simulates

variable {read : ε → List δ} {read' : δ → List φ} {R : σ → τ → Prop} {R' : τ → υ → Prop}

/-- Every run is matched by the run read off it. -/
theorem path (h : Simulates Step Step' read R) {s s' : σ} {es : List ε} {t : τ}
    (hp : Path Step s es s') (hr : R s t) : ∃ t', Path Step' t (es.flatMap read) t' ∧ R s' t' := by
  induction hp generalizing t with
  | nil s => exact ⟨t, Path.nil t, hr⟩
  | cons s u v e es hstep _ ih =>
      rcases h s e u t hr hstep with ⟨t₁, hfirst, hr₁⟩
      rcases ih hr₁ with ⟨t', hrest, hr'⟩
      rw [List.flatMap_cons]
      exact ⟨t', (path_append (read e) _).mpr ⟨t₁, hfirst, hrest⟩, hr'⟩

/-- Simulations compose. -/
theorem comp (h : Simulates Step Step' read R) (h' : Simulates Step' Step'' read' R') :
    Simulates Step Step'' (fun e => (read e).flatMap read') (fun s u => ∃ t, R s t ∧ R' t u) := by
  rintro s e s' u ⟨t, hr, hr'⟩ hstep
  rcases h s e s' t hr hstep with ⟨t', hp, hrt⟩
  rcases h'.path hp hr' with ⟨u', hp', hru⟩
  exact ⟨u', hp', t', hrt, hru⟩

end Simulates

end Machine
