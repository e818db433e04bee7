/-!
# Runs of a Labelled Machine

A machine is a relation saying where a state may go under a label. Whatever
the environment chooses is part of the label, so a list of labels is a run.

Two questions are asked of a run. `Path` asks where it ends up. `Along` asks
whether something held at each of its steps, judged on the state the step was
taken from, and it is the form a conditional result needs: the condition is an
`Along`, the conclusion is an `Along`, and `along_of_invariant` turns a fact
about one step into a fact about the run by carrying an invariant between
them. A run may stop early where a label cannot be taken; `Along` then still
judges the attempt and says nothing beyond it.

## Main definitions

* `Path`: A run leads from one state to another.
* `Along`: Something holds at each step a run attempts.
* `Throughout`: Something holds in each state a run passes.
* `Sometime`: Something holds at a step of a run.
* `Ledger`: A record of what has left the machine.

## Theorems

* `path_append`: A path splits at an intermediate state.
* `path_invariant`: What every step keeps, every path keeps.
* `path_history`: The same of a state with the labels that led to it.
* `along_append`: A judgement splits at an intermediate state.
* `along_of_invariant`: A conditional judgement from one step to the run.
* `along_iff`: Two judgements that agree on each step agree on the run.
* `along_iff_forall`: The same, where the condition is on the labels alone.
* `throughout_invariant`: What every step keeps holds throughout.
* `throughout_of_along`: An invariant's property in each state of a run.
* `throughout_iff`: A property of the states of a run against a condition on
  its steps.
* `sometime_snoc`: What held at a step, one step later.
* `ledger_snoc`: A step adds to the record what leaves at it.
-/

namespace Machine

variable {σ ε : Type}

/-- A run of labels leads from one state to another. -/
inductive Path (Step : σ → ε → σ → Prop) : σ → List ε → σ → Prop where
  | nil (s : σ) : Path Step s [] s
  | cons (s t u : σ) (e : ε) (es : List ε) :
      Step s e t → Path Step t es u → Path Step s (e :: es) u

/-- A judgement on a state and a label holds at each step a run attempts. -/
def Along (Step : σ → ε → σ → Prop) (Q : σ → ε → Prop) : σ → List ε → Prop
  | _, [] => True
  | s, e :: es => Q s e ∧ ∀ t, Step s e t → Along Step Q t es

section Paths

variable {Step : σ → ε → σ → Prop}

theorem path_append {s u : σ} (es fs : List ε) :
    Path Step s (es ++ fs) u ↔ ∃ t, Path Step s es t ∧ Path Step t fs u := by
  induction es generalizing s with
  | nil =>
      constructor
      · intro h
        exact ⟨s, Path.nil s, h⟩
      · rintro ⟨t, hst, htu⟩
        cases hst
        exact htu
  | cons e es ih =>
      -- The first step is a step of the first part.
      constructor
      · intro h
        rw [List.cons_append] at h
        cases h with
        | cons _ t _ _ _ hstep hrest =>
            rcases ih.mp hrest with ⟨v, htv, hvu⟩
            exact ⟨v, Path.cons s t v e es hstep htv, hvu⟩
      · rintro ⟨t, hst, htu⟩
        cases hst with
        | cons _ v _ _ _ hstep hrest =>
            exact Path.cons s v u e _ hstep (ih.mpr ⟨t, hrest, htu⟩)

/-- One more step at the end of a path. -/
theorem path_snoc {s t u : σ} {es : List ε} {e : ε} (h : Path Step s es t)
    (hstep : Step t e u) : Path Step s (es ++ [e]) u :=
  (path_append es [e]).mpr ⟨t, h, Path.cons t u u e [] hstep (Path.nil u)⟩

/-- What every step keeps, every path keeps. -/
theorem path_invariant {I : σ → Prop} (hkeep : ∀ s e t, I s → Step s e t → I t)
    {s t : σ} {es : List ε} (h : Path Step s es t) (hs : I s) : I t := by
  induction h with
  | nil _ => exact hs
  | cons s t _ e _ hstep _ ih => exact ih (hkeep s e t hs hstep)

/-- What holds of a state and of the labels that led to it, one label at a
    time. -/
theorem path_history {J : List ε → σ → Prop} {s : σ} (hstart : J [] s)
    (hkeep : ∀ es t e u, J es t → Step t e u → J (es ++ [e]) u) {t : σ} {es : List ε}
    (h : Path Step s es t) : J es t := by
  -- Some labels may have led to where the path starts.
  have hrest : ∀ pre, J pre s → J (pre ++ es) t := by
    clear hstart
    induction h with
    | nil s =>
        intro pre hpre
        rw [List.append_nil]
        exact hpre
    | cons s u v e es hstep _ ih =>
        intro pre hpre
        have hnext := ih (pre ++ [e]) (hkeep pre s e u hpre hstep)
        rw [List.append_assoc, List.singleton_append] at hnext
        exact hnext
  exact hrest [] hstart

end Paths

section Judgements

variable {Step : σ → ε → σ → Prop} {Q C : σ → ε → Prop}

theorem along_append (s : σ) (es fs : List ε) :
    Along Step Q s (es ++ fs) ↔
      Along Step Q s es ∧ ∀ t, Path Step s es t → Along Step Q t fs := by
  induction es generalizing s with
  | nil =>
      constructor
      · intro h
        refine ⟨trivial, fun t ht => ?_⟩
        cases ht
        exact h
      · rintro ⟨-, h⟩
        exact h s (Path.nil s)
  | cons e es ih =>
      -- Either way the first step is judged on its own.
      constructor
      · rintro ⟨hq, hrest⟩
        refine ⟨⟨hq, fun t hstep => ((ih t).mp (hrest t hstep)).1⟩, fun u hu => ?_⟩
        cases hu with
        | cons _ t _ _ _ hstep htu => exact ((ih t).mp (hrest t hstep)).2 u htu
      · rintro ⟨⟨hq, hrest⟩, hend⟩
        refine ⟨hq, fun t hstep => (ih t).mpr ⟨hrest t hstep, fun u hu => ?_⟩⟩
        exact hend u (Path.cons s t u e es hstep hu)

/-- From one step to a run: where the invariant and the condition give the
    judgement and keep the invariant, a run whose steps all meet the condition
    is judged well. -/
theorem along_of_invariant {I : σ → Prop}
    (hkeep : ∀ s e t, I s → C s e → Step s e t → I t)
    (hjudge : ∀ s e, I s → C s e → Q s e) {s : σ} {es : List ε} (hs : I s)
    (h : Along Step C s es) : Along Step Q s es := by
  induction es generalizing s with
  | nil => exact trivial
  | cons e es ih =>
      rcases h with ⟨hc, hrest⟩
      exact ⟨hjudge s e hs hc, fun t hstep => ih (hkeep s e t hs hc hstep) (hrest t hstep)⟩

/-- Two judgements that agree on each step under an invariant agree on runs. -/
theorem along_iff {I : σ → Prop} (hkeep : ∀ s e t, I s → C s e → Step s e t → I t)
    (hiff : ∀ s e, I s → (Q s e ↔ C s e)) {s : σ} {es : List ε} (hs : I s) :
    Along Step Q s es ↔ Along Step C s es := by
  constructor
  · exact along_of_invariant (fun s e t hi hq hstep => hkeep s e t hi ((hiff s e hi).mp hq) hstep)
      (fun s e hi hq => (hiff s e hi).mp hq) hs
  · exact along_of_invariant hkeep (fun s e hi hc => (hiff s e hi).mpr hc) hs

/-- A judgement that depends on the label alone, where every label judged well
    can be taken: it is asked of each label of the run. -/
theorem along_iff_forall {I : σ → Prop} {D : ε → Prop}
    (hkeep : ∀ s e t, I s → D e → Step s e t → I t) (hiff : ∀ s e, I s → (Q s e ↔ D e))
    (htotal : ∀ s e, I s → D e → ∃ t, Step s e t) {s : σ} {es : List ε} (hs : I s) :
    Along Step Q s es ↔ ∀ e ∈ es, D e := by
  induction es generalizing s with
  | nil => exact ⟨fun _ e he => absurd he List.not_mem_nil, fun _ => trivial⟩
  | cons e es ih =>
      constructor
      · rintro ⟨hq, hrest⟩
        have hd := (hiff s e hs).mp hq
        rcases htotal s e hs hd with ⟨t, hstep⟩
        exact List.forall_mem_cons.mpr
          ⟨hd, (ih (hkeep s e t hs hd hstep)).mp (hrest t hstep)⟩
      · intro h
        rcases List.forall_mem_cons.mp h with ⟨hd, hall⟩
        exact ⟨(hiff s e hs).mpr hd, fun t hstep => (ih (hkeep s e t hs hd hstep)).mpr hall⟩

/-- A judgement at a step in the middle of a run. -/
theorem along_at {s t : σ} {es : List ε} {e : ε} {fs : List ε}
    (h : Along Step Q s (es ++ e :: fs)) (hp : Path Step s es t) : Q t e :=
  (((along_append s es (e :: fs)).mp h).2 t hp).1

end Judgements

/-- Something holds in each state a run passes, its first and its last
    included. -/
def Throughout (Step : σ → ε → σ → Prop) (P : σ → Prop) : σ → List ε → Prop
  | s, [] => P s
  | s, e :: es => P s ∧ ∀ t, Step s e t → Throughout Step P t es

section States

variable {Step : σ → ε → σ → Prop} {P : σ → Prop}

theorem Throughout.first {s : σ} {es : List ε} (h : Throughout Step P s es) : P s := by
  cases es with
  | nil => exact h
  | cons e es => exact h.1

/-- It holds in every state a path leads to. -/
theorem throughout_path {s t : σ} {es : List ε} (h : Throughout Step P s es)
    (hp : Path Step s es t) : P t := by
  induction hp with
  | nil _ => exact h
  | cons s t _ e _ hstep _ ih => exact ih (h.2 t hstep)

/-- The rest of a run, from where its first part leads to. -/
theorem throughout_rest {s t : σ} {es fs : List ε} (h : Throughout Step P s (es ++ fs))
    (hp : Path Step s es t) : Throughout Step P t fs := by
  induction hp with
  | nil _ => exact h
  | cons s t _ e _ hstep _ ih => exact ih (h.2 t hstep)

/-- What an invariant gives in one state holds throughout a run whose steps all
    meet the condition that keeps it. -/
theorem throughout_of_along {I : σ → Prop} {C : σ → ε → Prop} (hgood : ∀ s, I s → P s)
    (hkeep : ∀ s e t, I s → C s e → Step s e t → I t) {s : σ} {es : List ε} (hs : I s)
    (h : Along Step C s es) : Throughout Step P s es := by
  induction es generalizing s with
  | nil => exact hgood s hs
  | cons e es ih =>
      rcases h with ⟨hc, hrest⟩
      exact ⟨hgood s hs, fun t hstep => ih (hkeep s e t hs hc hstep) (hrest t hstep)⟩

/-- An invariant that every step keeps holds throughout every run. -/
theorem throughout_invariant (hkeep : ∀ s e t, P s → Step s e t → P t) {s : σ} (es : List ε)
    (hs : P s) : Throughout Step P s es := by
  induction es generalizing s with
  | nil => exact hs
  | cons e es ih => exact ⟨hs, fun t hstep => ih (hkeep s e t hs hstep)⟩

/-- A property of states against a condition on steps: where the condition
    keeps an invariant that gives the property, and a step against it reaches
    a state without the property, the property holds throughout exactly the
    runs whose steps all meet the condition. -/
theorem throughout_iff {I : σ → Prop} {C : σ → ε → Prop} (hgood : ∀ s, I s → P s)
    (hkeep : ∀ s e t, I s → C s e → Step s e t → I t)
    (hfail : ∀ s e, I s → ¬ C s e → ∃ t, Step s e t ∧ ¬ P t) {s : σ} {es : List ε} (hs : I s) :
    Throughout Step P s es ↔ Along Step C s es := by
  constructor
  · intro h
    induction es generalizing s with
    | nil => exact trivial
    | cons e es ih =>
        rcases h with ⟨-, hrest⟩
        have hc : C s e := by
          -- A step against the condition would lead to a state without the property.
          refine Classical.byContradiction (fun hno => ?_)
          rcases hfail s e hs hno with ⟨t, hstep, hbad⟩
          exact hbad (hrest t hstep).first
        exact ⟨hc, fun t hstep => ih (hkeep s e t hs hc hstep) (hrest t hstep)⟩
  · exact throughout_of_along hgood hkeep hs

end States

/-- A judgement holds at some step of a run that reaches it. -/
def Sometime (Step : σ → ε → σ → Prop) (Q : σ → ε → Prop) (s : σ) (es : List ε) : Prop :=
  ∃ pre e post t, es = pre ++ e :: post ∧ Path Step s pre t ∧ Q t e

section Deterministic

variable {Step : σ → ε → σ → Prop} {Q : σ → ε → Prop}

/-- A machine whose every label has one outcome has one path along a run. -/
theorem path_unique (hdet : ∀ s e t t', Step s e t → Step s e t' → t = t') {s t t' : σ}
    {es : List ε} (h : Path Step s es t) (h' : Path Step s es t') : t = t' := by
  induction h with
  | nil _ =>
      cases h'
      rfl
  | cons s u _ e _ hstep _ ih =>
      cases h' with
      | cons _ u' _ _ _ hstep' hrest' =>
          -- The first steps agree, so the rests start at one state.
          have hu := hdet s e u u' hstep hstep'
          subst hu
          exact ih hrest'

theorem sometime_nil (s : σ) : ¬ Sometime Step Q s [] := by
  rintro ⟨pre, e, post, -, hsplit, -⟩
  exact absurd hsplit.symm (List.append_ne_nil_of_right_ne_nil _ (List.cons_ne_nil e post))

/-- One more step: it held before, or it holds at that step. -/
theorem sometime_snoc (hdet : ∀ s e t t', Step s e t → Step s e t' → t = t') {s t : σ}
    {es : List ε} {e : ε} (hp : Path Step s es t) :
    Sometime Step Q s (es ++ [e]) ↔ Sometime Step Q s es ∨ Q t e := by
  constructor
  · rintro ⟨pre, e', post, u, hsplit, hpre, hq⟩
    rcases List.eq_nil_or_concat post with hnil | ⟨post', x, hpost⟩
    · -- Nothing follows: the step is the last one.
      subst hnil
      rcases List.append_inj' hsplit rfl with ⟨hes, he⟩
      rw [hes] at hp
      rw [(List.cons.inj he).1, path_unique hdet hp hpre]
      exact Or.inr hq
    · -- Something follows, and its last step is the new one.
      rw [List.concat_eq_append] at hpost
      rw [hpost, ← List.cons_append, ← List.append_assoc] at hsplit
      exact Or.inl ⟨pre, e', post', u, (List.append_inj' hsplit rfl).1, hpre, hq⟩
  · rintro (⟨pre, e', post, u, hsplit, hpre, hq⟩ | hq)
    · refine ⟨pre, e', post ++ [e], u, ?_, hpre, hq⟩
      rw [hsplit, List.append_assoc, List.cons_append]
    · exact ⟨es, e, [], t, rfl, hp, hq⟩

variable {ι κ : Type} {Leaves : κ → ι → σ → ε → Prop}

/-- A record of what has left a machine in a run: every item once, under the
    reason it left for. -/
structure Ledger (Step : σ → ε → σ → Prop) (Leaves : κ → ι → σ → ε → Prop) (s : σ) (es : List ε)
    (ledger : List (ι × κ)) : Prop where
  once : (ledger.map Prod.fst).Nodup
  reason : ∀ i k, (i, k) ∈ ledger ↔ Sometime Step (Leaves k i) s es

theorem ledger_nil (s : σ) : Ledger Step Leaves s [] [] where
  once := List.nodup_nil
  reason _ _ := ⟨fun h => absurd h List.not_mem_nil, fun h => absurd h (sometime_nil s)⟩

/-- A step adds to the record what leaves at it, if that is nothing recorded
    before. -/
theorem ledger_snoc (hdet : ∀ s e t t', Step s e t → Step s e t' → t = t') {s t : σ}
    {es : List ε} {e : ε} {ledger left : List (ι × κ)} (h : Ledger Step Leaves s es ledger)
    (hp : Path Step s es t) (honce : (left.map Prod.fst).Nodup)
    (hreason : ∀ i k, (i, k) ∈ left ↔ Leaves k i t e)
    (hnew : ∀ i ∈ left.map Prod.fst, i ∉ ledger.map Prod.fst) :
    Ledger Step Leaves s (es ++ [e]) (ledger ++ left) where
  once := by
    rw [List.map_append, List.nodup_append]
    exact ⟨h.once, honce, fun i hi j hj hij => hnew j hj (hij ▸ hi)⟩
  reason i k := by
    rw [List.mem_append, h.reason i k, hreason i k, sometime_snoc hdet hp]

end Deterministic

end Machine
