import Mathlib.Data.List.Induction
import Mathlib.Order.WithBot

/-!
# A List of Timers

Timers that are started one after the other and end in one of two ways: they
are stopped, or their deadline has come when the clock is read. A timer may
have no deadline, and is then ended by nothing but a stop. The clock may be
read at any times in any order.

`pending_iff` says of a timer when it is pending, from what has happened alone:
it was started, and nothing that has happened since was its end. So nothing
that keeps a list of this kind can lose a timer, end one early, or keep one
beyond a reading of the clock at its deadline.

## Main definitions

* `Ahead`: A deadline is still to come.
* `Act`: What can happen.
* `State`: The timers so far and the pending ones.
* `State.act`, `run`: What that does.
* `Spares`: Something is not the end of a timer.

## Theorems

* `mem_act_iff`: What an act leaves, and what it adds.
* `pending_iff`: Which timers are pending.
-/

namespace Timers

variable {τ : Type} [LinearOrder τ]

/-- A deadline is still to come. -/
def Ahead (now : τ) (deadline : WithTop τ) : Prop := (now : WithTop τ) < deadline

instance (now : τ) (deadline : WithTop τ) : Decidable (Ahead now deadline) :=
  inferInstanceAs (Decidable ((now : WithTop τ) < deadline))

theorem ahead_top (now : τ) : Ahead now ⊤ := WithTop.coe_lt_top now

theorem ahead_coe (now d : τ) : Ahead now (d : WithTop τ) ↔ now < d := WithTop.coe_lt_coe

/-- What can happen: a timer is started, one is stopped, or the clock is
    read. -/
inductive Act (τ : Type) where
  | start (deadline : WithTop τ)
  | stop (i : Nat)
  | expire (now : τ)

/-- How many timers have been started, and those that are pending, the oldest
    one in front. A timer is the number started before it. -/
structure State (τ : Type) where
  started : Nat
  pending : List (Nat × WithTop τ)

/-- The state before the first timer. -/
def State.none : State τ := ⟨0, []⟩

def State.act (t : State τ) : Act τ → State τ
  | .start d => ⟨t.started + 1, t.pending ++ [(t.started, d)]⟩
  | .stop i => ⟨t.started, t.pending.filter (fun x => x.1 ≠ i)⟩
  | .expire now => ⟨t.started, t.pending.filter (fun x => Ahead now x.2)⟩

theorem State.act_start (t : State τ) (d : WithTop τ) :
    t.act (.start d) = ⟨t.started + 1, t.pending ++ [(t.started, d)]⟩ := rfl

theorem State.act_stop (t : State τ) (i : Nat) :
    t.act (.stop i) = ⟨t.started, t.pending.filter (fun x => x.1 ≠ i)⟩ := rfl

theorem State.act_expire (t : State τ) (now : τ) :
    t.act (.expire now) = ⟨t.started, t.pending.filter (fun x => Ahead now x.2)⟩ := rfl

/-- The state after a number of acts. -/
def run (acts : List (Act τ)) : State τ := acts.foldl State.act State.none

/-- An act is not the end of a timer. -/
def Spares (x : Nat × WithTop τ) : Act τ → Prop
  | .start _ => True
  | .stop i => x.1 ≠ i
  | .expire now => Ahead now x.2

theorem run_snoc (acts : List (Act τ)) (a : Act τ) : run (acts ++ [a]) = (run acts).act a := by
  unfold run
  rw [List.foldl_append]
  rfl

/-- What is pending after an act was pending and is spared, or is started by
    it. -/
theorem mem_act_iff (t : State τ) (a : Act τ) (x : Nat × WithTop τ) :
    x ∈ (t.act a).pending ↔
      (x ∈ t.pending ∧ Spares x a) ∨ (a = .start x.2 ∧ t.started = x.1) := by
  cases a with
  | start d =>
      rw [State.act_start, List.mem_append, List.mem_singleton, Spares, and_true]
      refine or_congr_right ⟨?_, ?_⟩
      · rintro rfl
        exact ⟨rfl, rfl⟩
      · rintro ⟨hd, hi⟩
        cases hd
        rw [hi]
  | stop i =>
      rw [State.act_stop, List.mem_filter, decide_eq_true_eq, Spares, or_iff_left]
      rintro ⟨hd, -⟩
      cases hd
  | expire now =>
      rw [State.act_expire, List.mem_filter, decide_eq_true_eq, Spares, or_iff_left]
      rintro ⟨hd, -⟩
      cases hd

/-- A timer is pending if and only if it has been started and nothing since was
    its end. -/
theorem pending_iff (acts : List (Act τ)) (x : Nat × WithTop τ) :
    x ∈ (run acts).pending ↔ ∃ pre post, acts = pre ++ .start x.2 :: post ∧
      (run pre).started = x.1 ∧ ∀ a ∈ post, Spares x a := by
  -- Induction on the acts from the last one on.
  induction acts using List.reverseRecOn with
  | nil =>
      refine iff_of_false List.not_mem_nil ?_
      rintro ⟨pre, post, hacts, -⟩
      exact List.append_ne_nil_of_right_ne_nil pre (List.cons_ne_nil _ post) hacts.symm
  | append_singleton acts a ih =>
      rw [run_snoc, mem_act_iff, ih]
      constructor
      · rintro (⟨⟨pre, post, rfl, hi, hspared⟩, ha⟩ | ⟨rfl, hi⟩)
        · refine ⟨pre, post ++ [a], by rw [List.append_assoc, List.cons_append], hi, ?_⟩
          exact List.forall_mem_append.mpr ⟨hspared, List.forall_mem_singleton.mpr ha⟩
        · exact ⟨acts, [], rfl, hi, fun b hb => absurd hb List.not_mem_nil⟩
      · rintro ⟨pre, post, hacts, hi, hspared⟩
        rcases List.eq_nil_or_concat post with rfl | ⟨post, b, rfl⟩
        · -- The last act is the start itself.
          rcases List.append_inj' hacts rfl with ⟨rfl, ha⟩
          exact Or.inr ⟨List.head_eq_of_cons_eq ha, hi⟩
        · rw [List.concat_eq_append] at hacts hspared
          rw [← List.cons_append, ← List.append_assoc] at hacts
          rcases List.append_inj' hacts rfl with ⟨rfl, ha⟩
          have hab : a = b := List.head_eq_of_cons_eq ha
          rcases List.forall_mem_append.mp hspared with ⟨hpost, hlast⟩
          exact Or.inl ⟨⟨pre, post, rfl, hi, hpost⟩, hab ▸ hlast b (List.mem_singleton_self b)⟩

end Timers
