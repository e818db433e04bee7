import Mathlib.Data.List.Count
import Mathlib.Data.List.Nodup

/-!
# Resources and Their Owners

A program that owns resources and lends, gives away and releases them.

A resource may be handed to a function, which keeps it or does not, and may be
released. Both go wrong for a resource the program does not own: one that was
never there, that is released already, or that someone else has taken over. The
run of a sequence of such acts is then nothing.

A run that goes through and leaves nothing owned has released or given away
each resource exactly as often as it was there, which is what `run_once` says;
that is a program without a leak and without a double release.

## Main definitions

* `Act`: Handing a resource on, or releasing it.
* `Holdings`: What the program owns and what it has given away.
* `act`, `run`: The effect of an act, and of a sequence of them.

## Theorems

* `act_count`: An act balances what is owned against what is released and given
  away.
* `run_count`: So does a sequence.
* `run_once`: Nothing is left exactly where everything was settled once.
-/

namespace Custody

variable {ρ : Type} [DecidableEq ρ]

/-- What is done with a resource. A null pointer may be handed on by mistake. -/
inductive Act (ρ : Type) where
  | hand (x : Option ρ) (keeps : Bool)
  | release (x : ρ)
  deriving DecidableEq

/-- What is owned and what has been given away. -/
structure Holdings (ρ : Type) where
  live : List ρ
  kept : List ρ
  deriving DecidableEq

/-- One act. Nothing where it concerns a resource that is not owned. -/
def act (h : Holdings ρ) : Act ρ → Option (Holdings ρ)
  | .hand none _ => none
  | .hand (some x) keeps =>
    if x ∈ h.live then
      some (if keeps then ⟨h.live.erase x, h.kept ++ [x]⟩ else h)
    else none
  | .release x => if x ∈ h.live then some ⟨h.live.erase x, h.kept⟩ else none

/-- A sequence of acts. -/
def run : Holdings ρ → List (Act ρ) → Option (Holdings ρ)
  | h, [] => some h
  | h, a :: as => match act h a with
    | none => none
    | some h' => run h' as

theorem run_cons {h h' : Holdings ρ} {a : Act ρ} {as : List (Act ρ)}
    (hrun : run h (a :: as) = some h') : ∃ h₁, act h a = some h₁ ∧ run h₁ as = some h' := by
  unfold run at hrun
  rcases hact : act h a with _ | h₁
  · rw [hact] at hrun
    cases hrun
  · rw [hact] at hrun
    exact ⟨h₁, rfl, hrun⟩

/-- How often a sequence settles a resource: releases it or gives it away. -/
def settled (as : List (Act ρ)) (x : ρ) : Nat :=
  as.count (.release x) + as.count (.hand (some x) true)

/-- Erasing one of a kind takes one off its count and none off another's. -/
theorem count_erase_of_mem {x : ρ} {l : List ρ} (h : x ∈ l) (y : ρ) :
    l.count y = (l.erase x).count y + if x = y then 1 else 0 := by
  by_cases hxy : x = y
  · have hpos : 0 < l.count x := List.count_pos_iff.mpr h
    rw [if_pos hxy, ← hxy, List.count_erase_self]
    omega
  · rw [if_neg hxy, List.count_erase_of_ne (fun hc => hxy hc.symm), Nat.add_zero]

/-- An act takes from what is owned what it settles. -/
theorem act_count {h h' : Holdings ρ} {a : Act ρ} (hact : act h a = some h') (y : ρ) :
    h.live.count y = h'.live.count y + settled [a] y := by
  unfold settled
  cases a with
  | hand x keeps =>
      cases x with
      | none => cases hact
      | some x =>
          simp only [act] at hact
          split_ifs at hact with hmem hkeeps
          · rw [← Option.some.inj hact, count_erase_of_mem hmem y, hkeeps]
            by_cases hxy : x = y
            · simp only [hxy, if_true, List.count_cons, List.count_nil, beq_iff_eq, reduceCtorEq,
                if_false]
            · simp only [hxy, if_false, List.count_cons, List.count_nil, beq_iff_eq, reduceCtorEq,
                Act.hand.injEq, Option.some.injEq, false_and]
          · rw [Bool.not_eq_true] at hkeeps
            rw [← Option.some.inj hact, hkeeps]
            simp only [List.count_cons, List.count_nil, beq_iff_eq, reduceCtorEq, if_false,
              Act.hand.injEq, and_false]
            omega
  | release x =>
      simp only [act] at hact
      split_ifs at hact with hmem
      rw [← Option.some.inj hact, count_erase_of_mem hmem y]
      by_cases hxy : x = y
      · simp only [hxy, if_true, List.count_cons, List.count_nil, beq_iff_eq, reduceCtorEq,
          if_false]
      · simp only [hxy, if_false, List.count_cons, List.count_nil, beq_iff_eq, reduceCtorEq,
          Act.release.injEq]

/-- A sequence takes from what is owned what it settles. -/
theorem run_count {h h' : Holdings ρ} {as : List (Act ρ)} (hrun : run h as = some h') (y : ρ) :
    h.live.count y = h'.live.count y + settled as y := by
  induction as generalizing h with
  | nil =>
      cases hrun
      rfl
  | cons a as ih =>
      rcases run_cons hrun with ⟨h₁, hact, hrest⟩
      have hfirst := act_count hact y
      have hlater := ih hrest
      -- The acts of the sequence are the first and the rest.
      have hsplit : settled (a :: as) y = settled [a] y + settled as y := by
        unfold settled
        rw [← List.singleton_append, List.count_append, List.count_append]
        omega
      omega

/-- Where nothing is left owned, every resource owned once was settled once. -/
theorem run_once {live kept : List ρ} {as : List (Act ρ)}
    (hrun : run ⟨live, []⟩ as = some ⟨[], kept⟩) (hnodup : live.Nodup) {x : ρ} (hx : x ∈ live) :
    settled as x = 1 := by
  have hcount := run_count hrun x
  rw [List.count_eq_one_of_mem hnodup hx, List.count_nil, Nat.zero_add] at hcount
  exact hcount.symm

end Custody
