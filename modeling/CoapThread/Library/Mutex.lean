import CoapThread.Library.Machine

/-!
# A Thread and Its Mutex

A machine that is one thread's program, beside a mutex that is not recursive.

The machine itself knows nothing of the mutex: some of its labels are an
operation on it, and `Owning` runs the two together with a flag that says
whether the thread owns it. Only a lock can block. Waiting on a condition
variable without owning the mutex, and unlocking without owning it, are not
legal but nothing stops the thread, so `Owning` lets them happen and `LegalAt`
judges them.

A program that uses its mutex well owns it in some places and not in others,
and which they are does not depend on how it got there. `Discipline` says so,
one step at a time; what follows from it for whole runs is proved here once.

## Main definitions

* `Op`: The four operations.
* `Owning`: A machine beside its mutex.
* `LegalAt`: An operation the thread can perform is legal.
* `SelfBlocked`: The thread stands at a lock and owns the mutex.
* `Discipline`: Where the thread owns the mutex is a matter of its state.

## Theorems

* `Discipline.step`: A disciplined step keeps the flag what the state says.
* `Discipline.legalAt`: Every operation is legal.
* `Discipline.not_selfBlocked`: No thread waits for itself.
-/

namespace Mutex

open Machine

/-- An operation of a thread on its mutex. A wait gives the mutex up while the
    thread is blocked, and a wake takes it again. -/
inductive Op where
  | lock
  | unlock
  | wait
  | wake
  deriving DecidableEq

/-- The thread may perform it. -/
def Op.Legal (owned : Bool) : Op → Prop
  | .lock => owned = false
  | .unlock => owned = true
  | .wait => owned = true
  | .wake => True

/-- The thread owns the mutex afterwards. -/
def Op.owns : Op → Bool
  | .lock => true
  | .unlock => false
  | .wait => false
  | .wake => true

variable {σ ε : Type}

/-- A machine beside its mutex. A lock is passed only by a thread that does not
    own the mutex. -/
inductive Owning (Step : σ → ε → σ → Prop) (op : ε → Option Op) :
    σ × Bool → ε → σ × Bool → Prop where
  | free (s t : σ) (owned : Bool) (e : ε) :
      op e = none → Step s e t → Owning Step op (s, owned) e (t, owned)
  | lock (s t : σ) (e : ε) :
      op e = some .lock → Step s e t → Owning Step op (s, false) e (t, true)
  | perform (s t : σ) (owned : Bool) (e : ε) (a : Op) :
      op e = some a → a ≠ .lock → Step s e t → Owning Step op (s, owned) e (t, a.owns)

/-- An operation the thread can perform is legal. -/
def LegalAt (Step : σ → ε → σ → Prop) (op : ε → Option Op) (p : σ × Bool) (e : ε) : Prop :=
  ∀ t a, Step p.1 e t → op e = some a → a.Legal p.2

/-- The thread stands at a lock and owns the mutex already. -/
def SelfBlocked (Step : σ → ε → σ → Prop) (op : ε → Option Op) (p : σ × Bool) : Prop :=
  p.2 = true ∧ ∃ e t, Step p.1 e t ∧ op e = some .lock

/-- Under an invariant and a condition on the steps, the thread owns the mutex
    in the states named by `owns`, and its operations agree with that. -/
structure Discipline (Step : σ → ε → σ → Prop) (op : ε → Option Op) (I : σ → Prop)
    (C : σ → ε → Prop) (owns : σ → Bool) : Prop where
  keep : ∀ s e t, I s → C s e → Step s e t → I t
  frame : ∀ s e t, I s → C s e → Step s e t → op e = none → owns t = owns s
  legal : ∀ s e t a, I s → C s e → Step s e t → op e = some a → a.Legal (owns s)
  effect : ∀ s e t a, I s → C s e → Step s e t → op e = some a → owns t = a.owns

namespace Discipline

variable {Step : σ → ε → σ → Prop} {op : ε → Option Op} {I : σ → Prop} {C : σ → ε → Prop}
  {owns : σ → Bool}

/-- A disciplined step keeps the flag what the state says. -/
theorem step (h : Discipline Step op I C owns) (p : σ × Bool) (e : ε) (q : σ × Bool)
    (hi : I p.1 ∧ p.2 = owns p.1) (hc : C p.1 e) (hstep : Owning Step op p e q) :
    I q.1 ∧ q.2 = owns q.1 := by
  cases hstep with
  | free s t owned _ hop hs =>
      exact ⟨h.keep s e t hi.1 hc hs, hi.2.trans (h.frame s e t hi.1 hc hs hop).symm⟩
  | lock s t _ hop hs =>
      exact ⟨h.keep s e t hi.1 hc hs, (h.effect s e t .lock hi.1 hc hs hop).symm⟩
  | perform s t owned _ a hop _ hs =>
      exact ⟨h.keep s e t hi.1 hc hs, (h.effect s e t a hi.1 hc hs hop).symm⟩

/-- Every operation is legal. -/
theorem legalAt (h : Discipline Step op I C owns) {p : σ × Bool} {e : ε}
    (hi : I p.1 ∧ p.2 = owns p.1) (hc : C p.1 e) : LegalAt Step op p e := by
  intro t a hs hop
  rw [hi.2]
  exact h.legal p.1 e t a hi.1 hc hs hop

/-- No thread waits for itself, if every lock meets the condition. -/
theorem not_selfBlocked (h : Discipline Step op I C owns)
    (hlock : ∀ s e, op e = some .lock → C s e) {p : σ × Bool} (hi : I p.1 ∧ p.2 = owns p.1) :
    ¬ SelfBlocked Step op p := by
  rintro ⟨howned, e, t, hs, hop⟩
  -- A legal lock finds the mutex not owned.
  have hlegal := h.legalAt hi (hlock p.1 e hop) t .lock hs hop
  rw [howned] at hlegal
  exact Bool.noConfusion hlegal

end Discipline

end Mutex
