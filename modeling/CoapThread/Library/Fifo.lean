/-!
# A Bounded First-In First-Out Queue

A queue that holds at most so many items and refuses more. The bound is part of
the type, so a queue that is too long cannot be built.

What a queue does over a run is said with one equation: what was in it at the
start and what it has accepted since is what has been taken from it and what
is in it now, in this order. `Conserves` is that equation. It holds whether or
not items were refused, so it says that the queue itself loses nothing and
changes no order; what was refused is not in it.

## Main definitions

* `Fifo`: The queue.
* `Fifo.offer`, `Fifo.take`: Its two operations.
* `Fifo.put`: Offer an item and do not look whether it was accepted.
* `Fifo.Conserves`: The equation.

## Theorems

* `put_items`: What is there afterwards.
* `conserves_put`, `conserves_take`: Both operations keep the equation.
* `Conserves.drained`: An empty queue has given out everything.
-/

/-- A queue of at most `cap` items, the next one in front. -/
structure Fifo (α : Type) (cap : Nat) where
  items : List α
  bound : items.length ≤ cap

namespace Fifo

variable {α : Type} {cap : Nat}

/-- The queue with nothing in it. -/
def empty : Fifo α cap := ⟨[], Nat.zero_le cap⟩

/-- Add an item at the end, where there is room. -/
def offer (q : Fifo α cap) (a : α) : Option (Fifo α cap) :=
  if h : q.items.length < cap then
    some ⟨q.items ++ [a], by
      rw [List.length_append, List.length_singleton]
      exact h⟩
  else none

/-- Take the item in front. -/
def take (q : Fifo α cap) : Option (α × Fifo α cap) :=
  match hq : q.items with
  | [] => none
  | a :: rest => some (a, ⟨rest, by
      have hbound := q.bound
      rw [hq] at hbound
      exact Nat.le_of_succ_le hbound⟩)

/-- Offer an item and go on in either case: the queue, and what it accepted. -/
def put (q : Fifo α cap) (a : α) : Fifo α cap × List α :=
  match q.offer a with
  | some q' => (q', [a])
  -- The item is lost.
  | none => (q, [])

/-- With room left the item is accepted. -/
theorem put_of_room (q : Fifo α cap) (a : α) (h : q.items.length < cap) :
    (q.put a).1.items = q.items ++ [a] ∧ (q.put a).2 = [a] := by
  have hoffer : q.offer a = some ⟨q.items ++ [a], by
      rw [List.length_append, List.length_singleton]
      exact h⟩ := dif_pos h
  unfold put
  rw [hoffer]
  exact ⟨rfl, rfl⟩

/-- A full queue refuses it. -/
theorem put_of_full (q : Fifo α cap) (a : α) (h : ¬ (q.items.length < cap)) :
    q.put a = (q, []) := by
  have hoffer : q.offer a = none := dif_neg h
  unfold put
  rw [hoffer]

/-- What is there afterwards is what was there and what was accepted. -/
theorem put_items (q : Fifo α cap) (a : α) : (q.put a).1.items = q.items ++ (q.put a).2 := by
  by_cases hroom : q.items.length < cap
  · rcases put_of_room q a hroom with ⟨hitems, haccepted⟩
    rw [hitems, haccepted]
  · rw [put_of_full q a hroom, List.append_nil]

/-- So an item that is there was there, or is the one put. -/
theorem mem_put {q : Fifo α cap} {a b : α} (h : b ∈ (q.put a).1.items) : b ∈ q.items ∨ b = a := by
  by_cases hroom : q.items.length < cap
  · rw [(put_of_room q a hroom).1, List.mem_append, List.mem_singleton] at h
    exact h
  · rw [put_of_full q a hroom] at h
    exact Or.inl h

/-- What was accepted is counted once at most. -/
theorem put_countP (q : Fifo α cap) (a : α) (p : α → Bool) :
    (q.put a).2.countP p ≤ if p a then 1 else 0 := by
  by_cases hroom : q.items.length < cap
  · have hcount : (q.put a).2.countP p = if p a then 1 else 0 := by
      rw [(put_of_room q a hroom).2, List.countP_singleton]
    exact Nat.le_of_eq hcount
  · rw [put_of_full q a hroom]
    exact Nat.zero_le _

theorem take_items {q q' : Fifo α cap} {a : α} (h : q.take = some (a, q')) :
    q.items = a :: q'.items := by
  unfold take at h
  split at h
  · cases h
  · rename_i hq
    cases h
    exact hq

/-- What was there and what came in is what went out and what is there. -/
def Conserves (start accepted taken : List α) (q : Fifo α cap) : Prop :=
  start ++ accepted = taken ++ q.items

theorem conserves_refl (q : Fifo α cap) : Conserves q.items [] [] q := List.append_nil q.items

/-- Putting an item keeps the equation, accepted or not. -/
theorem conserves_put {start accepted taken : List α} {q : Fifo α cap} (a : α)
    (h : Conserves start accepted taken q) :
    Conserves start (accepted ++ (q.put a).2) taken (q.put a).1 := by
  by_cases hroom : q.items.length < cap
  · rcases put_of_room q a hroom with ⟨hitems, haccepted⟩
    unfold Conserves at h ⊢
    rw [hitems, haccepted, ← List.append_assoc, h, List.append_assoc]
  · rw [put_of_full q a hroom, List.append_nil]
    exact h

/-- So does taking one. -/
theorem conserves_take {start accepted taken : List α} {q q' : Fifo α cap} {a : α}
    (h : Conserves start accepted taken q) (htake : q.take = some (a, q')) :
    Conserves start accepted (taken ++ [a]) q' := by
  unfold Conserves at h ⊢
  rw [h, take_items htake, List.append_assoc, List.singleton_append]

/-- An empty queue has given out everything. -/
theorem Conserves.drained {start accepted taken : List α} {q : Fifo α cap}
    (h : Conserves start accepted taken q) (hempty : q.items = []) :
    taken = start ++ accepted := by
  rw [Conserves, hempty, List.append_nil] at h
  exact h.symm

end Fifo
