import Mathlib.Data.List.Nodup
import Mathlib.Logic.Function.Basic

/-!
# Singly Linked Lists

The pointer loops of a singly linked list, and what they do to the sequence
of nodes the list stands for.

A list is a head pointer and a map sending each node to the one after it.
`Chain` relates the two to the sequence of nodes met on the way from the head
to the null pointer; being a relation to a finite sequence, it also says the
walk ends. The loops take an explicit bound on their iterations, since a
corrupted map can send them round for ever, and each result here asks only
that the bound is at least the length of the chain.

Deletion changes the link of one node, the predecessor. `chain_delete` says
so, because a loop walking the list while it deletes reads the link of a node
it has just removed and lives off its being unchanged.

## Main definitions

* `Chain`: Following the links from a pointer meets exactly these nodes.
* `last`: The walk to the last node.
* `before`: The walk to the node before a given one, or to the last.
* `append`: Linking a node in at the end.
* `delete`: Unlinking a node.
* `search`: The first node passing a test.

## Theorems

* `chain_congr`: A chain depends only on the links of its own nodes.
* `chain_unique`: A pointer stands for at most one sequence.
* `chain_next_mem`: A chain's links stay inside it.
* `last_chain`: The walk to the end finds the last node.
* `chain_append`: Appending adds the node at the end of the sequence.
* `before_chain`: The walk finds the predecessor.
* `chain_delete`: Deleting removes the node from the sequence.
* `search_chain`: Searching finds the first node in sequence.
-/

namespace Linked

variable {ι : Type}

/-- Following the links from a pointer meets exactly these nodes, in order,
    and then the null pointer. -/
def Chain (next : ι → Option ι) : Option ι → List ι → Prop
  | head, [] => head = none
  | head, i :: ids => head = some i ∧ Chain next (next i) ids

theorem chain_congr (next next' : ι → Option ι) (head : Option ι) (ids : List ι)
    (heq : ∀ i ∈ ids, next' i = next i) (h : Chain next head ids) : Chain next' head ids := by
  induction ids generalizing head with
  | nil => exact h
  | cons i ids ih =>
      refine ⟨h.1, ?_⟩
      rw [heq i List.mem_cons_self]
      exact ih (next i) (fun j hj => heq j (List.mem_cons_of_mem _ hj)) h.2

theorem chain_unique (next : ι → Option ι) (head : Option ι) (ids ids' : List ι)
    (h : Chain next head ids) (h' : Chain next head ids') : ids = ids' := by
  induction ids generalizing head ids' with
  | nil =>
      cases ids' with
      | nil => rfl
      | cons j ids' =>
          exact absurd (h.symm.trans h'.1) (by simp only [reduceCtorEq, not_false_eq_true])
  | cons i ids ih =>
      cases ids' with
      | nil => exact absurd (h'.symm.trans h.1) (by simp only [reduceCtorEq, not_false_eq_true])
      | cons j ids' =>
          -- Both are the node the head points at.
          have hij : i = j := Option.some.inj (h.1.symm.trans h'.1)
          subst hij
          rw [ih (next i) ids' h.2 h'.2]

/-- A link out of a chain's node leads to a node of the chain. -/
theorem chain_next_mem (next : ι → Option ι) (head : Option ι) (ids : List ι) (i j : ι)
    (h : Chain next head ids) (hi : i ∈ ids) (hj : next i = some j) : j ∈ ids := by
  induction ids generalizing head with
  | nil => exact absurd hi List.not_mem_nil
  | cons k ids ih =>
      rcases List.mem_cons.mp hi with heq | htail
      · subst heq
        cases ids with
        | nil => exact absurd (h.2.symm.trans hj) (by simp only [reduceCtorEq, not_false_eq_true])
        -- The link of a node is the head of what is behind it.
        | cons l ids =>
            have hl : l = j := Option.some.inj (h.2.1.symm.trans hj)
            rw [hl]
            exact List.mem_cons_of_mem _ List.mem_cons_self
      · exact List.mem_cons_of_mem _ (ih (next k) h.2 htail)

/-- The walk to the last node, with a bound on its steps. -/
def last (next : ι → Option ι) : Nat → ι → ι
  | 0, i => i
  | n + 1, i => match next i with
    | none => i
    | some j => last next n j

/-- The walk to the end finds the last node of the chain. -/
theorem last_chain (next : ι → Option ι) (ids : List ι) (i : ι) (fuel : Nat)
    (hfuel : ids.length ≤ fuel) (h : Chain next (next i) ids) :
    last next fuel i = (i :: ids).getLast (List.cons_ne_nil i ids) := by
  induction ids generalizing i fuel with
  | nil =>
      cases fuel with
      | zero => rfl
      | succ n =>
          have hn : next i = none := h
          simp only [last, hn, List.getLast_singleton]
  | cons j ids ih =>
      cases fuel with
      | zero => exact absurd hfuel (by simp only [List.length_cons]; omega)
      | succ n =>
          have hlen : ids.length ≤ n := by
            simp only [List.length_cons] at hfuel
            omega
          simp only [last, h.1]
          rw [ih j n hlen h.2]
          exact (List.getLast_cons (List.cons_ne_nil j ids)).symm

variable [DecidableEq ι]

/-- Link a node in at the end of the list. -/
def append (next : ι → Option ι) (fuel : Nat) (head : Option ι) (new : ι) :
    Option ι × (ι → Option ι) :=
  let next := Function.update next new none
  match head with
  | none => (some new, next)
  | some h => (some h, Function.update next (last next fuel h) (some new))

/-- A chain whose last node is linked on to a new one grows by it. -/
theorem chain_link_last (next : ι → Option ι) (ids : List ι) (i new : ι)
    (hnodup : (i :: ids).Nodup) (hnew : new ∉ i :: ids) (hnone : next new = none)
    (h : Chain next (next i) ids) :
    Chain (Function.update next ((i :: ids).getLast (List.cons_ne_nil i ids)) (some new))
      (some i) (i :: ids ++ [new]) := by
  induction ids generalizing i with
  | nil =>
      have hne : new ≠ i := fun hc => hnew (hc ▸ List.mem_cons_self)
      refine ⟨rfl, ?_⟩
      rw [List.getLast_singleton, Function.update_self]
      refine ⟨rfl, ?_⟩
      rw [Function.update_of_ne hne]
      exact hnone
  | cons j ids ih =>
      have hnodup' := (List.nodup_cons.mp hnodup).2
      have hi : i ∉ j :: ids := (List.nodup_cons.mp hnodup).1
      have hnew' : new ∉ j :: ids := fun hc => hnew (List.mem_cons_of_mem _ hc)
      have hrec := ih j hnodup' hnew' h.2
      refine ⟨rfl, ?_⟩
      rw [List.getLast_cons (List.cons_ne_nil j ids)]
      have hlast := List.getLast_mem (List.cons_ne_nil j ids)
      -- The link that changes is not this node's.
      have hne : i ≠ (j :: ids).getLast (List.cons_ne_nil j ids) := fun hc => hi (hc ▸ hlast)
      rw [Function.update_of_ne hne, h.1]
      exact hrec

/-- Appending adds the node at the end of the sequence. -/
theorem chain_append (next : ι → Option ι) (head : Option ι) (ids : List ι) (new : ι) (fuel : Nat)
    (hfuel : ids.length ≤ fuel) (hnodup : ids.Nodup) (hnew : new ∉ ids)
    (h : Chain next head ids) :
    Chain (append next fuel head new).2 (append next fuel head new).1 (ids ++ [new]) := by
  -- The new node is not in the chain, so writing its link changes nothing in it.
  have hframe : Chain (Function.update next new none) head ids := by
    refine chain_congr next _ head ids (fun i hi => ?_) h
    have hne : i ≠ new := fun hc => hnew (hc ▸ hi)
    exact Function.update_of_ne hne _ _
  cases ids with
  | nil =>
      have hhead : head = none := h
      simp only [append, hhead, List.nil_append]
      exact ⟨rfl, Function.update_self _ _ _⟩
  | cons i ids =>
      have hlen : ids.length ≤ fuel := by
        simp only [List.length_cons] at hfuel
        omega
      have hhead : head = some i := h.1
      simp only [append, hhead]
      rw [last_chain _ ids i fuel hlen hframe.2]
      exact chain_link_last _ ids i new hnodup hnew (Function.update_self _ _ _) hframe.2

/-- The walk to the node whose link points at `el`, or to the last node. -/
def before (next : ι → Option ι) (el : ι) : Nat → ι → ι
  | 0, i => i
  | n + 1, i => match next i with
    | none => i
    | some j => if j = el then i else before next el n j

/-- The walk finds the predecessor of a node of the chain. -/
theorem before_chain (next : ι → Option ι) (el i : ι) (ids : List ι) (fuel : Nat)
    (hfuel : ids.length ≤ fuel) (h : Chain next (next i) ids) (hmem : el ∈ ids) :
    next (before next el fuel i) = some el := by
  induction ids generalizing i fuel with
  | nil => exact absurd hmem List.not_mem_nil
  | cons j ids ih =>
      cases fuel with
      | zero => exact absurd hfuel (by simp only [List.length_cons]; omega)
      | succ n =>
          have hlen : ids.length ≤ n := by
            simp only [List.length_cons] at hfuel
            omega
          simp only [before, h.1]
          -- The walk looks one node ahead of where it stands.
          by_cases hj : j = el
          · rw [if_pos hj, h.1, hj]
          · rw [if_neg hj]
            rcases List.mem_cons.mp hmem with he | htail
            · exact absurd he.symm hj
            · exact ih j n hlen h.2 htail

/-- Unlink a node. Nothing when the walk would read through a null head. -/
def delete (next : ι → Option ι) (fuel : Nat) (head : Option ι) (el : ι) :
    Option (Option ι × (ι → Option ι)) :=
  if head = some el then some (next el, next)
  else match head with
    | none => none
    | some h =>
      let prev := before next el fuel h
      match next prev with
      | none => some (head, next)
      | some _ => some (head, Function.update next prev (next el))

/-- The walk to a predecessor stays on the chain. -/
theorem before_mem (next : ι → Option ι) (el i : ι) (ids : List ι) (fuel : Nat)
    (h : Chain next (next i) ids) : before next el fuel i ∈ i :: ids := by
  induction ids generalizing i fuel with
  | nil =>
      have hn : next i = none := h
      cases fuel with
      | zero => exact List.mem_cons_self
      | succ n =>
          simp only [before, hn]
          exact List.mem_cons_self
  | cons j ids ih =>
      cases fuel with
      | zero => exact List.mem_cons_self
      | succ n =>
          simp only [before, h.1]
          by_cases hj : j = el
          · rw [if_pos hj]
            exact List.mem_cons_self
          · rw [if_neg hj]
            exact List.mem_cons_of_mem _ (ih j n h.2)

/-- Redirecting the predecessor's link past a node takes it out of the chain. -/
theorem chain_bypass (next : ι → Option ι) (el i : ι) (ids : List ι) (fuel : Nat)
    (hfuel : ids.length ≤ fuel) (hnodup : (i :: ids).Nodup) (hmem : el ∈ ids)
    (h : Chain next (next i) ids) :
    Chain (Function.update next (before next el fuel i) (next el)) (some i)
      (i :: ids.erase el) := by
  induction ids generalizing i fuel with
  | nil => exact absurd hmem List.not_mem_nil
  | cons j ids ih =>
      have hi : i ∉ j :: ids := (List.nodup_cons.mp hnodup).1
      have hnodup' := (List.nodup_cons.mp hnodup).2
      cases fuel with
      | zero => exact absurd hfuel (by simp only [List.length_cons]; omega)
      | succ n =>
          have hlen : ids.length ≤ n := by
            simp only [List.length_cons] at hfuel
            omega
          simp only [before, h.1]
          by_cases hj : j = el
          · -- The next node is the one to unlink, so its link is copied here.
            subst hj
            rw [if_pos rfl, List.erase_cons_head]
            refine ⟨rfl, ?_⟩
            rw [Function.update_self]
            refine chain_congr next _ _ ids (fun k hk => ?_) h.2
            have hne : k ≠ i := fun hc => hi (hc ▸ List.mem_cons_of_mem _ hk)
            exact Function.update_of_ne hne _ _
          · have htail : el ∈ ids := by
              rcases List.mem_cons.mp hmem with he | ht
              · exact absurd he.symm hj
              · exact ht
            rw [if_neg hj, List.erase_cons_tail (by simpa only [beq_iff_eq] using hj)]
            have hrec := ih j n hlen hnodup' htail h.2
            have hbefore := before_mem next el j ids n h.2
            have hne : i ≠ before next el n j := fun hc => hi (hc ▸ hbefore)
            refine ⟨rfl, ?_⟩
            rw [Function.update_of_ne hne, h.1]
            exact hrec

/-- Deleting removes the node from the sequence, and changes no link but one
    that pointed at it. -/
theorem chain_delete (next : ι → Option ι) (head : Option ι) (ids : List ι) (el : ι) (fuel : Nat)
    (hfuel : ids.length ≤ fuel) (hnodup : ids.Nodup) (hmem : el ∈ ids)
    (h : Chain next head ids) :
    ∃ head' next', delete next fuel head el = some (head', next') ∧
      Chain next' head' (ids.erase el) ∧ ∀ k, next k ≠ some el → next' k = next k := by
  cases ids with
  | nil => exact absurd hmem List.not_mem_nil
  | cons i ids =>
      have hhead : head = some i := h.1
      -- The first node is unlinked by moving the head, any other by its predecessor.
      by_cases hi : i = el
      · subst hi
        refine ⟨next i, next, ?_, ?_, fun _ _ => rfl⟩
        · unfold delete
          rw [if_pos hhead]
        · rw [List.erase_cons_head]
          exact h.2
      · have htail : el ∈ ids := by
          rcases List.mem_cons.mp hmem with he | ht
          · exact absurd he.symm hi
          · exact ht
        have hlen : ids.length ≤ fuel := by
          simp only [List.length_cons] at hfuel
          omega
        have hprev := before_chain next el i ids fuel hlen h.2 htail
        have hne : ¬ (some i = some el) := fun hc => hi (Option.some.inj hc)
        refine ⟨some i, Function.update next (before next el fuel i) (next el), ?_, ?_, ?_⟩
        · unfold delete
          rw [hhead, if_neg hne]
          simp only [hprev]
        · rw [List.erase_cons_tail (by simpa only [beq_iff_eq] using hi)]
          exact chain_bypass next el i ids fuel hlen hnodup htail h.2
        · intro k hk
          refine Function.update_of_ne (fun hc => hk ?_) _ _
          rw [hc, hprev]

/-- The first node of the list passing a test. -/
def search (next : ι → Option ι) (test : ι → Bool) : Nat → Option ι → Option ι
  | _, none => none
  | 0, some _ => none
  | n + 1, some i => if test i then some i else search next test n (next i)

omit [DecidableEq ι] in
/-- Searching finds the first node in sequence. -/
theorem search_chain (next : ι → Option ι) (test : ι → Bool) (ids : List ι) (head : Option ι)
    (fuel : Nat) (hfuel : ids.length ≤ fuel) (h : Chain next head ids) :
    search next test fuel head = ids.find? test := by
  induction ids generalizing head fuel with
  | nil =>
      have hhead : head = none := h
      rw [hhead]
      cases fuel <;> rfl
  | cons i ids ih =>
      rw [h.1]
      cases fuel with
      | zero => exact absurd hfuel (by simp only [List.length_cons]; omega)
      | succ n =>
          have hlen : ids.length ≤ n := by
            simp only [List.length_cons] at hfuel
            omega
          -- The walk stops where the first node passes, as `find?` does.
          by_cases ht : test i = true
          · rw [search, if_pos ht, List.find?_cons_of_pos ht]
          · rw [search, if_neg ht, List.find?_cons_of_neg ht]
            exact ih (next i) n hlen h.2

end Linked
