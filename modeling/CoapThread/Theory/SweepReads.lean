import CoapThread.Core.Thread

/-!
# What the Sweep Reads

Whether one pass of the sweep stays on nodes that are allocated.

The pass does what it is for: it comes to every node once, releases those that
are due and keeps the rest in order, as `sweepLog_holds` shows. But the loop
takes the link to the next node from the one it has just released. The nodes
keep their content here after they are freed, so the walk goes on; what it
reads there is not its own any more.

## Main definitions

* `signalled`: How often a requester was signalled.
* `SweptClean`: A pass does what it is for and reads allocated nodes only.

## Theorems

* `sweptClean_iff`: A pass is clean exactly where no node is due.
* `not_sweptClean_oneDue`: The one request of the list is due.
-/

namespace CoapThread

/-- How often a requester's condition variable was signalled for a timeout. -/
def signalled (p : ParaId) (os : List Output) : Nat := os.count (.signal p true)

/-- One pass over the list: it reads allocated nodes only, comes to each once,
    and ends with those that are not due in their order. A requester whose
    node was removed is told of the timeout and signalled once, and the
    requesters of the nodes that remain are as they were. -/
def SweptClean (now : Int) (g : Gateway) (ids : List NodeId) : Prop :=
  ∃ log g', sweepLog now g = .ok (log, g') ∧
    (∀ v ∈ log, v.request = true ∧ v.link = true) ∧ log.map Visit.node = ids ∧
    Holds g'.list (ids.filter (fun i => !due now g.para (g.list.node i))) ∧
    (∀ i, (g'.list.node i).data = (g.list.node i).data) ∧
    (∀ i ∈ ids, ∀ p, (g.list.node i).pthpara = some p →
      if due now g.para (g.list.node i) then
        (g'.para p).timeout = true ∧ signalled p (g'.outputs.drop g.outputs.length) = 1
      else g'.para p = g.para p)

/-- Where no node is due the sweep changes nothing. -/
theorem sweep_idle {now : Int} {g : Gateway} {ids : List NodeId} (hh : Holds g.list ids)
    (hpara : ∀ i ∈ ids, (g.list.node i).pthpara ≠ none)
    (hdue : ∀ i ∈ ids, due now g.para (g.list.node i) = false) :
    sweepLog now g = .ok (ids.map (visitOf now g), g) := by
  -- Induction along the list; nothing is released, so the state stays.
  have hwalk : ∀ (rest : List NodeId) (cur : Option NodeId) (fuel : Nat),
      rest ⊆ ids → Linked.Chain g.list.next cur rest → rest.length ≤ fuel →
      sweepLogFrom now fuel cur g = .ok (rest.map (visitOf now g), g) := by
    intro rest
    induction rest with
    | nil =>
        intro cur fuel _ hchain _
        have hcur : cur = none := hchain
        rw [hcur]
        cases fuel <;> rfl
    | cons pt rest ih =>
        intro cur fuel hsub hchain hfuel
        have hmem : pt ∈ ids := hsub List.mem_cons_self
        rcases fuel with _ | n
        · exact absurd hfuel (Nat.not_succ_le_zero _)
        have hrec := ih (g.list.next pt) n (fun i hi => hsub (List.mem_cons_of_mem _ hi)) hchain.2
          (Nat.le_of_succ_le_succ hfuel)
        rcases hp : (g.list.node pt).pthpara with _ | p
        · exact absurd hp (hpara pt hmem)
        have hnot : ¬ ((g.para p).timing ≤ now - (g.list.node pt).time) := by
          have h := hdue pt hmem
          unfold due at h
          rw [hp] at h
          exact of_decide_eq_false h
        rw [hchain.1]
        simp only [sweepLogFrom, hp, if_neg hnot, hrec, Except.map, List.map_cons, visitOf,
          hdue pt hmem, (hh.live pt).mpr hmem, Bool.not_false]
  exact hwalk ids g.list.head g.list.fresh (fun i hi => hi) hh.chain hh.length_le

/-- For every list whose nodes all name a requester, a pass of the sweep is
    clean if and only if no node of the list is due. -/
theorem sweptClean_iff (now : Int) (g : Gateway) (ids : List NodeId) (hh : Holds g.list ids)
    (hpara : ∀ i ∈ ids, (g.list.node i).pthpara ≠ none) :
    SweptClean now g ids ↔ ∀ i ∈ ids, due now g.para (g.list.node i) = false := by
  constructor
  · intro h i hi
    rcases h with ⟨log, g', hrun, hread, -⟩
    rcases sweepLog_holds now g ids hh hpara with ⟨g'', hrun', -⟩
    cases hrun.symm.trans hrun'
    -- The link of a node is read while the node is allocated only if it was not due.
    have hlink := (hread _ (List.mem_map_of_mem hi)).2
    rw [visitOf, Bool.not_eq_true'] at hlink
    exact hlink
  · intro hdue
    refine ⟨_, g, sweep_idle hh hpara hdue, ?_, ?_, ?_, fun _ => rfl, ?_⟩
    · intro v hv
      rcases List.mem_map.mp hv with ⟨i, hi, hvisit⟩
      rw [← hvisit]
      exact ⟨rfl, by rw [visitOf, hdue i hi, Bool.not_false]⟩
    · rw [List.map_map]
      exact List.map_id ids
    · rw [List.filter_eq_self.mpr (fun i hi => by rw [hdue i hi, Bool.not_false])]
      exact hh
    · intro i hi p _
      rw [hdue i hi, if_neg Bool.false_ne_true]

/-- The state with one request in the list, whose requester waits three
    seconds. -/
def onePending : Gateway :=
  { initialGateway .zero 0 (fun _ => ⟨[], 0, 3, false⟩) with
    list := addPthreadRequestToList RequestHeap.empty
      { SCoAPNewRequest.zero with pthpara := some 0 } }

theorem onePending_holds : Holds onePending.list [0] :=
  add_holds RequestHeap.empty [] _ empty_holds

/-- A second one behind it, for a requester that waits half a minute. -/
def twoPending : Gateway :=
  { initialGateway .zero 0 (fun p => ⟨[], 0, if p = 0 then 3 else 30, false⟩) with
    list := addPthreadRequestToList onePending.list
      { SCoAPNewRequest.zero with req := .ltuTxBlock, pthpara := some 1 } }

theorem twoPending_holds : Holds twoPending.list [0, 1] :=
  add_holds onePending.list [0] _ onePending_holds

/-- After two seconds a pass is clean. -/
theorem sweptClean_twoWaiting : SweptClean 2 twoPending [0, 1] :=
  (sweptClean_iff 2 twoPending [0, 1] twoPending_holds (by decide)).mpr (by decide)

/-- After three the request is due, and its node is read once it is freed. -/
theorem not_sweptClean_oneDue : ¬ SweptClean 3 onePending [0] := by
  intro h
  rcases h with ⟨log, g', hrun, hread, -⟩
  rcases sweepLog_holds 3 onePending [0] onePending_holds (by decide) with ⟨g'', hrun', -⟩
  cases hrun.symm.trans hrun'
  exact absurd (hread _ List.mem_cons_self).2 (by decide)

end CoapThread
