import CoapThread.Core.Loop
import CoapThread.System.Accounts

/-!
# Turns of the Loop

What the order of the loop adds to what holds of the events in any order.

The sweep reads the requester of every entry it comes to. One that returns has
come to all of them, so behind it every entry of the list names a requester,
and has waited for less than that allows. A message without a requester is the
other side of this: once it is taken over it stays in the list, since nothing
but a requester's own release could take it out, and the sweep of the same
turn does not return. The thread answers what comes in until then, and takes
no message any more.

## Main definitions

* `LoopOthers`: What the other threads may do beside the loop.
* `OpenLoop`: The loop among the others.
* `Kept`: An entry names a requester that allows it to wait on.
* `TurnsWell`: The invariant.

## Theorems

* `openLoop_simulates`: The loop does what the thread does.
* `sweep_named`: A sweep that returns has found a requester everywhere.
* `sweep_kept`: What it leaves in the list may wait on.
* `turnsWell_step`: Every step keeps the invariant.
* `kept_behindSweep`: Nothing is left behind by a sweep for too long.
* `lastEntry_of_nobody`: A message without requester is the last one.
-/

namespace CoapThread

open CBytes Machine

/-- What the other threads may do while the thread stands where it does. -/
structure LoopOthers (l l' : LoopState) : Prop where
  pc : l'.pc = l.pc
  others : OthersDo l.gateway l'.gateway

/-- The loop among the others. -/
abbrev OpenLoop : LoopState → Option (Option Event) → LoopState → Prop :=
  Among LoopStep LoopOthers

/-- The events of the thread a step of the loop is. -/
def loopEvents : Option (Option Event) → List (Option Event)
  | none => [none]
  | some none => []
  | some (some e) => [some e]

/-- A step of the loop is a step of the thread, or a wait in vain. -/
theorem loopStep_steps {l l' : LoopState} {e : Option Event} (h : LoopStep l e l') :
    (e = none ∧ l'.gateway = l.gateway) ∨ ∃ e', e = some e' ∧ Steps l.gateway e' l'.gateway := by
  cases h with
  | timedOut g => exact Or.inl ⟨rfl, rfl⟩
  | message g g' r now m hstep | response g g' r l received hstep | sweep g g' now hstep
  | check300 g g' now hstep => exact Or.inr ⟨_, rfl, hstep⟩

/-- The loop among the others does what the thread does among the others. -/
theorem openLoop_simulates :
    Simulates OpenLoop OpenStep loopEvents (fun l g => l.gateway = g) := by
  rintro l e l' g rfl hstep
  cases hstep with
  | own _ e hown =>
      rcases loopStep_steps hown with ⟨rfl, hsame⟩ | ⟨e', rfl, hsteps⟩
      · exact ⟨l.gateway, Path.nil _, hsame⟩
      · exact ⟨_, Path.cons _ _ _ _ _ (Among.own _ _ _ hsteps) (Path.nil _), rfl⟩
  | other _ hother =>
      exact ⟨_, Path.cons _ _ _ _ _ (Among.other _ _ hother.others) (Path.nil _), rfl⟩

section Sweeps

-- Induction on the nodes still ahead, the walk being the one of the sweep.
theorem sweepFrom_named {now : Int} {rest kept : List NodeId} {cur : Option NodeId} {fuel : Nat}
    {g g' : Gateway} (hh : Holds g.list (kept ++ rest))
    (hchain : Linked.Chain g.list.next cur rest) (hfuel : rest.length ≤ fuel)
    (h : sweepFrom now fuel cur g = .ok g') : ∀ i ∈ rest, (g.list.node i).pthpara ≠ none := by
  induction rest generalizing kept cur fuel g with
  | nil => exact fun i hi => absurd hi List.not_mem_nil
  | cons pt rest ih =>
      cases fuel with
      | zero => exact absurd hfuel (Nat.not_succ_le_zero _)
      | succ n =>
      have hlen : rest.length ≤ n := Nat.le_of_succ_le_succ hfuel
      rw [hchain.1] at h
      simp only [sweepFrom] at h
      rcases hp : (g.list.node pt).pthpara with _ | p
      · rw [hp] at h
        cases h
      rw [hp] at h
      simp only [] at h
      refine List.forall_mem_cons.mpr ⟨hp ▸ Option.some_ne_none p, ?_⟩
      split_ifs at h with hdue
      · rcases release_ahead true pt p g kept rest hh hchain.2 with
          ⟨g₁, hrel, hframe, hholds, -, hchain', -⟩
        rw [hrel] at h
        intro i hi
        rw [← pthpara_of_data (hframe.data i)]
        exact ih hholds hchain' hlen h i hi
      · have hsplit : kept ++ pt :: rest = kept ++ [pt] ++ rest := by
          rw [List.append_assoc, List.singleton_append]
        exact ih (hsplit ▸ hh) hchain.2 hlen h

/-- A sweep that returns has found a requester at every entry. -/
theorem sweep_named {now : Int} {g g' : Gateway} {ids : List NodeId} (hh : Holds g.list ids)
    (h : sweep now g = .ok g') : ∀ i ∈ ids, (g.list.node i).pthpara ≠ none := by
  have hnone : Holds g.list ([] ++ ids) := hh
  exact sweepFrom_named hnone hh.chain hh.length_le h

/-- An entry names a requester that allows it to wait on. -/
def Kept (now : Int) (g : Gateway) (i : NodeId) : Prop :=
  ∃ p, (g.list.node i).pthpara = some p ∧ now - (g.list.node i).time < (g.para p).timing

/-- What a sweep leaves in the list may wait on. -/
theorem sweep_kept {now : Int} {g g' : Gateway} {ids : List NodeId} (hh : Holds g.list ids)
    (h : sweep now g = .ok g') (i : NodeId) (hi : g'.list.live i = true) : Kept now g' i := by
  have hnamed := sweep_named hh h
  rcases sweep_holds now g ids hh hnamed with ⟨g'', hrun, hh', hframe, -⟩
  cases h.symm.trans hrun
  rcases List.mem_filter.mp ((hh'.live i).mp hi) with ⟨hmem, hdue⟩
  rcases Option.ne_none_iff_exists'.mp (hnamed i hmem) with ⟨p, hp⟩
  have htime : (g'.list.node i).time = (g.list.node i).time :=
    congrArg (fun m => m.time) (hframe.data i)
  refine ⟨p, (pthpara_of_data (hframe.data i)).trans hp, ?_⟩
  rw [Bool.not_eq_true'] at hdue
  simp only [due, hp, decide_eq_false_iff_not, not_le] at hdue
  rw [htime, hframe.timing p]
  exact hdue

end Sweeps

/-- The list is accounted for, nothing has waited too long where the sweep has
    just been, and an entry that names nobody is the last one, in a turn whose
    sweep is still to come. -/
structure TurnsWell (l : LoopState) : Prop where
  settled : ∃ ids left, Settled l.gateway ids left
  swept : ∀ now, l.pc = .check now → ∀ i, l.gateway.list.live i = true → Kept now l.gateway i
  nobody : ∀ i < l.gateway.list.fresh, (l.gateway.list.node i).pthpara = none →
    l.pc = .dispatch ∧ i + 1 = l.gateway.list.fresh ∧ l.gateway.list.live i = true

section Steps

/-- A state with the same list has the entries that name nobody where they
    were. -/
theorem nobody_of_list {l : LoopState} {g' : Gateway} (hlist : g'.list = l.gateway.list)
    (h : TurnsWell l) : ∀ i < g'.list.fresh, (g'.list.node i).pthpara = none →
      l.pc = .dispatch ∧ i + 1 = g'.list.fresh ∧ g'.list.live i = true := by
  rw [hlist]
  exact h.nobody

/-- A release leaves an entry that names nobody in the list. -/
theorem nobody_of_release {timeout : Bool} {el : NodeId} {p : ParaId} {g g' : Gateway}
    (hp : (g.list.node el).pthpara = some p)
    (hnobody : ∀ i < g.list.fresh, (g.list.node i).pthpara = none →
      i + 1 = g.list.fresh ∧ g.list.live i = true)
    (hrel : release timeout el p g = .ok g') : ∀ i < g'.list.fresh,
      (g'.list.node i).pthpara = none → i + 1 = g'.list.fresh ∧ g'.list.live i = true := by
  rcases release_delete hrel with ⟨list, hdel, hg'⟩
  rcases delete_ok hdel with ⟨-, head, next, hlist⟩
  subst hg' hlist
  intro i hi hnone
  have hnone' : (g.list.node i).pthpara = none := hnone
  rcases hnobody i hi hnone' with ⟨hlast, hlive⟩
  have hne : i ≠ el := by
    intro hc
    rw [hc, hp] at hnone'
    cases hnone'
  exact ⟨hlast, (Function.update_of_ne hne _ _).trans hlive⟩

theorem turnsWell_message {r : LibcoapResult} {now : Int} {m : SCoAPNewRequest} {g g' : Gateway}
    (hi : TurnsWell ⟨.receive, g⟩) (h : receive r now m g = .ok g') :
    TurnsWell ⟨.dispatch, g'⟩ := by
  refine ⟨settled_step (e := .message r now m) hi.settled h, (fun _ hpc => nomatch hpc), ?_⟩
  -- In front of the queue no entry names nobody, so it can be the new one alone.
  have hnamed : ∀ i < g.list.fresh, (g.list.node i).pthpara ≠ none :=
    fun i hlt hnone => nomatch (hi.nobody i hlt hnone).1
  rcases (receive_taken h).2 with ⟨-, hsame⟩ | ⟨-, -, hlist⟩
  · rw [hsame]
    exact fun i hlt hnone => absurd hnone (hnamed i hlt)
  · intro i hlt hnone
    rcases hi.settled with ⟨ids, left, hset⟩
    have hdata := add_data g.list { m with time := now } i
    have hholds := add_holds g.list ids { m with time := now } hset.holds
    simp only [hlist] at hlt hnone ⊢
    by_cases hold : i < g.list.fresh
    · rw [if_neg (Nat.ne_of_lt hold)] at hdata
      exact absurd ((pthpara_of_data hdata).symm.trans hnone) (hnamed i hold)
    · rw [add_fresh] at hlt
      have hnew : i = g.list.fresh :=
        Nat.le_antisymm (Nat.le_of_lt_succ hlt) (Nat.le_of_not_lt hold)
      rw [hnew, add_fresh]
      refine ⟨trivial, rfl, ?_⟩
      exact (hholds.live _).mpr (List.mem_append_right _ (List.mem_singleton_self _))

theorem turnsWell_response {r : LibcoapResult} {l : HandlerLocals} {received : CoapPdu}
    {g g' : Gateway} (hi : TurnsWell ⟨.dispatch, g⟩)
    (h : messageHandler r l received g = .ok g') : TurnsWell ⟨.dispatch, g'⟩ := by
  refine ⟨settled_step (e := .response r l received) hi.settled h, (fun _ hpc => nomatch hpc), ?_⟩
  cases messageHandler_handled h with
  | ignored | other | continued => exact hi.nobody
  | completed value path el block p _ _ _ _ _ _ _ hp hrel =>
      refine fun i hlt hnone => ⟨rfl, nobody_of_release ?_ ?_ hrel i hlt hnone⟩
      · exact hp
      · exact fun i hlt hnone => (hi.nobody i hlt hnone).2

theorem turnsWell_sweep {now : Int} {g g' : Gateway} (hi : TurnsWell ⟨.dispatch, g⟩)
    (h : sweep now g = .ok g') : TurnsWell ⟨.check now, g'⟩ := by
  rcases hi.settled with ⟨ids, left, hset⟩
  have hframe := sweep_frame h
  refine ⟨settled_step (e := .sweep now) hi.settled h, ?_, ?_⟩
  · intro now' hpc
    cases hpc
    exact sweep_kept hset.holds h
  · -- The sweep has come to the entry, so it does name somebody.
    intro i hlt hnone
    simp only [hframe.fresh] at hlt
    rw [pthpara_of_data (hframe.data i)] at hnone
    have hlive := (hi.nobody i hlt hnone).2.2
    exact absurd hnone (sweep_named hset.holds h i ((hset.holds.live i).mp hlive))

/-- Every step of the loop keeps the invariant. -/
theorem turnsWell_step {l l' : LoopState} {e : Option Event} (hi : TurnsWell l)
    (h : LoopStep l e l') : TurnsWell l' := by
  cases h with
  | timedOut g =>
      refine ⟨hi.settled, (fun _ hpc => nomatch hpc), fun i hlt hnone => ?_⟩
      exact nomatch (hi.nobody i hlt hnone).1
  | message g g' r now m hstep => exact turnsWell_message hi hstep
  | response g g' r l received hstep => exact turnsWell_response hi hstep
  | sweep g g' now hstep => exact turnsWell_sweep hi hstep
  | check300 g g' now hstep =>
      refine ⟨settled_step (e := .check300 now) hi.settled hstep, (fun _ hpc => nomatch hpc), ?_⟩
      rw [← Except.ok.inj hstep, check300_eq]
      exact fun i hlt hnone => nomatch (hi.nobody i hlt hnone).1

theorem turnsWell_others {l l' : LoopState} (hi : TurnsWell l) (h : LoopOthers l l') :
    TurnsWell l' := by
  rcases hi.settled with ⟨ids, left, hset⟩
  have hlist := h.others.list
  refine ⟨?_, ?_, ?_⟩
  · exact ⟨ids, left, settled_others hset h.others⟩
  · intro now hpc i hlive
    rw [hlist] at hlive
    rcases hi.swept now (h.pc ▸ hpc) i hlive with ⟨p, hp, htime⟩
    have hnamed : IsNamed l.gateway p :=
      ⟨i, hset.holds.bounded i ((hset.holds.live i).mp hlive), hp⟩
    refine ⟨p, ?_, ?_⟩
    · rw [hlist]
      exact hp
    · rw [hlist, h.others.para hnamed]
      exact htime
  · rw [h.pc]
    exact nobody_of_list hlist hi

end Steps

section Runs

variable {tmp : SCoAPNewRequest} {messageId : UInt16} {para : ParaId → SPthreadPara}
  {es : List (Option (Option Event))}

theorem turnsWell_run {l : LoopState} (h : Path OpenLoop (loopStart tmp messageId para) es l) :
    TurnsWell l := by
  refine among_invariant (I := TurnsWell) (fun s e t hi hstep => turnsWell_step hi hstep)
    (fun s t hi hother => turnsWell_others hi hother) h ?_
  exact ⟨⟨[], [], settled_start tmp messageId para⟩, (fun _ hpc => nomatch hpc),
    fun i hlt => absurd hlt (Nat.not_lt_zero i)⟩

/-- The first entry of a list. -/
theorem firstEntry {h : RequestHeap} {m : SCoAPNewRequest}
    (hadd : h = addPthreadRequestToList RequestHeap.empty m) :
    Holds h [0] ∧ (h.node 0).data = m.data := by
  rw [hadd]
  exact ⟨add_holds RequestHeap.empty [] m empty_holds, add_data RequestHeap.empty m 0⟩

/-- It stays through a sweep at which it is not due. -/
theorem sweep_firstEntry {now : Int} {g : Gateway} {p : ParaId} (hh : Holds g.list [0])
    (hp : (g.list.node 0).pthpara = some p) (hdue : due now g.para (g.list.node 0) = false) :
    ∃ g', sweep now g = .ok g' ∧ g'.list.live 0 = true := by
  rcases sweep_holds now g [0] hh (List.forall_mem_singleton.mpr (hp ▸ Option.some_ne_none p)) with
    ⟨g', hsweep, hh', -⟩
  refine ⟨g', hsweep, ?_⟩
  rw [hh'.live, List.filter_cons_of_pos (by rw [hdue]; rfl)]
  exact List.mem_cons_self

/-- A poll with three seconds to wait, taken over, and swept after one. -/
theorem sweep_youngPoll : ∃ g g',
    receive ⟨true, true⟩ 0 devicePollMessage
      (initialGateway .zero 0 (fun _ => ⟨[], 0, 3, false⟩)) = .ok g ∧
    sweep 1 g = .ok g' ∧ g'.list.live 0 = true := by
  rcases receive_poll ⟨true, true⟩ 0 devicePollMessage
    (initialGateway .zero 0 (fun _ => ⟨[], 0, 3, false⟩)) nofun rfl rfl with
    ⟨g, hrun, -, -, hlist, -⟩
  have hpara := (receive_taken hrun).1
  rcases firstEntry hlist with ⟨hh, hdata⟩
  have hp : (g.list.node 0).pthpara = some 1 := pthpara_of_data hdata
  have htime : (g.list.node 0).time = 0 := congrArg (fun m => m.time) hdata
  have hdue : due 1 g.para (g.list.node 0) = false := by
    unfold due
    rw [hp, hpara, htime]
    decide
  rcases sweep_firstEntry hh hp hdue with ⟨g', hsweep, hlive⟩
  exact ⟨g, g', hrun, hsweep, hlive⟩

/-- In every run of the loop among the others: where a sweep has just been,
    every entry of the list names a requester, and has waited for less than
    that allows. -/
theorem kept_behindSweep {now : Int} {g : Gateway}
    (h : Path OpenLoop (loopStart tmp messageId para) es ⟨.check now, g⟩) (i : NodeId)
    (hi : g.list.live i = true) : Kept now g i := (turnsWell_run h).swept now rfl i hi

/-- A poll with three seconds to wait, swept after one. -/
theorem kept_behindSweep_young : ∃ g,
    Path OpenLoop (loopStart .zero 0 (fun _ => ⟨[], 0, 3, false⟩))
      [some (some (.message ⟨true, true⟩ 0 devicePollMessage)), some (some (.sweep 1))]
      ⟨.check 1, g⟩ ∧ g.list.live 0 = true ∧ Kept 1 g 0 := by
  rcases sweep_youngPoll with ⟨g, g', hrun, hsweep, hlive⟩
  have hpath : Path OpenLoop (loopStart .zero 0 (fun _ => ⟨[], 0, 3, false⟩))
      [some (some (.message ⟨true, true⟩ 0 devicePollMessage)), some (some (.sweep 1))]
      ⟨.check 1, g'⟩ :=
    among_path (Path.cons _ _ _ _ _ (.message _ g _ _ _ hrun)
      (Path.cons _ _ _ _ _ (.sweep g g' 1 hsweep) (Path.nil _)))
  exact ⟨g', hpath, hlive, kept_behindSweep hpath 0 hlive⟩

/-- In every run of the loop among the others: a message without requester that
    was taken over is the last one that was, is in the list still, and the
    sweep of its turn is still to come. -/
theorem lastEntry_of_nobody {l : LoopState}
    (h : Path OpenLoop (loopStart tmp messageId para) es l) (i : NodeId)
    (hi : i < l.gateway.list.fresh) (hnobody : (l.gateway.list.node i).pthpara = none) :
    l.pc = .dispatch ∧ i + 1 = l.gateway.list.fresh ∧ l.gateway.list.live i = true :=
  (turnsWell_run h).nobody i hi hnobody

/-- A poll that names nobody, just taken over. -/
theorem lastEntry_of_nobody_poll : ∃ l,
    Path OpenLoop (loopStart .zero 0 (fun _ => ⟨[], 0, 0, false⟩))
      [some (some (.message ⟨true, true⟩ 0 .zero))] l ∧
    l.pc = .dispatch ∧ 0 + 1 = l.gateway.list.fresh ∧ l.gateway.list.live 0 = true := by
  rcases receive_poll ⟨true, true⟩ 0 .zero (initialGateway .zero 0 (fun _ => ⟨[], 0, 0, false⟩))
    nofun rfl rfl with ⟨g, hrun, -, -, hlist, -⟩
  rcases firstEntry hlist with ⟨hh, hdata⟩
  have hfresh : 0 < g.list.fresh := hh.bounded 0 (List.mem_singleton_self 0)
  have hpath : Path OpenLoop (loopStart .zero 0 (fun _ => ⟨[], 0, 0, false⟩))
      [some (some (.message ⟨true, true⟩ 0 .zero))] ⟨.dispatch, g⟩ :=
    among_path (Path.cons _ _ _ _ _ (.message _ g _ _ _ hrun) (Path.nil _))
  exact ⟨_, hpath, lastEntry_of_nobody hpath 0 hfresh (pthpara_of_data hdata)⟩

end Runs

end CoapThread
