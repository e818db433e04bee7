import CoapThread.Core.Handler
import CoapThread.Core.Receive

/-!
# The CoAP Thread

The rest of the thread's loop: the sweep for expired requests, the check on
the poll round, and the step relation the runs of the thread are made of.

One turn of the source's loop takes a message off the queue or not, hands any
number of received PDUs to the handler, sweeps, and checks the poll round.
Here each of these is an event of its own and any sequence of events is a run,
so a run of turns is a run here, and a statement about every run covers every
schedule.

The sweep frees an entry and then reads its link to go on. `sweepFrom` does
the same, and `sweep_holds` rests on deletion leaving the link of the deleted
node alone.

## Main definitions

* `due`: An entry has waited for as long as its requester allows.
* `sweep`: Release every entry that is due.
* `sweepLog`: The sweep with the nodes it comes to.
* `check300`: Wake a poll round that has lasted 300 seconds.
* `Event`, `step`, `Steps`: The thread as a labelled machine.

## Theorems

* `sweep_frame`: What a sweep leaves as it is.
* `sweepLogFrom_snd`: The nodes aside it is the sweep.
* `sweepLog_holds`, `sweep_holds`: The sweep releases exactly the entries that
  are due, in order.
-/

namespace CoapThread

open CBytes

/-- An entry has waited for as long as its requester allows. -/
def due (now : Int) (para : ParaId → SPthreadPara) (m : SCoAPNewRequest) : Bool :=
  match m.pthpara with
  | none => false
  | some p => decide ((para p).timing ≤ now - m.time)

/-- The sweep from one node on, with a bound on its steps. -/
def sweepFrom (now : Int) : Nat → Option NodeId → Gateway → Except Fault Gateway
  | 0, _, g => .ok g
  | _ + 1, none, g => .ok g
  | n + 1, some pt, g => match (g.list.node pt).pthpara with
    | none => .error .nullDeref
    | some p =>
      if (g.para p).timing ≤ now - (g.list.node pt).time then
        match release true pt p g with
        | .error f => .error f
        -- The link is read after the node it stands in has been freed.
        | .ok g => sweepFrom now n (g.list.next pt) g
      else sweepFrom now n (g.list.next pt) g

/-- Release every entry that is due. -/
def sweep (now : Int) (g : Gateway) : Except Fault Gateway :=
  sweepFrom now g.list.fresh g.list.head g

/-- A node the sweep has come to: whether it was allocated when its request was
    read, and when its link was. -/
structure Visit where
  node : NodeId
  request : Bool
  link : Bool
  deriving DecidableEq

/-- The sweep from one node on, with the nodes it comes to. -/
def sweepLogFrom (now : Int) : Nat → Option NodeId → Gateway → Except Fault (List Visit × Gateway)
  | 0, _, g => .ok ([], g)
  | _ + 1, none, g => .ok ([], g)
  | n + 1, some pt, g => match (g.list.node pt).pthpara with
    | none => .error .nullDeref
    | some p =>
      if (g.para p).timing ≤ now - (g.list.node pt).time then
        match release true pt p g with
        | .error f => .error f
        | .ok g' => (sweepLogFrom now n (g'.list.next pt) g').map (fun x =>
            (⟨pt, g.list.live pt, g'.list.live pt⟩ :: x.1, x.2))
      else (sweepLogFrom now n (g.list.next pt) g).map (fun x =>
        (⟨pt, g.list.live pt, g.list.live pt⟩ :: x.1, x.2))

/-- The sweep with the nodes it comes to. -/
def sweepLog (now : Int) (g : Gateway) : Except Fault (List Visit × Gateway) :=
  sweepLogFrom now g.list.fresh g.list.head g

/-- Wake a poll round that has lasted 300 seconds. -/
def check300 (now : Int) (g : Gateway) : Gateway :=
  if g.ycRequest then
    if 300 ≤ now - g.deviceInfo.time then g.emit [.signalYC] else g
  else g

/-- The check does not change the state beyond its outputs. -/
theorem check300_eq (now : Int) (g : Gateway) :
    check300 now g = { g with outputs := (check300 now g).outputs } := by
  unfold check300 Gateway.emit
  split_ifs
  · rfl
  · rfl
  · rfl

/-- The check sends nothing. -/
theorem check300_sends (now : Int) (g : Gateway) :
    (check300 now g).token = g.token ∧
      sentPdus (check300 now g).outputs = sentPdus g.outputs := by
  unfold check300 Gateway.emit
  split_ifs
  · exact ⟨rfl, (sentPdus_append _ _).trans (List.append_nil _)⟩
  · exact ⟨rfl, rfl⟩
  · exact ⟨rfl, rfl⟩

/-- What can happen in the thread. -/
inductive Event where
  | message (r : LibcoapResult) (now : Int) (m : SCoAPNewRequest)
  | response (r : LibcoapResult) (l : HandlerLocals) (received : CoapPdu)
  | sweep (now : Int)
  | check300 (now : Int)

/-- One event. -/
def step (g : Gateway) : Event → Except Fault Gateway
  | .message r now m => receive r now m g
  | .response r l received => messageHandler r l received g
  | .sweep now => sweep now g
  | .check300 now => .ok (check300 now g)

/-- An event leads from one state to another. -/
def Steps (g : Gateway) (e : Event) (g' : Gateway) : Prop := step g e = .ok g'

/-- What a sweep puts out at a node. -/
def sweepOutput (now : Int) (g : Gateway) (i : NodeId) : List Output :=
  match (g.list.node i).pthpara with
  | none => []
  | some p => if due now g.para (g.list.node i) then [.signal p true, .free i] else []

/-- The outputs of a sweep over the given nodes. -/
def sweepOutputs (now : Int) (g : Gateway) (ids : List NodeId) : List Output :=
  ids.flatMap (sweepOutput now g)

/-- What a sweep leaves as it is. -/
structure SweepFrame (g g' : Gateway) : Prop where
  tmp : g'.tmp = g.tmp
  host : g'.host = g.host
  path : g'.path = g.path
  deviceInfo : g'.deviceInfo = g.deviceInfo
  ycRequest : g'.ycRequest = g.ycRequest
  fresh : g'.list.fresh = g.list.fresh
  data : ∀ i, (g'.list.node i).data = (g.list.node i).data
  timing : ∀ p, (g'.para p).timing = (g.para p).timing
  msg : ∀ p, (g'.para p).msg = (g.para p).msg
  megleg : ∀ p, (g'.para p).megleg = (g.para p).megleg

theorem SweepFrame.refl (g : Gateway) : SweepFrame g g :=
  ⟨rfl, rfl, rfl, rfl, rfl, rfl, fun _ => rfl, fun _ => rfl, fun _ => rfl, fun _ => rfl⟩

theorem SweepFrame.trans {g g' g'' : Gateway} (h : SweepFrame g g') (h' : SweepFrame g' g'') :
    SweepFrame g g'' where
  tmp := h'.tmp.trans h.tmp
  host := h'.host.trans h.host
  path := h'.path.trans h.path
  deviceInfo := h'.deviceInfo.trans h.deviceInfo
  ycRequest := h'.ycRequest.trans h.ycRequest
  fresh := h'.fresh.trans h.fresh
  data i := (h'.data i).trans (h.data i)
  timing p := (h'.timing p).trans (h.timing p)
  msg p := (h'.msg p).trans (h.msg p)
  megleg p := (h'.megleg p).trans (h.megleg p)

theorem pthpara_of_data {m m' : SCoAPNewRequest} (h : m'.data = m.data) :
    m'.pthpara = m.pthpara := congrArg (fun m => m.pthpara) h

theorem due_of_frame {g g' : Gateway} (h : SweepFrame g g') (now : Int) (i : NodeId) :
    due now g'.para (g'.list.node i) = due now g.para (g.list.node i) := by
  have hp := pthpara_of_data (h.data i)
  have htime : (g'.list.node i).time = (g.list.node i).time := congrArg (fun m => m.time) (h.data i)
  unfold due
  rw [hp, htime]
  -- The entry is the same and so is its requester's interval.
  cases (g.list.node i).pthpara with
  | none => rfl
  | some p =>
      simp only []
      rw [h.timing p]

theorem sweepOutputs_of_frame {g g' : Gateway} (h : SweepFrame g g') (now : Int)
    (ids : List NodeId) : sweepOutputs now g' ids = sweepOutputs now g ids := by
  unfold sweepOutputs
  congr 1
  ext1 i
  unfold sweepOutput
  rw [pthpara_of_data (h.data i), due_of_frame h now i]

theorem release_frame {g : Gateway} {list : RequestHeap} (p : ParaId) (timeout : Bool)
    (os : List Output) (hfresh : list.fresh = g.list.fresh)
    (hdata : ∀ i, (list.node i).data = (g.list.node i).data) :
    SweepFrame g ({ g with
      para := Function.update g.para p { g.para p with timeout := timeout }
      list := list }.emit os) := by
  -- Of the requester only the flag is set, so any other field is unchanged.
  have hfield : ∀ {α : Type} (f : SPthreadPara → α)
      (_ : f { g.para p with timeout := timeout } = f (g.para p)) (q : ParaId),
      f (Function.update g.para p { g.para p with timeout := timeout } q) = f (g.para q) := by
    intro α f hf q
    by_cases hq : q = p
    · rw [hq, Function.update_self, hf]
    · rw [Function.update_of_ne hq]
  exact ⟨rfl, rfl, rfl, rfl, rfl, hfresh, hdata, hfield (·.timing) rfl, hfield (·.msg) rfl,
    hfield (·.megleg) rfl⟩

theorem sweepFrom_frame {now : Int} {n : Nat} {cur : Option NodeId} {g g' : Gateway}
    (h : sweepFrom now n cur g = .ok g') : SweepFrame g g' := by
  induction n generalizing cur g with
  | zero =>
      rw [← Except.ok.inj h]
      exact SweepFrame.refl g
  | succ n ih =>
      rcases cur with _ | pt
      · rw [← Except.ok.inj h]
        exact SweepFrame.refl g
      · simp only [sweepFrom] at h
        rcases hp : (g.list.node pt).pthpara with _ | p
        · rw [hp] at h
          cases h
        rw [hp] at h
        simp only [] at h
        split_ifs at h with hdue
        · rcases hrel : release true pt p g with f | g₁
          · rw [hrel] at h
            cases h
          rw [hrel] at h
          rcases release_ok hrel with ⟨list, hg₁, hfresh, hdata⟩
          have hframe := release_frame p true [.signal p true, .free pt] hfresh hdata
          rw [← hg₁] at hframe
          exact hframe.trans (ih h)
        · exact ih h

/-- What a sweep leaves as it is, wherever it returns. -/
theorem sweep_frame {now : Int} {g g' : Gateway} (h : sweep now g = .ok g') : SweepFrame g g' :=
  sweepFrom_frame h

theorem sweepFrom_sends {now : Int} {n : Nat} {cur : Option NodeId} {g g' : Gateway}
    (h : sweepFrom now n cur g = .ok g') :
    g'.token = g.token ∧ sentPdus g'.outputs = sentPdus g.outputs := by
  induction n generalizing cur g with
  | zero =>
      rw [← Except.ok.inj h]
      exact ⟨rfl, rfl⟩
  | succ n ih =>
      rcases cur with _ | pt
      · rw [← Except.ok.inj h]
        exact ⟨rfl, rfl⟩
      · simp only [sweepFrom] at h
        rcases hp : (g.list.node pt).pthpara with _ | p
        · rw [hp] at h
          cases h
        rw [hp] at h
        simp only [] at h
        split_ifs at h with hdue
        · rcases hrel : release true pt p g with f | g₁
          · rw [hrel] at h
            cases h
          rw [hrel] at h
          rcases ih h with ⟨htoken, hsent⟩
          rcases release_sends hrel with ⟨htoken₁, hsent₁⟩
          exact ⟨htoken.trans htoken₁, hsent.trans hsent₁⟩
        · exact ih h

/-- A sweep sends nothing. -/
theorem sweep_sends {now : Int} {g g' : Gateway} (h : sweep now g = .ok g') :
    g'.token = g.token ∧ sentPdus g'.outputs = sentPdus g.outputs := sweepFrom_sends h

/-- The nodes aside it is the sweep. -/
theorem sweepLogFrom_snd (now : Int) (n : Nat) (cur : Option NodeId) (g : Gateway) :
    (sweepLogFrom now n cur g).map Prod.snd = sweepFrom now n cur g := by
  induction n generalizing cur g with
  | zero => rfl
  | succ n ih =>
      rcases cur with _ | pt
      · rfl
      · simp only [sweepLogFrom, sweepFrom]
        rcases hp : (g.list.node pt).pthpara with _ | p
        · rfl
        simp only []
        split_ifs with hdue
        · rcases hrel : release true pt p g with f | g'
          · rfl
          simp only []
          rw [← ih (g'.list.next pt) g']
          cases sweepLogFrom now n (g'.list.next pt) g' <;> rfl
        · rw [← ih (g.list.next pt) g]
          cases sweepLogFrom now n (g.list.next pt) g <;> rfl

/-- The sweep comes to a node: its request is there, its link only if the node
    was not due. -/
def visitOf (now : Int) (g : Gateway) (i : NodeId) : Visit :=
  ⟨i, true, !due now g.para (g.list.node i)⟩

theorem visits_of_frame {g g' : Gateway} (h : SweepFrame g g') (now : Int) (ids : List NodeId) :
    ids.map (visitOf now g') = ids.map (visitOf now g) := by
  refine List.map_congr_left (fun i _ => ?_)
  unfold visitOf
  rw [due_of_frame h now i]

/-- Releasing the node a walk stands at frees it and leaves the nodes ahead of
    it where they were, reached through the freed node's link. -/
theorem release_ahead (timeout : Bool) (pt : NodeId) (p : ParaId) (g : Gateway)
    (kept rest : List NodeId) (hh : Holds g.list (kept ++ pt :: rest))
    (hchain : Linked.Chain g.list.next (g.list.next pt) rest) :
    ∃ g', release timeout pt p g = .ok g' ∧ SweepFrame g g' ∧ Holds g'.list (kept ++ rest) ∧
      g'.list.live pt = false ∧ Linked.Chain g'.list.next (g'.list.next pt) rest ∧
      g'.outputs = g.outputs ++ [.signal p timeout, .free pt] := by
  have hmem : pt ∈ kept ++ pt :: rest := List.mem_append_right _ List.mem_cons_self
  have hnodup := List.nodup_append.mp hh.nodup
  have hnotin : pt ∉ rest := (List.nodup_cons.mp hnodup.2.1).1
  have hkept : pt ∉ kept := fun hc => hnodup.2.2 pt hc pt List.mem_cons_self rfl
  rcases release_holds timeout pt p g _ hh hmem with ⟨list, hrel, hholds, hfresh, hdata, hnext⟩
  have herase : (kept ++ pt :: rest).erase pt = kept ++ rest := by
    rw [List.erase_append_right _ hkept, List.erase_cons_head]
  rw [herase] at hholds
  -- Neither the freed node nor a later one points at the freed node.
  have hself : g.list.next pt ≠ some pt := by
    intro hc
    rcases rest with _ | ⟨j, rest⟩
    · exact absurd (hc.symm.trans hchain) (by simp only [reduceCtorEq, not_false_eq_true])
    · exact hnotin (Option.some.inj (hc.symm.trans hchain.1) ▸ List.mem_cons_self)
  have hlater : ∀ k ∈ rest, g.list.next k ≠ some pt := fun k hk hc =>
    hnotin (Linked.chain_next_mem g.list.next _ rest k pt hchain hk hc)
  refine ⟨_, hrel, release_frame p timeout _ hfresh hdata, hholds, ?_, ?_, rfl⟩
  · refine Bool.eq_false_iff.mpr (fun hlive => ?_)
    rcases List.mem_append.mp ((hholds.live pt).mp hlive) with hc | hc
    · exact hkept hc
    · exact hnotin hc
  · change Linked.Chain list.next (list.next pt) rest
    rw [hnext pt hself]
    exact Linked.chain_congr g.list.next _ _ rest (fun k hk => hnext k (hlater k hk)) hchain

-- Induction on the nodes still ahead; `kept` are the ones passed over. The
-- bound on the steps is spent one a node, whether it is released or not.
theorem sweepLogFrom_holds (now : Int) (rest kept : List NodeId) (cur : Option NodeId) (fuel : Nat)
    (g : Gateway) (hh : Holds g.list (kept ++ rest))
    (hpara : ∀ i ∈ rest, (g.list.node i).pthpara ≠ none)
    (hchain : Linked.Chain g.list.next cur rest) (hfuel : rest.length ≤ fuel) :
    ∃ g', sweepLogFrom now fuel cur g = .ok (rest.map (visitOf now g), g') ∧
      Holds g'.list (kept ++ rest.filter (fun i => !due now g.para (g.list.node i))) ∧
      SweepFrame g g' ∧ g'.outputs = g.outputs ++ sweepOutputs now g rest := by
  induction rest generalizing kept cur fuel g with
  | nil =>
      have hcur : cur = none := hchain
      refine ⟨g, ?_, hh, SweepFrame.refl g, (List.append_nil _).symm⟩
      rw [hcur]
      cases fuel with
      | zero => rfl
      | succ n => rfl
  | cons pt rest ih =>
      cases fuel with
      | zero => exact absurd hfuel (Nat.not_succ_le_zero _)
      | succ n =>
      have hlen : rest.length ≤ n := Nat.le_of_succ_le_succ hfuel
      have hlive : g.list.live pt = true :=
        (hh.live pt).mpr (List.mem_append_right _ List.mem_cons_self)
      rcases hp : (g.list.node pt).pthpara with _ | p
      · exact absurd hp (hpara pt List.mem_cons_self)
      rw [hchain.1]
      simp only [sweepLogFrom, hp]
      -- A due node is released and the walk goes on through its link, with the
      -- same nodes passed over; any other joins those.
      by_cases hdue : (g.para p).timing ≤ now - (g.list.node pt).time
      · have hdue' : due now g.para (g.list.node pt) = true := by
          simp only [due, hp, hdue, decide_true]
        rcases release_ahead true pt p g kept rest hh hchain.2 with
          ⟨g₁, hrel, hframe, hholds, hfreed, hchain', hout₁⟩
        rw [if_pos hdue, hrel]
        simp only []
        rcases ih kept (g₁.list.next pt) n g₁ hholds
          (fun i hi => by
            rw [pthpara_of_data (hframe.data i)]
            exact hpara i (List.mem_cons_of_mem _ hi)) hchain' hlen with
          ⟨g', hrun, hholds', hframe', hout⟩
        refine ⟨g', ?_, ?_, hframe.trans hframe', ?_⟩
        · rw [hrun, visits_of_frame hframe]
          simp only [Except.map, List.map_cons, visitOf, hdue', hlive, hfreed, Bool.not_true]
        · simp only [due_of_frame hframe] at hholds'
          rw [List.filter_cons_of_neg (by simp only [hdue', Bool.not_true, Bool.false_eq_true,
            not_false_eq_true])]
          exact hholds'
        · rw [hout, hout₁, sweepOutputs_of_frame hframe]
          simp only [sweepOutputs, sweepOutput, List.flatMap_cons, hp, hdue', if_true,
            List.append_assoc]
      · have hdue' : due now g.para (g.list.node pt) = false := by
          simp only [due, hp, hdue, decide_false]
        rw [if_neg hdue]
        have hsplit : kept ++ pt :: rest = kept ++ [pt] ++ rest := by
          rw [List.append_assoc, List.singleton_append]
        rcases ih (kept ++ [pt]) (g.list.next pt) n g (hsplit ▸ hh)
          (fun i hi => hpara i (List.mem_cons_of_mem _ hi)) hchain.2 hlen with
          ⟨g', hrun, hholds', hframe', hout⟩
        refine ⟨g', ?_, ?_, hframe', ?_⟩
        · rw [hrun]
          simp only [Except.map, List.map_cons, visitOf, hdue', hlive, Bool.not_false]
        · rw [List.filter_cons_of_pos (by simp only [hdue', Bool.not_false])]
          rw [List.append_assoc, List.singleton_append] at hholds'
          exact hholds'
        · rw [hout]
          simp only [sweepOutputs, sweepOutput, List.flatMap_cons, hp, hdue', Bool.false_eq_true,
            if_false, List.nil_append]

/-- The sweep comes to every node once, releases exactly those that are due, in
    order, and keeps the rest. -/
theorem sweepLog_holds (now : Int) (g : Gateway) (ids : List NodeId) (hh : Holds g.list ids)
    (hpara : ∀ i ∈ ids, (g.list.node i).pthpara ≠ none) :
    ∃ g', sweepLog now g = .ok (ids.map (visitOf now g), g') ∧
      Holds g'.list (ids.filter (fun i => !due now g.para (g.list.node i))) ∧
      SweepFrame g g' ∧ g'.outputs = g.outputs ++ sweepOutputs now g ids :=
  sweepLogFrom_holds now ids [] g.list.head g.list.fresh g hh hpara hh.chain hh.length_le

/-- The sweep releases exactly the entries that are due, in order, and keeps
    the rest. -/
theorem sweep_holds (now : Int) (g : Gateway) (ids : List NodeId) (hh : Holds g.list ids)
    (hpara : ∀ i ∈ ids, (g.list.node i).pthpara ≠ none) :
    ∃ g', sweep now g = .ok g' ∧
      Holds g'.list (ids.filter (fun i => !due now g.para (g.list.node i))) ∧
      SweepFrame g g' ∧ g'.outputs = g.outputs ++ sweepOutputs now g ids := by
  rcases sweepLog_holds now g ids hh hpara with ⟨g', hrun, hrest⟩
  refine ⟨g', ?_, hrest⟩
  unfold sweep
  unfold sweepLog at hrun
  rw [← sweepLogFrom_snd, hrun]
  rfl

end CoapThread
