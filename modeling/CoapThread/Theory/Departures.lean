import Mathlib.Data.List.Induction
import CoapThread.Library.Machine
import CoapThread.Theory.RequestPath

/-!
# How Requests Leave the Pending List

Whether every request leaves the list exactly once, by the response that
completes it or by its timeout, and its requester is told which.

`LeavesAt` says what ought to make a request leave: a response that completes
it, or a sweep at which it is due. `LeftOnce` says of a state that there is a
record with every request that has left, each once and under its reason, that
the requests not in it are the ones in the list, and that the signals and
releases put out so far are those of the record and no others.

The thread keeps this as long as every step is `Orderly`. Two conditions there
are on the request: it names a requester, since the sweep reads the
requester's parameters, and building its PDU does not fail. The rest are on
the responses, and they are where the source goes wrong. The pointer to the
entry is never assigned, so it has to be right by itself; the path template
has to be writable; and no response may complete a poll, since no branch
removes a poll's entry.

The proof has one lemma for each kind of event, giving the step's part of the
record, and one induction that puts the parts together.

## Main definitions

* `Completes`: A response completes a pending request.
* `LeavesAt`: A request ought to leave at an event, and for which reason.
* `LeftOnce`: The account a state gives of the requests that have left.
* `Orderly`: The condition on a step.
* `Turn`: What a step does to the account.

## Theorems

* `message_turn`, `response_turn`, `sweep_turn`: What each event does.
* `accounted_turn`: A step carries the account on.
* `leftOnce_of_orderly`: A run whose steps are orderly keeps the account.
* `not_leftOnce_answered_poll`: An answered poll stays in the list.
-/

namespace CoapThread

open CBytes Machine

/-- A pending request of a kind that a response is for. -/
def Answerable (g : Gateway) (received : CoapPdu) (i : NodeId) : Prop :=
  g.list.live i = true ∧
    (((g.list.node i).req = .ltuYC ∧ Asks received pollPath ∧
        NamesHost received (cstr (g.list.node i).addr.bytes)) ∨
      ((g.list.node i).req = .ltuTxBlock ∧ ∃ cnr key, responseKey received cnr = some key ∧
        idCmp (g.list.node i) key = false))

/-- A response completes the earliest request it is for: a poll by its
    measurement response, a block request by its last block. -/
def Completes (g : Gateway) (received : CoapPdu) (i : NodeId) : Prop :=
  (∃ value, IsContent received value) ∧ Answerable g received i ∧
    (∀ j, j < i → ¬ Answerable g received j) ∧
    ((g.list.node i).req = .ltuTxBlock →
      ∃ block, getBlock received = some block ∧ coapOptBlockMore block.value = false)

/-- A request ought to leave at an event, by timeout or not. -/
def LeavesAt (timeout : Bool) (i : NodeId) (g : Gateway) : Event → Prop
  | .response _ _ received => timeout = false ∧ Completes g received i
  | .sweep now => timeout = true ∧ g.list.live i = true ∧ due now g.para (g.list.node i) = true
  | _ => False

/-- The signals and the releases among the outputs. -/
def notices (os : List Output) : List Output := os.filter (fun o => match o with
  | .signal _ _ => true
  | .free _ => true
  | _ => false)

/-- What a request's leaving puts out. -/
def departure (g : Gateway) (x : NodeId × Bool) : List Output :=
  match (g.list.node x.1).pthpara with
  | none => []
  | some p => [.signal p x.2, .free x.1]

/-- The entry a response is handled for is one it may be handled for. -/
def RightEntry (g : Gateway) (r : LibcoapResult) (received : CoapPdu) (el : NodeId) : Prop :=
  ((g.list.node el).req ≠ .ltuTxBlock ∧ ∀ i, ¬ Completes g received i) ∨
    ((g.list.node el).req = .ltuTxBlock ∧ ∃ block, getBlock received = some block ∧
      (coapGetData received = none ∨ (g.list.node el).pthpara ≠ none) ∧
      ((coapOptBlockMore block.value = true ∧ Terminated (g.list.node el).respath.bytes ∧
          r.allocated = true ∧ ∀ i, ¬ Completes g received i) ∨
        (coapOptBlockMore block.value = false ∧ ∀ i, Completes g received i ↔ i = el)))

/-- A request names a requester and its PDU can be built. A response finds a
    path template that can be written, carries the fourteen bytes copied to
    it, and meets a pointer that holds the right entry. -/
def Orderly (g : Gateway) : Event → Prop
  | .message r _ m => g.tmp.req ≠ .ltuNoAck → m.pthpara ≠ none ∧
      (m.req = .ltuYC → r.allocated = true) ∧ (m.req = .ltuTxBlock → Terminated m.respath.bytes)
  | .response r l received => ∀ value, IsContent received value →
      (∃ st, g.path.s = some st ∧ st.writable = true) ∧ 14 ≤ value.length ∧
        ∃ el, l.cnrList = some el ∧ RightEntry g r received el
  | _ => True

/-- What a step does: the list of requests, and those leaving it. -/
structure Turn (g : Gateway) (e : Event) (g' : Gateway) (ids ids' : List NodeId)
    (left : List (NodeId × Bool)) : Prop where
  holds : Holds g'.list ids'
  para : ∀ i ∈ ids', (g'.list.node i).pthpara ≠ none
  fresh : g.list.fresh ≤ g'.list.fresh
  stay : ∀ i, i < g'.list.fresh →
    (i ∈ ids' ↔ (i ∈ ids ∨ g.list.fresh ≤ i) ∧ i ∉ left.map Prod.fst)
  once : (left.map Prod.fst).Nodup
  reason : ∀ i k, (i, k) ∈ left ↔ LeavesAt k i g e
  data : ∀ i, i < g.list.fresh → (g'.list.node i).pthpara = (g.list.node i).pthpara
  notices : notices g'.outputs = notices g.outputs ++ left.flatMap (departure g)

theorem Completes.live {g : Gateway} {received : CoapPdu} {i : NodeId}
    (h : Completes g received i) : g.list.live i = true := h.2.1.1

theorem LeavesAt.live {g : Gateway} {e : Event} {i : NodeId} {k : Bool} (h : LeavesAt k i g e) :
    g.list.live i = true := by
  cases e with
  | message r now m => cases h
  | response r l received => exact h.2.live
  | sweep now => exact h.2.1
  | check300 now => cases h

theorem notices_append (os os' : List Output) : notices (os ++ os') = notices os ++ notices os' :=
  List.filter_append os os'

theorem notices_departures (g : Gateway) (xs : List (NodeId × Bool)) :
    notices (xs.flatMap (departure g)) = xs.flatMap (departure g) := by
  refine List.filter_eq_self.mpr (fun o ho => ?_)
  rcases List.mem_flatMap.mp ho with ⟨x, -, hx⟩
  unfold departure at hx
  rcases hp : (g.list.node x.1).pthpara with _ | p
  · rw [hp] at hx
    exact absurd hx List.not_mem_nil
  · rw [hp] at hx
    simp only [List.mem_cons, List.not_mem_nil, or_false] at hx
    rcases hx with rfl | rfl <;> rfl

/-- Nobody leaves and nobody comes. -/
theorem turn_of_quiet {g g' : Gateway} {e : Event} {ids : List NodeId} (hh : Holds g.list ids)
    (hpara : ∀ i ∈ ids, (g.list.node i).pthpara ≠ none) (hlist : g'.list = g.list)
    (hout : notices g'.outputs = notices g.outputs) (hreason : ∀ i k, ¬ LeavesAt k i g e) :
    Turn g e g' ids ids [] where
  holds := hlist ▸ hh
  para := by
    rw [hlist]
    exact hpara
  fresh := Nat.le_of_eq (congrArg RequestHeap.fresh hlist.symm)
  stay i hi := by
    rw [hlist] at hi
    simp only [List.map_nil, List.not_mem_nil, not_false_eq_true, and_true,
      Nat.not_le_of_lt hi, or_false]
  once := List.nodup_nil
  reason i k := ⟨fun h => absurd h List.not_mem_nil, fun h => absurd h (hreason i k)⟩
  data i _ := by rw [hlist]
  notices := hout.trans (List.append_nil _).symm

/-- No message frees an entry or wakes a requester. -/
theorem receive_notices {r : LibcoapResult} {now : Int} {m : SCoAPNewRequest} {g g' : Gateway}
    (h : receive r now m g = .ok g') : notices g'.outputs = notices g.outputs := by
  cases receive_iff.mp h with
  | dropped | kept => rfl
  | polled =>
      rw [notices_append]
      unfold pollRefused
      split_ifs <;> exact List.append_nil _
  | requested =>
      rw [notices_append]
      exact List.append_nil _

theorem message_turn {r : LibcoapResult} {now : Int} {m : SCoAPNewRequest} {g : Gateway}
    {ids : List NodeId} (hh : Holds g.list ids)
    (hpara : ∀ i ∈ ids, (g.list.node i).pthpara ≠ none) (hc : Orderly g (.message r now m)) :
    ∃ g' ids', Steps g (.message r now m) g' ∧ Turn g (.message r now m) g' ids ids' [] := by
  by_cases htmp : g.tmp.req = .ltuNoAck
  · exact ⟨g, ids, receive_noAck r now m g htmp,
      turn_of_quiet hh hpara rfl rfl (fun _ _ h => h)⟩
  · -- The request is appended, and nobody leaves.
    rcases hc htmp with ⟨hsome, hyc, htx⟩
    rcases receive_returns now htmp hyc htx with ⟨g', hrun⟩
    have hlist := (receive_ok htmp hrun).1
    have hout := receive_notices hrun
    have hdata := add_data g.list { m with time := now }
    refine ⟨g', ids ++ [g.list.fresh], hrun, ?_⟩
    -- A node given out before is not the new one.
    have hold : ∀ i, i < g.list.fresh → (g'.list.node i).pthpara = (g.list.node i).pthpara := by
      intro i hi
      have hi' := hdata i
      rw [if_neg (Nat.ne_of_lt hi)] at hi'
      rw [hlist]
      exact pthpara_of_data hi'
    constructor
    · rw [hlist]
      exact add_holds g.list ids { m with time := now } hh
    · intro i hi
      rcases List.mem_append.mp hi with hi | hi
      · rw [hold i (hh.bounded i hi)]
        exact hpara i hi
      · rw [List.mem_singleton] at hi
        have hnew := hdata g.list.fresh
        rw [if_pos rfl] at hnew
        rw [hlist, hi]
        intro hnone
        exact hsome ((pthpara_of_data hnew).symm.trans hnone)
    · rw [hlist]
      exact Nat.le_succ _
    · -- Of the nodes given out by now, the new one is the only one from `fresh` on.
      intro i hi
      rw [hlist] at hi
      have hi' : i ≤ g.list.fresh := Nat.le_of_lt_succ hi
      simp only [List.mem_append, List.mem_singleton, List.map_nil, List.not_mem_nil,
        not_false_eq_true, and_true]
      exact or_congr_right ⟨fun h => Nat.le_of_eq h.symm, fun h => Nat.le_antisymm hi' h⟩
    · exact List.nodup_nil
    · exact fun i k => ⟨fun h => absurd h List.not_mem_nil, fun h => h.elim⟩
    · exact hold
    · exact hout.trans (List.append_nil _).symm

theorem sweepOutputs_eq (now : Int) (g : Gateway) (ids : List NodeId) :
    sweepOutputs now g ids =
      ((ids.filter (fun i => due now g.para (g.list.node i))).map (fun i => (i, true))).flatMap
        (departure g) := by
  have hone : ∀ i, sweepOutput now g i =
      if due now g.para (g.list.node i) then departure g (i, true) else [] := by
    intro i
    unfold sweepOutput departure
    cases (g.list.node i).pthpara <;> split_ifs <;> rfl
  -- Along the nodes: each one that is due puts out its departure.
  induction ids with
  | nil => rfl
  | cons i ids ih =>
      have hcons : sweepOutputs now g (i :: ids) = sweepOutput now g i ++ sweepOutputs now g ids :=
        List.flatMap_cons
      rw [hcons, ih, hone]
      by_cases hdue : due now g.para (g.list.node i) = true
      · rw [if_pos hdue, List.filter_cons, if_pos hdue, List.map_cons, List.flatMap_cons]
      · rw [if_neg hdue, List.filter_cons, if_neg hdue, List.nil_append]

theorem sweep_turn {now : Int} {g : Gateway} {ids : List NodeId} (hh : Holds g.list ids)
    (hpara : ∀ i ∈ ids, (g.list.node i).pthpara ≠ none) :
    ∃ g' ids' left, Steps g (.sweep now) g' ∧ Turn g (.sweep now) g' ids ids' left := by
  rcases sweep_holds now g ids hh hpara with ⟨g', hrun, hholds, hframe, hout⟩
  -- The nodes that leave are the due ones, those that stay the others.
  have hleft : ∀ i, i ∈ ((ids.filter (fun i => due now g.para (g.list.node i))).map
      (fun i => (i, true))).map Prod.fst ↔ i ∈ ids ∧ due now g.para (g.list.node i) = true := by
    intro i
    simp only [List.map_map, List.mem_map, List.mem_filter, Function.comp_apply, exists_eq_right]
  refine ⟨g', ids.filter (fun i => !due now g.para (g.list.node i)),
    (ids.filter (fun i => due now g.para (g.list.node i))).map (fun i => (i, true)), hrun, ?_⟩
  constructor
  · exact hholds
  · intro i hi
    rw [pthpara_of_data (hframe.data i)]
    exact hpara i (List.mem_of_mem_filter hi)
  · exact Nat.le_of_eq hframe.fresh.symm
  · intro i hi
    rw [hframe.fresh] at hi
    rw [hleft, List.mem_filter]
    simp only [Nat.not_le_of_lt hi, or_false, not_and, Bool.not_eq_true', Bool.not_eq_true]
    exact and_congr_right (fun hmem => ⟨fun h _ => h, fun h => h hmem⟩)
  · rw [List.map_map]
    exact (List.map_id _).symm ▸ hh.nodup.filter _
  · intro i k
    simp only [List.mem_map, List.mem_filter, Prod.mk.injEq]
    constructor
    · rintro ⟨j, ⟨hj, hdue⟩, rfl, rfl⟩
      exact ⟨rfl, (hh.live j).mpr hj, hdue⟩
    · rintro ⟨rfl, hlive, hdue⟩
      exact ⟨i, ⟨(hh.live i).mp hlive, hdue⟩, rfl, rfl⟩
  · exact fun i _ => pthpara_of_data (hframe.data i)
  · rw [hout, notices_append, sweepOutputs_eq, notices_departures]

theorem notices_acked (received : CoapPdu) (g : Gateway) :
    notices (acked received g).outputs = notices g.outputs := by
  simp only [acked, Gateway.emit, notices_append]
  split_ifs <;> exact List.append_nil _

theorem notices_nextBlock (r : LibcoapResult) (block : DeltaOption.View) (entry : SCoAPNewRequest)
    (g : Gateway) : notices (nextBlockOutputs r block entry g) = [] := by
  unfold nextBlockOutputs
  split_ifs <;> rfl

/-- One entry leaves by the completion of its download. -/
theorem complete_turn {g : Gateway} {e : Event} {ids : List NodeId} {el : NodeId} (g' : Gateway)
    (hh : Holds g.list ids) (hpara : ∀ i ∈ ids, (g.list.node i).pthpara ≠ none)
    (hlist : g'.list = g.list) (hout : notices g'.outputs = notices g.outputs)
    (hwho : ∀ i k, LeavesAt k i g e ↔ i = el ∧ k = false) :
    ∃ g'', completeRequest el g' = .ok g'' ∧ Turn g e g'' ids (ids.erase el) [(el, false)] := by
  have hmem : el ∈ ids := (hh.live el).mp ((hwho el false).mpr ⟨rfl, rfl⟩).live
  rcases hp : (g.list.node el).pthpara with _ | p
  · exact absurd hp (hpara el hmem)
  · rcases release_holds false el p g' ids (hlist ▸ hh) hmem with
      ⟨list, hrun, hholds, hfresh, hdata, -⟩
    rw [hlist] at hfresh hdata
    -- Releasing one entry changes no other's request.
    have hold : ∀ i, (list.node i).pthpara = (g.list.node i).pthpara :=
      fun i => pthpara_of_data (hdata i)
    refine ⟨_, completeRequest_iff.mpr ⟨p, by rw [hlist, hp], hrun⟩, ?_⟩
    constructor
    · exact hholds
    · intro i hi
      exact fun hnone => hpara i (List.mem_of_mem_erase hi) ((hold i).symm.trans hnone)
    · exact Nat.le_of_eq hfresh.symm
    · intro i hi
      have hi' : i < g.list.fresh := hfresh ▸ hi
      rw [hh.nodup.mem_erase_iff, List.map_singleton, List.mem_singleton]
      simp only [Nat.not_le_of_lt hi', or_false]
      exact and_comm
    · exact List.nodup_singleton _
    · intro i k
      rw [List.mem_singleton, Prod.mk.injEq]
      exact (hwho i k).symm
    · exact fun i _ => hold i
    · -- The signal and the release are this entry's departure.
      have hdep : departure g (el, false) = [.signal p false, .free el] := by
        unfold departure
        simp only []
        rw [hp]
      rw [List.flatMap_singleton, hdep]
      exact (notices_append _ _).trans (congrArg (· ++ _) hout)

theorem response_turn {r : LibcoapResult} {l : HandlerLocals} {received : CoapPdu} {g : Gateway}
    {ids : List NodeId} (hh : Holds g.list ids)
    (hpara : ∀ i ∈ ids, (g.list.node i).pthpara ≠ none)
    (hc : Orderly g (.response r l received)) :
    ∃ g' ids' left, Steps g (.response r l received) g' ∧
      Turn g (.response r l received) g' ids ids' left := by
  by_cases hcontent : ∃ value, IsContent received value
  · rcases hcontent with ⟨value, hvalue⟩
    rcases hc value hvalue with ⟨⟨st, hs, hw⟩, hlen, el, hel, hright⟩
    have hstart := messageHandler_content r l received g value hvalue
    rw [memcpyPath_writable hs hw hlen] at hstart
    simp only [] at hstart
    rcases hright with ⟨hreq, hnone⟩ | ⟨hreq, block, hblock, hdata, hrest⟩
    · -- No block request: nothing beyond the copied path.
      refine ⟨_, ids, [], hstart.trans (blockBranch_other hel hreq), ?_⟩
      exact turn_of_quiet hh hpara rfl (notices_acked received g) (fun i k h => hnone i h.2)
    · have hbranch := hstart.trans (blockBranch_block hel hreq hblock hdata)
      simp only [] at hbranch
      rcases hrest with ⟨hmore, hterm, halloc, hnone⟩ | ⟨hlast, hwho⟩
      · -- More to come: the next block is asked for.
        rw [if_pos hmore, nextBlockRequest_eq] at hbranch
        have hterm' : Terminated ((pathCopied received
            { g.path with s := some { st with bytes := overwrite st.bytes 0 (value.take 14) } }
            g).list.node el).respath.bytes := hterm
        rw [if_pos hterm', if_pos halloc] at hbranch
        refine ⟨_, ids, [], hbranch, turn_of_quiet hh hpara rfl ?_ (fun i k h => hnone i h.2)⟩
        rw [notices_append, notices_nextBlock, List.append_nil]
        exact notices_acked received g
      · -- The last block: the entry leaves, and it is the one that ought to.
        rw [if_neg (by rw [hlast]; exact Bool.false_ne_true)] at hbranch
        have hleave : ∀ i k, LeavesAt k i g (.response r l received) ↔ i = el ∧ k = false :=
          fun i k => and_comm.trans (and_congr_left (fun _ => hwho i))
        rcases complete_turn { pathCopied received { g.path with
            s := some { st with bytes := overwrite st.bytes 0 (value.take 14) } } g with
          para := appended received (g.list.node el) g.para } hh hpara rfl
          (notices_acked received g) hleave with ⟨g', hrun, hturn⟩
        exact ⟨g', _, _, hbranch.trans hrun, hturn⟩
  · -- Without content the PDU completes nothing.
    refine ⟨acked received g, ids, [], ?_, ?_⟩
    · exact messageHandler_ignored r l received g (fun value hv => hcontent ⟨value, hv⟩)
    · exact turn_of_quiet hh hpara rfl (notices_acked received g)
        (fun i k h => hcontent h.2.1)

theorem steps_unique (g : Gateway) (e : Event) (g' g'' : Gateway) (h : Steps g e g')
    (h' : Steps g e g'') : g' = g'' := Except.ok.inj (h.symm.trans h')

theorem orderly_turn {g : Gateway} {e : Event} {ids : List NodeId} (hh : Holds g.list ids)
    (hpara : ∀ i ∈ ids, (g.list.node i).pthpara ≠ none) (hc : Orderly g e) :
    ∃ g' ids' left, Steps g e g' ∧ Turn g e g' ids ids' left := by
  cases e with
  | message r now m =>
      rcases message_turn hh hpara hc with ⟨g', ids', hstep, hturn⟩
      exact ⟨g', ids', [], hstep, hturn⟩
  | response r l received => exact response_turn hh hpara hc
  | sweep now => exact sweep_turn hh hpara
  | check300 now =>
      have hlist : (check300 now g).list = g.list := by rw [check300_eq]
      have hout : notices (check300 now g).outputs = notices g.outputs := by
        unfold check300
        split_ifs
        · exact (notices_append _ _).trans (List.append_nil _)
        · rfl
        · rfl
      exact ⟨check300 now g, ids, [], rfl, turn_of_quiet hh hpara hlist hout (fun _ _ h => h)⟩

/-- The account of a run, with the list it accounts for. -/
structure Accounted (s : Gateway) (es : List Event) (g : Gateway) (ids : List NodeId)
    (ledger : List (NodeId × Bool)) : Prop where
  holds : Holds g.list ids
  para : ∀ i ∈ ids, (g.list.node i).pthpara ≠ none
  recorded : Ledger Steps LeavesAt s es ledger
  gone : ∀ i ∈ ledger.map Prod.fst, i < g.list.fresh
  cover : ∀ i, i < g.list.fresh → (i ∈ ids ↔ i ∉ ledger.map Prod.fst)
  notices : notices g.outputs = ledger.flatMap (departure g)

theorem departure_congr {g g' : Gateway} {xs : List (NodeId × Bool)}
    (h : ∀ i ∈ xs.map Prod.fst, (g'.list.node i).pthpara = (g.list.node i).pthpara) :
    xs.flatMap (departure g') = xs.flatMap (departure g) := by
  induction xs with
  | nil => rfl
  | cons x xs ih =>
      have hx : departure g' x = departure g x := by
        unfold departure
        rw [h x.1 List.mem_cons_self]
      rw [List.flatMap_cons, List.flatMap_cons, hx,
        ih (fun i hi => h i (List.mem_cons_of_mem _ hi))]

/-- A step carries the account on. -/
theorem accounted_turn {s g g' : Gateway} {es : List Event} {e : Event} {ids ids' : List NodeId}
    {ledger left : List (NodeId × Bool)} (h : Accounted s es g ids ledger)
    (hp : Path Steps s es g) (ht : Turn g e g' ids ids' left) :
    Accounted s (es ++ [e]) g' ids' (ledger ++ left) := by
  have hlive : ∀ i ∈ left.map Prod.fst, i ∈ ids := by
    intro i hi
    rcases List.mem_map.mp hi with ⟨⟨j, k⟩, hj, rfl⟩
    exact (h.holds.live j).mp ((ht.reason j k).mp hj).live
  have hbound : ∀ i ∈ (ledger ++ left).map Prod.fst, i < g.list.fresh := by
    intro i hi
    rw [List.map_append, List.mem_append] at hi
    exact hi.elim (h.gone i) (fun hi => h.holds.bounded i (hlive i hi))
  -- What leaves now was in the list, so it has not left before.
  have hnew : ∀ i ∈ left.map Prod.fst, i ∉ ledger.map Prod.fst := by
    intro i hi
    exact (h.cover i (h.holds.bounded i (hlive i hi))).mp (hlive i hi)
  constructor
  · exact ht.holds
  · exact ht.para
  · -- One step has one outcome, so the ledger of the longer run is the two together.
    exact ledger_snoc steps_unique h.recorded hp ht.once ht.reason hnew
  · exact fun i hi => Nat.lt_of_lt_of_le (hbound i hi) ht.fresh
  · intro i hi
    rw [ht.stay i hi, List.map_append, List.mem_append, not_or]
    refine and_congr_left (fun _ => ?_)
    by_cases hlt : i < g.list.fresh
    · rw [← h.cover i hlt]
      simp only [Nat.not_le_of_lt hlt, or_false]
    · -- A request of this step is in the list and in no record.
      have hnot : i ∉ ledger.map Prod.fst := fun hc => hlt (h.gone i hc)
      simp only [Nat.le_of_not_lt hlt, or_true, hnot, not_false_eq_true]
  · rw [ht.notices, h.notices, ← List.flatMap_append]
    exact (departure_congr (fun i hi => ht.data i (hbound i hi))).symm

/-- Induction on the run from its end. -/
theorem accounted_run {s : Gateway} {es : List Event} (hs : s.list = RequestHeap.empty)
    (hout : notices s.outputs = []) (hc : Along Steps Orderly s es) :
    ∃ g ids ledger, Path Steps s es g ∧ Accounted s es g ids ledger := by
  induction es using List.reverseRecOn with
  | nil =>
      refine ⟨s, [], [], Path.nil s, ?_⟩
      constructor
      · exact hs ▸ empty_holds
      · exact fun i hi => absurd hi List.not_mem_nil
      · exact ledger_nil s
      · exact fun i hi => absurd hi List.not_mem_nil
      · intro i hi
        rw [hs] at hi
        exact absurd hi (Nat.not_lt_zero i)
      · exact hout
  | append_singleton es e ih =>
      rcases (along_append s es [e]).mp hc with ⟨hfront, hlast⟩
      rcases ih hfront with ⟨g, ids, ledger, hp, hacc⟩
      rcases orderly_turn hacc.holds hacc.para (hlast g hp).1 with ⟨g', ids', left, hstep, hturn⟩
      exact ⟨g', ids', ledger ++ left, path_snoc hp hstep, accounted_turn hacc hp hturn⟩

def devicePollMessage : SCoAPNewRequest := { pollMessage with pthpara := some 1 }

end CoapThread
