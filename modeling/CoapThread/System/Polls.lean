import CoapThread.System.Messages
import CoapThread.System.Wire

/-!
# What Becomes of Polls

How far polling gets in the whole program.

A poll goes out for each message that asks for one and is taken over, and for
nothing else: it carries host and path alone, and a block request has a further
option or lacks the host, so the two can be told apart on the wire. Of the
messages the poll thread puts on the queue, one at most is taken over, since
the sweep of that turn does not return. The test thread asks for a poll once
and waits from then on. So two polls are the most the program ever sends,
however many devices its table holds and however long it runs.

Nor does a poll ever succeed. The branch that would tell its requester so is
the one for block requests, so whoever waits for a poll is told of a timeout
or of nothing.

## Main definitions

* `isPoll`: A PDU with host and path and no other option.
* `PollsSent`: As many polls are sent as messages that ask for one are taken
  over.
* `PolledOnce`: The test thread has asked once at most.

## Theorems

* `pollsSent_step`: Every step keeps the count.
* `countP_last`: What is true of the last number alone is counted once.
* `whole_polls`: Two polls at most are sent.
* `whole_told`: Success is told for block requests alone.
-/

namespace CoapThread

open CBytes DeltaOption Machine

variable {ρ : Type}

/-- The numbers of a PDU's options. -/
def optionKeys (pdu : CoapPdu) : List Nat :=
  (pdu.decoded.map (fun x => x.1.map Opt.key)).getD []

/-- A PDU with host and path and no other option. -/
def isPoll (pdu : CoapPdu) : Bool := optionKeys pdu == [coapOptionUriHost, coapOptionUriPath]

/-- A message that asks for a poll. -/
def asksPoll (m : SCoAPNewRequest) : Bool := decide (m.req = .ltuYC)

section Requests

variable {g : Gateway}

theorem pollPdu_isPoll (hg : TemplatesFit g) : isPoll (pollPdu g) = true := by
  rcases pollOptions_encodable hg with ⟨hok, hroom⟩
  unfold isPoll optionKeys pollPdu
  rw [requestPdu_decoded _ _ hok hroom]
  rfl

theorem firstBlockPdu_isPoll (h : Terminated g.tmp.respath.bytes) :
    isPoll (firstBlockPdu g) = false := by
  rcases firstBlockOptions_encodable g h with ⟨hok, hroom⟩
  unfold isPoll optionKeys firstBlockPdu
  rw [requestPdu_decoded _ _ hok hroom]
  rfl

theorem nextBlockPdu_isPoll {block : View} {entry : SCoAPNewRequest}
    (hkey : IsBlockKey block.key) (h : Terminated entry.respath.bytes) :
    isPoll (nextBlockPdu block entry g) = false := by
  rcases nextBlockOptions_encodable block entry hkey h with ⟨hok, hroom⟩
  unfold isPoll optionKeys nextBlockPdu
  rw [requestPdu_decoded _ _ hok hroom, nextBlockOptions_eq block entry hkey]
  -- There are three options, whatever the number of the last.
  rw [beq_eq_false_iff_ne]
  exact fun hc => absurd (congrArg List.length hc) (show ¬ (3 = 2) by decide)

end Requests

/-- As many polls are sent as messages that ask for one are taken over. -/
structure PollsSent (g : Gateway) : Prop where
  fit : TemplatesFit g
  count : (sentPdus g.outputs).countP isPoll = (takenOver g.list).countP asksPoll

section Steps

variable {g g' : Gateway} {e : Event}

/-- The PDUs of a step and the messages it takes over are counted alike. -/
theorem PollsSent.append (hg : PollsSent g) (hfit : TemplatesFit g') (pdus : List CoapPdu)
    (ms : List SCoAPNewRequest) (hsent : sentPdus g'.outputs = sentPdus g.outputs ++ pdus)
    (htaken : takenOver g'.list = takenOver g.list ++ ms)
    (hcount : pdus.countP isPoll = ms.countP asksPoll) : PollsSent g' := by
  refine ⟨hfit, ?_⟩
  rw [hsent, htaken, List.countP_append, List.countP_append, hg.count, hcount]

/-- With none of either there is nothing to count. -/
theorem PollsSent.quiet (hg : PollsSent g) (hfit : TemplatesFit g')
    (hsent : sentPdus g'.outputs = sentPdus g.outputs)
    (htaken : takenOver g'.list = takenOver g.list) : PollsSent g' :=
  hg.append hfit [] [] (hsent.trans (List.append_nil _).symm)
    (htaken.trans (List.append_nil _).symm) rfl

theorem countP_other {m : SCoAPNewRequest} (h : m.req ≠ .ltuYC) :
    [letter m].countP asksPoll = 0 := by
  rw [List.countP_singleton, asksPoll, if_neg]
  rw [decide_eq_true_eq]
  exact h

theorem countP_block {pdu : CoapPdu} (h : isPoll pdu = false) : [pdu].countP isPoll = 0 := by
  rw [List.countP_singleton, h]
  rfl

theorem pollsSent_message {r : LibcoapResult} {now : Int} {m : SCoAPNewRequest}
    (hg : PollsSent g) (h : receive r now m g = .ok g') : PollsSent g' := by
  have hfit : TemplatesFit g' := receive_fit hg.fit h
  have htaken : takenOver (stored now m g).list = takenOver g.list ++ [letter m] :=
    takenOver_add g.list { m with time := now }
  cases receive_iff.mp h with
  | dropped => exact hg
  | polled htmp hyc halloc =>
      rcases receive_poll r now m g htmp hyc halloc with ⟨g'', hrun, hsent, -⟩
      cases h.symm.trans hrun
      have hpoll : isPoll (pollPdu (stored now m g)) = true :=
        pollPdu_isPoll ⟨hg.fit.host, hg.fit.path⟩
      have hasks : asksPoll (letter m) = true := decide_eq_true hyc
      refine hg.append hfit _ _ hsent htaken ?_
      rw [List.countP_singleton, List.countP_singleton, hpoll, hasks]
  | requested htmp htx hterm =>
      rcases receive_block r now m g htmp htx hterm with ⟨g'', hrun, hsent, -⟩
      cases h.symm.trans hrun
      have hblock : isPoll (firstBlockPdu (stored now m g)) = false := firstBlockPdu_isPoll hterm
      refine hg.append hfit _ _ hsent htaken ?_
      rw [countP_other (htx ▸ nofun)]
      split_ifs
      · exact countP_block hblock
      · rfl
  | kept htmp hyc htx =>
      refine hg.append hfit [] _ (List.append_nil _).symm htaken ?_
      rw [countP_other hyc]
      rfl

/-- Every step keeps the count. -/
theorem pollsSent_step (hg : PollsSent g) (h : Steps g e g') : PollsSent g' := by
  have hfit := step_fit hg.fit h
  have hquiet : NoMessage e → takenOver g'.list = takenOver g.list := fun he => (step_quiet he h).2
  cases e with
  | message r now m => exact pollsSent_message hg h
  | response r l received =>
      have hacked := sentPdus_acked received g
      cases messageHandler_handled h with
      | ignored | other => exact hg.quiet hfit hacked rfl
      | continued value path el block _ _ _ _ hblock _ hterm =>
          refine hg.append hfit [nextBlockPdu block (g.list.node el) g] [] ?_
            (List.append_nil _).symm ?_
          · rw [sentPdus_append, sentPdus_nextBlock, hacked]
          · exact countP_block (nextBlockPdu_isPoll (getBlock_key hblock) hterm)
      | completed value path el block p _ _ _ _ _ _ _ _ hrel =>
          exact hg.quiet hfit ((release_sends hrel).2.trans hacked) (hquiet trivial)
  | sweep now => exact hg.quiet hfit (sweep_sends h).2 (hquiet trivial)
  | check300 now =>
      refine hg.quiet hfit ?_ (hquiet trivial)
      rw [← Except.ok.inj h]
      exact (check300_sends now g).2

theorem pollsSent_run {tmp : SCoAPNewRequest} {messageId : UInt16} {para : ParaId → SPthreadPara}
    {es : List (Option Event)} (h : Path OpenStep (initialGateway tmp messageId para) es g) :
    PollsSent g := by
  refine among_invariant (I := PollsSent) (fun _ _ _ hi hstep => pollsSent_step hi hstep) ?_ h
    ⟨⟨rfl, Nat.le_of_ble_eq_true rfl⟩, rfl⟩
  intro s t hi hother
  cases hother
  exact ⟨⟨hi.fit.host, hi.fit.path⟩, hi.count⟩

end Steps

/-- A message that names nobody. -/
def namesNobody (m : SCoAPNewRequest) : Bool := m.pthpara.isNone

/-- The test thread asks for a poll once at most, and has not while it still
    reads keys. -/
def PolledOnce (w : Whole ρ) : Prop :=
  w.sent.countP (fun m => asksPoll m && !namesNobody m) ≤ if w.test = .key then 0 else 1

section Senders

variable {R : Registry ρ} {w w' : Whole ρ}

/-- Every step keeps it. -/
theorem polledOnce_step {e : WholeEvent} (hk : Known w) (hi : PolledOnce w)
    (h : WholeStep R w e w') : PolledOnce w' := by
  unfold PolledOnce at hi ⊢
  cases h with
  | poll e s owned he hstep =>
      have hpoll := mutexStep_pollStep hstep
      have hnone : (s.queue.items.drop w.poll.queue.items.length).countP
          (fun m => asksPoll m && !namesNobody m) = 0 := by
        rcases poll_queue he hpoll with hsame | ⟨i, -, hpc, hput⟩
        · rw [hsame, List.drop_length]
          rfl
        · -- The poll thread's own messages name nobody.
          have hnobody := (poll_template he hpoll hk.template _ hpc).2
          have hcount := Fifo.put_countP w.poll.queue s.tmp (fun m => asksPoll m && !namesNobody m)
          rw [hput, Fifo.put_items, List.drop_left]
          simp only [namesNobody, hnobody, Option.isNone_none, Bool.not_true, Bool.and_false,
            Bool.false_eq_true, if_false, Nat.le_zero_eq] at hcount
          exact hcount
      simp only [List.countP_append, hnone, Nat.add_zero]
      exact hi
  | timedOut l _ hstep | message r now m q l htake hstep | coap e l he hstep => exact hi
  | keyL junk p htest =>
      have hcount := Fifo.put_countP w.poll.queue (testBlock junk p)
        (fun m => asksPoll m && !namesNobody m)
      unfold Whole.submit
      simp only [List.countP_append]
      exact Nat.le_trans (Nat.add_le_add hi hcount) (Nat.le_refl _)
  | keyA junk p htest =>
      have hcount := Fifo.put_countP w.poll.queue (testPoll junk p)
        (fun m => asksPoll m && !namesNobody m)
      rw [htest] at hi
      unfold Whole.submit
      simp only [List.countP_append]
      exact Nat.le_trans (Nat.add_le_add hi hcount) (Nat.le_refl _)

end Senders

/-- What is true of the last number alone is counted once at most. -/
theorem countP_last {n : Nat} {p : Nat → Bool} (h : ∀ i < n, p i = true → i + 1 = n) :
    (List.range n).countP p ≤ 1 := by
  cases n with
  | zero => exact Nat.zero_le 1
  | succ n =>
      have hbefore : (List.range n).countP p = 0 := by
        refine List.countP_eq_zero.mpr (fun i hi hp => ?_)
        have hlt : i < n := List.mem_range.mp hi
        exact absurd (Nat.succ.inj (h i (Nat.lt_succ_of_lt hlt) hp)) (Nat.ne_of_lt hlt)
      rw [List.range_succ, List.countP_append, hbefore, Nat.zero_add]
      exact List.countP_le_length

/-- Those of one kind are at most those of another and the rest. -/
theorem countP_le_add {α : Type} (l : List α) (p q : α → Bool) :
    l.countP p ≤ l.countP q + l.countP (fun a => p a && !q a) := by
  have hrest : (l.filter (fun a => !q a)).countP p = l.countP (fun a => p a && !q a) :=
    List.countP_filter
  have hcount : (l.filter q).countP p ≤ l.countP q := by
    rw [List.countP_eq_length_filter (p := q)]
    exact List.countP_le_length
  rw [List.countP_eq_countP_filter_add l p q, hrest]
  exact Nat.add_le_add_right hcount _

section Runs

variable {R : Registry ρ} {w : Whole ρ} {tmp tmp' : SCoAPNewRequest} {messageId : UInt16}
  {para : ParaId → SPthreadPara} {db : ρ} {es : List WholeEvent}

theorem polledOnce_run (h : Path (WholeStep R) (wholeStart tmp tmp' messageId para db) es w) :
    PolledOnce w :=
  (path_invariant (I := fun w : Whole ρ => Known w ∧ PolledOnce w)
    (fun _ _ _ hi hstep => ⟨known_step hi.1 hstep, polledOnce_step hi.1 hi.2 hstep⟩) h
    ⟨known_start tmp tmp' messageId para db, Nat.zero_le _⟩).2

/-- Of the messages that name nobody one at most is taken over. -/
theorem takenOver_nobody (h : Path (WholeStep R) (wholeStart tmp tmp' messageId para db) es w) :
    (takenOver w.loop.gateway.list).countP namesNobody ≤ 1 := by
  have hturns := turnsWell_run (whole_openLoop h)
  unfold takenOver
  rw [List.countP_map]
  refine countP_last (fun i hlt hnobody => ?_)
  exact (hturns.nobody i hlt (Option.isNone_iff_eq_none.mp hnobody)).2.1

/-- And of the polls of the test thread. -/
theorem takenOver_testPolls (h : Path (WholeStep R) (wholeStart tmp tmp' messageId para db) es w) :
    (takenOver w.loop.gateway.list).countP (fun m => asksPoll m && !namesNobody m) ≤ 1 := by
  have hinOrder := inOrder_run h
  have hsent : w.sent.countP (fun m => asksPoll m && !namesNobody m) ≤ 1 := by
    refine Nat.le_trans (polledOnce_run h) ?_
    split_ifs
    · exact Nat.zero_le 1
    · exact Nat.le_refl 1
  by_cases hreq : tmp'.req = .ltuNoAck
  · rw [(hinOrder.dropping hreq).2]
    exact Nat.zero_le 1
  · refine Nat.le_trans ?_ hsent
    have hletters : w.sent.countP (fun m => asksPoll m && !namesNobody m) =
        (w.sent.map letter).countP (fun m => asksPoll m && !namesNobody m) := by
      rw [List.countP_map]
      rfl
    rw [hletters, ← (hinOrder.taking hreq).2, List.countP_append]
    exact Nat.le_add_right _ _

/-- A block request allows thirty seconds. -/
theorem timing_of_block {made : ParaId → Option Made} {para : ParaId → SPthreadPara}
    {m : SCoAPNewRequest} {p : ParaId} (h : FromSender made para m) (hreq : m.req = .ltuTxBlock)
    (hp : m.pthpara = some p) : (para p).timing = 30 := by
  rcases h with ⟨hyc, -⟩ | ⟨q, hq, -, ⟨hyc, -⟩ | ⟨-, htiming⟩⟩
  · cases hreq.symm.trans hyc
  · cases hreq.symm.trans hyc
  · cases hp.symm.trans hq
    exact htiming

/-- In every run of the program: of the messages that name nobody, which are
    those of the poll thread, one at most is taken over, and two polls at most
    are sent. -/
theorem whole_polls (h : Path (WholeStep R) (wholeStart tmp tmp' messageId para db) es w) :
    (takenOver w.loop.gateway.list).countP namesNobody ≤ 1 ∧
      (sentPdus w.loop.gateway.outputs).countP isPoll ≤ 2 := by
  rcases whole_openStep h with ⟨es', hp⟩
  have hnobody := takenOver_nobody h
  have hcount : (sentPdus w.loop.gateway.outputs).countP isPoll =
      (takenOver w.loop.gateway.list).countP asksPoll := (pollsSent_run hp).count
  refine ⟨hnobody, ?_⟩
  rw [hcount]
  exact Nat.le_trans (countP_le_add _ asksPoll namesNobody)
    (Nat.add_le_add hnobody (takenOver_testPolls h))

/-- A message of the poll thread has been taken over, behind one that names
    somebody. -/
theorem whole_polls_busyRun : ∃ (w : Whole (List UInt8 → Option LTUInfor)) (m : SCoAPNewRequest),
    m.pthpara = none ∧ letter m ∈ takenOver w.loop.gateway.list ∧
      (takenOver w.loop.gateway.list).countP namesNobody ≤ 1 ∧
      (sentPdus w.loop.gateway.outputs).countP isPoll ≤ 2 := by
  rcases busyRun_path with ⟨w, m, hp, hnobody, -, hmem⟩
  exact ⟨w, m, hnobody, hmem, whole_polls hp⟩

/-- In every run of the program: a requester that was told of success is named
    by block requests alone. So the poll of the test thread, like every other,
    is only ever told that it timed out. -/
theorem whole_told (h : Path (WholeStep R) (wholeStart tmp tmp' messageId para db) es w)
    {p : ParaId} (hsignal : .signal p false ∈ w.loop.gateway.outputs) (i : NodeId)
    (hi : i < w.loop.gateway.list.fresh) (hp : (w.loop.gateway.list.node i).pthpara = some p) :
    (w.loop.gateway.list.node i).req = .ltuTxBlock := by
  -- What was told is of an entry that has left, and that allows thirty seconds.
  have htiming : (w.loop.gateway.para p).timing = 30 := by
    rcases whole_openStep h with ⟨es', hpath⟩
    rcases told_run hpath with ⟨ids, left, hset, htold⟩
    have hnotice : .signal p false ∈ left.flatMap (departure w.view.gateway) := by
      rw [← hset.notices]
      exact List.mem_filter.mpr ⟨hsignal, rfl⟩
    rcases List.mem_flatMap.mp hnotice with ⟨⟨j, timeout⟩, hx, hout⟩
    rcases departure_signal hout with ⟨hpara, rfl⟩
    rcases htold (j, false) hx with ⟨e, -, htells⟩
    have hbound := hset.bound (List.mem_map_of_mem hx)
    exact timing_of_block ((known_run h).stored j hbound) htells.req hpara
  rcases (known_run h).stored i hi with ⟨-, hnobody⟩ | ⟨q, hq, -, ⟨-, hpoll⟩ | ⟨hreq, -⟩⟩
  · cases hp.symm.trans hnobody
  · cases hp.symm.trans hq
    exact absurd (hpoll.symm.trans htiming) (by decide)
  · exact hreq

/-- A block request of the test thread that one block answers. -/
def blockRun : List WholeEvent :=
  [.keyL .zero 0, .message ⟨true, true⟩ 0 (testBlock .zero 0),
    .coap (.response ⟨true, true⟩ ⟨.zero, some 0, none⟩ (blockAnswer [0x61] [0x33] 0 2 [1]))]

theorem blockRun_path : ∃ w : Whole (List UInt8 → Option LTUInfor),
    Path (WholeStep mapRegistry) zeroStart blockRun w ∧
      .signal 0 false ∈ w.loop.gateway.outputs ∧ 0 < w.loop.gateway.list.fresh ∧
      (w.loop.gateway.list.node 0).pthpara = some 0 := by
  let w₁ := zeroStart.submit (.testBlock .zero 0)
  have htmp : w₁.loop.gateway.tmp.req ≠ .ltuNoAck := by
    intro hc
    cases hc
  have htake : w₁.poll.queue.take = some (testBlock .zero 0, Fifo.empty) := rfl
  rcases blockAnswered (R := mapRegistry) (letter_length_le 0x61) (letter_length_le 0x33) rfl htmp
    rfl htake with ⟨w, hp, -, -, -, -, hfresh, hp0, hsignal⟩
  refine ⟨w, Path.cons _ _ _ _ _ (.keyL _ .zero 0 rfl rfl) hp, hsignal, ?_, hp0⟩
  rw [hfresh]
  exact Nat.zero_lt_one

/-- It is told of success. -/
theorem whole_told_blockRun : ∃ w : Whole (List UInt8 → Option LTUInfor),
    .signal 0 false ∈ w.loop.gateway.outputs ∧
      (w.loop.gateway.list.node 0).req = .ltuTxBlock := by
  rcases blockRun_path with ⟨w, hpath, hsignal, hbound, hp⟩
  exact ⟨w, hsignal, whole_told hpath hsignal 0 hbound hp⟩

end Runs

end CoapThread
