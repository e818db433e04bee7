import CoapThread.System.Views
import CoapThread.Theory.BlockRun

/-!
# From the Senders to the List

What becomes of a message on its way from a sender to the pending list.

Two threads put messages on the queue and a third takes them off, and between
the three any order of steps is possible. The list the messages end up in never
forgets an entry, even one that is no longer pending. So the entries it has
had, with what is still queued behind them, can be compared with what the queue
has accepted: these are the same messages in the same order, whatever the
threads have done in the meantime. None is lost, none comes twice, and none is
changed but for its time and its link, which the CoAP thread fills in.

The exception is a thread whose uninitialised local happens to hold an
`LTU_NOACK`. It throws every message away, and its list stays empty.

What is still pending behind a sweep is from the test thread. It names a
requester that has been allocated, and it is younger than its kind of request
may grow.

## Main definitions

* `letter`: A message as its sender has written it.
* `takenOver`: What the list has taken over so far.
* `InOrder`: The invariant.

## Theorems

* `takenOver_add`: Taking a message over appends it.
* `step_quiet`: No other step takes one over.
* `inOrder_step`: Every step keeps the order.
* `whole_inOrder`: Messages arrive complete and in order.
* `whole_pending`: What is pending behind a sweep.
-/

namespace CoapThread

open CBytes DeltaOption Machine

variable {ρ : Type}

/-- A message as its sender has written it. -/
def letter (m : SCoAPNewRequest) : SCoAPNewRequest := { m with time := 0, next := none }

theorem letter_of_data {m m' : SCoAPNewRequest} (h : m'.data = m.data) : letter m' = letter m :=
  congrArg (fun m => { m with time := 0 }) h

/-- What the list has taken over so far, pending or not. -/
def takenOver (h : RequestHeap) : List SCoAPNewRequest :=
  (List.range h.fresh).map (fun i => letter (h.node i))

theorem takenOver_congr {h h' : RequestHeap} (hfresh : h'.fresh = h.fresh)
    (hdata : ∀ i < h.fresh, (h'.node i).data = (h.node i).data) : takenOver h' = takenOver h := by
  unfold takenOver
  rw [hfresh]
  refine List.map_congr_left (fun i hi => ?_)
  exact letter_of_data (hdata i (List.mem_range.mp hi))

/-- Taking a message over appends it. -/
theorem takenOver_add (h : RequestHeap) (m : SCoAPNewRequest) :
    takenOver (addPthreadRequestToList h m) = takenOver h ++ [letter m] := by
  unfold takenOver
  rw [add_fresh, List.range_succ, List.map_append, List.map_singleton]
  congr 1
  · refine List.map_congr_left (fun i hi => letter_of_data ?_)
    rw [add_data, if_neg (Nat.ne_of_lt (List.mem_range.mp hi))]
  · refine congrArg (fun m => [m]) (letter_of_data ?_)
    rw [add_data, if_pos rfl]

section Steps

variable {g g' : Gateway} {e : Event}

/-- No step but a message takes one over, or looks at the local. -/
theorem step_quiet (he : NoMessage e) (h : Steps g e g') :
    g'.tmp = g.tmp ∧ takenOver g'.list = takenOver g.list := by
  have hkept := (step_data h).data
  cases e with
  | message r now m => exact absurd he (fun h => h)
  | response r l received =>
      cases messageHandler_handled h with
      | ignored | other | continued => exact ⟨rfl, rfl⟩
      | completed value path el block p _ _ _ _ _ _ _ _ hrel =>
          have hframe := release_sweepFrame hrel
          exact ⟨hframe.tmp, takenOver_congr hframe.fresh hkept⟩
  | sweep now =>
      have hframe := sweep_frame h
      exact ⟨hframe.tmp, takenOver_congr hframe.fresh hkept⟩
  | check300 now =>
      rw [← Except.ok.inj h, check300_eq]
      exact ⟨rfl, rfl⟩

/-- A message is taken over unless the local holds an `LTU_NOACK`. -/
theorem step_takes {r : LibcoapResult} {now : Int} {m : SCoAPNewRequest}
    (h : receive r now m g = .ok g') :
    (g.tmp.req = .ltuNoAck ∧ g' = g) ∨ (g.tmp.req ≠ .ltuNoAck ∧ g'.tmp.req = m.req ∧
      takenOver g'.list = takenOver g.list ++ [letter m]) := by
  rcases (receive_taken h).2 with hdropped | ⟨htmp, hlocal, hlist⟩
  · exact Or.inl hdropped
  · refine Or.inr ⟨htmp, ?_, ?_⟩
    · rw [hlocal]
    · rw [hlist, takenOver_add]
      rfl

end Steps

/-- What has been taken over and what is queued is what was accepted, in this
    order, unless the local began with an `LTU_NOACK`. -/
structure InOrder (req : LTURequest) (w : Whole ρ) : Prop where
  dropping : req = .ltuNoAck →
    w.loop.gateway.tmp.req = .ltuNoAck ∧ takenOver w.loop.gateway.list = []
  taking : req ≠ .ltuNoAck → w.loop.gateway.tmp.req ≠ .ltuNoAck ∧
    takenOver w.loop.gateway.list ++ w.poll.queue.items.map letter = w.sent.map letter

section Order

variable {R : Registry ρ} {w w' : Whole ρ} {req : LTURequest}

/-- A sender appends what the queue accepts to both sides. -/
theorem InOrder.accept (hi : InOrder req w) {accepted : List SCoAPNewRequest}
    (hlocal : w'.loop.gateway.tmp = w.loop.gateway.tmp)
    (hlist : w'.loop.gateway.list = w.loop.gateway.list)
    (hqueue : w'.poll.queue.items = w.poll.queue.items ++ accepted)
    (hsent : w'.sent = w.sent ++ accepted) : InOrder req w' := by
  refine ⟨fun hreq => ?_, fun hreq => ?_⟩
  · rw [hlocal, hlist]
    exact hi.dropping hreq
  · rcases hi.taking hreq with ⟨htmp, horder⟩
    refine ⟨hlocal ▸ htmp, ?_⟩
    rw [hlist, hqueue, hsent, List.map_append, List.map_append, ← List.append_assoc, horder]

/-- A step that is no message changes neither side. -/
theorem InOrder.quiet (hi : InOrder req w) {l : LoopState}
    (hsame : l.gateway.tmp = w.loop.gateway.tmp ∧
      takenOver l.gateway.list = takenOver w.loop.gateway.list) : InOrder req (w.after l) := by
  refine ⟨fun hreq => ?_, fun hreq => ?_⟩
  · rw [after_loop, hsame.1, hsame.2]
    exact hi.dropping hreq
  · rw [after_loop, after_sent, after_queue, hsame.1, hsame.2]
    exact hi.taking hreq

theorem inOrder_message {r : LibcoapResult} {now : Int} {m : SCoAPNewRequest}
    {q : Fifo SCoAPNewRequest coapRxMQmaxmsg} {l : LoopState} (hi : InOrder req w)
    (hm : m.req ≠ .ltuNoAck) (htake : w.poll.queue.take = some (m, q))
    (h : LoopStep w.view (some (.message r now m)) l) :
    InOrder req (({ w with
      poll := { w.poll with queue := q, taken := w.poll.taken ++ [m] } } : Whole ρ).after l) := by
  rcases loopStep_steps h with ⟨hnone, -⟩ | ⟨e', he, hstep⟩
  · cases hnone
  cases he
  refine ⟨fun hreq => ?_, fun hreq => ?_⟩
  · rcases hi.dropping hreq with ⟨htmp, hempty⟩
    rcases step_takes hstep with ⟨-, hsame⟩ | ⟨hne, -⟩
    · rw [after_loop, hsame]
      exact ⟨htmp, hempty⟩
    · exact absurd htmp hne
  · rcases hi.taking hreq with ⟨htmp, horder⟩
    rcases step_takes hstep with ⟨hnoack, -⟩ | ⟨-, hlocal, htaken⟩
    · exact absurd hnoack htmp
    · rw [after_loop, after_sent, after_queue]
      refine ⟨hlocal ▸ hm, ?_⟩
      -- The message goes from the front of the queue to the end of the list.
      rw [htaken, ← horder, Fifo.take_items htake, List.map_cons, List.append_assoc]
      rfl

/-- Every step keeps the order. -/
theorem inOrder_step {e : WholeEvent} (hk : Known w) (hi : InOrder req w)
    (h : WholeStep R w e w') : InOrder req w' := by
  cases h with
  | poll e s owned he hstep =>
      refine hi.accept rfl rfl ?_ rfl
      rcases poll_queue he (mutexStep_pollStep hstep) with hsame | ⟨-, -, -, hput⟩
      · simp only [hsame, List.drop_length, List.append_nil]
      · simp only [hput, Fifo.put_items, List.drop_left]
  | timedOut l _ hstep =>
      rcases loopStep_steps hstep with ⟨-, hsame⟩ | ⟨e', he, -⟩
      · refine hi.quiet ?_
        rw [hsame]
        exact ⟨rfl, rfl⟩
      · cases he
  | message r now m q l htake hstep =>
      have hm : FromSender w.made w.loop.gateway.para m :=
        hk.queued m (Fifo.take_items htake ▸ List.mem_cons_self)
      refine inOrder_message hi ?_ htake hstep
      rcases hm.req with hreq | hreq <;> rw [hreq] <;> exact nofun
  | coap e l he hstep =>
      rcases loopStep_steps hstep with ⟨hnone, -⟩ | ⟨e', he', hsteps⟩
      · cases hnone
      · cases he'
        have hquiet := step_quiet he hsteps
        exact hi.quiet hquiet
  | keyL junk p | keyA junk p => exact hi.accept rfl rfl (Fifo.put_items _ _) rfl

end Order

section Runs

variable {R : Registry ρ} {w : Whole ρ} {tmp tmp' : SCoAPNewRequest} {messageId : UInt16}
  {para : ParaId → SPthreadPara} {db : ρ} {es : List WholeEvent}

theorem inOrder_run (h : Path (WholeStep R) (wholeStart tmp tmp' messageId para db) es w) :
    InOrder tmp'.req w := by
  refine (path_invariant (I := fun w : Whole ρ => Known w ∧ InOrder tmp'.req w)
    (fun _ _ _ hi hstep => ⟨known_step hi.1 hstep, inOrder_step hi.1 hi.2 hstep⟩) h
    ⟨known_start tmp tmp' messageId para db, ?_⟩).2
  exact ⟨fun hreq => ⟨hreq, rfl⟩, fun hreq => ⟨hreq, rfl⟩⟩

/-- The program at its start, with zeros in the locals and nothing in the
    registry. -/
def zeroStart : Whole (List UInt8 → Option LTUInfor) :=
  wholeStart .zero .zero 0 (fun _ => ⟨[], 0, 0, false⟩) (fun _ => none)

/-- The poll of the test thread, taken over and swept one second later. -/
def testRun : List WholeEvent :=
  [.keyA .zero 0, .message ⟨true, true⟩ 0 (testPoll .zero 0), .coap (.sweep 1)]

theorem testRun_path : ∃ w : Whole (List UInt8 → Option LTUInfor),
    Path (WholeStep mapRegistry) zeroStart testRun w ∧
      w.loop.pc = .check 1 ∧ w.loop.gateway.list.live 0 = true := by
  -- The program once the message is off the queue again.
  let w₁ := zeroStart.submit (.testPoll .zero 0)
  rcases receive_poll ⟨true, true⟩ 0 (testPoll .zero 0) w₁.view.gateway nofun rfl rfl with
    ⟨g, hrun, -, -, hlist, -⟩
  have hpara := (receive_taken hrun).1
  rcases firstEntry hlist with ⟨hh, hdata⟩
  have hp : (g.list.node 0).pthpara = some 0 := pthpara_of_data hdata
  have htime : (g.list.node 0).time = 0 := congrArg (fun m => m.time) hdata
  have hdue : due 1 g.para (g.list.node 0) = false := by
    unfold due
    rw [hp, hpara, htime]
    rfl
  rcases sweep_firstEntry hh hp hdue with ⟨g', hsweep, hlive⟩
  refine ⟨_, Path.cons _ _ _ _ _ (.keyA _ .zero 0 rfl rfl)
    (Path.cons _ _ _ _ _
      (.message _ ⟨true, true⟩ 0 _ _ ⟨.dispatch, g⟩ rfl (.message _ g _ _ _ hrun))
    (Path.cons _ _ _ _ _ (.coap _ (.sweep 1) ⟨.check 1, g'⟩ trivial ?_) (Path.nil _))), rfl, hlive⟩
  rw [after_view]
  exact .sweep g g' 1 hsweep

theorem testBlock_terminated : Terminated (testBlock .zero 0).respath.bytes := by
  simp only [testBlock, SCoAPNewRequest.zero, Buf.write, Buf.zero]
  rw [overwrite_zero _ _ (by rw [List.length_replicate]; decide), List.drop_replicate]
  exact List.mem_append_right _ (List.mem_replicate.mpr ⟨by decide, rfl⟩)

/-- A block request of the test thread is taken over from the front of the
    queue, and a response with its last block completes it. -/
theorem blockAnswered {w : Whole ρ} {q : Fifo SCoAPNewRequest coapRxMQmaxmsg}
    {host path : List UInt8} (hhost : host.length ≤ 255) (hpath : path.length ≤ 255)
    (hpc : w.loop.pc = .receive) (htmp : w.loop.gateway.tmp.req ≠ .ltuNoAck)
    (hlist : w.loop.gateway.list = RequestHeap.empty)
    (htake : w.poll.queue.take = some (testBlock .zero 0, q)) :
    ∃ w', Path (WholeStep R) w [.message ⟨true, true⟩ 0 (testBlock .zero 0),
        .coap (.response ⟨true, true⟩ ⟨.zero, some 0, none⟩ (blockAnswer host path 0 2 [1]))] w' ∧
      w'.poll = { w.poll with queue := q, taken := w.poll.taken ++ [testBlock .zero 0] } ∧
      w'.loop.pc = .dispatch ∧ w'.loop.gateway.tmp.req = .ltuTxBlock ∧
      Holds w'.loop.gateway.list [] ∧ w'.loop.gateway.list.fresh = 1 ∧
      (w'.loop.gateway.list.node 0).pthpara = some 0 ∧
      .signal 0 false ∈ w'.loop.gateway.outputs := by
  have htmp' : w.view.gateway.tmp.req ≠ .ltuNoAck := htmp
  rcases receive_block ⟨true, true⟩ 0 (testBlock .zero 0) w.view.gateway htmp' rfl
    testBlock_terminated with ⟨g, hrun, -, hlocal, hstored, htemplate⟩
  rcases firstEntry (hstored.trans (congrArg (addPthreadRequestToList · _) hlist)) with
    ⟨hh, hdata⟩
  rcases entry_of_data hdata with ⟨hreq, -, -, hp⟩
  have hnum : (0 : UInt32).toNat < 2 ^ 28 := by decide
  have hlast : (2 : UInt32).toNat < 8 := by decide
  rcases blockAnswer_last [1] hhost hpath hnum hlast (htemplate ▸ ⟨_, rfl, rfl⟩) hreq hp hh
    (List.mem_singleton_self 0) with ⟨g', hanswer, hgone, -, hholds⟩
  have hquiet := step_quiet (e := .response ⟨true, true⟩ ⟨.zero, some 0, none⟩
    (blockAnswer host path 0 2 [1])) trivial hanswer
  have hkept := (step_data (e := .response ⟨true, true⟩ ⟨.zero, some 0, none⟩
    (blockAnswer host path 0 2 [1])) hanswer).data 0 (hh.bounded 0 (List.mem_singleton_self 0))
  rcases response_gone hanswer rfl ((hh.live 0).mpr (List.mem_singleton_self 0)) hgone with
    ⟨p, hp', hsignal⟩
  cases hp.symm.trans hp'
  -- The two steps, and what they leave of the poll thread.
  have hmessage : LoopStep w.view (some (.message ⟨true, true⟩ 0 (testBlock .zero 0)))
      ⟨.dispatch, g⟩ := view_at hpc ▸ .message _ g _ _ _ hrun
  let w₁ : Whole ρ := ({ w with poll := { w.poll with
    queue := q
    taken := w.poll.taken ++ [testBlock .zero 0] } } : Whole ρ).after ⟨.dispatch, g⟩
  have hresponse : LoopStep w₁.view (some (.response ⟨true, true⟩ ⟨.zero, some 0, none⟩
      (blockAnswer host path 0 2 [1]))) ⟨.dispatch, g'⟩ := by
    rw [after_view]
    exact .response g g' _ _ _ hanswer
  have hfresh : g'.list.fresh = 1 := by
    have hlen := congrArg List.length hquiet.2
    simp only [takenOver, List.length_map, List.length_range] at hlen
    rw [hlen, hstored, stored, add_fresh]
    exact congrArg (fun h : RequestHeap => h.fresh + 1) hlist
  refine ⟨w₁.after ⟨.dispatch, g'⟩, Path.cons _ w₁ _ _ _ (.message w _ _ _ q _ htake hmessage)
    (Path.cons _ _ _ _ _ (.coap w₁ _ _ trivial hresponse) (Path.nil _)), ?_, rfl, ?_, hholds,
    hfresh, (pthpara_of_data hkept).trans hp, hsignal⟩
  · rw [after_quiet hresponse (fun _ hc => by cases hc)]
    exact after_quiet (w := { w with poll := { w.poll with
      queue := q
      taken := w.poll.taken ++ [testBlock .zero 0] } }) hmessage (fun _ hc => by cases hc)
  · rw [after_loop, hquiet.1, hlocal]
    rfl

/-- The program in front of the first message of a round of one device. -/
def openedRound : Whole (List UInt8 → Option LTUInfor) :=
  { zeroStart with poll := { zeroStart.poll with
      pc := .send 0
      tmp := pollTemplate .zero
      deviceInfo := ⟨1, 0, 0, [.ofName [0x4c, 0x54, 0x55, 0x41]]⟩
      ycRequest := true } }

theorem openedRound_path : Path (WholeStep mapRegistry) zeroStart
    [.poll (.load (lettersReply 1)), .poll .lock, .poll (.openRound 0), .poll .unlock,
      .poll (.prepare .zero)] openedRound :=
  Path.cons _ _ _ _ _
    (.poll _ (.load (lettersReply 1)) _ _ trivial (.free _ _ _ _ rfl (.load _ _ _ rfl rfl)))
  (Path.cons _ _ _ _ _ (.poll _ .lock _ _ trivial (.lock _ _ _ rfl (.lockOpen _ rfl)))
  (Path.cons _ _ _ _ _
    (.poll _ (.openRound 0) _ _ trivial (.free _ _ _ _ rfl (.openRound _ 0 rfl)))
  (Path.cons _ _ _ _ _
    (.poll _ .unlock _ _ trivial (.perform _ _ _ _ _ rfl (by decide) (.unlockOpen _ rfl)))
  (Path.cons _ _ _ _ _
    (.poll _ (.prepare .zero) _ _ trivial (.free _ _ _ _ rfl (.prepare _ .zero rfl)))
    (Path.nil _)))))

/-- A round of one device and a block request of the test thread. A response
    under the device's name ends the request, and the 300-second check the
    wait. -/
def answeredRun : List WholeEvent :=
  [.poll (.load (lettersReply 1)), .poll .lock, .poll (.openRound 0), .poll .unlock,
    .poll (.prepare .zero), .keyL .zero 0, .poll .send, .poll .enterWait,
    .message ⟨true, true⟩ 0 (testBlock .zero 0),
    .coap (.response ⟨true, true⟩ ⟨.zero, some 0, none⟩ (blockAnswer [0x41] pollPath 0 2 [1])),
    .coap (.sweep 300), .coap (.check300 300)]

-- The part before the block request is taken over.
theorem answeredRun_start : ∃ (w : Whole (List UInt8 → Option LTUInfor)) (m : SCoAPNewRequest)
    (q q' : Fifo SCoAPNewRequest coapRxMQmaxmsg), Path (WholeStep mapRegistry) zeroStart
      (([.poll (.load (lettersReply 1)), .poll .lock, .poll (.openRound 0), .poll .unlock,
        .poll (.prepare .zero)] : List WholeEvent) ++
        [.keyL .zero 0, .poll .send, .poll .enterWait]) w ∧
      w.poll.pc = .blocked ∧ w.poll.ycRequest = true ∧ w.poll.deviceInfo.time = 0 ∧
      w.poll.queue.take = some (testBlock .zero 0, q) ∧ q.take = some (m, q') ∧
      m.req = .ltuYC ∧ m.pthpara = none ∧ w.loop.pc = .receive ∧
      w.loop.gateway.tmp.req ≠ .ltuNoAck ∧ w.loop.gateway.list = RequestHeap.empty := by
  refine ⟨_, _, _, _, (path_append _ _).mpr ⟨openedRound, openedRound_path, Path.cons _ _ _ _ _
      (.keyL _ .zero 0 rfl rfl)
    (Path.cons _ _ _ _ _
      (.poll _ .send _ _ trivial (.free _ _ _ _ rfl (.send _ 0 _ _ rfl (by decide) rfl rfl)))
    (Path.cons _ _ _ _ _ (.poll _ .enterWait _ _ trivial
      (.perform _ _ _ _ _ rfl (by decide) (.enterWait _ 1 rfl (by decide))))
      (Path.nil _)))⟩, rfl, rfl, rfl, rfl, rfl, rfl, rfl, rfl, nofun, rfl⟩

theorem answeredRun_path : ∃ (w : Whole (List UInt8 → Option LTUInfor)) (m : SCoAPNewRequest)
    (q : Fifo SCoAPNewRequest coapRxMQmaxmsg),
      Path (WholeStep mapRegistry) zeroStart answeredRun w ∧
      w.poll.woken = true ∧ w.poll.queue.take = some (m, q) ∧ m.req = .ltuYC ∧ m.pthpara = none ∧
      w.loop.pc = .receive ∧ w.loop.gateway.tmp.req = .ltuTxBlock ∧
      w.loop.gateway.list.fresh = 1 ∧ .signal 0 false ∈ w.loop.gateway.outputs := by
  rcases answeredRun_start with ⟨w, m, q, q', hp, hblocked, hopen, htime, htake, htake', hyc,
    hnobody, hpc, htmp, hlist⟩
  have hpath : pollPath.length ≤ 255 := by decide
  rcases blockAnswered (R := mapRegistry) (letter_length_le 0x41) hpath hpc htmp hlist htake with
    ⟨w₁, hp₁, hpoll₁, hpc₁, htmp₁, hh, hfresh, -, hsignal⟩
  rcases sweep_holds 300 w₁.view.gateway [] hh (fun _ h => absurd h List.not_mem_nil) with
    ⟨g, hsweep, -, hframe, hout⟩
  have hstep : LoopStep w₁.view (some (.sweep 300)) ⟨.check 300, g⟩ :=
    view_at hpc₁ ▸ .sweep w₁.view.gateway g 300 hsweep
  have hpoll : (w₁.after ⟨.check 300, g⟩).poll = { w.poll with
      queue := q
      taken := w.poll.taken ++ [testBlock .zero 0] } :=
    (after_quiet hstep (fun _ => nofun)).trans hpoll₁
  have hcheck : LoopStep (w₁.after ⟨.check 300, g⟩).view (some (.check300 300))
      ⟨.receive, check300 300 g⟩ := by
    rw [after_view]
    exact .check300 g _ 300 rfl
  -- The round was opened at zero, so the check finds it old enough.
  have hwoken := after_check300 hcheck
  rw [hpoll, pollCheck300, if_pos hopen, if_pos (by rw [htime]; decide), signal,
    if_pos hblocked] at hwoken
  refine ⟨_, m, q', path_snoc (path_snoc ((path_append _ _).mpr ⟨w, hp, hp₁⟩)
    (.coap w₁ (.sweep 300) _ trivial hstep)) (.coap _ (.check300 300) _ trivial hcheck), ?_, ?_,
    hyc, hnobody, rfl, ?_, ?_, ?_⟩
  · rw [hwoken]
  · rw [hwoken]
    exact htake'
  · rw [after_loop, check300_eq, hframe.tmp]
    exact htmp₁
  · rw [after_loop, check300_eq, hframe.fresh]
    exact hfresh
  · have hkept : .signal 0 false ∈ g.outputs := hout ▸ List.mem_append_left _ hsignal
    rw [after_loop]
    unfold check300 Gateway.emit
    split_ifs
    · exact List.mem_append_left _ hkept
    · exact hkept
    · exact hkept

/-- Then the message of the round is taken over as well. -/
theorem busyRun_path : ∃ (w : Whole (List UInt8 → Option LTUInfor)) (m : SCoAPNewRequest),
    Path (WholeStep mapRegistry) zeroStart (answeredRun ++ [.message ⟨true, true⟩ 300 m]) w ∧
      m.pthpara = none ∧ (takenOver w.loop.gateway.list).length = 2 ∧
      letter m ∈ takenOver w.loop.gateway.list := by
  rcases answeredRun_path with ⟨w, m, q, hp, -, htake, hyc, hnobody, hpc, htmp, hfresh, -⟩
  have hne : w.view.gateway.tmp.req ≠ .ltuNoAck := by
    simp only [Whole.view, htmp]
    exact nofun
  rcases receive_poll ⟨true, true⟩ 300 m w.view.gateway hne hyc rfl with
    ⟨g, hrun, -, -, hlist, -⟩
  have hstep : LoopStep w.view (some (.message ⟨true, true⟩ 300 m)) ⟨.dispatch, g⟩ :=
    view_at hpc ▸ .message _ g _ _ _ hrun
  have htaken : takenOver g.list = takenOver w.loop.gateway.list ++ [letter m] := by
    rw [hlist]
    exact takenOver_add w.loop.gateway.list { m with time := 300 }
  refine ⟨_, m, path_snoc hp (.message w _ _ _ q _ htake hstep), hnobody, ?_, ?_⟩
  · rw [after_loop, htaken, List.length_append, takenOver, List.length_map, List.length_range,
      hfresh]
    rfl
  · rw [after_loop, htaken]
    exact List.mem_append_right _ (List.mem_singleton_self _)

/-- In every run of the program that does not begin with an `LTU_NOACK` in the
    CoAP thread's local: the messages the list has taken over, with those that
    are queued behind them, are the messages the queue has accepted, in the
    same order. -/
theorem whole_inOrder (h : Path (WholeStep R) (wholeStart tmp tmp' messageId para db) es w)
    (htmp : tmp'.req ≠ .ltuNoAck) :
    takenOver w.loop.gateway.list ++ w.poll.queue.items.map letter = w.sent.map letter :=
  ((inOrder_run h).taking htmp).2

/-- One message of each sender has arrived. -/
theorem whole_inOrder_busyRun : ∃ w : Whole (List UInt8 → Option LTUInfor),
    (takenOver w.loop.gateway.list).length = 2 ∧
      takenOver w.loop.gateway.list ++ w.poll.queue.items.map letter = w.sent.map letter := by
  rcases busyRun_path with ⟨w, m, hp, -, hlen, -⟩
  exact ⟨w, hlen, whole_inOrder hp nofun⟩

/-- An entry names a requester that has been allocated, and is younger than its
    kind of request may grow: three seconds for a poll and thirty for a block
    request. -/
def Young (now : Int) (w : Whole ρ) (i : NodeId) : Prop :=
  let entry := w.loop.gateway.list.node i
  ∃ p, entry.pthpara = some p ∧ w.made p ≠ none ∧
    ((entry.req = .ltuYC ∧ now - entry.time < 3) ∨
      (entry.req = .ltuTxBlock ∧ now - entry.time < 30))

/-- In every run of the program: behind a sweep every pending entry is from the
    test thread and has waited for less than its kind of request may. -/
theorem whole_pending {now : Int}
    (h : Path (WholeStep R) (wholeStart tmp tmp' messageId para db) es w)
    (hpc : w.loop.pc = .check now) (i : NodeId) (hi : w.loop.gateway.list.live i = true) :
    Young now w i := by
  have hturns := turnsWell_run (whole_openLoop h)
  rcases hturns.settled with ⟨ids, left, hset⟩
  rcases hturns.swept now hpc i hi with ⟨p, hp, hage⟩
  have hlt : i < w.loop.gateway.list.fresh := hset.holds.bounded i ((hset.holds.live i).mp hi)
  simp only [view_list, view_para] at hp hage
  rcases (known_run h).stored i hlt with ⟨-, hnobody⟩ | ⟨q, hq, hmade, hkind⟩
  · cases hp.symm.trans hnobody
  · cases hp.symm.trans hq
    refine ⟨p, hp, hmade, hkind.imp (fun hpoll => ⟨hpoll.1, ?_⟩) (fun hblock => ⟨hblock.1, ?_⟩)⟩
    · exact hpoll.2 ▸ hage
    · exact hblock.2 ▸ hage

/-- The poll of the test thread is pending behind its first sweep. -/
theorem whole_pending_testRun : ∃ w : Whole (List UInt8 → Option LTUInfor),
    w.loop.gateway.list.live 0 = true ∧ Young 1 w 0 := by
  rcases testRun_path with ⟨w, hp, hpc, hlive⟩
  exact ⟨w, hlive, whole_pending hp hpc 0 hlive⟩

end Runs

end CoapThread
