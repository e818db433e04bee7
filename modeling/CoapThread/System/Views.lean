import CoapThread.System.Whole

/-!
# The Threads as Parts of the Program

The program seen from two of its threads.

Seen from the CoAP thread, a step of the program is a step of its loop or
something the others may do to it. What makes that so is that a requester is
allocated before it is named: the test thread fills in what no entry names
yet. Seen from the poll thread, it is a statement of its own, a 300-second
check, or nothing, and the queue is left out of the picture, since the poll
thread never looks at what is in it and the test thread fills it as well.

Both are simulations, so a property that every step of the part keeps, or that
every run of it has, is one of the program: what was proved of either thread by
itself, whatever the rest does, holds in the whole. Of all the things the CoAP
thread might do to the poll thread only the 300-second check occurs.

## Main definitions

* `loopEvent`: A step of the program as the loop sees it.
* `pollEvents`: The same for the poll thread.
* `SamePoll`: Poll threads that agree on all but the queue.

## Theorems

* `whole_view`: A step seen from the CoAP thread.
* `whole_loop`, `whole_openLoop`: The program simulates the loop among the
  others.
* `quiet_outputs`, `after_quiet`, `after_check300`: What a step of the CoAP thread does to the
  poll thread.
* `whole_poll`, `whole_mutexStep`: The program simulates the poll thread beside
  its mutex.
-/

namespace CoapThread

open CBytes Machine Mutex

variable {ρ : Type}

/-- A step of the program as the loop of the CoAP thread sees it. -/
def loopEvent : WholeEvent → Option (Option Event)
  | .timedOut => some none
  | .message r now m => some (some (.message r now m))
  | .coap e => some (some e)
  | .poll _ => none
  | .keyL _ _ => none
  | .keyA _ _ => none

section Loop

variable {R : Registry ρ} {w w' : Whole ρ}

/-- Filling in a requester that nobody has been told of does not touch one that
    an entry names. -/
theorem loopOthers_submit {sent : Sent} {p : ParaId} (hi : Known w) (hp : w.made p = none)
    (htiming : ∀ q, q ≠ p → sent.setTiming w.loop.gateway.para q = w.loop.gateway.para q) :
    LoopOthers w.view (w.submit sent).view := by
  refine ⟨rfl, OthersDo.shared w.poll.deviceInfo w.poll.ycRequest
    (sent.setTiming w.loop.gateway.para) (fun q hq => htiming q (fun hc => ?_))⟩
  rcases hq with ⟨i, hlt, hnamed⟩
  rcases hi.stored i hlt with ⟨-, hnobody⟩ | ⟨q', hq', hmade, -⟩
  · cases hnamed.symm.trans hnobody
  · cases hnamed.symm.trans hq'
    exact hmade (hc ▸ hp)

/-- A step of the program, seen from the CoAP thread. -/
theorem whole_view {e : WholeEvent} (hi : Known w) (h : WholeStep R w e w') :
    OpenLoop w.view (loopEvent e) w'.view := by
  cases h with
  | poll e s owned he hstep =>
      exact Among.other _ _
        ⟨rfl, OthersDo.shared s.deviceInfo s.ycRequest w.loop.gateway.para (fun _ _ => rfl)⟩
  | timedOut l _ hstep | coap e l he hstep =>
      rw [after_view]
      exact Among.own _ _ _ hstep
  | message r now m q l htake hstep =>
      rw [after_view]
      exact Among.own _ _ _ hstep
  | keyL junk p _ hp =>
      exact Among.other _ _ (loopOthers_submit hi hp (fun q hq => Function.update_of_ne hq _ _))
  | keyA junk p _ hp =>
      have hothers : LoopOthers w.view (w.submit (.testPoll junk p)).view :=
        loopOthers_submit hi hp (fun q hq => Function.update_of_ne hq _ _)
      exact Among.other _ _ hothers

/-- The program simulates the loop of the CoAP thread among the others. -/
theorem whole_loop (R : Registry ρ) : Simulates (WholeStep R) OpenLoop (fun e => [loopEvent e])
    (fun w l => Known w ∧ w.view = l) :=
  simulates_among (fun _ _ _ hi hstep => known_step hi hstep)
    (fun _ _ _ hi hstep => whole_view hi hstep)

/-- A run of the program is one of the loop. -/
theorem whole_openLoop {tmp tmp' : SCoAPNewRequest} {messageId : UInt16}
    {para : ParaId → SPthreadPara} {db : ρ} {es : List WholeEvent}
    (h : Path (WholeStep R) (wholeStart tmp tmp' messageId para db) es w) :
    Path OpenLoop (loopStart tmp' messageId para) (es.flatMap (fun e => [loopEvent e])) w.view := by
  rcases (whole_loop R).path h ⟨known_start tmp tmp' messageId para db, rfl⟩ with
    ⟨l, hp, -, hview⟩
  rw [hview]
  exact hp

/-- And one of the thread. -/
theorem whole_openStep {tmp tmp' : SCoAPNewRequest} {messageId : UInt16}
    {para : ParaId → SPthreadPara} {db : ρ} {es : List WholeEvent}
    (h : Path (WholeStep R) (wholeStart tmp tmp' messageId para db) es w) :
    ∃ es', Path OpenStep (initialGateway tmp' messageId para) es' w.view.gateway := by
  rcases ((whole_loop R).comp openLoop_simulates).path h
    ⟨loopStart tmp' messageId para, ⟨known_start tmp tmp' messageId para db, rfl⟩, rfl⟩ with
    ⟨g, hp, l, ⟨-, hview⟩, hg⟩
  rw [hview, hg]
  exact ⟨_, hp⟩

end Loop

section Signals

variable {w : Whole ρ} {l : LoopState} {e : Option Event}

/-- No step of the loop but the check signals the round. -/
theorem quiet_outputs (h : LoopStep w.view e l) (he : ∀ now, e ≠ some (.check300 now)) :
    Output.signalYC ∉ newOutputs w.loop.gateway l.gateway := by
  rcases loopStep_steps h with ⟨-, hsame⟩ | ⟨e', rfl, hstep⟩
  · have hnew : newOutputs w.loop.gateway l.gateway = [] := by
      rw [hsame]
      exact List.drop_length
    rw [hnew]
    exact List.not_mem_nil
  · rcases step_outputs hstep with ⟨os, hout, hpermitted⟩
    have hnew : newOutputs w.loop.gateway l.gateway = os := newOutputs_of_append hout
    rw [hnew]
    intro hmem
    rcases hpermitted _ hmem with ⟨now, hnow, -⟩
    exact he now (congrArg some hnow)

/-- Nor does it do anything to the poll thread. -/
theorem after_quiet (h : LoopStep w.view e l) (he : ∀ now, e ≠ some (.check300 now)) :
    (w.after l).poll = w.poll := by
  have hshared : l.gateway.deviceInfo = w.view.gateway.deviceInfo ∧
      l.gateway.ycRequest = w.view.gateway.ycRequest := by
    rcases loopStep_steps h with ⟨-, hsame⟩ | ⟨e', -, hstep⟩
    · rw [hsame]
      exact ⟨rfl, rfl⟩
    · exact step_shared hstep
  unfold Whole.after
  simp only []
  rw [if_neg (quiet_outputs h he), hshared.1, hshared.2]
  rfl

/-- The check does what it does beside the poll thread alone. -/
theorem after_check300 {now : Int} (h : LoopStep w.view (some (.check300 now)) l) :
    (w.after l).poll = pollCheck300 now w.poll := by
  rcases loopStep_steps h with ⟨hnone, -⟩ | ⟨e', he, hstep⟩
  · cases hnone
  cases he
  have hrun : CoapThread.check300 now w.view.gateway = l.gateway := Except.ok.inj hstep
  have hnone : Output.signalYC ∉ newOutputs w.loop.gateway w.view.gateway := by
    have hnew : newOutputs w.loop.gateway w.view.gateway = [] :=
      newOutputs_of_append (List.append_nil _).symm
    rw [hnew]
    exact List.not_mem_nil
  have hsome : Output.signalYC ∈ newOutputs w.loop.gateway (w.view.gateway.emit [.signalYC]) := by
    have hnew : newOutputs w.loop.gateway (w.view.gateway.emit [.signalYC]) = [.signalYC] :=
      newOutputs_of_append rfl
    rw [hnew]
    exact List.mem_singleton_self _
  unfold Whole.after
  simp only []
  rw [← hrun]
  unfold CoapThread.check300 pollCheck300
  by_cases hopen : w.poll.ycRequest = true
  · by_cases hold : 300 ≤ now - w.poll.deviceInfo.time
    · rw [if_pos (show w.view.gateway.ycRequest = true from hopen),
        if_pos (show 300 ≤ now - w.view.gateway.deviceInfo.time from hold), if_pos hsome,
        if_pos hopen, if_pos hold]
      rfl
    · rw [if_pos (show w.view.gateway.ycRequest = true from hopen),
        if_neg (show ¬ (300 ≤ now - w.view.gateway.deviceInfo.time) from hold), if_neg hnone,
        if_pos hopen, if_neg hold]
      rfl
  · rw [if_neg (show ¬ (w.view.gateway.ycRequest = true) from hopen), if_neg hnone,
      if_neg hopen]
    rfl

end Signals

/-- A poll thread that differs from another in the queue and in its record at
    most. -/
inductive SamePoll (s : PollState ρ) : PollState ρ → Prop where
  | upToQueue (queue : Fifo SCoAPNewRequest coapRxMQmaxmsg)
      (opening accepted taken : List SCoAPNewRequest) :
      SamePoll s { s with
        queue := queue
        opening := opening
        accepted := accepted
        taken := taken }

theorem SamePoll.refl (s : PollState ρ) : SamePoll s s :=
  SamePoll.upToQueue s.queue s.opening s.accepted s.taken

theorem SamePoll.signal {s t : PollState ρ} (h : SamePoll s t) :
    SamePoll (CoapThread.signal s) (CoapThread.signal t) := by
  cases h with
  | upToQueue queue opening accepted taken =>
      unfold CoapThread.signal
      by_cases hpc : s.pc = .blocked
      · rw [if_pos hpc, if_pos hpc]
        exact SamePoll.upToQueue queue opening accepted taken
      · rw [if_neg hpc, if_neg hpc]
        exact SamePoll.upToQueue queue opening accepted taken

theorem SamePoll.check300 {s t : PollState ρ} (now : Int) (h : SamePoll s t) :
    SamePoll (pollCheck300 now s) (pollCheck300 now t) := by
  have hshared : t.ycRequest = s.ycRequest ∧ t.deviceInfo = s.deviceInfo := by
    cases h
    exact ⟨rfl, rfl⟩
  unfold pollCheck300
  rw [hshared.1, hshared.2]
  split_ifs
  · exact h.signal
  · exact h
  · exact h

section Poll

variable {R : Registry ρ} {s s' t : PollState ρ} {o o' : Bool} {e : PollEvent}

/-- A statement does the same whatever the queue holds. -/
theorem samePoll_step (he : OwnStatement e) (hs : SamePoll s t) (h : PollStep R s e s') :
    ∃ t', PollStep R t e t' ∧ SamePoll s' t' := by
  cases hs with
  | upToQueue queue opening accepted taken =>
      cases h with
      | load r d hpc hload => exact ⟨_, .load _ r d hpc hload, .upToQueue _ _ _ _⟩
      | loadFailed r d hpc hload => exact ⟨_, .loadFailed _ r d hpc hload, .upToQueue _ _ _ _⟩
      | lockOpen hpc => exact ⟨_, .lockOpen _ hpc, .upToQueue _ _ _ _⟩
      | openRound now hpc => exact ⟨_, .openRound _ now hpc, .upToQueue _ _ _ _⟩
      | unlockOpen hpc => exact ⟨_, .unlockOpen _ hpc, .upToQueue _ _ _ _⟩
      | prepare junk hpc => exact ⟨_, .prepare _ junk hpc, .upToQueue _ _ _ _⟩
      | send i device tmp hpc hlt hdevice hfill =>
          exact ⟨_, .send _ i device tmp hpc hlt hdevice hfill, .upToQueue _ _ _ _⟩
      | enterWait i hpc hlast => exact ⟨_, .enterWait _ i hpc hlast, .upToQueue _ _ _ _⟩
      | leaveWait hpc hwoken => exact ⟨_, .leaveWait _ hpc hwoken, .upToQueue _ _ _ _⟩
      | lockClose hpc => exact ⟨_, .lockClose _ hpc, .upToQueue _ _ _ _⟩
      | closeRound hpc => exact ⟨_, .closeRound _ hpc, .upToQueue _ _ _ _⟩
      | unlockClose hpc => exact ⟨_, .unlockClose _ hpc, .upToQueue _ _ _ _⟩
      | postProcess es post hpc hrun =>
          exact ⟨_, .postProcess _ es post hpc hrun, .upToQueue _ _ _ _⟩
      | receive | answer | check300 => exact absurd he (fun h => h)

/-- And so beside the mutex. -/
theorem samePoll_mutexStep (he : OwnStatement e) (hs : SamePoll s t)
    (h : MutexStep R (s, o) e (s', o')) :
    ∃ t', MutexStep R (t, o) e (t', o') ∧ SamePoll s' t' := by
  rcases samePoll_step he hs (mutexStep_pollStep h) with ⟨t', hstep, hsame⟩
  refine ⟨t', ?_, hsame⟩
  cases h with
  | free _ _ _ _ hop _ => exact .free t t' o e hop hstep
  | lock _ _ _ hop _ => exact .lock t t' e hop hstep
  | perform _ _ _ _ a hop hne _ => exact .perform t t' o e a hop hne hstep

end Poll

/-- A step of the program as the poll thread sees it. -/
def pollEvents : WholeEvent → List PollEvent
  | .poll e => [e]
  | .coap (.check300 now) => [.check300 now]
  | _ => []

/-- The program simulates the poll thread beside its mutex. -/
theorem whole_poll (R : Registry ρ) : Simulates (WholeStep R) (MutexStep R) pollEvents
    (fun w p => SamePoll w.poll p.1 ∧ w.owned = p.2) := by
  rintro w e w' ⟨t, o⟩ ⟨hs, ho⟩ h
  simp only at hs ho
  subst ho
  have hquiet : ∀ {s' : PollState ρ}, s' = w.poll → SamePoll s' t := fun hsame => hsame ▸ hs
  cases h with
  | poll e s owned he hstep =>
      rcases samePoll_mutexStep he hs hstep with ⟨t', hstep', hsame⟩
      exact ⟨(t', owned), Path.cons _ _ _ _ _ hstep' (Path.nil _), hsame, rfl⟩
  | timedOut l _ hstep =>
      exact ⟨(t, w.owned), Path.nil _, hquiet (after_quiet hstep (fun _ => nofun)), rfl⟩
  | message r now m q l htake hstep =>
      refine ⟨(t, w.owned), Path.nil _, ?_, rfl⟩
      have hsame := after_quiet (w := { w with
        poll := { w.poll with queue := q, taken := w.poll.taken ++ [m] } }) hstep (fun _ => nofun)
      rw [hsame]
      cases hs
      exact .upToQueue _ _ _ _
  | coap e l he hstep =>
      cases e with
      | message r now m => exact absurd he (fun h => h)
      | response r l' received =>
          exact ⟨(t, w.owned), Path.nil _, hquiet (after_quiet hstep (fun _ => nofun)), rfl⟩
      | sweep now =>
          exact ⟨(t, w.owned), Path.nil _, hquiet (after_quiet hstep (fun _ => nofun)), rfl⟩
      | check300 now =>
          refine ⟨(pollCheck300 now t, w.owned), Path.cons _ _ _ _ _
            (.free t _ w.owned _ rfl (.check300 t now)) (Path.nil _), ?_, rfl⟩
          simp only
          rw [after_check300 hstep]
          exact hs.check300 now
  | keyL junk p _ _ =>
      refine ⟨(t, w.owned), Path.nil _, ?_, rfl⟩
      cases hs
      exact .upToQueue _ _ _ _
  | keyA junk p _ _ =>
      refine ⟨(t, w.owned), Path.nil _, ?_, rfl⟩
      cases hs
      exact .upToQueue _ _ _ _

/-- A run of the program is one of the poll thread. -/
theorem whole_mutexStep {R : Registry ρ} {w : Whole ρ} {tmp tmp' : SCoAPNewRequest}
    {messageId : UInt16} {para : ParaId → SPthreadPara} {db : ρ} {es : List WholeEvent}
    (h : Path (WholeStep R) (wholeStart tmp tmp' messageId para db) es w) :
    ∃ t, Path (MutexStep R) (pollStart tmp Fifo.empty db, false) (es.flatMap pollEvents)
      (t, w.owned) ∧ SamePoll w.poll t := by
  rcases (whole_poll R).path h (t := (pollStart tmp Fifo.empty db, false))
    ⟨SamePoll.refl _, rfl⟩ with ⟨⟨t, o⟩, hp, hs, ho⟩
  simp only at hs ho
  exact ⟨t, ho ▸ hp, hs⟩

end CoapThread
