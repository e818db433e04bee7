import CoapThread.System.Turns
import CoapThread.Theory.Mutex
import CoapThread.Theory.Requesters

/-!
# The Whole Program

The three threads `main` starts, with everything they share.

The poll thread goes through its rounds beside its mutex, the CoAP thread
through its loop, and the test thread reads keys: `l` sends a block request,
`a` a poll, behind which the thread waits for a signal in a loop it does not
leave. They share the queue, which `main` has opened, the device table and the
request flag, the heap of requesters, and the condition variable of the round.
One copy of each is kept: queue, table and flag stand in the poll thread's
state, the requesters in that of the CoAP thread, and `view` is the CoAP
thread as it finds the shared ones.

Two things are narrower than the source. `main` opens a queue with a name, and
such a queue keeps what an earlier process has left in it; here it is empty at
the start. And the steps are those of the machines the program is made of:
where the poll thread opens a round, the flag and the time of the table are
stored in one step, and a 300-second check tests both and signals in one.

## Main definitions

* `Whole`: The state of the program.
* `WholeStep`: The program as a labelled machine.
* `wholeStart`: The state at the start.
* `FromSender`, `Known`: Every message is from one of the senders, and whoever
  it names has been allocated.

## Theorems

* `known_step`: Every step keeps who is named allocated.
-/

namespace CoapThread

open CBytes Machine Mutex

variable {ρ : Type}

/-- Where the test thread stands: in front of the next key, or in its wait. -/
inductive TestPc where
  | key
  | waiting
  deriving DecidableEq

/-- The state of the program. -/
structure Whole (ρ : Type) where
  poll : PollState ρ
  /-- The poll thread owns its mutex. -/
  owned : Bool
  loop : LoopState
  test : TestPc
  made : ParaId → Option Made
  /-- What the queue has accepted so far. -/
  sent : List SCoAPNewRequest

/-- The CoAP thread as it finds what is shared. -/
def Whole.view (w : Whole ρ) : LoopState :=
  ⟨w.loop.pc, { w.loop.gateway with
    deviceInfo := w.poll.deviceInfo
    ycRequest := w.poll.ycRequest }⟩

/-- The program once the CoAP thread has made a step: what is shared is as the
    thread has left it, and a signal of the round reaches the poll thread if
    that waits for it. -/
def Whole.after (w : Whole ρ) (l : LoopState) : Whole ρ :=
  let poll := { w.poll with deviceInfo := l.gateway.deviceInfo, ycRequest := l.gateway.ycRequest }
  { w with
    loop := l
    poll := if Output.signalYC ∈ newOutputs w.loop.gateway l.gateway then signal poll else poll }

/-- The program once the test thread has sent a message, without looking
    whether it was accepted. -/
def Whole.submit (w : Whole ρ) (s : Sent) : Whole ρ :=
  { w with
    poll := { w.poll with queue := (w.poll.queue.put s.message).1 }
    loop := ⟨w.loop.pc, s.before w.loop.gateway⟩
    made := s.make w.made
    sent := w.sent ++ (w.poll.queue.put s.message).2 }

/-- What can happen in the program. -/
inductive WholeEvent where
  /-- A statement of the poll thread. -/
  | poll (e : PollEvent)
  /-- The CoAP thread waits for a message, and there is none. -/
  | timedOut
  | message (r : LibcoapResult) (now : Int) (m : SCoAPNewRequest)
  /-- Any other event of the CoAP thread. -/
  | coap (e : Event)
  | keyL (junk : SCoAPNewRequest) (p : ParaId)
  | keyA (junk : SCoAPNewRequest) (p : ParaId)

/-- A statement of the poll thread itself, and nothing the CoAP thread does. -/
def OwnStatement : PollEvent → Prop
  | .receive => False
  | .answer _ => False
  | .check300 _ => False
  | _ => True

/-- An event of the CoAP thread that is no message. -/
def NoMessage : Event → Prop
  | .message _ _ _ => False
  | _ => True

inductive WholeStep (R : Registry ρ) : Whole ρ → WholeEvent → Whole ρ → Prop where
  | poll (w : Whole ρ) (e : PollEvent) (s : PollState ρ) (owned : Bool) : OwnStatement e →
      MutexStep R (w.poll, w.owned) e (s, owned) →
      WholeStep R w (.poll e) { w with
        poll := s
        owned := owned
        sent := w.sent ++ s.queue.items.drop w.poll.queue.items.length }
  /-- A queue that is not empty gives its first message at once. -/
  | timedOut (w : Whole ρ) (l : LoopState) : w.poll.queue.items = [] → LoopStep w.view none l →
      WholeStep R w .timedOut (w.after l)
  | message (w : Whole ρ) (r : LibcoapResult) (now : Int) (m : SCoAPNewRequest)
      (q : Fifo SCoAPNewRequest coapRxMQmaxmsg) (l : LoopState) :
      w.poll.queue.take = some (m, q) → LoopStep w.view (some (.message r now m)) l →
      WholeStep R w (.message r now m) ({ w with
        poll := { w.poll with queue := q, taken := w.poll.taken ++ [m] } }.after l)
  | coap (w : Whole ρ) (e : Event) (l : LoopState) : NoMessage e → LoopStep w.view (some e) l →
      WholeStep R w (.coap e) (w.after l)
  | keyL (w : Whole ρ) (junk : SCoAPNewRequest) (p : ParaId) : w.test = .key → w.made p = none →
      WholeStep R w (.keyL junk p) (w.submit (.testBlock junk p))
  /-- The thread goes on to wait and reads no other key. -/
  | keyA (w : Whole ρ) (junk : SCoAPNewRequest) (p : ParaId) : w.test = .key → w.made p = none →
      WholeStep R w (.keyA junk p) { w.submit (.testPoll junk p) with test := .waiting }

/-- The state at the start, with an empty queue: the locals of both threads
    hold anything, and nobody has allocated a requester. -/
def wholeStart (tmp tmp' : SCoAPNewRequest) (messageId : UInt16) (para : ParaId → SPthreadPara)
    (db : ρ) : Whole ρ where
  poll := pollStart tmp Fifo.empty db
  owned := false
  loop := loopStart tmp' messageId para
  test := .key
  made := fun _ => none
  sent := []

@[simp] theorem view_list (w : Whole ρ) : w.view.gateway.list = w.loop.gateway.list := rfl
@[simp] theorem view_para (w : Whole ρ) : w.view.gateway.para = w.loop.gateway.para := rfl
@[simp] theorem after_loop (w : Whole ρ) (l : LoopState) : (w.after l).loop = l := rfl
@[simp] theorem after_sent (w : Whole ρ) (l : LoopState) : (w.after l).sent = w.sent := rfl

theorem signal_queue (s : PollState ρ) : (signal s).queue = s.queue := by
  unfold signal
  split_ifs <;> rfl

theorem signal_shared (s : PollState ρ) :
    (signal s).deviceInfo = s.deviceInfo ∧ (signal s).ycRequest = s.ycRequest := by
  unfold signal
  split_ifs <;> exact ⟨rfl, rfl⟩

theorem after_queue (w : Whole ρ) (l : LoopState) : (w.after l).poll.queue = w.poll.queue := by
  unfold Whole.after
  simp only []
  split_ifs
  · exact signal_queue _
  · rfl

theorem after_shared (w : Whole ρ) (l : LoopState) :
    (w.after l).poll.deviceInfo = l.gateway.deviceInfo ∧
      (w.after l).poll.ycRequest = l.gateway.ycRequest := by
  unfold Whole.after
  simp only []
  split_ifs
  · exact signal_shared _
  · exact ⟨rfl, rfl⟩

/-- The CoAP thread finds what it has left. -/
theorem after_view (w : Whole ρ) (l : LoopState) : (w.after l).view = l := by
  rcases after_shared w l with ⟨hdevice, hflag⟩
  unfold Whole.view
  rw [hdevice, hflag]
  rfl

theorem view_at {w : Whole ρ} {pc : LoopPc} (h : w.loop.pc = pc) :
    w.view = ⟨pc, w.view.gateway⟩ := by
  rw [← h]
  rfl

theorem after_poll (w : Whole ρ) (l : LoopState) :
    (w.after l).poll.pc = w.poll.pc ∧ (w.after l).poll.tmp = w.poll.tmp := by
  unfold Whole.after
  simp only []
  split_ifs
  · refine ⟨signal_pc _, ?_⟩
    unfold signal
    split_ifs <;> rfl
  · exact ⟨rfl, rfl⟩

section Senders

/-- A message is one of the poll thread, which names nobody, or one of the test
    thread, whose requester has been allocated and allows the time its kind of
    request is given. -/
def FromSender (made : ParaId → Option Made) (para : ParaId → SPthreadPara)
    (m : SCoAPNewRequest) : Prop :=
  (m.req = .ltuYC ∧ m.pthpara = none) ∨
    ∃ p, m.pthpara = some p ∧ made p ≠ none ∧
      ((m.req = .ltuYC ∧ (para p).timing = 3) ∨ (m.req = .ltuTxBlock ∧ (para p).timing = 30))

variable {made : ParaId → Option Made} {para : ParaId → SPthreadPara} {m m' : SCoAPNewRequest}

theorem FromSender.req (h : FromSender made para m) : m.req = .ltuYC ∨ m.req = .ltuTxBlock := by
  rcases h with ⟨hreq, -⟩ | ⟨p, -, -, ⟨hreq, -⟩ | ⟨hreq, -⟩⟩
  · exact Or.inl hreq
  · exact Or.inl hreq
  · exact Or.inr hreq

theorem FromSender.of_data (h : FromSender made para m) (hdata : m'.data = m.data) :
    FromSender made para m' := by
  rcases entry_of_data hdata with ⟨hreq, -, -, hpara⟩
  unfold FromSender
  rw [hreq, hpara]
  exact h

/-- It stays one where no requester is unmade and none gets another time. -/
theorem FromSender.mono {made' : ParaId → Option Made} {para' : ParaId → SPthreadPara}
    (h : FromSender made para m)
    (hkept : ∀ p, made p ≠ none → made' p ≠ none ∧ (para' p).timing = (para p).timing) :
    FromSender made' para' m := by
  rcases h with hpoll | ⟨p, hp, hmade, htiming⟩
  · exact Or.inl hpoll
  · rcases hkept p hmade with ⟨hmade', hsame⟩
    rw [← hsame] at htiming
    exact Or.inr ⟨p, hp, hmade', htiming⟩

end Senders

/-- Every message stored or queued is from its sender, and the poll thread's
    local is one of its polls in the send loop. -/
structure Known (w : Whole ρ) : Prop where
  stored : ∀ i < w.loop.gateway.list.fresh,
    FromSender w.made w.loop.gateway.para (w.loop.gateway.list.node i)
  queued : ∀ m ∈ w.poll.queue.items, FromSender w.made w.loop.gateway.para m
  template : ∀ i, w.poll.pc = .send i → w.poll.tmp.req = .ltuYC ∧ w.poll.tmp.pthpara = none

section Poll

variable {R : Registry ρ} {s s' : PollState ρ} {o o' : Bool} {e : PollEvent}

theorem mutexStep_pollStep (h : MutexStep R (s, o) e (s', o')) : PollStep R s e s' := by
  cases h with
  | free _ _ _ _ _ hs | lock _ _ _ _ hs | perform _ _ _ _ _ _ _ hs => exact hs

/-- A statement of the poll thread puts its local on the queue, or leaves the
    queue as it is. -/
theorem poll_queue (he : OwnStatement e) (h : PollStep R s e s') :
    s'.queue = s.queue ∨ ∃ i, s.pc = .send i ∧ s'.pc = .send (i + 1) ∧
      s'.queue = (s.queue.put s'.tmp).1 := by
  cases h with
  | send i device tmp hpc => exact Or.inr ⟨i, hpc, rfl, rfl⟩
  | receive | answer | check300 => exact absurd he (fun h => h)
  | _ => exact Or.inl rfl

/-- In the send loop the local is a poll that names nobody. -/
theorem poll_template (he : OwnStatement e) (h : PollStep R s e s')
    (hi : ∀ i, s.pc = .send i → s.tmp.req = .ltuYC ∧ s.tmp.pthpara = none) :
    ∀ i, s'.pc = .send i → s'.tmp.req = .ltuYC ∧ s'.tmp.pthpara = none := by
  cases h with
  | prepare junk => exact fun _ _ => ⟨rfl, rfl⟩
  | send i device tmp hpc _ _ hfill =>
      rcases pollFill_req hfill with ⟨hreq, hpara⟩
      rcases hi i hpc with ⟨hyc, hnobody⟩
      exact fun _ _ => ⟨hreq.trans hyc, hpara.trans hnobody⟩
  | receive | answer | check300 => exact absurd he (fun h => h)
  | loadFailed r d hpc => exact fun _ hpc' => nomatch hpc.symm.trans hpc'
  | _ => exact fun _ hpc' => nomatch hpc'

end Poll

section Invariant

variable {R : Registry ρ} {w w' : Whole ρ}

/-- A step of the CoAP thread on a queue whose messages are known. -/
theorem known_after {l : LoopState} {e : Option Event} (hi : Known w)
    (hmessage : ∀ r now m, e = some (.message r now m) →
      FromSender w.made w.loop.gateway.para m)
    (h : LoopStep w.view e l) : Known (w.after l) := by
  rcases after_poll w l with ⟨hpc, htmp⟩
  have htemplate : ∀ i, (w.after l).poll.pc = .send i →
      (w.after l).poll.tmp.req = .ltuYC ∧ (w.after l).poll.tmp.pthpara = none := by
    rw [hpc, htmp]
    exact hi.template
  rcases loopStep_steps h with ⟨-, hsame⟩ | ⟨e', rfl, hstep⟩
  · refine ⟨?_, ?_, htemplate⟩
    · rw [after_loop, hsame]
      exact hi.stored
    · rw [after_loop, hsame, after_queue]
      exact hi.queued
  · have hkept : ∀ p, w.made p ≠ none →
        w.made p ≠ none ∧ (l.gateway.para p).timing = (w.loop.gateway.para p).timing :=
      fun p hmade => ⟨hmade, step_timing hstep p⟩
    refine ⟨fun i hlt => ?_, ?_, htemplate⟩
    · rw [after_loop] at hlt ⊢
      rcases step_entry hstep i hlt with ⟨hold, hdata⟩ | ⟨r, now, m, rfl, -, hdata⟩
      · exact ((hi.stored i hold).mono hkept).of_data hdata
      · have hm := (hmessage r now m rfl).mono hkept
        refine FromSender.of_data (m := { m with time := now }) ?_ hdata
        exact hm
    · rw [after_loop, after_queue]
      exact fun m hm => (hi.queued m hm).mono hkept

/-- A message of the test thread, whose requester is new. -/
theorem known_submit {sent : Sent} {p : ParaId} (hi : Known w) (hp : w.made p = none)
    (hmade : ∀ q, q ≠ p → sent.make w.made q = w.made q)
    (htiming : ∀ q, q ≠ p → sent.setTiming w.loop.gateway.para q = w.loop.gateway.para q)
    (hsent : FromSender (sent.make w.made) (sent.setTiming w.loop.gateway.para) sent.message) :
    Known (w.submit sent) := by
  have hkept : ∀ q, w.made q ≠ none → sent.make w.made q ≠ none ∧
      (sent.setTiming w.loop.gateway.para q).timing = (w.loop.gateway.para q).timing := by
    intro q hq
    have hne : q ≠ p := fun hc => hq (hc ▸ hp)
    rw [hmade q hne, htiming q hne]
    exact ⟨hq, rfl⟩
  refine ⟨fun i hlt => (hi.stored i hlt).mono hkept, fun m hm => ?_, hi.template⟩
  rcases Fifo.mem_put hm with hm | hm
  · exact (hi.queued m hm).mono hkept
  · rw [hm]
    exact hsent

theorem known_testBlock {junk : SCoAPNewRequest} {p : ParaId} (hi : Known w)
    (hp : w.made p = none) : Known (w.submit (.testBlock junk p)) := by
  refine known_submit hi hp (fun q hq => Function.update_of_ne hq _ _)
    (fun q hq => Function.update_of_ne hq _ _) (Or.inr ⟨p, rfl, ?_, Or.inr ⟨rfl, ?_⟩⟩)
  · simp [Sent.make]
  · simp [Sent.setTiming]

theorem known_testPoll {junk : SCoAPNewRequest} {p : ParaId} (hi : Known w)
    (hp : w.made p = none) : Known (w.submit (.testPoll junk p)) := by
  refine known_submit hi hp (fun q hq => Function.update_of_ne hq _ _)
    (fun q hq => Function.update_of_ne hq _ _) (Or.inr ⟨p, rfl, ?_, Or.inl ⟨rfl, ?_⟩⟩)
  · simp [Sent.make]
  · simp [Sent.setTiming]

/-- Every step keeps the messages known. -/
theorem known_step {e : WholeEvent} (hi : Known w) (h : WholeStep R w e w') : Known w' := by
  cases h with
  | poll e s owned he hstep =>
      have hpoll := mutexStep_pollStep hstep
      have htemplate := poll_template he hpoll hi.template
      refine ⟨hi.stored, fun m hm => ?_, htemplate⟩
      rcases poll_queue he hpoll with hsame | ⟨i, -, hpc, hput⟩
      · simp only [hsame] at hm
        exact hi.queued m hm
      · simp only [hput] at hm
        rcases Fifo.mem_put hm with hm | hm
        · exact hi.queued m hm
        · rw [hm]
          exact Or.inl (htemplate _ hpc)
  | timedOut l _ hstep => exact known_after (e := none) hi (fun _ _ _ hc => nomatch hc) hstep
  | message r now m q l htake hstep =>
      have hitems := Fifo.take_items htake
      have hm : FromSender w.made w.loop.gateway.para m :=
        hi.queued m (hitems ▸ List.mem_cons_self)
      refine known_after ⟨hi.stored, fun m' hm' => ?_, hi.template⟩ ?_ hstep
      · exact hi.queued m' (hitems ▸ List.mem_cons_of_mem m hm')
      · intro r' now' m' hc
        cases hc
        exact hm
  | coap e l he hstep =>
      refine known_after hi (fun r now m hc => ?_) hstep
      rw [Option.some.inj hc] at he
      exact absurd he (fun h => h)
  | keyL junk p _ hp => exact known_testBlock hi hp
  | keyA junk p _ hp =>
      have hknown : Known (w.submit (.testPoll junk p)) := known_testPoll hi hp
      exact ⟨hknown.stored, hknown.queued, hknown.template⟩

theorem known_start (tmp tmp' : SCoAPNewRequest) (messageId : UInt16)
    (para : ParaId → SPthreadPara) (db : ρ) : Known (wholeStart tmp tmp' messageId para db) :=
  ⟨fun i hi => absurd hi (Nat.not_lt_zero i), fun _ hm => absurd hm List.not_mem_nil,
    fun _ hpc => nomatch hpc⟩

theorem known_run {tmp tmp' : SCoAPNewRequest} {messageId : UInt16} {para : ParaId → SPthreadPara}
    {db : ρ} {es : List WholeEvent}
    (h : Path (WholeStep R) (wholeStart tmp tmp' messageId para db) es w) : Known w :=
  path_invariant (I := Known) (fun _ _ _ hi hstep => known_step hi hstep) h
    (known_start tmp tmp' messageId para db)

end Invariant

end CoapThread
