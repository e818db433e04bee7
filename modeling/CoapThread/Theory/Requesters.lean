import CoapThread.Core.Senders
import CoapThread.Core.Thread
import CoapThread.Library.Machine

/-!
# Who Waits for a Request

Whether every entry of the pending list names a requester that the sweep can
read and signal.

What the sweep takes for granted has to be set up by the senders, each in a
thread of its own. The poll thread names no requester at all. The test thread
allocates one for each of its requests; for a poll it sets the waiting time and
makes the condition variable, for a block request only the waiting time. The
receive loop appends whatever it is sent.

`Program` is the gateway with a record of what has been made of each
requester so far. Nothing is ever unmade, so an entry is as good as its sender
left it, and `TakenFromTestPoll` is the condition that only the good sender's
messages are taken over.

## Main definitions

* `Made`: What a sender has set of a requester.
* `Sent`: A message with its sender.
* `ProgramStep`: The gateway beside the senders.
* `SweepReady`: Every entry names a requester that is set up.
* `TakenFromTestPoll`: The condition on a step.

## Theorems

* `sweepReady_step`: A step that meets the condition keeps the entries good.
* `sweepReady_iff`: The entries of a run are good exactly where its steps meet
  the condition.
* `not_sweepReady_poll`: A poll of the poll thread.
-/

namespace CoapThread

open CBytes Machine

/-- What a sender has set of a requester it allocated. -/
structure Made where
  timing : Bool
  askcond : Bool
  deriving DecidableEq

/-- A message with its sender: the poll thread, or the test thread's two
    branches with the requester each allocates. -/
inductive Sent where
  | poll (junk : SCoAPNewRequest) (devices : List LTUInfor) (m : SCoAPNewRequest)
  | testBlock (junk : SCoAPNewRequest) (p : ParaId)
  | testPoll (junk : SCoAPNewRequest) (p : ParaId)

def Sent.message : Sent → SCoAPNewRequest
  | .poll _ _ m => m
  | .testBlock junk p => CoapThread.testBlock junk p
  | .testPoll junk p => CoapThread.testPoll junk p

/-- The gateway, and what has been made of the requesters allocated so far. -/
structure Program where
  gateway : Gateway
  made : ParaId → Option Made

/-- The sender can send it: it is a message of a round, or its requester is
    one the allocator has not given out before. -/
def Sent.Possible (made : ParaId → Option Made) : Sent → Prop
  | .poll junk devices m => ∃ ms, pollMessages (pollTemplate junk) devices = .ok ms ∧ m ∈ ms
  | .testBlock _ p => made p = none
  | .testPoll _ p => made p = none

/-- What its sender sets up. -/
def Sent.make (made : ParaId → Option Made) : Sent → ParaId → Option Made
  | .poll _ _ _ => made
  | .testBlock _ p => Function.update made p (some ⟨true, false⟩)
  | .testPoll _ p => Function.update made p (some ⟨true, true⟩)

/-- The waiting time a sender sets. -/
def Sent.setTiming (para : ParaId → SPthreadPara) : Sent → ParaId → SPthreadPara
  | .poll _ _ _ => para
  | .testBlock _ p => Function.update para p { para p with timing := 30 }
  | .testPoll _ p => Function.update para p { para p with timing := 3 }

/-- The gateway as the message meets it. -/
def Sent.before (s : Sent) (g : Gateway) : Gateway := { g with para := s.setTiming g.para }

@[simp] theorem before_tmp (s : Sent) (g : Gateway) : (s.before g).tmp = g.tmp := rfl
@[simp] theorem before_list (s : Sent) (g : Gateway) : (s.before g).list = g.list := rfl

/-- What can happen in the program. -/
inductive ProgramEvent where
  /-- A message is sent and taken off the queue. -/
  | sent (r : LibcoapResult) (now : Int) (s : Sent)
  | response (r : LibcoapResult) (l : HandlerLocals) (received : CoapPdu)
  | sweep (now : Int)
  | check300 (now : Int)

inductive ProgramStep : Program → ProgramEvent → Program → Prop where
  | sent (P : Program) (r : LibcoapResult) (now : Int) (s : Sent) (g' : Gateway) :
      s.Possible P.made →
      receive r now s.message (s.before P.gateway) = .ok g' →
      ProgramStep P (.sent r now s) ⟨g', s.make P.made⟩
  | response (P : Program) (r : LibcoapResult) (l : HandlerLocals) (received : CoapPdu)
      (g' : Gateway) : messageHandler r l received P.gateway = .ok g' →
      ProgramStep P (.response r l received) ⟨g', P.made⟩
  | sweep (P : Program) (now : Int) (g' : Gateway) : sweep now P.gateway = .ok g' →
      ProgramStep P (.sweep now) ⟨g', P.made⟩
  | check300 (P : Program) (now : Int) :
      ProgramStep P (.check300 now) ⟨CoapThread.check300 now P.gateway, P.made⟩

def programStart (tmp : SCoAPNewRequest) (messageId : UInt16) (para : ParaId → SPthreadPara) :
    Program := ⟨initialGateway tmp messageId para, fun _ => none⟩

/-- Every entry of the list names a requester whose waiting time and condition
    variable its sender has set up, and a sweep returns. -/
structure SweepReady (P : Program) : Prop where
  entries : ∀ i, P.gateway.list.live i = true →
    ∃ p, (P.gateway.list.node i).pthpara = some p ∧ P.made p = some ⟨true, true⟩
  sweeps : ∀ now, ∃ g', CoapThread.sweep now P.gateway = .ok g'

/-- A PDU can be built for a message. -/
def Buildable (r : LibcoapResult) (m : SCoAPNewRequest) : Prop :=
  (m.req = .ltuYC → r.allocated = true) ∧ (m.req = .ltuTxBlock → Terminated m.respath.bytes)

/-- A message that is taken over is the test thread's poll. -/
def TakenFromTestPoll (P : Program) : ProgramEvent → Prop
  | .sent r _ s => P.gateway.tmp.req ≠ .ltuNoAck → s.Possible P.made → Buildable r s.message →
      ∃ junk p, s = .testPoll junk p
  | _ => True

/-- The list is one, and its entries name requesters that are set up. -/
def Ready (P : Program) : Prop :=
  ∃ ids, Holds P.gateway.list ids ∧ ∀ i ∈ ids,
    ∃ p, (P.gateway.list.node i).pthpara = some p ∧ P.made p = some ⟨true, true⟩

/-- A requester that is set up is one. -/
theorem pthpara_ne_none {P : Program} {ids : List NodeId}
    (hmade : ∀ i ∈ ids, ∃ p, (P.gateway.list.node i).pthpara = some p ∧
      P.made p = some ⟨true, true⟩) : ∀ i ∈ ids, (P.gateway.list.node i).pthpara ≠ none := by
  intro i hi hnone
  rcases hmade i hi with ⟨p, hp, -⟩
  rw [hnone] at hp
  cases hp

theorem Ready.sweepReady {P : Program} (h : Ready P) : SweepReady P := by
  rcases h with ⟨ids, hh, hmade⟩
  refine ⟨fun i hi => hmade i ((hh.live i).mp hi), fun now => ?_⟩
  rcases sweep_holds now P.gateway ids hh (pthpara_ne_none hmade) with ⟨g', hrun, -⟩
  exact ⟨g', hrun⟩

/-- A state whose list is a part of the old one, with the same requests. -/
theorem Ready.shrink {P : Program} {g' : Gateway} {ids ids' : List NodeId}
    (hmade : ∀ i ∈ ids, ∃ p, (P.gateway.list.node i).pthpara = some p ∧
      P.made p = some ⟨true, true⟩)
    (hh' : Holds g'.list ids') (hsub : ids' ⊆ ids)
    (hdata : ∀ i, (g'.list.node i).data = (P.gateway.list.node i).data) :
    Ready ⟨g', P.made⟩ := by
  refine ⟨ids', hh', fun i hi => ?_⟩
  rw [pthpara_of_data (hdata i)]
  exact hmade i (hsub hi)

/-- A requester that is allocated is none that was set up before. -/
theorem make_of_made {made : ParaId → Option Made} {s : Sent} {p : ParaId} {x : Made}
    (hs : s.Possible made) (hp : made p = some x) : s.make made p = some x := by
  cases s with
  | poll junk devices m => exact hp
  | testBlock junk q | testPoll junk q =>
      -- The new requester was not given out before, and this one was.
      have hne : p ≠ q := by
        intro hc
        rw [hc] at hp
        cases hp.symm.trans hs
      simp only [Sent.make, Function.update_of_ne hne]
      exact hp

theorem response_ready {r : LibcoapResult} {l : HandlerLocals} {received : CoapPdu} {P : Program}
    {g' : Gateway} (hi : Ready P) (h : messageHandler r l received P.gateway = .ok g') :
    Ready ⟨g', P.made⟩ := by
  rcases hi with ⟨ids, hh, hmade⟩
  cases messageHandler_handled h with
  | ignored | other | continued =>
      exact Ready.shrink hmade hh (fun i hi => hi) (fun _ => rfl)
  | completed value path el block p _ _ _ _ _ _ _ _ hrel =>
      -- A completed download takes one entry out and changes no other.
      rcases release_ok hrel with ⟨list, hg', -, hdata⟩
      have hh' : el ∈ ids ∧ Holds g'.list (ids.erase el) := by
        refine release_erase ?_ hrel
        exact hh
      refine Ready.shrink hmade hh'.2 List.erase_subset (fun i => ?_)
      rw [hg']
      exact hdata i

theorem sweep_ready {now : Int} {P : Program} {g' : Gateway} (hi : Ready P)
    (h : CoapThread.sweep now P.gateway = .ok g') : Ready ⟨g', P.made⟩ := by
  rcases hi with ⟨ids, hh, hmade⟩
  rcases sweep_holds now P.gateway ids hh (pthpara_ne_none hmade) with
    ⟨g'', hrun, hh', hframe, -⟩
  cases h.symm.trans hrun
  exact Ready.shrink hmade hh' (List.filter_subset_self ids) hframe.data

theorem buildable_of_receive {r : LibcoapResult} {now : Int} {m : SCoAPNewRequest}
    {g g' : Gateway} (htmp : g.tmp.req ≠ .ltuNoAck) (h : receive r now m g = .ok g') :
    Buildable r m := by
  refine ⟨fun hyc => ?_, (receive_ok htmp h).2.2⟩
  cases receive_iff.mp h with
  | dropped hnoack => exact absurd hnoack htmp
  | polled _ _ halloc => exact halloc
  | requested _ htx => exact absurd (hyc.symm.trans htx) nofun
  | kept _ hne => exact absurd hyc hne

theorem sent_ready {P : Program} {r : LibcoapResult} {now : Int} {s : Sent} {g' : Gateway}
    (hi : Ready P) (hc : TakenFromTestPoll P (.sent r now s)) (hs : s.Possible P.made)
    (h : receive r now s.message (s.before P.gateway) = .ok g') :
    Ready ⟨g', s.make P.made⟩ := by
  rcases hi with ⟨ids, hh, hmade⟩
  have hkept : ∀ i ∈ ids, ∃ p, (P.gateway.list.node i).pthpara = some p ∧
      s.make P.made p = some ⟨true, true⟩ := by
    intro i hi
    rcases hmade i hi with ⟨p, hp, hx⟩
    exact ⟨p, hp, make_of_made hs hx⟩
  -- A dropped message leaves the list as it was, though its requester is set
  -- up; any other is the test thread's poll.
  by_cases htmp : (s.before P.gateway).tmp.req = .ltuNoAck
  · rw [receive_noAck _ _ _ _ htmp] at h
    rw [← Except.ok.inj h]
    exact ⟨ids, hh, hkept⟩
  · rcases hc htmp hs (buildable_of_receive htmp h) with ⟨junk, p, hpoll⟩
    have hlist := (receive_ok htmp h).1
    simp only [stored, before_list] at hlist
    refine ⟨ids ++ [P.gateway.list.fresh], ?_, fun i hi => ?_⟩
    · rw [hlist]
      exact add_holds _ _ _ hh
    · have hdata := add_data P.gateway.list { s.message with time := now } i
      rw [← hlist] at hdata
      rcases List.mem_append.mp hi with hi | hi
      · have hne : i ≠ P.gateway.list.fresh := fun he => hh.fresh_not_mem (he ▸ hi)
        rw [if_neg hne] at hdata
        rw [pthpara_of_data hdata]
        exact hkept i hi
      · rw [if_pos (List.mem_singleton.mp hi)] at hdata
        rw [pthpara_of_data hdata, hpoll]
        exact ⟨p, rfl, Function.update_self _ _ _⟩

/-- A step that meets the condition keeps the entries good. -/
theorem sweepReady_step (P : Program) (e : ProgramEvent) (P' : Program) (hi : Ready P)
    (hc : TakenFromTestPoll P e) (h : ProgramStep P e P') : Ready P' := by
  cases h with
  | sent r now s g' hs hrun => exact sent_ready hi hc hs hrun
  | response r l received g' hrun => exact response_ready hi hrun
  | sweep now g' hrun => exact sweep_ready hi hrun
  | check300 now =>
      rcases hi with ⟨ids, hh, hmade⟩
      rw [check300_eq]
      exact Ready.shrink hmade hh (fun i hi => hi) (fun _ => rfl)

/-- An entry of another sender names no requester that is set up. -/
theorem sent_not_ready {s : Sent} {made : ParaId → Option Made} (hs : s.Possible made)
    (hother : ∀ junk p, s ≠ .testPoll junk p) :
    ¬ ∃ p, s.message.pthpara = some p ∧ s.make made p = some ⟨true, true⟩ := by
  rintro ⟨p, hp, hmake⟩
  -- The poll thread names no requester; the test thread's block request names
  -- one whose condition variable it never initialises.
  cases s with
  | poll junk devices m =>
      rcases hs with ⟨ms, hrun, hmem⟩
      have hnone := ((pollMessages_req hrun).2 m hmem).2
      cases hp.symm.trans hnone
  | testBlock junk q =>
      cases hp
      simp only [Sent.make, Function.update_self] at hmake
      cases hmake
  | testPoll junk q => exact hother junk q rfl

/-- Taking another sender's message over leaves a bad entry. -/
theorem not_sweepReady_of_other {P : Program} {r : LibcoapResult} {s : Sent} (now : Int)
    (hi : Ready P) (htmp : P.gateway.tmp.req ≠ .ltuNoAck) (hs : s.Possible P.made)
    (hbuild : Buildable r s.message) (hother : ∀ junk p, s ≠ .testPoll junk p) :
    ∃ P', ProgramStep P (.sent r now s) P' ∧ ¬ SweepReady P' := by
  rcases hi with ⟨ids, hh, -⟩
  rw [← before_tmp s] at htmp
  rcases receive_returns now htmp hbuild.1 hbuild.2 with ⟨g', hrun⟩
  have hlist := (receive_ok htmp hrun).1
  refine ⟨_, ProgramStep.sent P r now s g' hs hrun, fun hgood => ?_⟩
  simp only [stored, before_list] at hlist
  -- The entry is the node just allocated.
  have hlive : g'.list.live P.gateway.list.fresh = true := by
    rw [hlist]
    exact ((add_holds _ _ _ hh).live _).mpr (List.mem_append_right _ (List.mem_singleton_self _))
  have hdata := add_data P.gateway.list { s.message with time := now } P.gateway.list.fresh
  rw [← hlist, if_pos rfl] at hdata
  rcases hgood.entries _ hlive with ⟨p, hp, hx⟩
  rw [pthpara_of_data hdata] at hp
  exact sent_not_ready hs hother ⟨p, hp, hx⟩

theorem programStart_ready (tmp : SCoAPNewRequest) (messageId : UInt16)
    (para : ParaId → SPthreadPara) : Ready (programStart tmp messageId para) :=
  ⟨[], empty_holds, fun _ hi => absurd hi List.not_mem_nil⟩

/-- In every run of the program from its start, whatever the senders leave
    unassigned: every entry of the pending list names a requester that is set
    up, in each state of the run, if and only if each message that is taken
    over is the test thread's poll. -/
theorem sweepReady_iff (tmp : SCoAPNewRequest) (messageId : UInt16)
    (para : ParaId → SPthreadPara) (es : List ProgramEvent) :
    Throughout ProgramStep SweepReady (programStart tmp messageId para) es ↔
      Along ProgramStep TakenFromTestPoll (programStart tmp messageId para) es := by
  refine throughout_iff (I := Ready) (fun P hP => hP.sweepReady) sweepReady_step ?_
    (programStart_ready tmp messageId para)
  intro P e hi hno
  cases e with
  | sent r now s =>
      unfold TakenFromTestPoll at hno
      push Not at hno
      rcases hno with ⟨htmp, hs, hbuild, hother⟩
      exact not_sweepReady_of_other now hi htmp hs hbuild hother
  | _ => exact absurd trivial hno

/-- The record of a device named `LTUA`. -/
def deviceA : LTUInfor := LTUInfor.ofName [0x4c, 0x54, 0x55, 0x41]

/-- The poll thread's message for it. -/
def pollOfA : Sent :=
  .poll .zero [deviceA] (strcpyAddr (pollTemplate .zero) (deviceA.name.bytes.drop 3))

theorem pollOfA_possible (made : ParaId → Option Made) : pollOfA.Possible made :=
  ⟨_, rfl, List.mem_singleton_self _⟩

/-- A poll of the poll thread names no requester. -/
theorem not_sweepReady_poll :
    ¬ Throughout ProgramStep SweepReady (programStart .zero 0 (fun _ => ⟨[], 0, 0, false⟩))
      [.sent ⟨true, true⟩ 0 pollOfA] := by
  intro h
  have hother : ∀ junk p, pollOfA ≠ .testPoll junk p := fun _ _ => nofun
  rcases not_sweepReady_of_other 0 (programStart_ready .zero 0 (fun _ => ⟨[], 0, 0, false⟩))
    nofun (pollOfA_possible _) (r := ⟨true, true⟩) ⟨fun _ => rfl, nofun⟩ hother with
    ⟨P', hstep, hbad⟩
  exact hbad (h.2 P' hstep)

end CoapThread
