import CoapThread.Core.Poll
import CoapThread.Library.Machine
import Mathlib.Data.List.Forall2

/-!
# The Queue Between the Threads

Whether every device of the table is polled once a round.

The queue itself loses nothing and keeps the order: `Fifo.Conserves` holds in
every state, so what the CoAP thread takes is what was in the queue and what
it accepted. What can be lost is lost at the door. The poll thread sends
without looking at the result, so a message that meets a full queue is gone,
and the round goes on with the next device.

The invariant is on the send loop: in front of device `i` the messages accepted
in this round are those of the first `i` devices.

## Main definitions

* `Polls`: A message polls the device of a name.
* `Polled`: Every device handled so far has its one message.
* `RoomToSend`: A send meets a queue with room.
* `InLoop`: The invariant.

## Theorems

* `inLoop_step`: Every step but a send to a full queue keeps the invariant.
* `polled_iff`: No message is lost exactly where no send meets a full queue.
* `not_polled_seventeen`: Seventeen devices sent to in a row.
-/

namespace CoapThread

open CBytes Machine

variable {ρ : Type}

/-- A message polls the device of a name: it asks for a poll, and its address
    is the name behind the three letters. -/
def Polls (m : SCoAPNewRequest) (name : Buf 33) : Prop :=
  m.req = .ltuYC ∧ cstr m.addrBytes = cstr (name.bytes.drop 3)

/-- In front of device `i` the messages accepted in this round poll the first
    `i` devices, one each and in table order; and once the queue has drained,
    what has been taken from it is what was in it and these messages. -/
structure Polled (s : PollState ρ) : Prop where
  accepted : ∀ i, s.pc = .send i →
    List.Forall₂ Polls s.accepted ((s.deviceInfo.pLTUInfo.map LTUInfor.name).take i)
  drained : s.queue.items = [] → s.taken = s.opening ++ s.accepted

/-- A message that is sent meets a queue with room for it. -/
def RoomToSend (s : PollState ρ) : PollEvent → Prop
  | .send => ∀ i device tmp, s.pc = .send i → i < s.deviceInfo.num.toNat →
      s.deviceInfo.pLTUInfo[i]? = some device → pollFill s.tmp device = .ok tmp →
      s.queue.items.length < coapRxMQmaxmsg
  | _ => True

/-- The invariant of the send loop, and of the queue in every state. -/
structure InLoop (s : PollState ρ) : Prop where
  fifo : s.queue.Conserves s.opening s.accepted s.taken
  loop : ∀ i, s.pc = .send i → s.tmp.req = .ltuYC ∧
    List.Forall₂ Polls s.accepted ((s.deviceInfo.pLTUInfo.map LTUInfor.name).take i)

theorem InLoop.polled {s : PollState ρ} (h : InLoop s) : Polled s where
  accepted i hpc := (h.loop i hpc).2
  drained hempty := h.fifo.drained hempty

theorem take_name {es : List LTUInfor} {i : Nat} {e : LTUInfor} (h : es[i]? = some e) :
    (es.map LTUInfor.name).take (i + 1) = (es.map LTUInfor.name).take i ++ [e.name] := by
  rw [List.take_add_one, List.getElem?_map, h]
  rfl

theorem respond_map_name {host : List UInt8} {d d' : SDeviceInfo} {signalled : Bool}
    (h : respond host d = .ok (d', signalled)) :
    d'.pLTUInfo.map LTUInfor.name = d.pLTUInfo.map LTUInfor.name := by
  have hfst := congrArg (List.map Prod.fst) (respond_names h)
  simp only [List.map_map] at hfst
  exact hfst

/-- A state that differs from one in the loop in nothing the invariant reads. -/
theorem InLoop.congr {s s' : PollState ρ} (h : InLoop s) (hqueue : s'.queue = s.queue)
    (hopening : s'.opening = s.opening) (haccepted : s'.accepted = s.accepted)
    (htaken : s'.taken = s.taken)
    (hloop : ∀ i, s'.pc = .send i → s.pc = .send i ∧ s'.tmp = s.tmp ∧
      s'.deviceInfo.pLTUInfo.map LTUInfor.name = s.deviceInfo.pLTUInfo.map LTUInfor.name) :
    InLoop s' := by
  constructor
  · rw [hqueue, hopening, haccepted, htaken]
    exact h.fifo
  · intro i hpc
    rcases hloop i hpc with ⟨hpc', htmp, hnames⟩
    rw [htmp, haccepted, hnames]
    exact h.loop i hpc'

theorem InLoop.signal {s : PollState ρ} (h : InLoop s) : InLoop (signal s) := by
  unfold CoapThread.signal
  split_ifs
  · exact h.congr rfl rfl rfl rfl (fun i hpc => ⟨hpc, rfl, rfl⟩)
  · exact h

/-- In front of the first device nothing of the round is in the queue yet. -/
theorem inLoop_prepare (s : PollState ρ) (junk : SCoAPNewRequest) :
    InLoop { s with
      pc := .send 0
      tmp := pollTemplate junk
      opening := s.queue.items
      accepted := []
      taken := [] } := by
  refine ⟨Fifo.conserves_refl s.queue, fun i hpc => ?_⟩
  cases hpc
  exact ⟨rfl, List.Forall₂.nil⟩

/-- Every step but a send to a full queue keeps the invariant. -/
theorem inLoop_step (R : Registry ρ) (s : PollState ρ) (e : PollEvent) (s' : PollState ρ)
    (hi : InLoop s) (hc : RoomToSend s e) (h : PollStep R s e s') : InLoop s' := by
  cases h with
  | load | lockOpen | openRound | unlockOpen | enterWait | leaveWait | lockClose | closeRound
  | unlockClose | postProcess =>
      exact hi.congr rfl rfl rfl rfl (fun i hpc => nomatch hpc)
  | loadFailed r d hpc =>
      exact hi.congr rfl rfl rfl rfl (fun i hpc' => nomatch hpc.symm.trans hpc')
  | prepare junk hpc => exact inLoop_prepare s junk
  -- With room the message is accepted, and it carries the name of its device.
  | send i device tmp hpc hlt hdevice hfill =>
      rcases Fifo.put_of_room s.queue tmp (hc i device tmp hpc hlt hdevice hfill) with ⟨-, hput⟩
      rcases hi.loop i hpc with ⟨hreq, hall⟩
      refine ⟨Fifo.conserves_put tmp hi.fifo, fun j hpc' => ?_⟩
      cases hpc'
      refine ⟨(pollFill_req hfill).1.trans hreq, ?_⟩
      unfold mqSend
      rw [hput, take_name hdevice]
      refine List.rel_append hall (List.Forall₂.cons ⟨(pollFill_req hfill).1.trans hreq, ?_⟩
        List.Forall₂.nil)
      exact pollFill_name hfill
  | receive m q htake => exact ⟨Fifo.conserves_take hi.fifo htake, hi.loop⟩
  | answer host d signalled hopen hrun =>
      have hsame : InLoop { s with deviceInfo := d } :=
        hi.congr rfl rfl rfl rfl (fun i hpc => ⟨hpc, rfl, respond_map_name hrun⟩)
      unfold answer
      simp only []
      split_ifs
      · exact hsame.signal
      · exact hsame
  | check300 now =>
      unfold pollCheck300
      split_ifs
      · exact hi.signal
      · exact hi
      · exact hi

/-- A message sent to a full queue is missing from then on. -/
theorem not_polled_of_full {s : PollState ρ} {i : Nat} {device : LTUInfor} {tmp : SCoAPNewRequest}
    (hi : InLoop s) (hpc : s.pc = .send i) (hdevice : s.deviceInfo.pLTUInfo[i]? = some device)
    (hfull : ¬ (s.queue.items.length < coapRxMQmaxmsg)) : ¬ Polled (mqSend tmp i s) := by
  intro h
  -- Nothing was accepted, so there is one message fewer than devices handled.
  have hlater := (h.accepted (i + 1) rfl).length_eq
  have hbefore := (hi.loop i hpc).2.length_eq
  unfold mqSend at hlater
  simp only [Fifo.put_of_full s.queue tmp hfull, List.append_nil] at hlater
  rw [take_name hdevice, List.length_append, List.length_singleton] at hlater
  omega

/-- Where more messages are sent in a row than the queue has room for, one of
    them is lost. -/
theorem not_polled_of_burst (R : Registry ρ) {s : PollState ρ} {i n : Nat} (hi : InLoop s)
    (hpc : s.pc = .send i) (hnum : i + n ≤ s.deviceInfo.num.toNat)
    (htable : s.deviceInfo.num.toNat ≤ s.deviceInfo.pLTUInfo.length)
    (hname : ∀ device ∈ s.deviceInfo.pLTUInfo, Terminated (device.name.bytes.drop 3))
    (hover : coapRxMQmaxmsg < s.queue.items.length + n) :
    ¬ Throughout (PollStep R) Polled s (List.replicate n .send) := by
  intro h
  induction n generalizing s i with
  | zero =>
      have hbound := s.queue.bound
      omega
  | succ n ih =>
      have hlt : i < s.deviceInfo.pLTUInfo.length := by omega
      have hdevice := List.getElem?_eq_getElem hlt
      rcases pollFill_ok s.tmp (hname _ (List.getElem_mem hlt)) with ⟨tmp, hfill⟩
      have hstep := PollStep.send (R := R) s i _ tmp hpc (by omega) hdevice hfill
      by_cases hroom : s.queue.items.length < coapRxMQmaxmsg
      · -- Room for this one: the queue is longer by one, and one send fewer is to come.
        have hlonger : (mqSend tmp i s).queue.items.length = s.queue.items.length + 1 := by
          unfold mqSend
          simp only [(Fifo.put_of_room s.queue tmp hroom).1, List.length_append,
            List.length_singleton]
        have hnext : InLoop (mqSend tmp i s) :=
          inLoop_step R s .send _ hi (fun _ _ _ _ _ _ _ => hroom) hstep
        refine ih (s := mqSend tmp i s) (i := i + 1) hnext rfl ?_ htable hname ?_
          (h.2 _ hstep)
        · show i + 1 + n ≤ s.deviceInfo.num.toNat
          omega
        · rw [hlonger]
          omega
      · exact not_polled_of_full hi hpc hdevice hroom (h.2 _ hstep).first

/-- In every run of the two threads, whatever the queue holds at the start:
    in each state every device handled so far has its one message, in table
    order, if and only if no send meets a full queue. -/
theorem polled_iff (R : Registry ρ) (tmp : SCoAPNewRequest)
    (queue : Fifo SCoAPNewRequest coapRxMQmaxmsg) (db : ρ) (es : List PollEvent) :
    Throughout (PollStep R) Polled (pollStart tmp queue db) es ↔
      Along (PollStep R) RoomToSend (pollStart tmp queue db) es := by
  refine throughout_iff (I := InLoop) (fun s hs => hs.polled) (inLoop_step R) ?_
    ⟨Fifo.conserves_refl queue, fun i hpc => nomatch hpc⟩
  intro s e hi hno
  cases e with
  | send =>
      unfold RoomToSend at hno
      push Not at hno
      rcases hno with ⟨i, device, tmp, hpc, hlt, hdevice, hfill, hfull⟩
      exact ⟨_, PollStep.send s i device tmp hpc hlt hdevice hfill,
        not_polled_of_full hi hpc hdevice (Nat.not_lt.mpr hfull)⟩
  | _ => exact absurd trivial hno

/-- Seventeen devices sent to in a row, from an empty queue. -/
theorem not_polled_seventeen :
    ¬ Throughout (PollStep mapRegistry) Polled (pollStart .zero Fifo.empty (fun _ => none))
      ([.load (lettersReply 17), .lock, .openRound 0, .unlock, .prepare .zero] ++
        List.replicate 17 .send) := by
  intro h
  have hrest := throughout_rest h
    (Path.cons _ _ _ _ _ (.load _ (lettersReply 17) _ rfl rfl)
    (Path.cons _ _ _ _ _ (.lockOpen _ rfl) (Path.cons _ _ _ _ _ (.openRound _ 0 rfl)
    (Path.cons _ _ _ _ _ (.unlockOpen _ rfl) (Path.cons _ _ _ _ _ (.prepare _ .zero rfl)
    (Path.nil _))))))
  refine not_polled_of_burst mapRegistry (inLoop_prepare _ .zero) rfl ?_ ?_ ?_ ?_ hrest
  · decide
  · decide
  · decide
  · decide

end CoapThread
