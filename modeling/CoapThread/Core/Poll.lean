import CoapThread.Core.Handler
import CoapThread.Core.Registry
import CoapThread.Core.Senders
import CoapThread.Library.Fifo

/-!
# The Poll Thread

`YCPthread` beside the CoAP thread: the rounds of the poll thread, and the three
things the CoAP thread does that a round depends on.

A step is a call, or a few statements that belong together, and not a single
access. Two of the steps are coarser than the source, where the CoAP thread
takes no mutex: opening a round stores the flag and the time of the table in
one, and the 300-second check tests both and signals in one. A check that comes
between the two stores, or signals a round that was opened behind its test, is
no run of this machine.

The two share the queue, the device table, `YCRequest` and the condition
variable. A signal reaches the poll thread only while that is blocked in its
wait; otherwise it is lost, which `signal` says. Who owns the mutex is left
open here, so a statement about all runs of this machine holds whatever the
mutex does to them.

The measurement branch is an event of its own and does `respond`, which
`measurementBranch_respond` shows to be what the branch does to the table. What
stands around the branch in the handler is not part of a round.

## Main definitions

* `PollPc`: Where the poll thread stands.
* `PollState`: The poll thread and what it shares.
* `PollEvent`, `PollStep`: The machine.
* `signal`: Signal the condition variable of the round.
* `answer`: An answer in the measurement branch.
* `pollStart`: The state at the start.
-/

namespace CoapThread

open CBytes

/-- The statement the poll thread stands in front of. The send loop is there
    with the index of the next device; past the last one it is the wait. -/
inductive PollPc where
  | load
  | lockOpen
  | openRound
  | unlockOpen
  | prepare
  | send (i : Nat)
  | blocked
  | lockClose
  | closeRound
  | unlockClose
  | postProcess
  deriving DecidableEq

/-- The poll thread and what it shares with the CoAP thread. -/
structure PollState (ρ : Type) where
  pc : PollPc
  tmp : SCoAPNewRequest
  deviceInfo : SDeviceInfo
  ycRequest : Bool
  queue : Fifo SCoAPNewRequest coapRxMQmaxmsg
  /-- A signal has reached the blocked thread. -/
  woken : Bool
  post : PostState ρ
  /-- The queue when the round's first message was filled in, what it has
      accepted since, and what has been taken from it since. -/
  opening : List SCoAPNewRequest
  accepted : List SCoAPNewRequest
  taken : List SCoAPNewRequest

/-- What can happen. -/
inductive PollEvent where
  | load (r : RegistryReply)
  | lock
  | openRound (now : Int)
  | unlock
  | prepare (junk : SCoAPNewRequest)
  | send
  | enterWait
  | leaveWait
  | closeRound
  | postProcess
  /-- The CoAP thread takes a message off the queue. -/
  | receive
  /-- The CoAP thread handles a device's answer. -/
  | answer (host : List UInt8)
  | check300 (now : Int)
  deriving DecidableEq

variable {ρ : Type}

/-- Signal the condition variable of the round. -/
def signal (s : PollState ρ) : PollState ρ :=
  if s.pc = .blocked then { s with woken := true } else s

/-- An answer in the measurement branch: the table after it, and whether the
    round is signalled. -/
def answer (d : SDeviceInfo) (signalled : Bool) (s : PollState ρ) : PollState ρ :=
  let s := { s with deviceInfo := d }
  if signalled then signal s else s

/-- The 300-second check. -/
def pollCheck300 (now : Int) (s : PollState ρ) : PollState ρ :=
  if s.ycRequest then if 300 ≤ now - s.deviceInfo.time then signal s else s else s

/-- Put a message on the queue, without looking whether it was accepted. -/
def mqSend (tmp : SCoAPNewRequest) (i : Nat) (s : PollState ρ) : PollState ρ :=
  { s with
    pc := .send (i + 1)
    tmp := tmp
    queue := (s.queue.put tmp).1
    accepted := s.accepted ++ (s.queue.put tmp).2 }

/-- An event leads from one state to another. -/
inductive PollStep (R : Registry ρ) : PollState ρ → PollEvent → PollState ρ → Prop where
  | load (s : PollState ρ) (r : RegistryReply) (d : SDeviceInfo) : s.pc = .load →
      getRegisteredDeviceInfo r s.deviceInfo = .ok (d, true) →
      PollStep R s (.load r) { s with pc := .lockOpen, deviceInfo := d }
  /-- The table cannot be filled, and the thread tries again. -/
  | loadFailed (s : PollState ρ) (r : RegistryReply) (d : SDeviceInfo) : s.pc = .load →
      getRegisteredDeviceInfo r s.deviceInfo = .ok (d, false) →
      PollStep R s (.load r) { s with deviceInfo := d }
  | lockOpen (s : PollState ρ) : s.pc = .lockOpen →
      PollStep R s .lock { s with pc := .openRound }
  | openRound (s : PollState ρ) (now : Int) : s.pc = .openRound →
      PollStep R s (.openRound now) { s with
        pc := .unlockOpen
        ycRequest := true
        deviceInfo := { s.deviceInfo with time := now } }
  | unlockOpen (s : PollState ρ) : s.pc = .unlockOpen →
      PollStep R s .unlock { s with pc := .prepare }
  | prepare (s : PollState ρ) (junk : SCoAPNewRequest) : s.pc = .prepare →
      PollStep R s (.prepare junk) { s with
        pc := .send 0
        tmp := pollTemplate junk
        opening := s.queue.items
        accepted := []
        taken := [] }
  | send (s : PollState ρ) (i : Nat) (device : LTUInfor) (tmp : SCoAPNewRequest) :
      s.pc = .send i → i < s.deviceInfo.num.toNat → s.deviceInfo.pLTUInfo[i]? = some device →
      pollFill s.tmp device = .ok tmp → PollStep R s .send (mqSend tmp i s)
  | enterWait (s : PollState ρ) (i : Nat) : s.pc = .send i → ¬ (i < s.deviceInfo.num.toNat) →
      PollStep R s .enterWait { s with pc := .blocked, woken := false }
  | leaveWait (s : PollState ρ) : s.pc = .blocked → s.woken = true →
      PollStep R s .leaveWait { s with pc := .lockClose, woken := false }
  | lockClose (s : PollState ρ) : s.pc = .lockClose →
      PollStep R s .lock { s with pc := .closeRound }
  | closeRound (s : PollState ρ) : s.pc = .closeRound →
      PollStep R s .closeRound { s with pc := .unlockClose, ycRequest := false }
  | unlockClose (s : PollState ρ) : s.pc = .unlockClose →
      PollStep R s .unlock { s with pc := .postProcess }
  /-- The loop after the round, and the table given back. -/
  | postProcess (s : PollState ρ) (es : List LTUInfor) (post : PostState ρ) :
      s.pc = .postProcess → postProcess R s.deviceInfo s.post = .ok (es, post) →
      PollStep R s .postProcess { s with
        pc := .load
        post := post
        deviceInfo := { s.deviceInfo with pLTUInfo := [] } }
  | receive (s : PollState ρ) (m : SCoAPNewRequest) (q : Fifo SCoAPNewRequest coapRxMQmaxmsg) :
      s.queue.take = some (m, q) →
      PollStep R s .receive { s with queue := q, taken := s.taken ++ [m] }
  | answer (s : PollState ρ) (host : List UInt8) (d : SDeviceInfo) (signalled : Bool) :
      s.ycRequest = true → respond host s.deviceInfo = .ok (d, signalled) →
      PollStep R s (.answer host) (answer d signalled s)
  | check300 (s : PollState ρ) (now : Int) : PollStep R s (.check300 now) (pollCheck300 now s)

/-- The state at the start, for any queue left over and any registry. -/
def pollStart (tmp : SCoAPNewRequest) (queue : Fifo SCoAPNewRequest coapRxMQmaxmsg) (db : ρ) :
    PollState ρ where
  pc := .load
  tmp := tmp
  deviceInfo := ⟨0, 0, 0, []⟩
  ycRequest := false
  queue := queue
  woken := false
  post := ⟨⟨Buf.zero 256, 0, 0⟩, db, []⟩
  opening := queue.items
  accepted := []
  taken := []

end CoapThread
