import CoapThread.Core.Thread

/-!
# The Loop of the CoAP Thread

The order in which the events of the CoAP thread come.

One turn of the loop in `CoapPthread` waits for a message for twenty
milliseconds and handles it, if one has come. It then reads what has arrived
from the network, which may be nothing and may be several responses, and hands
each to the handler. It reads the clock, sweeps, and checks the poll round
against the same reading.

`Event` leaves the order open. A statement that needs it, such as one about
what a sweep has done before the next message is taken, is about `LoopStep`.

## Main definitions

* `LoopPc`: Where the thread stands in its loop.
* `LoopState`: The thread with its state.
* `LoopStep`: The loop as a labelled machine.
* `loopStart`: The state at the start.
-/

namespace CoapThread

/-- Where the thread stands: in front of the queue, behind it, or between the
    sweep and the check, with the time both go by. -/
inductive LoopPc where
  | receive
  | dispatch
  | check (now : Int)
  deriving DecidableEq

/-- The thread with its state. -/
structure LoopState where
  pc : LoopPc
  gateway : Gateway

/-- A step of the loop, under the event it is, or none where the wait for a
    message has timed out. -/
inductive LoopStep : LoopState → Option Event → LoopState → Prop where
  | timedOut (g : Gateway) : LoopStep ⟨.receive, g⟩ none ⟨.dispatch, g⟩
  | message (g g' : Gateway) (r : LibcoapResult) (now : Int) (m : SCoAPNewRequest) :
      Steps g (.message r now m) g' →
      LoopStep ⟨.receive, g⟩ (some (.message r now m)) ⟨.dispatch, g'⟩
  /-- There may be another response behind it. -/
  | response (g g' : Gateway) (r : LibcoapResult) (l : HandlerLocals) (received : CoapPdu) :
      Steps g (.response r l received) g' →
      LoopStep ⟨.dispatch, g⟩ (some (.response r l received)) ⟨.dispatch, g'⟩
  | sweep (g g' : Gateway) (now : Int) :
      Steps g (.sweep now) g' → LoopStep ⟨.dispatch, g⟩ (some (.sweep now)) ⟨.check now, g'⟩
  | check300 (g g' : Gateway) (now : Int) :
      Steps g (.check300 now) g' →
      LoopStep ⟨.check now, g⟩ (some (.check300 now)) ⟨.receive, g'⟩

/-- The state at the start. -/
def loopStart (tmp : SCoAPNewRequest) (messageId : UInt16) (para : ParaId → SPthreadPara) :
    LoopState := ⟨.receive, initialGateway tmp messageId para⟩

end CoapThread
