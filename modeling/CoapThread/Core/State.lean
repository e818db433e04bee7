import CoapThread.Core.PendingList
import CoapThread.Core.Pdu

/-!
# The CoAP Thread's State

The globals `CoapPthread` and `message_handler` work on, and what leaves the
thread.

`host` and `path` are templates the requests are built from. Both are a length
and a pointer to a byte object, set apart: `path` starts out at a string
literal, which cannot be written, and moves to heap blocks of its own later.
No two pointers of the program share such an object, so the object is kept
with the pointer.

The outputs are the calls that cross the thread's boundary, in order. Signals
carry the value the `timeout` flag of the requester has at that moment, since
that is what the woken requester reads.

## Main definitions

* `Storage`: A byte object and whether it can be written.
* `Str`: A length and a pointer to bytes.
* `Output`: A call out of the thread.
* `Gateway`: The state.
* `sentPdus`, `newPdus`: The PDUs sent so far, and by a step.
* `release`: Answer a requester and drop its entry.
* `pollPath`: The path every poll is meant for.
* `initialGateway`, `bareGateway`: The state at the start.

## Theorems

* `release_holds`: Releasing takes one entry out and keeps the rest.
* `release_delete`, `release_ok`: What releasing has done where it returns.
* `release_erase`, `release_live`: Only an entry of the list can be released,
  and it is freed.
* `release_sends`: Releasing sends nothing.
-/

namespace CoapThread

open CBytes DeltaOption

/-- A byte object behind a pointer. -/
structure Storage where
  writable : Bool
  bytes : List UInt8
  deriving DecidableEq

/-- A length and a pointer to bytes. -/
structure Str where
  length : Nat
  s : Option Storage
  deriving DecidableEq

/-- The bytes behind the pointer. -/
def Str.bytes (x : Str) : List UInt8 := match x.s with
  | none => []
  | some st => st.bytes

/-- The bytes the length covers. -/
def Str.value (x : Str) : List UInt8 := x.bytes.take x.length

/-- A call out of the thread. -/
inductive Output where
  | ack
  | sendConfirmed (pdu : Option CoapPdu)
  | send (pdu : Option CoapPdu)
  | deleteList (options : List Opt)
  | deletePdu (pdu : CoapPdu)
  /-- A requester's condition variable, with its `timeout` flag. -/
  | signal (para : ParaId) (timeout : Bool)
  /-- The condition variable of the poll round. -/
  | signalYC
  | free (el : NodeId)
  | saveDouble (name value : List UInt8)
  deriving DecidableEq

/-- The state of the CoAP thread: its request variable, the globals, and what
    it has put out. -/
structure Gateway where
  tmp : SCoAPNewRequest
  host : Str
  path : Str
  token : UInt64
  messageId : UInt16
  list : RequestHeap
  para : ParaId → SPthreadPara
  deviceInfo : SDeviceInfo
  ycRequest : Bool
  outputs : List Output

/-- Put calls out. -/
def Gateway.emit (g : Gateway) (os : List Output) : Gateway :=
  { g with outputs := g.outputs ++ os }

/-- Set the requester's flag, signal its condition variable, and unlink and
    free the entry. -/
def release (timeout : Bool) (el : NodeId) (p : ParaId) (g : Gateway) : Except Fault Gateway :=
  match deletePthreadRequestFromList g.list el with
  | .error f => .error f
  | .ok list =>
    let para := Function.update g.para p { g.para p with timeout := timeout }
    .ok ({ g with para := para, list := list }.emit [.signal p timeout, .free el])

/-- Releasing takes one entry out of the list and keeps the rest. -/
theorem release_holds (timeout : Bool) (el : NodeId) (p : ParaId) (g : Gateway) (ids : List NodeId)
    (hh : Holds g.list ids) (hmem : el ∈ ids) :
    ∃ list, release timeout el p g = .ok ({ g with
        para := Function.update g.para p { g.para p with timeout := timeout }
        list := list }.emit [.signal p timeout, .free el]) ∧
      Holds list (ids.erase el) ∧ list.fresh = g.list.fresh ∧
      (∀ i, (list.node i).data = (g.list.node i).data) ∧
      ∀ k, g.list.next k ≠ some el → list.next k = g.list.next k := by
  rcases delete_holds g.list ids el hh hmem with ⟨list, hdel, hrest⟩
  refine ⟨list, ?_, hrest⟩
  unfold release
  rw [hdel]

/-- Releasing returns where deleting does. -/
theorem release_delete {timeout : Bool} {el : NodeId} {p : ParaId} {g g' : Gateway}
    (h : release timeout el p g = .ok g') :
    ∃ list, deletePthreadRequestFromList g.list el = .ok list ∧ g' = { g with
      para := Function.update g.para p { g.para p with timeout := timeout }
      list := list }.emit [.signal p timeout, .free el] := by
  unfold release at h
  rcases hdel : deletePthreadRequestFromList g.list el with f | list
  · rw [hdel] at h
    cases h
  · rw [hdel] at h
    exact ⟨list, rfl, (Except.ok.inj h).symm⟩

/-- What releasing has done where it returns. -/
theorem release_ok {timeout : Bool} {el : NodeId} {p : ParaId} {g g' : Gateway}
    (h : release timeout el p g = .ok g') :
    ∃ list, g' = { g with
        para := Function.update g.para p { g.para p with timeout := timeout }
        list := list }.emit [.signal p timeout, .free el] ∧
      list.fresh = g.list.fresh ∧ ∀ i, (list.node i).data = (g.list.node i).data := by
  rcases release_delete h with ⟨list, hdel, hg'⟩
  exact ⟨list, hg', delete_frame hdel⟩

/-- An entry that could be released was in the list, and is not any more. -/
theorem release_erase {timeout : Bool} {el : NodeId} {p : ParaId} {g g' : Gateway}
    {ids : List NodeId} (hh : Holds g.list ids) (h : release timeout el p g = .ok g') :
    el ∈ ids ∧ Holds g'.list (ids.erase el) := by
  rcases release_delete h with ⟨list, hdel, hg'⟩
  subst hg'
  exact delete_erase hh hdel

/-- The entry is freed. -/
theorem release_live {timeout : Bool} {el : NodeId} {p : ParaId} {g g' : Gateway}
    (h : release timeout el p g = .ok g') : g'.list.live el = false := by
  rcases release_delete h with ⟨list, hdel, hg'⟩
  subst hg'
  exact (delete_live hdel).2

/-- What the library answers: whether `coap_new_pdu` had a PDU, and whether
    the send function gave a valid transaction id. -/
structure LibcoapResult where
  allocated : Bool
  accepted : Bool
  deriving DecidableEq

/-- The path of a poll, `LD0/LLN0/dsAin`. -/
def pollPath : List UInt8 :=
  [0x4c, 0x44, 0x30, 0x2f, 0x4c, 0x4c, 0x4e, 0x30, 0x2f, 0x64, 0x73, 0x41, 0x69, 0x6e]

/-- The initial host, `fc0000abbcbd`, a string literal. -/
def initialHost : Str :=
  ⟨12, some ⟨false, [0x66, 0x63, 0x30, 0x30, 0x30, 0x30, 0x61, 0x62, 0x62, 0x63, 0x62, 0x64, 0]⟩⟩

/-- The initial path, a string literal. -/
def initialPath : Str := ⟨14, some ⟨false, pollPath ++ [0]⟩⟩

/-- The state before the first event, for any content of the request variable
    and any requesters. -/
def initialGateway (tmp : SCoAPNewRequest) (messageId : UInt16) (para : ParaId → SPthreadPara) :
    Gateway where
  tmp := tmp
  host := initialHost
  path := initialPath
  token := 0
  messageId := messageId
  list := RequestHeap.empty
  para := para
  deviceInfo := ⟨0, 0, 0, []⟩
  ycRequest := false
  outputs := []

/-- The state before the first event, where no requester has set anything. -/
def bareGateway (tmp : SCoAPNewRequest) : Gateway :=
  initialGateway tmp 0 (fun _ => ⟨[], 0, 0, false⟩)

/-- The PDUs handed to a send function. -/
def sentPdus (os : List Output) : List CoapPdu := os.filterMap (fun o => match o with
  | .sendConfirmed pdu => pdu
  | .send pdu => pdu
  | _ => none)

@[simp] theorem sentPdus_append (os os' : List Output) :
    sentPdus (os ++ os') = sentPdus os ++ sentPdus os' := List.filterMap_append

/-- The PDUs a step sends. -/
def newPdus (g g' : Gateway) : List CoapPdu :=
  (sentPdus g'.outputs).drop (sentPdus g.outputs).length

theorem newPdus_of_append {g g' : Gateway} {pdus : List CoapPdu}
    (h : sentPdus g'.outputs = sentPdus g.outputs ++ pdus) : newPdus g g' = pdus := by
  unfold newPdus
  rw [h, List.drop_left]

theorem newPdus_of_sent {g g' : Gateway} (h : sentPdus g'.outputs = sentPdus g.outputs) :
    newPdus g g' = [] := newPdus_of_append (h.trans (List.append_nil _).symm)

/-- A release puts out a signal and a free, and no PDU. -/
theorem release_sends {timeout : Bool} {el : NodeId} {p : ParaId} {g g' : Gateway}
    (h : release timeout el p g = .ok g') :
    g'.token = g.token ∧ sentPdus g'.outputs = sentPdus g.outputs := by
  rcases release_ok h with ⟨list, hg', -⟩
  rw [hg']
  exact ⟨rfl, (sentPdus_append _ _).trans (List.append_nil _)⟩

end CoapThread
