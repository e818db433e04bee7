import CoapThread.Library.Bytes

/-!
# Shared Types

The structures the threads of the gateway exchange, from `wgconfig.h` and the
headers it includes.

A pointer to a pending request or to a requester's parameters is an optional
address, `none` being the null pointer. Times are whole seconds. The condition
variable of a requester has no state of its own: what is asked of it is who
signals it and how often, and that is in the outputs of the thread that does.

Two kinds of bad access are told apart. A write past the end of a heap block
leaves the block's own bytes known, so the model goes on with them. A `Fault`
ends the run: the process is stopped by it, or reads something the source says
nothing about.

An enumeration in C holds any value of its integer type, and a local variable
that was never assigned may hold one no enumerator names, so `LTURequest` has
a constructor for those.

## Main definitions

* `LTURequest`: What a request asks for.
* `SPthreadPara`: The parameters a requester waits on.
* `SCoAPNewRequest`: A request, on the queue and in the pending list.
* `LTUInfor`: A device record of the registry.
* `SDeviceInfo`: The table of one poll round.
* `DigitalOut`: A digital-out message.
* `Fault`: An access the source does not define.
-/

namespace CoapThread

open CBytes

/-- The address of a node of the pending list. -/
abbrev NodeId := Nat

/-- The address of a requester's parameters. -/
abbrev ParaId := Nat

/-- The capacity of the receive queue, `CoAPRX_MQmaxmsg`. -/
def coapRxMQmaxmsg : Nat := 16

/-- What a request asks the CoAP thread for. -/
inductive LTURequest where
  | ltuYC
  | ltuYK
  | ltuRxBlock
  | ltuTxBlock
  | ltuNoAck
  /-- A value of the integer type that no enumerator names. -/
  | unnamed (v : UInt32) (h : 5 ≤ v)
  deriving DecidableEq

/-- The parameters a requester waits on. -/
structure SPthreadPara where
  msg : List UInt8
  megleg : UInt32
  timing : Int
  timeout : Bool
  deriving DecidableEq

/-- A request: the message on the queue and the node of the pending list. -/
structure SCoAPNewRequest where
  addr : Buf 15
  respath : Buf 256
  req : LTURequest
  msgtype : UInt8
  time : Int
  pthpara : Option ParaId
  next : Option NodeId
  deriving DecidableEq

/-- A request of zero bytes. -/
def SCoAPNewRequest.zero : SCoAPNewRequest := ⟨Buf.zero 15, Buf.zero 256, .ltuYC, 0, 0, none, none⟩

/-- What a string function reads at the address: the array, and where it holds
    no NUL the resource path behind it. -/
def SCoAPNewRequest.addrBytes (m : SCoAPNewRequest) : List UInt8 := m.addr.bytes ++ m.respath.bytes

/-- A device record of the registry. -/
structure LTUInfor where
  id : Int32
  mbSoftwareVersion : Buf 8
  mbHardwareVersion : Buf 8
  sgSoftwareVersion : Buf 8
  sgHardwareVersion : Buf 8
  name : Buf 33
  addr : Buf 33
  failedcount : Int32
  state : Int32
  desc : Buf 256
  deriving DecidableEq

/-- A record of zero bytes under a name. -/
def LTUInfor.ofName (name : List UInt8) : LTUInfor :=
  ⟨0, Buf.zero 8, Buf.zero 8, Buf.zero 8, Buf.zero 8, Buf.ofList 33 name, Buf.zero 33, 0, 0,
    Buf.zero 256⟩

/-- The device table of a poll round: the count the registry gave, the time
    the round began, the answers so far, and the entries allocated. -/
structure SDeviceInfo where
  num : UInt16
  time : Int
  count : UInt16
  pLTUInfo : List LTUInfor
  deriving DecidableEq

/-- A digital-out message. -/
structure DigitalOut where
  strDa : Buf 256
  bVal : Int32
  source : Int32
  deriving DecidableEq

/-- How an access can go wrong so that what the program does next is no longer
    told by its source. -/
inductive Fault where
  /-- A null pointer is read or written through. -/
  | nullDeref
  /-- A pointer that was never assigned is followed to no object. -/
  | wildPointer
  /-- A string literal is written to. -/
  | readOnly
  /-- Bytes beyond an object are read. -/
  | overread
  /-- Bytes beyond an object are written. -/
  | overrun
  /-- Memory is released a second time. -/
  | doubleFree
  deriving DecidableEq

/-- The message types of a PDU. -/
def coapMessageCon : UInt8 := 0
def coapMessageNon : UInt8 := 1
def coapMessageRst : UInt8 := 3

/-- The option numbers the program uses. -/
def coapOptionUriHost : Nat := 3
def coapOptionUriPath : Nat := 11
def coapOptionBlock2 : Nat := 23
def coapOptionBlock1 : Nat := 27

/-- The method of every request the program builds. -/
def coapRequestGet : UInt8 := 1

/-- A response code as it stands in the header, `COAP_RESPONSE_CODE`. -/
def coapResponseCode (n : Nat) : UInt8 := UInt8.ofNat (n / 100 * 32 + n % 100)

end CoapThread
