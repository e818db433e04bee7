import CoapThread.Core.Handler
import CoapThread.Library.Hex
import Mathlib.Logic.Function.Basic

/-!
# The Helper Functions

Three short functions of `CoAPpthread.c` statement by statement: the loop that
writes the token, the deadline of the receive call, and the loop that writes a
device name in hexadecimal.

What the first and the last of them compute stands in `creatTheToken` and
`hexArrayToString` already, as a value. Here they are the loops they are, over
the buffer or the memory they write to, so that where a store falls is part of
the result and the values there can be compared with it.

A loop that the source does not bound is given a number of turns it may take,
and says so if these were not enough.

## Main definitions

* `TokenState`: The static variables of the token.
* `tokenLoop`, `creatTheTokenWithin`: Writing the next token.
* `tokenAfter`: The state after a number of calls.
* `RequestCall`, `newRequests`: Building one request after the other.
* `Timespec`, `delayUsAtTimesSpec`: A point in time so many microseconds ahead.
* `Cursor`, `hexLoop`, `hexArrayToStringAt`: Writing hexadecimal digits to
  memory.
-/

namespace CoapThread

open CBytes DeltaOption

/-- The counter, `_token_data`, and the length `the_token` gives it. -/
structure TokenState where
  token : UInt64
  tokenData : Buf 8
  length : UInt8
  deriving DecidableEq

/-- At start-up. -/
def TokenState.init : TokenState := ⟨0, Buf.zero 8, 0⟩

/-- The loop over the bytes of the counter, in at most `n` turns. Nothing if
    it is not at its end after these. -/
def tokenLoop : Nat → Buf 8 → UInt8 → UInt64 → Except Fault (Option (Buf 8 × UInt8))
  | 0, data, i, me => if me = 0 then .ok (some (data, i)) else .ok none
  | n + 1, data, i, me =>
    if me = 0 then .ok (some (data, i))
    else if i.toNat < 8 then
      tokenLoop n (data.write i.toNat [UInt8.ofNat (me.toNat % 256)]) (i + 1) (me >>> 8)
    else .error .overrun

/-- `creatTheToken`, its loop in at most `n` turns. -/
def creatTheTokenWithin (n : Nat) (s : TokenState) : Except Fault (Option TokenState) :=
  let token := s.token + 1
  match tokenLoop n (Buf.zero 8) 0 token with
  | .error f => .error f
  | .ok none => .ok none
  | .ok (some (data, i)) => .ok (some ⟨token, data, i⟩)

/-- The state after so many calls, in each of which the loop has `n` turns. -/
def tokenAfter (n : Nat) : Nat → Except Fault (Option TokenState)
  | 0 => .ok (some .init)
  | calls + 1 => match tokenAfter n calls with
    | .ok (some s) => creatTheTokenWithin n s
    | failed => failed

/-- What `coap_new_request` is called with, and whether there is a PDU. -/
structure RequestCall where
  allocated : Bool
  msgtype : UInt8
  method : UInt8
  data : List UInt8
  options : List Opt

/-- The PDUs of one call after the other, in order. -/
def newRequests : UInt64 → UInt16 → List RequestCall → List CoapPdu
  | _, _, [] => []
  | token, messageId, c :: cs =>
    match coapNewRequest c.allocated token messageId c.msgtype c.method c.data c.options with
    | (token, messageId, pdu) => pdu.toList ++ newRequests token messageId cs

/-- A point in time, `struct timespec` with 64-bit fields. -/
structure Timespec where
  tvSec : Int64
  tvNsec : Int64
  deriving DecidableEq

/-- The time `us` microseconds from now. The product is a 32-bit one, and what
    is carried is counted in units of 999999999. -/
def delayUsAtTimesSpec (us : UInt32) (now : Timespec) : Timespec :=
  let ns := Int64.ofNat (us * 1000).toNat
  let tmpns := now.tvNsec + ns
  if 999999999 < tmpns then ⟨now.tvSec + tmpns / 999999999, tmpns % 999999999⟩
  else ⟨now.tvSec, tmpns⟩

/-- Memory, the address the next character goes to, and the addresses stored
    to so far. -/
structure Cursor where
  mem : Nat → UInt8
  string : Nat
  stored : List Nat

/-- `*(string++) = v`. -/
def Cursor.put (c : Cursor) (v : UInt8) : Cursor :=
  ⟨Function.update c.mem c.string v, c.string + 1, c.stored ++ [c.string]⟩

/-- One turn: both digits of a byte, which is read anew for the second. -/
def Cursor.putDigits (c : Cursor) (byte : Nat) : Cursor :=
  let c := c.put (numCharTable.getD ((c.mem byte >>> 4) &&& 0x0f).toNat 0)
  c.put (numCharTable.getD (c.mem byte &&& 0x0f).toNat 0)

/-- The loop over the `n` bytes from an address on. -/
def hexLoop : Nat → Nat → Cursor → Cursor
  | 0, _, c => c
  | n + 1, byte, c => hexLoop n (byte + 1) (c.putDigits byte)

/-- `HexArrayToString` of the `length` bytes at `hexarray`, with the digits and
    their NUL written from `string` on. -/
def hexArrayToStringAt (mem : Nat → UInt8) (hexarray length string : Nat) : Cursor :=
  (hexLoop length hexarray ⟨mem, string, []⟩).put 0

end CoapThread
