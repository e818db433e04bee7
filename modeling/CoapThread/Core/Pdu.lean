import CoapThread.Core.OptionFilter
import CoapThread.Library.DeltaOption
import Mathlib.Data.Nat.Digits.Lemmas

/-!
# Messages

The PDU of a CoAP message, how the program builds a request, and how it reads
a response.

The options and the payload of a PDU are kept as the bytes on the wire, for
received and built messages alike. The program reads option values through
pointers with lengths of its own, and writes through one of them, so what
stands behind a value in the message matters; a list of decoded options would
hide it.

The library finds an option through a filter, which tells numbers apart by
their low bytes only, and at a number the filter has no bit for it gives up.
So what `coapCheckOption` and `getBlock` find need not be an option of the
number asked for. `CoapPdu.option` and `CoapPdu.blockOption` are what the
message carries, by the whole number. Where there is such an option, it is
also what the library finds: options come in ascending order, and up to these
numbers the low byte is the number.

A request is built in three steps: the option nodes are inserted into a list
by `orderOpts`, the list is handed to `coapNewRequest`, and that appends each
option to a fresh PDU. The comparator is no three-way order: it is negative
for a smaller key, positive for an equal one and zero for a greater one, and
insertion looks at nothing but the sign.

`creatTheToken` terminates because the counter it divides shrinks; the token
is the counter's bytes, least significant first.

## Main definitions

* `CoapPdu`: A message.
* `CoapPdu.options`: The options of a message.
* `CoapPdu.option`: The first option of a number.
* `CoapPdu.blockOption`: The first of the two block options.
* `coapOptionNext`: The option a filter leads to.
* `coapCheckOption`, `getBlock`: What the library takes for them.
* `IsBlockKey`: A number taken for that of a block option.
* `coapGetData`: The payload.
* `coapOptBlockNum`, `coapOptBlockMore`, `coapOptBlockSzx`: The fields of a
  block option.
* `coapEncodeVarBytes`: A number in as few bytes as it needs.
* `orderOpts`, `newOptionNode`, `coapInsert`: Building the option list.
* `creatTheToken`: The next token.
* `coapAddOption`: Appending an option to a PDU.
* `requestPdu`, `coapNewRequest`: A request PDU.
* `payloadBytes`: A payload with its marker.
* `contentPdu`: A response that carries content.

## Theorems

* `tokenDigits_toNat`: The digits of a token.
* `tokenDigits_length_le_iff`: How many there are.
* `addOptions_encode`: Options that fit are all appended.
* `requestPdu_type`, `requestPdu_token`: A request has the type asked for and the
  next token.
* `requestPdu_encode`, `requestPdu_wire`: A request carries the options it was
  given.
* `getBlock_key`: What `get_block` finds.
* `coapCheckOption_of_option`, `getBlock_of_blockOption`: An option of the number
  asked for is found.
* `find_wire`, `option_wire`: Reading an option back from a PDU.
* `requestPdu_option`: The same of a request.
-/

namespace CoapThread

open CBytes DeltaOption

/-- The size of a PDU, `COAP_MAX_PDU_SIZE`. -/
def coapMaxPduSize : Nat := 1400

/-- A CoAP message: the header, the token, and the bytes of the options and
    the payload. -/
structure CoapPdu where
  type : UInt8
  code : UInt8
  id : UInt16
  tokenLength : Nat
  token : List UInt8
  maxDelta : Nat
  wire : List UInt8
  deriving DecidableEq

/-- The length of a PDU: header, token, options and payload. -/
def CoapPdu.length (pdu : CoapPdu) : Nat := 4 + pdu.token.length + pdu.wire.length

/-- The options of a message. -/
def CoapPdu.options (pdu : CoapPdu) : List View := views (pdu.wire.length + 1) 0 pdu.wire

/-- The first option of the given number. -/
def CoapPdu.option (pdu : CoapPdu) (type : Nat) : Option View :=
  find (fun k => k = type) (pdu.wire.length + 1) 0 pdu.wire

/-- The first of the two block options. -/
def CoapPdu.blockOption (pdu : CoapPdu) : Option View :=
  find (fun k => k = coapOptionBlock1 || k = coapOptionBlock2) (pdu.wire.length + 1) 0 pdu.wire

/-- The first option whose bit in the filter is not zero, with its number in the
    sixteen bits the iterator keeps. At one the filter has no bit for the
    iterator ends. -/
def coapOptionNext (filter : CoapOptFilter) (pdu : CoapPdu) : Option View :=
  match find (fun k => coapOptionGetb filter (UInt16.ofNat k) != 0) (pdu.wire.length + 1) 0
    pdu.wire with
  | none => none
  | some v =>
    if coapOptionGetb filter (UInt16.ofNat v.key) < 0 then none
    else some { v with key := v.key % 2 ^ 16 }

/-- The option `coap_check_option` returns for a number. -/
def coapCheckOption (pdu : CoapPdu) (type : Nat) : Option View :=
  coapOptionNext (typeFilter type) pdu

/-- The option `get_block` returns. -/
def getBlock (pdu : CoapPdu) : Option View := coapOptionNext (blockFilter (Buf.zero _)) pdu

/-- What the iterator returns has its bit in the filter, and a number of sixteen
    bits. -/
theorem coapOptionNext_key {filter : CoapOptFilter} {pdu : CoapPdu} {v : View}
    (h : coapOptionNext filter pdu = some v) :
    0 < coapOptionGetb filter (UInt16.ofNat v.key) ∧ v.key < 2 ^ 16 := by
  unfold coapOptionNext at h
  split at h
  · cases h
  · next w hw =>
      have htest := find_test _ _ _ _ w hw
      split_ifs at h with hneg
      have hkey : w.key % 2 ^ 16 = v.key := congrArg View.key (Option.some.inj h)
      -- Cut to sixteen bits, the number reads as the same.
      have hsame : UInt16.ofNat v.key = UInt16.ofNat w.key := by
        apply UInt16.toNat_inj.mp
        rw [← hkey, UInt16.toNat_ofNat', UInt16.toNat_ofNat', Nat.mod_mod]
      rw [bne_iff_ne] at htest
      rw [hsame]
      omega

/-- A number `get_block` takes for that of a block option: the low byte is. -/
def IsBlockKey (k : Nat) : Prop :=
  (k % 256 = coapOptionBlock1 ∨ k % 256 = coapOptionBlock2) ∧ k < 2 ^ 16

instance (k : Nat) : Decidable (IsBlockKey k) := inferInstanceAs (Decidable (_ ∧ _))

theorem isBlockKey_of_block {k : Nat} (h : k = coapOptionBlock1 ∨ k = coapOptionBlock2) :
    IsBlockKey k := by
  rcases h with h | h <;> rw [h] <;> decide

theorem IsBlockKey.le {k : Nat} (h : IsBlockKey k) : coapOptionBlock2 ≤ k := by
  have hmod := Nat.mod_le k 256
  rcases h.1 with h | h <;> rw [h] at hmod
  · exact Nat.le_trans (by decide) hmod
  · exact hmod

theorem getBlock_key {pdu : CoapPdu} {v : View} (h : getBlock pdu = some v) :
    IsBlockKey v.key := by
  rcases coapOptionNext_key h with ⟨hbit, hlt⟩
  rw [blockFilter_getb] at hbit
  refine ⟨?_, hlt⟩
  by_contra hc
  rw [if_neg hc] at hbit
  split_ifs at hbit <;> omega

/-- An option found by its number, where up to that number the filter has the
    bits of the same numbers, is what the iterator returns. -/
theorem coapOptionNext_of_find {filter : CoapOptFilter} {test : Nat → Bool} {pdu : CoapPdu}
    {v : View} (h : find test (pdu.wire.length + 1) 0 pdu.wire = some v) (hsmall : v.key < 64)
    (hbits : ∀ k < 64, coapOptionGetb filter (UInt16.ofNat k) = if test k then 1 else 0) :
    coapOptionNext filter pdu = some v := by
  have htest := find_test _ _ _ _ v h
  have hfind : find (fun k => coapOptionGetb filter (UInt16.ofNat k) != 0) (pdu.wire.length + 1) 0
      pdu.wire = some v := by
    refine find_congr h (fun k hk => ?_)
    rw [hbits k (Nat.lt_of_le_of_lt hk hsmall)]
    cases test k <;> rfl
  have hkey : v.key % 2 ^ 16 = v.key := Nat.mod_eq_of_lt (by omega)
  unfold coapOptionNext
  rw [hfind]
  simp only [hbits v.key hsmall, htest, if_true, hkey]
  rfl

/-- An option of the number asked for is what `coap_check_option` returns. -/
theorem coapCheckOption_of_option {pdu : CoapPdu} {type : Nat} {v : View}
    (h : pdu.option type = some v) (htype : type < 64) : coapCheckOption pdu type = some v := by
  have hkey := of_decide_eq_true (find_test _ _ _ _ v h)
  refine coapOptionNext_of_find h (hkey ▸ htype) (fun k hk => ?_)
  rw [typeFilter_getb htype, Nat.mod_eq_of_lt (Nat.lt_trans hk (by omega)),
    if_neg (Nat.not_le_of_lt hk)]
  simp only [decide_eq_true_eq]

theorem blockOption_key {pdu : CoapPdu} {v : View} (h : pdu.blockOption = some v) :
    v.key = coapOptionBlock1 ∨ v.key = coapOptionBlock2 := by
  have htest := find_test _ _ _ _ v h
  rw [Bool.or_eq_true, decide_eq_true_eq, decide_eq_true_eq] at htest
  exact htest

/-- A block option is what `get_block` returns. -/
theorem getBlock_of_blockOption {pdu : CoapPdu} {v : View} (h : pdu.blockOption = some v) :
    getBlock pdu = some v := by
  have hkey : v.key < 64 := by
    rcases blockOption_key h with hkey | hkey <;> rw [hkey] <;> decide
  refine coapOptionNext_of_find h hkey (fun k hk => ?_)
  rw [blockFilter_getb, Nat.mod_eq_of_lt (Nat.lt_trans hk (by omega)),
    if_neg (Nat.not_le_of_lt hk)]
  simp only [Bool.or_eq_true, decide_eq_true_eq]

/-- The payload, if the message carries one. -/
def coapGetData (pdu : CoapPdu) : Option (List UInt8) :=
  payload (pdu.wire.length + 1) pdu.wire

/-- A big-endian number of any length. -/
def coapDecodeVarBytes (buf : List UInt8) : UInt32 :=
  buf.foldl (fun n b => n <<< 8 ||| b.toUInt32) 0

/-- The bytes of a number below `256 ^ n`, most significant first, without
    leading zeros. -/
def varBytes : Nat → Nat → List UInt8
  | 0, _ => []
  | n + 1, v => if v = 0 then [] else varBytes n (v / 256) ++ [UInt8.ofNat (v % 256)]

theorem varBytes_length (n v : Nat) : (varBytes n v).length ≤ n := by
  induction n generalizing v with
  | zero => exact Nat.le_refl 0
  | succ n ih =>
      -- A digit is put behind the digits of the quotient.
      unfold varBytes
      by_cases hv : v = 0
      · rw [if_pos hv]
        exact Nat.zero_le _
      · rw [if_neg hv, List.length_append, List.length_singleton]
        exact Nat.succ_le_succ (ih (v / 256))

/-- The shortest big-endian form of a 32-bit number. -/
def coapEncodeVarBytes (val : UInt32) : List UInt8 := varBytes 4 val.toNat

/-- The last byte of a block option, zero standing for an empty one. -/
def coapOptBlockLast (value : List UInt8) : UInt8 := value.getLast?.getD 0

/-- The more bit of a block option. -/
def coapOptBlockMore (value : List UInt8) : Bool := coapOptBlockLast value &&& 0x08 != 0

/-- The size exponent of a block option. -/
def coapOptBlockSzx (value : List UInt8) : UInt32 := (coapOptBlockLast value &&& 0x07).toUInt32

/-- The block number of a block option. -/
def coapOptBlockNum (value : List UInt8) : UInt32 :=
  coapDecodeVarBytes value.dropLast <<< 4 ||| (coapOptBlockLast value >>> 4).toUInt32

/-- The comparator of the option list. -/
def orderOpts (a b : Opt) : Int :=
  if a.key < b.key then -1
  else if a.key = b.key then 1 else 0

/-- An option node: a copy of the first `length` bytes. -/
def newOptionNode (key length : Nat) (data : List UInt8) : Opt := ⟨key, data.take length⟩

/-- Insert a node before the first element the comparator is negative for. -/
def coapInsert (order : Opt → Opt → Int) : List Opt → Opt → List Opt
  | [], node => [node]
  | q :: queue, node => if order node q < 0 then node :: q :: queue
    else q :: coapInsert order queue node

theorem shiftRight_eight_toNat (me : UInt64) : (me >>> 8).toNat = me.toNat / 256 := by
  rw [UInt64.toNat_shiftRight]
  exact Nat.shiftRight_eq_div_pow _ _

theorem shiftRight_eight_lt (me : UInt64) (h : me ≠ 0) : (me >>> 8).toNat < me.toNat := by
  have hpos : 0 < me.toNat := by
    rcases Nat.eq_zero_or_pos me.toNat with hz | hpos
    · exact absurd (UInt64.toNat_inj.mp hz) h
    · exact hpos
  have hshift := shiftRight_eight_toNat me
  omega

/-- The loop of `creatTheToken`: the bytes of the counter, least significant
    first. -/
def tokenDigits (me : UInt64) : List UInt8 :=
  if me = 0 then [] else UInt8.ofNat (me.toNat % 256) :: tokenDigits (me >>> 8)
  termination_by me.toNat
  decreasing_by exact shiftRight_eight_lt me ‹_›

/-- The next token: the counter after it and the token's bytes. -/
def creatTheToken (token : UInt64) : UInt64 × List UInt8 := (token + 1, tokenDigits (token + 1))

/-- Append an option. A number below the last one is refused, and so is an
    option that does not fit. -/
def coapAddOption (pdu : CoapPdu) (o : Opt) : CoapPdu :=
  if o.key < pdu.maxDelta then pdu
  else
    let encoded := header (o.key - pdu.maxDelta) o.value.length ++ o.value
    if pdu.length + encoded.length ≤ coapMaxPduSize then
      { pdu with maxDelta := o.key, wire := pdu.wire ++ encoded }
    else pdu

/-- Put a token on a PDU without options. One longer than eight bytes is
    refused. -/
def coapAddToken (pdu : CoapPdu) (data : List UInt8) : CoapPdu :=
  if 8 < data.length then pdu else { pdu with tokenLength := data.length, token := data }

/-- Append a payload. One that does not fit is refused. -/
def coapAddData (pdu : CoapPdu) (data : List UInt8) : CoapPdu :=
  if pdu.length + data.length + 1 ≤ coapMaxPduSize then
    { pdu with wire := pdu.wire ++ 255 :: data }
  else pdu

/-- The PDU of a request with the next token and message id. -/
def requestPdu (token : UInt64) (messageId : UInt16) (msgtype method : UInt8)
    (data : List UInt8) (options : List Opt) : CoapPdu :=
  let digits := (creatTheToken token).2
  let pdu : CoapPdu := ⟨msgtype, method, messageId + 1, digits.length % 16, [], 0, []⟩
  let pdu := options.foldl coapAddOption (coapAddToken pdu digits)
  if data.length ≠ 0 then coapAddData pdu data else pdu

/-- Build a request. `allocated` says whether `coap_new_pdu` had a PDU to
    give; the counter and the message id advance only then. -/
def coapNewRequest (allocated : Bool) (token : UInt64) (messageId : UInt16) (msgtype method : UInt8)
    (data : List UInt8) (options : List Opt) : UInt64 × UInt16 × Option CoapPdu :=
  if allocated then
    ((creatTheToken token).1, messageId + 1,
      some (requestPdu token messageId msgtype method data options))
  else (token, messageId, none)

theorem tokenDigits_zero : tokenDigits 0 = [] := by
  rw [tokenDigits, if_pos rfl]

/-- The digits of a token are those of the counter in base 256. -/
theorem tokenDigits_toNat (me : UInt64) :
    (tokenDigits me).map UInt8.toNat = Nat.digits 256 me.toNat := by
  induction me using tokenDigits.induct with
  | case1 =>
      rw [tokenDigits_zero]
      exact (Nat.digits_zero 256).symm
  | case2 me hzero ih =>
      have hpos : 0 < me.toNat := Nat.pos_of_ne_zero (fun hc => hzero (UInt64.toNat_inj.mp hc))
      have hbyte : (UInt8.ofNat (me.toNat % 256)).toNat = me.toNat % 256 := by
        rw [UInt8.toNat_ofNat']
        omega
      rw [tokenDigits, if_neg hzero, List.map_cons, ih, hbyte, shiftRight_eight_toNat,
        Nat.digits_def' (by omega) hpos]

/-- A token has the bytes its counter needs and no more. -/
theorem tokenDigits_length_le_iff (me : UInt64) (k : Nat) :
    (tokenDigits me).length ≤ k ↔ me.toNat < 256 ^ k := by
  rw [← List.length_map UInt8.toNat, tokenDigits_toNat]
  exact Nat.digits_length_le_iff (by omega) me.toNat

theorem creatTheToken_length (token : UInt64) : (creatTheToken token).2.length ≤ 8 :=
  (tokenDigits_length_le_iff (token + 1) 8).mpr (UInt64.toNat_lt (token + 1))

theorem header_length_le (delta len : Nat) : (header delta len).length ≤ 5 := by
  have hext : ∀ n, (extension n).length ≤ 2 := by
    intro n
    unfold extension
    by_cases h1 : n < 13
    · rw [if_pos h1]
      exact Nat.zero_le _
    · rw [if_neg h1]
      by_cases h2 : n < 269
      · rw [if_pos h2]
        exact Nat.le_succ 1
      · rw [if_neg h2]
        exact Nat.le_refl 2
  have hd := hext delta
  have hl := hext len
  simp only [header, List.length_cons, List.length_append]
  omega

/-- The room a sequence of options takes at most. -/
def optionsRoom (os : List Opt) : Nat := (os.map (fun o => 5 + o.value.length)).sum

/-- Options that fit are all appended. -/
theorem addOptions_encode (os : List Opt) (pdu : CoapPdu) (hok : Encodable pdu.maxDelta os)
    (hroom : pdu.length + (encode pdu.maxDelta os).length ≤ coapMaxPduSize) :
    (os.foldl coapAddOption pdu).wire = pdu.wire ++ encode pdu.maxDelta os := by
  induction os generalizing pdu with
  | nil => exact (List.append_nil _).symm
  | cons o os ih =>
      have hkey : ¬ (o.key < pdu.maxDelta) := by
        have := hok.1
        omega
      set added := header (o.key - pdu.maxDelta) o.value.length ++ o.value with hadded
      have hsplit : encode pdu.maxDelta (o :: os) = added ++ encode o.key os := by
        rw [hadded, encode, List.append_assoc]
      rw [hsplit, List.length_append] at hroom
      -- Neither test of `coapAddOption` fails: the numbers ascend, and there is room for
      -- this option and those behind it.
      have hadd : coapAddOption pdu o =
          { pdu with maxDelta := o.key, wire := pdu.wire ++ added } := by
        unfold coapAddOption
        rw [if_neg hkey]
        simp only []
        rw [← hadded, if_pos (by omega)]
      have hroom' : CoapPdu.length { pdu with maxDelta := o.key, wire := pdu.wire ++ added }
          + (encode o.key os).length ≤ coapMaxPduSize := by
        simp only [CoapPdu.length, List.length_append] at hroom ⊢
        omega
      rw [List.foldl_cons, hadd, ih _ hok.2.2.2 hroom', hsplit, List.append_assoc]

theorem encode_length_room (prev : Nat) (os : List Opt) :
    (encode prev os).length ≤ optionsRoom os := by
  induction os generalizing prev with
  | nil => exact Nat.le_refl 0
  | cons o os ih =>
      have hhead := header_length_le (o.key - prev) o.value.length
      have hrest := ih o.key
      simp only [optionsRoom] at hrest
      simp only [encode, optionsRoom, List.length_append, List.map_cons, List.sum_cons]
      omega

/-- Appending options changes nothing but the options. -/
theorem addOptions_frame (os : List Opt) (pdu : CoapPdu) :
    ∃ d w, os.foldl coapAddOption pdu = { pdu with maxDelta := d, wire := w } := by
  induction os generalizing pdu with
  | nil => exact ⟨pdu.maxDelta, pdu.wire, rfl⟩
  | cons o os ih =>
      -- Refused or appended, the option leaves the rest of the PDU alone.
      have hadd : ∃ d w, coapAddOption pdu o = { pdu with maxDelta := d, wire := w } := by
        unfold coapAddOption
        by_cases hkey : o.key < pdu.maxDelta
        · rw [if_pos hkey]
          exact ⟨pdu.maxDelta, pdu.wire, rfl⟩
        · rw [if_neg hkey]
          simp only []
          split_ifs
          · exact ⟨_, _, rfl⟩
          · exact ⟨pdu.maxDelta, pdu.wire, rfl⟩
      rcases hadd with ⟨d, w, hadd⟩
      rcases ih { pdu with maxDelta := d, wire := w } with ⟨d', w', hrest⟩
      exact ⟨d', w', by rw [List.foldl_cons, hadd, hrest]⟩

/-- What stands in front of the options of a request. -/
theorem requestPdu_frame (token : UInt64) (messageId : UInt16) (msgtype method : UInt8)
    (data : List UInt8) (os : List Opt) :
    ∃ d w, requestPdu token messageId msgtype method data os =
      ⟨msgtype, method, messageId + 1, (creatTheToken token).2.length, (creatTheToken token).2,
        d, w⟩ := by
  have hlen := creatTheToken_length token
  -- A 64-bit counter has no more than eight digits, so the token is accepted.
  have hnot : ¬ (8 < (creatTheToken token).2.length) := by omega
  rcases addOptions_frame os ⟨msgtype, method, messageId + 1, (creatTheToken token).2.length,
    (creatTheToken token).2, 0, []⟩ with ⟨d, w, hopts⟩
  unfold requestPdu coapAddToken
  simp only []
  rw [if_neg hnot, hopts]
  by_cases hdata : data.length ≠ 0
  · rw [if_pos hdata]
    unfold coapAddData
    split_ifs
    · exact ⟨_, _, rfl⟩
    · exact ⟨_, _, rfl⟩
  · rw [if_neg hdata]
    exact ⟨_, _, rfl⟩

/-- A request has the type asked for. -/
theorem requestPdu_type (token : UInt64) (messageId : UInt16) (msgtype method : UInt8)
    (os : List Opt) : (requestPdu token messageId msgtype method [] os).type = msgtype := by
  rcases requestPdu_frame token messageId msgtype method [] os with ⟨d, w, h⟩
  rw [h]

/-- It has the next token, and its length field holds the token's length. -/
theorem requestPdu_token (token : UInt64) (messageId : UInt16) (msgtype method : UInt8)
    (data : List UInt8) (os : List Opt) :
    (requestPdu token messageId msgtype method data os).token = tokenDigits (token + 1) ∧
      (requestPdu token messageId msgtype method data os).tokenLength =
        (tokenDigits (token + 1)).length := by
  rcases requestPdu_frame token messageId msgtype method data os with ⟨d, w, h⟩
  rw [h]
  exact ⟨rfl, rfl⟩

/-- A payload as it stands behind the options: with its marker, and nothing for
    an empty one. -/
def payloadBytes (data : List UInt8) : List UInt8 := if data.length ≠ 0 then 255 :: data else []

/-- A request that fits a PDU carries the options it was given, and its payload
    behind them. -/
theorem requestPdu_encode (token : UInt64) (messageId : UInt16) (msgtype method : UInt8)
    (data : List UInt8) (os : List Opt) (hok : Encodable 0 os)
    (hroom : 4 + (creatTheToken token).2.length +
      ((encode 0 os).length + (payloadBytes data).length) ≤ coapMaxPduSize) :
    (requestPdu token messageId msgtype method data os).wire =
      encode 0 os ++ payloadBytes data := by
  have hlen := creatTheToken_length token
  have hnot : ¬ (8 < (creatTheToken token).2.length) := by omega
  have hwire := addOptions_encode os ⟨msgtype, method, messageId + 1,
    (creatTheToken token).2.length, (creatTheToken token).2, 0, []⟩ hok (by
      simp only [CoapPdu.length, List.length_nil]
      omega)
  rcases addOptions_frame os ⟨msgtype, method, messageId + 1, (creatTheToken token).2.length,
    (creatTheToken token).2, 0, []⟩ with ⟨d, w, hopts⟩
  rw [hopts, List.nil_append] at hwire
  subst hwire
  unfold requestPdu coapAddToken
  simp only []
  rw [if_neg hnot, hopts]
  by_cases hdata : data.length ≠ 0
  · have hbytes : payloadBytes data = 255 :: data := if_pos hdata
    rw [hbytes, List.length_cons] at hroom
    rw [hbytes, if_pos hdata]
    unfold coapAddData CoapPdu.length
    simp only []
    rw [if_pos (by omega)]
  · have hbytes : payloadBytes data = [] := if_neg hdata
    rw [hbytes, if_neg hdata, List.append_nil]

/-- So does a request without payload whose options have room. -/
theorem requestPdu_wire (token : UInt64) (messageId : UInt16) (msgtype method : UInt8)
    (os : List Opt) (hok : Encodable 0 os) (hroom : 12 + optionsRoom os ≤ coapMaxPduSize) :
    (requestPdu token messageId msgtype method [] os).wire = encode 0 os := by
  have hlen := creatTheToken_length token
  have henc := encode_length_room 0 os
  have hbytes : payloadBytes [] = [] := rfl
  -- Header and token take twelve bytes at most.
  have hwire := requestPdu_encode token messageId msgtype method [] os hok (by
    rw [hbytes, List.length_nil]
    omega)
  rw [hbytes, List.append_nil] at hwire
  exact hwire

theorem encode_length_le (prev : Nat) (os : List Opt) : os.length ≤ (encode prev os).length := by
  induction os generalizing prev with
  | nil => exact Nat.le_refl 0
  | cons o os ih =>
      -- Every option begins with a byte of its own.
      have hrec := ih o.key
      simp only [encode, header, List.length_cons, List.length_append]
      omega

/-- Searching a PDU made of options and what may follow them: the first of the
    options that passes the test. -/
theorem find_wire (test : Nat → Bool) (pdu : CoapPdu) (os : List Opt) (tail : List UInt8)
    (hwire : pdu.wire = encode 0 os ++ tail) (hok : Encodable 0 os) (htail : Ends tail) :
    (find test (pdu.wire.length + 1) 0 pdu.wire).map (fun v => (v.key, v.value)) =
      (os.find? (fun o => test o.key)).map (fun o => (o.key, o.value)) := by
  -- The wire is long enough to be the fuel of the search.
  have hlen := encode_length_le 0 os
  rw [hwire]
  refine find_encode test _ 0 os tail ?_ hok htail
  rw [List.length_append]
  omega

/-- Reading an option back: the value of the first option of that number among
    those the PDU was given. -/
theorem option_wire (pdu : CoapPdu) (os : List Opt) (tail : List UInt8) (type : Nat)
    (hwire : pdu.wire = encode 0 os ++ tail) (hok : Encodable 0 os) (htail : Ends tail) :
    (pdu.option type).map View.value =
      (os.find? (fun o => decide (o.key = type))).map Opt.value := by
  have hsnd := congrArg (Option.map Prod.snd)
    (find_wire (fun k => decide (k = type)) pdu os tail hwire hok htail)
  simp only [Option.map_map] at hsnd
  exact hsnd

/-- The same of the PDU a request is built as. -/
theorem requestPdu_option (token : UInt64) (messageId : UInt16) (msgtype method : UInt8)
    (os : List Opt) (type : Nat) (hok : Encodable 0 os)
    (hroom : 12 + optionsRoom os ≤ coapMaxPduSize) :
    ((requestPdu token messageId msgtype method [] os).option type).map View.value =
      (os.find? (fun o => decide (o.key = type))).map Opt.value :=
  option_wire _ os [] type
    ((requestPdu_wire token messageId msgtype method os hok hroom).trans (List.append_nil _).symm)
    hok (Or.inl rfl)

/-- A 2.05 response with the given options, and a payload where the tail begins
    with its marker. -/
def contentPdu (os : List Opt) (tail : List UInt8) : CoapPdu :=
  ⟨coapMessageNon, coapResponseCode 205, 0, 0, [], 0, encode 0 os ++ tail⟩

end CoapThread
