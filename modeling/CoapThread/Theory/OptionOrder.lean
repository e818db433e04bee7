import CoapThread.Core.Pdu
import CoapThread.Library.StableSort

/-!
# The Order of Options

What a request makes of the options it is given.

`coap_insert` puts a node in front of the first one the comparator is negative
for. `order_opts` is negative for a smaller key and for no other, so a node goes
behind those of its own key, and the list is the stable sort of what has been
inserted. That is the order the encoding needs: each option is written with its
difference to the one before, and `coap_add_option` refuses a number that is
smaller. In the list of a request it never is, and an option is left out only
for want of room.

## Main definitions

* `insertAll`: Inserting options one after the other.
* `CoapPdu.decoded`: The options and the payload of a PDU.
* `SameTies`: Two sequences have the options of each key in one order.

## Theorems

* `coapInsert_eq`: Insertion goes by the key alone.
* `insertAll_eq`: The list is the stable sort.
* `encodable_of_sorted`: Sorted options of 16-bit keys can be encoded.
* `newRequest_options`: A request carries the stable sort and its payload.
-/

namespace CoapThread

open DeltaOption

/-- An option as it is inserted: a 16-bit key and its data. -/
abbrev NewOption := UInt16 × List UInt8

/-- The option that is meant. -/
def optOf (o : NewOption) : Opt := ⟨o.1.toNat, o.2⟩

/-- Insert options one after the other into an empty list. -/
def insertAll (options : List NewOption) : List Opt :=
  options.foldl (fun optlist o =>
    coapInsert orderOpts optlist (newOptionNode o.1.toNat o.2.length o.2)) []

/-- The options and the payload of a PDU. -/
def CoapPdu.decoded (pdu : CoapPdu) : Option (List Opt × Option (List UInt8)) :=
  decode (pdu.wire.length + 1) 0 pdu.wire

/-- Two sequences have the options of each key in the same order. -/
def SameTies (options options' : List NewOption) : Prop :=
  ∀ k : Nat, options'.filter (fun o => o.1.toNat = k) = options.filter (fun o => o.1.toNat = k)

theorem newOptionNode_eq (o : NewOption) : newOptionNode o.1.toNat o.2.length o.2 = optOf o := by
  unfold newOptionNode optOf
  rw [List.take_length]

/-- The comparator is negative for a smaller key only. -/
theorem orderOpts_neg_iff (a b : Opt) : orderOpts a b < 0 ↔ a.key < b.key := by
  unfold orderOpts
  by_cases hlt : a.key < b.key
  · rw [if_pos hlt]
    exact ⟨fun _ => hlt, fun _ => by omega⟩
  · rw [if_neg hlt]
    by_cases heq : a.key = b.key
    · rw [if_pos heq]
      omega
    · rw [if_neg heq]
      omega

/-- Insertion goes by the key alone, behind the options of the same key. -/
theorem coapInsert_eq (optlist : List Opt) (o : Opt) :
    coapInsert orderOpts optlist o = StableSort.insertBehind Opt.key o optlist := by
  induction optlist with
  | nil => rfl
  | cons q optlist ih =>
      unfold coapInsert StableSort.insertBehind
      by_cases hlt : o.key < q.key
      · rw [if_pos ((orderOpts_neg_iff o q).mpr hlt), if_pos hlt]
      · rw [if_neg (fun h => hlt ((orderOpts_neg_iff o q).mp h)), if_neg hlt, ih]

/-- The list is the stable sort of what has been inserted. -/
theorem insertAll_eq (options : List NewOption) :
    insertAll options = StableSort.sort Opt.key (options.map optOf) := by
  rw [← StableSort.foldl_insertBehind, List.foldl_map]
  unfold insertAll
  simp only [newOptionNode_eq, coapInsert_eq]

/-- What is inserted is the same in any order that keeps that of equal keys. -/
theorem insertAll_congr {options options' : List NewOption} (h : SameTies options options') :
    insertAll options' = insertAll options := by
  rw [insertAll_eq, insertAll_eq]
  refine StableSort.sort_congr (fun k => ?_)
  have htied : ∀ os : List NewOption, StableSort.tied Opt.key k (os.map optOf) =
      (os.filter (fun o => o.1.toNat = k)).map optOf := by
    intro os
    unfold StableSort.tied
    rw [List.filter_map]
    rfl
  rw [htied, htied, h k]

section Encoding

/-- No value is longer than the encoding it is in. -/
theorem value_length_le_encode (prev : Nat) {os : List Opt} {o : Opt} (h : o ∈ os) :
    o.value.length ≤ (encode prev os).length := by
  induction os generalizing prev with
  | nil => cases h
  | cons q os ih =>
      simp only [encode, List.length_append]
      rcases List.mem_cons.mp h with rfl | htail
      · omega
      · have hrest := ih q.key htail
        omega

/-- Sorted options with 16-bit keys and values that are not too long can be
    encoded. -/
theorem encodable_of_sorted {prev : Nat} {os : List Opt} (hsorted : StableSort.Sorted Opt.key os)
    (hprev : ∀ o ∈ os, prev ≤ o.key) (hkey : ∀ o ∈ os, o.key < 2 ^ 16)
    (hvalue : ∀ o ∈ os, o.value.length < limit) : DeltaOption.Encodable prev os := by
  induction os generalizing prev with
  | nil => trivial
  | cons o os ih =>
      have hfirst := hprev o List.mem_cons_self
      have hlt := hkey o List.mem_cons_self
      refine ⟨hfirst, ?_, hvalue o List.mem_cons_self, ?_⟩
      · unfold limit
        omega
      · -- Behind the first option the keys go on from its own.
        exact ih (List.Pairwise.of_cons hsorted) (List.pairwise_cons.mp hsorted).1
          (fun q hq => hkey q (List.mem_cons_of_mem o hq))
          (fun q hq => hvalue q (List.mem_cons_of_mem o hq))

theorem payloadBytes_ends (data : List UInt8) : Ends (payloadBytes data) := by
  unfold payloadBytes
  by_cases h : data.length ≠ 0
  · rw [if_pos h]
    exact Or.inr ⟨data, rfl⟩
  · rw [if_neg h]
    exact Or.inl rfl

theorem behind_payloadBytes (data : List UInt8) :
    behind (payloadBytes data) = if data.length ≠ 0 then some data else none := by
  unfold payloadBytes
  split_ifs <;> rfl

/-- A PDU made of options and a payload reads back. -/
theorem decoded_of_wire {pdu : CoapPdu} {os : List Opt} {data : List UInt8}
    (hwire : pdu.wire = encode 0 os ++ payloadBytes data) (hok : DeltaOption.Encodable 0 os) :
    pdu.decoded = some (os, if data.length ≠ 0 then some data else none) := by
  have hlen := encode_length_le 0 os
  unfold CoapPdu.decoded
  rw [hwire, ← behind_payloadBytes]
  refine decode_encode _ 0 os _ ?_ hok (payloadBytes_ends data)
  rw [List.length_append]
  omega

/-- The sorted options of a request that fits can be encoded. -/
theorem sort_encodable (options : List NewOption)
    (hfits : (encode 0 (StableSort.sort Opt.key (options.map optOf))).length ≤ coapMaxPduSize) :
    DeltaOption.Encodable 0 (StableSort.sort Opt.key (options.map optOf)) := by
  have hkey : ∀ o ∈ StableSort.sort Opt.key (options.map optOf), o.key < 2 ^ 16 := by
    intro o ho
    rcases List.mem_map.mp ((StableSort.sort_perm _).mem_iff.mp ho) with ⟨q, -, rfl⟩
    exact q.1.toNat_lt
  have hvalue : ∀ o ∈ StableSort.sort Opt.key (options.map optOf), o.value.length < limit := by
    intro o ho
    have hle := value_length_le_encode 0 ho
    unfold coapMaxPduSize at hfits
    unfold limit
    omega
  exact encodable_of_sorted (StableSort.isStableSort_sort _).sorted (fun o _ => Nat.zero_le _) hkey
    hvalue

end Encoding

/-- For any options inserted in any order, as long as their encoding fits the
    PDU with token and payload: the request is built, and decodes to the stable
    sort of the options, followed by the payload if there is one. Any order of
    insertion that keeps the order of equal keys gives the same request. -/
theorem newRequest_options (token : UInt64) (messageId : UInt16) (msgtype method : UInt8)
    (data : List UInt8) (options : List NewOption)
    (hfits : 4 + (creatTheToken token).2.length +
      ((encode 0 (StableSort.sort Opt.key (options.map optOf))).length +
        (payloadBytes data).length) ≤ coapMaxPduSize) :
    (∃ pdu, (coapNewRequest true token messageId msgtype method data (insertAll options)).2.2 =
        some pdu ∧
      pdu.decoded = some (StableSort.sort Opt.key (options.map optOf),
        if data.length ≠ 0 then some data else none)) ∧
      ∀ options', SameTies options options' →
        coapNewRequest true token messageId msgtype method data (insertAll options') =
          coapNewRequest true token messageId msgtype method data (insertAll options) := by
  have hok := sort_encodable options (by omega)
  refine ⟨⟨requestPdu token messageId msgtype method data (insertAll options), rfl, ?_⟩,
    fun options' h => ?_⟩
  · rw [insertAll_eq]
    exact decoded_of_wire (requestPdu_encode token messageId msgtype method data _ hok hfits) hok
  · rw [insertAll_congr h]

/-- Two options of one key around a smaller one, and a payload. -/
theorem newRequest_threeOptions :
    ∃ pdu, (coapNewRequest true 0 0 0 1 [0x64]
        (insertAll [(11, [0x61]), (3, [0x62]), (11, [0x63])])).2.2 = some pdu ∧
      pdu.decoded = some ([⟨3, [0x62]⟩, ⟨11, [0x61]⟩, ⟨11, [0x63]⟩], some [0x64]) := by
  -- The sort is computed by insertion.
  have hsort : StableSort.sort Opt.key ([(11, [0x61]), (3, [0x62]), (11, [0x63])].map optOf) =
      [⟨3, [0x62]⟩, ⟨11, [0x61]⟩, ⟨11, [0x63]⟩] := by
    rw [← insertAll_eq]
    decide
  have htoken := creatTheToken_length 0
  have hrequest := newRequest_options 0 0 0 1 [0x64] [(11, [0x61]), (3, [0x62]), (11, [0x63])]
  rw [hsort] at hrequest
  have hlen : (encode 0 [⟨3, [0x62]⟩, ⟨11, [0x61]⟩, ⟨11, [0x63]⟩]).length +
      (payloadBytes [0x64]).length = 8 := by decide
  exact (hrequest (by rw [hlen]; unfold coapMaxPduSize; omega)).1

end CoapThread
