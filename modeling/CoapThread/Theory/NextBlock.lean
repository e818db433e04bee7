import CoapThread.Theory.BlockRun

/-!
# Asking for the Next Block

Whether the block option of the request a response is followed by is the one
behind the response's.

The handler takes the number and the size exponent off the received option,
raises the number by one and writes both with `coap_encode_var_bytes`. The sum
is a 32-bit one and the encoding takes as many bytes as it needs, so nothing
holds the number to the 20 bits the field has. The last number there is leads
to an option of four bytes; every other one is followed by the next.

## Main definitions

* `FollowsBlock`: One value is the next after another.
* `AsksNext`: A request carries such a value.

## Theorems

* `nextBlock_follows_iff`: When the encoded value is the next.
* `handler_sends`: What the handler sends is a request for the next block.
* `asksNext_iff`: The same in every run of the handler.
* `not_asksNext_last`: The last block number.
-/

namespace CoapThread

open CBytes DeltaOption

/-- A value fits a block option and stands for the block behind that of
    another: the next number, nothing announced, the same size. -/
structure FollowsBlock (value next : List UInt8) : Prop where
  length : next.length ≤ 3
  num : (coapOptBlockNum next).toNat = (coapOptBlockNum value).toNat + 1
  more : coapOptBlockMore next = false
  szx : coapOptBlockSzx next = coapOptBlockSzx value

/-- A request carries the block option behind a received one. -/
def AsksNext (value : List UInt8) (pdu : CoapPdu) : Prop :=
  ∃ v, pdu.blockOption = some v ∧ FollowsBlock value v.value

/-- The encoded value is the next one unless the number was the last. -/
theorem nextBlock_follows_iff {value : List UInt8} (hlen : value.length ≤ 3) :
    FollowsBlock value
        (coapEncodeVarBytes ((coapOptBlockNum value + 1) <<< 4 ||| coapOptBlockSzx value)) ↔
      (coapOptBlockNum value).toNat ≠ 2 ^ 20 - 1 := by
  have hnum := coapOptBlockNum_lt value hlen
  have hszx := coapOptBlockSzx_lt value
  -- The sum does not wrap, and the exponent leaves the more bit alone.
  have hsum : (coapOptBlockNum value + 1).toNat = (coapOptBlockNum value).toNat + 1 := by
    rw [UInt32.toNat_add, show (1 : UInt32).toNat = 1 from rfl]
    omega
  have hbound : (coapOptBlockNum value + 1).toNat < 2 ^ 28 := by omega
  have hlow : (coapOptBlockSzx value).toNat < 16 := by omega
  have hvalue := blockValue_toNat _ _ hbound hlow
  have hlength := varBytes_length_le_iff 4
    ((coapOptBlockNum value + 1) <<< 4 ||| coapOptBlockSzx value).toNat 3 (UInt32.toNat_lt _)
  rw [hvalue, hsum] at hlength
  constructor
  · rintro ⟨hthree, -, -, -⟩ hlast
    unfold coapEncodeVarBytes at hthree
    rw [hvalue, hsum, hlength] at hthree
    omega
  · intro hne
    refine ⟨?_, ?_, ?_, ?_⟩
    · unfold coapEncodeVarBytes
      rw [hvalue, hsum, hlength]
      omega
    · rw [blockValue_num _ _ hbound hlow, hsum]
    · rw [blockValue_more _ _ hbound hlow]
      exact decide_eq_false (by omega)
    · apply UInt32.toNat_inj.mp
      rw [blockValue_szx _ _ hbound hlow]
      exact Nat.mod_eq_of_lt hszx

/-- Whatever the handler sends is the request for the block behind the one
    received, for the entry its pointer holds. -/
theorem handler_sends {r : LibcoapResult} {l : HandlerLocals} {received pdu : CoapPdu}
    {g g' : Gateway} (hrun : messageHandler r l received g = .ok g') (hsent : pdu ∈ newPdus g g') :
    ∃ el block, getBlock received = some block ∧ coapOptBlockMore block.value = true ∧
      Terminated (g.list.node el).respath.bytes ∧
      pdu = nextBlockPdu block (g.list.node el) g := by
  rcases messageHandler_sends hrun with ⟨-, hsame⟩ | ⟨el, block, hasks⟩
  · rw [newPdus_of_sent hsame] at hsent
    cases hsent
  · rw [newPdus_of_append hasks.sent] at hsent
    exact ⟨el, block, hasks.option, hasks.more, hasks.respath, List.mem_singleton.mp hsent⟩

/-- In every run of the handler, the request sent behind a block option of at
    most three bytes asks for the next block if and only if the number is not
    the last there is. -/
theorem asksNext_iff {r : LibcoapResult} {l : HandlerLocals} {received pdu : CoapPdu}
    {g g' : Gateway} {block : View} (hrun : messageHandler r l received g = .ok g')
    (hblock : received.blockOption = some block) (hlen : block.value.length ≤ 3)
    (hsent : pdu ∈ newPdus g g') :
    AsksNext block.value pdu ↔ (coapOptBlockNum block.value).toNat ≠ 2 ^ 20 - 1 := by
  rcases handler_sends hrun hsent with ⟨el, block', hblock', -, hterm, hpdu⟩
  cases (getBlock_of_blockOption hblock).symm.trans hblock'
  subst hpdu
  rcases nextBlockPdu_block block (g.list.node el) g (blockOption_key hblock) hterm with
    ⟨v, hv, hvalue⟩
  rw [← nextBlock_follows_iff hlen, ← hvalue]
  constructor
  · rintro ⟨w, hw, hfollows⟩
    cases hv.symm.trans hw
    exact hfollows
  · intro hfollows
    exact ⟨v, hv, hfollows⟩

/-- A download has asked for its first block, and an answer arrives that
    announces more, with a number the value has room for. -/
theorem answer_sends (num : UInt32) (hnum : num.toNat < 2 ^ 28) :
    ∃ (g g' : Gateway) (block : View),
      messageHandler ⟨true, true⟩ ⟨.zero, some 0, none⟩ (blockAnswer [0x61] pollPath num 10 []) g
        = .ok g' ∧
      (blockAnswer [0x61] pollPath num 10 []).blockOption = some block ∧
      block.value = coapEncodeVarBytes (num <<< 4 ||| 10) ∧
      nextBlockPdu block (g.list.node 0) g ∈ newPdus g g' := by
  have hz : (0 : UInt8) ∉ pollPath := by decide
  have hlen : pollPath.length ≤ 255 := by decide
  have hlow : (10 : UInt32).toNat < 16 := by decide
  rcases download_start (fun _ => []) hz hlen with ⟨g, -, -, hg, -⟩
  rcases entry_of_data hg.data with ⟨hreq, -, hpath, hp⟩
  have hterm : Terminated (g.list.node 0).respath.bytes := by
    rw [hpath]
    exact (download_path 0x61 0 hz hlen).1
  rcases blockAnswer_more [] (letter_length_le 0x61) hlen hnum hlow (by decide) hg.writable hreq hp
    hterm with ⟨g', hrun, -, -, -, block, -, hvalue, hblock, hsent⟩
  refine ⟨g, g', block, hrun, hblock, hvalue, ?_⟩
  rw [newPdus_of_append hsent]
  exact List.mem_singleton_self _

/-- A response with the first block. -/
theorem asksNext_first : ∃ g g' block pdu,
    messageHandler ⟨true, true⟩ ⟨.zero, some 0, none⟩ (blockAnswer [0x61] pollPath 0 10 []) g
      = .ok g' ∧
    (blockAnswer [0x61] pollPath 0 10 []).blockOption = some block ∧ block.value = [0x0a] ∧
    pdu ∈ newPdus g g' ∧ AsksNext block.value pdu := by
  rcases answer_sends 0 (by decide) with ⟨g, g', block, hrun, hblock, hvalue, hsent⟩
  have hten : block.value = [0x0a] := hvalue.trans (by decide)
  have hlen : block.value.length ≤ 3 := by
    rw [hten]
    decide
  refine ⟨g, g', block, _, hrun, hblock, hten, hsent, (asksNext_iff hrun hblock hlen hsent).mpr ?_⟩
  rw [hten]
  decide

/-- A response with the last block number there is, with more announced: the
    request behind it carries a block option of four bytes. -/
theorem not_asksNext_last : ∃ g g' block pdu,
    messageHandler ⟨true, true⟩ ⟨.zero, some 0, none⟩ (blockAnswer [0x61] pollPath 1048575 10 []) g
      = .ok g' ∧
    (blockAnswer [0x61] pollPath 1048575 10 []).blockOption = some block ∧
    block.value = [0xff, 0xff, 0xfa] ∧ pdu ∈ newPdus g g' ∧ ¬ AsksNext block.value pdu := by
  rcases answer_sends 1048575 (by decide) with ⟨g, g', block, hrun, hblock, hvalue, hsent⟩
  have hlast : block.value = [0xff, 0xff, 0xfa] := hvalue.trans (by decide)
  refine ⟨g, g', block, _, hrun, hblock, hlast, hsent, ?_⟩
  rcases handler_sends hrun hsent with ⟨el, block', hblock', -, hterm, hpdu⟩
  cases (getBlock_of_blockOption hblock).symm.trans hblock'
  rcases nextBlockPdu_block block (g.list.node el) g (blockOption_key hblock) hterm with
    ⟨v, hv, hfour⟩
  rintro ⟨w, hw, hfollows⟩
  rw [hpdu] at hw
  cases hv.symm.trans hw
  have hlength := hfollows.length
  rw [hfour, hlast] at hlength
  exact absurd hlength (by decide)

end CoapThread
