import CoapThread.Theory.BlockDownload
import CoapThread.Theory.BlockOption

/-!
# What a Download Delivers

The run of a download in which nothing goes wrong, and what it comes to.

The first request asks for block 1. From there on every response is for the
right entry, comes once, and is answered by a request for the block behind it,
so the requester ends up with everything but the first 64 bytes. `Downloading`
is the state between two responses, and the induction is on the number of
blocks that are still to come.

Only the empty content survives that. Contents of 4 GiB and more have no such
run, since the buffer's fill count has 32 bits; there the pointer the handler
never assigns does the damage, by holding the entry of another download.

## Main definitions

* `blockAnswer`: An answer as a server writes it.
* `download`: A block request.
* `Downloading`: The state after a number of responses.
* `Finishes`: A run at whose end a download is complete.

## Theorems

* `blockAnswer_run`: What the handler does with an answer.
* `downloading_more`, `downloading_last`: What one response does.
* `download_delivers`: What an undisturbed download delivers.
* `downloadsWhole_iff`: Only empty contents arrive.
* `not_downloadsWhole_oneByte`: A resource of one byte arrives as nothing.
-/

namespace CoapThread

open CBytes DeltaOption Machine

section Answers

/-- An answer as a server writes it. The option behind the block is one the
    thread knows nothing of. -/
def blockAnswer (host path : List UInt8) (num low : UInt32) (data : List UInt8) : CoapPdu :=
  ⟨2, coapResponseCode 205, 0, 0, [], 0, encode 0
    [⟨coapOptionUriHost, host⟩, ⟨coapOptionUriPath, path⟩,
      ⟨coapOptionBlock2, coapEncodeVarBytes (num <<< 4 ||| low)⟩, ⟨65000, List.replicate 14 0⟩] ++
    if data = [] then [] else 255 :: data⟩

variable (host path : List UInt8) (num low : UInt32) (data : List UInt8)

theorem blockAnswer_encodable (hhost : host.length ≤ 255) (hpath : path.length ≤ 255) :
    Encodable 0 [⟨coapOptionUriHost, host⟩, ⟨coapOptionUriPath, path⟩,
      ⟨coapOptionBlock2, coapEncodeVarBytes (num <<< 4 ||| low)⟩,
      ⟨65000, List.replicate 14 0⟩] := by
  have hblock : (coapEncodeVarBytes (num <<< 4 ||| low)).length ≤ 4 := varBytes_length 4 _
  simp only [DeltaOption.Encodable, coapOptionUriHost, coapOptionUriPath, coapOptionBlock2, limit,
    List.length_replicate, and_true]
  omega

theorem blockAnswer_ends : Ends (if data = [] then [] else 255 :: data) := by
  by_cases h : data = []
  · rw [if_pos h]
    exact Or.inl rfl
  · rw [if_neg h]
    exact Or.inr ⟨data, rfl⟩

theorem blockAnswer_host (hhost : host.length ≤ 255) (hpath : path.length ≤ 255) :
    NamesHost (blockAnswer host path num low data) host :=
  option_wire _ _ _ _ rfl (blockAnswer_encodable host path num low hhost hpath)
    (blockAnswer_ends data)

theorem blockAnswer_path (hhost : host.length ≤ 255) (hpath : path.length ≤ 255) :
    Asks (blockAnswer host path num low data) path :=
  option_wire _ _ _ _ rfl (blockAnswer_encodable host path num low hhost hpath)
    (blockAnswer_ends data)

theorem blockAnswer_block (hhost : host.length ≤ 255) (hpath : path.length ≤ 255) :
    ∃ w, (blockAnswer host path num low data).blockOption = some w ∧ w.key = coapOptionBlock2 ∧
      w.value = coapEncodeVarBytes (num <<< 4 ||| low) := by
  have hfind := find_wire (fun k => k = coapOptionBlock1 || k = coapOptionBlock2)
    (blockAnswer host path num low data) _ _ rfl
    (blockAnswer_encodable host path num low hhost hpath) (blockAnswer_ends data)
  rcases Option.map_eq_some_iff.mp hfind with ⟨w, hw, hvalue⟩
  exact ⟨w, hw, congrArg Prod.fst hvalue, congrArg Prod.snd hvalue⟩

theorem blockAnswer_data (hhost : host.length ≤ 255) (hpath : path.length ≤ 255) :
    (coapGetData (blockAnswer host path num low data)).getD [] = data := by
  have hread := payload_encode ((blockAnswer host path num low data).wire.length + 1) 0 _ _ ?_
    (blockAnswer_encodable host path num low hhost hpath) (blockAnswer_ends data)
  · refine Eq.trans hread ?_
    by_cases h : data = []
    · rw [if_pos h, h, List.drop_nil]
    · rw [if_neg h, List.drop_succ_cons, List.drop_zero]
  · have hlen := encode_length_le 0 [⟨coapOptionUriHost, host⟩, ⟨coapOptionUriPath, path⟩,
      ⟨coapOptionBlock2, coapEncodeVarBytes (num <<< 4 ||| low)⟩, ⟨65000, List.replicate 14 0⟩]
    simp only [blockAnswer, List.length_append]
    omega

/-- The handler goes on with it, and finds fourteen bytes at the path. -/
theorem blockAnswer_content (hhost : host.length ≤ 255) (hpath : path.length ≤ 255) :
    ∃ value, IsContent (blockAnswer host path num low data) value ∧ 14 ≤ value.length := by
  have hok := blockAnswer_encodable host path num low hhost hpath
  have hhead := blockAnswer_host host path num low data hhost hpath
  refine ⟨path ++ (encode 11 [⟨coapOptionBlock2, coapEncodeVarBytes (num <<< 4 ||| low)⟩,
    ⟨65000, List.replicate 14 0⟩] ++ if data = [] then [] else 255 :: data),
    ⟨nofun, ?_, ?_, rfl⟩, ?_⟩
  · rcases Option.map_eq_some_iff.mp hhead with ⟨v, hv, -⟩
    rw [coapCheckOption_of_option hv (by decide)]
    exact nofun
  · refine ⟨⟨11, path.length, _⟩, coapCheckOption_of_option ?_ (by decide), rfl⟩
    have hlen : ∃ k, (blockAnswer host path num low data).wire.length = k + 1 :=
      ⟨_, (Nat.succ_pred_eq_of_pos (Nat.succ_pos _)).symm⟩
    rcases hlen with ⟨k, hk⟩
    unfold CoapPdu.option
    rw [hk]
    refine (find_encode_cons _ (k + 1) 0 _ _ _ hok).trans ?_
    -- The host is the first option and the path the second.
    have hskip : ¬ (decide (coapOptionUriHost = coapOptionUriPath) = true) := by decide
    have hhit : decide (coapOptionUriPath = coapOptionUriPath) = true := by decide
    rw [if_neg hskip]
    exact (find_encode_cons _ k _ _ _ _ hok.2.2.2).trans (if_pos hhit)
  · -- The last option alone has fourteen bytes.
    simp only [encode, List.length_append, List.length_replicate]
    omega

end Answers

section Step

variable {g : Gateway} {el : NodeId} {p : ParaId} {host path : List UInt8} {num low : UInt32}
  (data : List UInt8)

/-- What the handler does with an answer while its pointer holds a block
    request: the payload is appended, and the next block is asked for or the
    request is complete. -/
theorem blockAnswer_run (hhost : host.length ≤ 255) (hpath : path.length ≤ 255)
    (hnum : num.toNat < 2 ^ 28) (hlow : low.toNat < 16)
    (hw : ∃ st, g.path.s = some st ∧ st.writable = true)
    (hreq : (g.list.node el).req = .ltuTxBlock) (hp : (g.list.node el).pthpara = some p) :
    ∃ (template : Str) (block : View), (∃ st, template.s = some st ∧ st.writable = true) ∧
      block.key = coapOptionBlock2 ∧ block.value = coapEncodeVarBytes (num <<< 4 ||| low) ∧
      (blockAnswer host path num low data).blockOption = some block ∧
      messageHandler ⟨true, true⟩ ⟨.zero, some el, none⟩ (blockAnswer host path num low data) g =
        let g₁ : Gateway := { pathCopied (blockAnswer host path num low data) template g with
          para := Function.update g.para p ((g.para p).append data) }
        if 8 ≤ low.toNat then
          nextBlockRequest ⟨true, true⟩ block.key block.value (g.list.node el) g₁
        else completeRequest el g₁ := by
  rcases blockAnswer_content host path num low data hhost hpath with ⟨value, hcontent, hlen⟩
  rcases blockAnswer_block host path num low data hhost hpath with ⟨block, hblock, hkey, hvalue⟩
  rcases hw with ⟨st, hs, hst⟩
  have hrun := messageHandler_content ⟨true, true⟩ ⟨.zero, some el, none⟩
    (blockAnswer host path num low data) g value hcontent
  rw [memcpyPath_writable hs hst hlen] at hrun
  refine ⟨{ g.path with s := some { st with bytes := overwrite st.bytes 0 (value.take 14) } },
    block, ⟨_, rfl, hst⟩, hkey, hvalue, hblock, hrun.trans ?_⟩
  have hsome : (g.list.node el).pthpara ≠ none := by
    rw [hp]
    exact Option.some_ne_none p
  have hbranch := fun template => blockBranch_block (r := ⟨true, true⟩)
    (l := ⟨.zero, some el, none⟩) (g := pathCopied (blockAnswer host path num low data) template g)
    rfl hreq (getBlock_of_blockOption hblock) (Or.inr hsome)
  refine (hbranch _).trans ?_
  -- The payload read back is what was put behind the marker.
  have happ := appended_getD (blockAnswer host path num low data) (g.list.node el) g.para p hp
  rw [blockAnswer_data host path num low data hhost hpath] at happ
  have hmore : coapOptBlockMore block.value = decide (8 ≤ low.toNat) := by
    rw [hvalue]
    exact blockValue_more num low hnum hlow
  simp only [pathCopied, acked, Gateway.emit, hmore, decide_eq_true_eq] at happ ⊢
  rw [happ]

theorem blockAnswer_more (hhost : host.length ≤ 255) (hpath : path.length ≤ 255)
    (hnum : num.toNat < 2 ^ 28) (hlow : low.toNat < 16) (hmore : 8 ≤ low.toNat)
    (hw : ∃ st, g.path.s = some st ∧ st.writable = true)
    (hreq : (g.list.node el).req = .ltuTxBlock) (hp : (g.list.node el).pthpara = some p)
    (hterm : Terminated (g.list.node el).respath.bytes) :
    ∃ g', messageHandler ⟨true, true⟩ ⟨.zero, some el, none⟩ (blockAnswer host path num low data) g
        = .ok g' ∧ g'.list = g.list ∧
      g'.para = Function.update g.para p ((g.para p).append data) ∧
      (∃ st, g'.path.s = some st ∧ st.writable = true) ∧
      ∃ block : View, block.key = coapOptionBlock2 ∧
        block.value = coapEncodeVarBytes (num <<< 4 ||| low) ∧
        (blockAnswer host path num low data).blockOption = some block ∧
        sentPdus g'.outputs = sentPdus g.outputs ++ [nextBlockPdu block (g.list.node el) g] := by
  rcases blockAnswer_run data hhost hpath hnum hlow hw hreq hp with
    ⟨template, block, hw', hkey, hvalue, hblock, hrun⟩
  simp only [] at hrun
  rw [if_pos hmore, nextBlockRequest_eq, if_pos hterm, if_pos rfl] at hrun
  refine ⟨_, hrun, rfl, rfl, hw', block, hkey, hvalue, hblock, ?_⟩
  rw [sentPdus_append, sentPdus_nextBlock]
  exact congrArg (· ++ [nextBlockPdu block (g.list.node el) g])
    (sentPdus_acked (blockAnswer host path num low data) g)

theorem complete_delivered {ids : List NodeId} (g : Gateway) (hh : Holds g.list ids)
    (hmem : el ∈ ids) (hp : (g.list.node el).pthpara = some p) :
    ∃ g', completeRequest el g = .ok g' ∧ g'.list.live el = false ∧
      (g'.para p).delivered = (g.para p).delivered ∧ Holds g'.list (ids.erase el) := by
  rcases release_holds false el p g ids hh hmem with ⟨list, hrel, hholds, -⟩
  refine ⟨_, completeRequest_iff.mpr ⟨p, hp, hrel⟩, release_live hrel, ?_, hholds⟩
  simp only [Gateway.emit, Function.update_self]
  rfl

theorem blockAnswer_last {ids : List NodeId} (hhost : host.length ≤ 255) (hpath : path.length ≤ 255)
    (hnum : num.toNat < 2 ^ 28) (hlast : low.toNat < 8)
    (hw : ∃ st, g.path.s = some st ∧ st.writable = true)
    (hreq : (g.list.node el).req = .ltuTxBlock) (hp : (g.list.node el).pthpara = some p)
    (hh : Holds g.list ids) (hmem : el ∈ ids) :
    ∃ g', messageHandler ⟨true, true⟩ ⟨.zero, some el, none⟩ (blockAnswer host path num low data) g
        = .ok g' ∧ g'.list.live el = false ∧
      (g'.para p).delivered = ((g.para p).append data).delivered ∧
      Holds g'.list (ids.erase el) := by
  have hlow : low.toNat < 16 := by omega
  rcases blockAnswer_run data hhost hpath hnum hlow hw hreq hp with
    ⟨template, block, -, -, -, -, hrun⟩
  simp only [] at hrun
  rw [if_neg (Nat.not_le_of_lt hlast)] at hrun
  rcases complete_delivered { pathCopied (blockAnswer host path num low data) template g with
    para := Function.update g.para p ((g.para p).append data) } hh hmem hp with
    ⟨g', hcomplete, hgone, hdelivered, hholds⟩
  refine ⟨g', hrun.trans hcomplete, hgone, hdelivered.trans ?_, hholds⟩
  simp only [Function.update_self]

end Step

/-- A block request from an address of one letter. -/
def download (letter : UInt8) (p : ParaId) (path : List UInt8) : SCoAPNewRequest :=
  { SCoAPNewRequest.zero with
    addr := Buf.ofList 15 [letter]
    respath := Buf.ofList 256 path
    req := .ltuTxBlock
    pthpara := some p }

/-- A host of one letter is an option. -/
theorem letter_length_le (letter : UInt8) : [letter].length ≤ 255 := by
  rw [List.length_singleton]
  omega

theorem download_path (letter : UInt8) (p : ParaId) {path : List UInt8} (hz : (0 : UInt8) ∉ path)
    (hlen : path.length ≤ 255) : Terminated (download letter p path).respath.bytes ∧
      cstr (download letter p path).respath.bytes = path := by
  simp only [download]
  exact ⟨Buf.terminated_ofList path (Nat.lt_succ_of_le hlen),
    Buf.cstr_ofList path hz (Nat.le_succ_of_le hlen)⟩

theorem download_host {letter : UInt8} {p : ParaId} {path : List UInt8} (h : letter ≠ 0) :
    cstr (download letter p path).addrBytes = [letter] := by
  have hlen : [letter].length < 15 := by
    rw [List.length_singleton]
    omega
  simp only [download, SCoAPNewRequest.addrBytes]
  rw [cstr_append_of_terminated _ _ (Buf.terminated_ofList [letter] hlen)]
  exact Buf.cstr_ofList [letter] (fun hc => h (List.mem_singleton.mp hc).symm) (Nat.le_of_lt hlen)

/-- The answer for the block behind `k` others, counted from the first one
    asked for. -/
def serverAnswer (content path : List UInt8) (k : Nat) : CoapPdu :=
  blockAnswer [0x61] path (UInt32.ofNat (k + 1))
    (if 64 * (k + 2) < content.length then 10 else 2) (blockBytes content (k + 1) 2)

/-- A download has been sent `k` answers in order. -/
structure Downloading (content path : List UInt8) (k : Nat) (g : Gateway) : Prop where
  holds : Holds g.list [0]
  data : (g.list.node 0).data = (download 0x61 0 path).data
  writable : ∃ st, g.path.s = some st ∧ st.writable = true
  asked : ∃ pdu ∈ sentPdus g.outputs, Asks pdu path ∧ ∃ v, pdu.blockOption = some v ∧
    (coapOptBlockNum v.value).toNat = k + 1 ∧ (coapOptBlockSzx v.value).toNat = 2
  room : (g.para 0).msg.length = content.length
  megleg : (g.para 0).megleg.toNat = 64 * k
  got : (g.para 0).msg.take (64 * k) = (content.drop 64).take (64 * k)
  more : k = 0 ∨ 64 * (k + 1) < content.length

section Downloads

variable {contents : List UInt8 → List UInt8} {content path : List UInt8} {k : Nat} {g : Gateway}

theorem Downloading.num (hg : Downloading content path k g) (hlt : content.length < 2 ^ 32) :
    (UInt32.ofNat (k + 1)).toNat = k + 1 ∧ k + 1 < 2 ^ 28 := by
  have hk : k + 1 < 2 ^ 28 := by
    rcases hg.more with hk | hk <;> omega
  refine ⟨?_, hk⟩
  rw [UInt32.toNat_ofNat']
  omega

/-- The number of the next block can be written in a block option. -/
theorem Downloading.num_lt (hg : Downloading content path k g) (hlt : content.length < 2 ^ 32) :
    (UInt32.ofNat (k + 1)).toNat < 2 ^ 28 := by
  rcases hg.num hlt with ⟨hnum, hk⟩
  rw [hnum]
  exact hk

/-- A block is full as long as there is content for it. -/
theorem blockBytes_length (content : List UInt8) (k : Nat) :
    (blockBytes content (k + 1) 2).length = min 64 (content.length - 64 * (k + 1)) := by
  unfold blockBytes
  rw [List.length_take, List.length_drop]
  omega

/-- The fields of a server's answer. -/
theorem serverAnswer_low (content : List UInt8) (k : Nat) :
    ((if 64 * (k + 2) < content.length then 10 else 2 : UInt32).toNat < 16) ∧
      (if 64 * (k + 2) < content.length then 10 else 2 : UInt32).toNat % 8 = 2 ∧
      (8 ≤ (if 64 * (k + 2) < content.length then 10 else 2 : UInt32).toNat ↔
        64 * (k + 2) < content.length) := by
  by_cases h : 64 * (k + 2) < content.length
  · rw [if_pos h]
    exact ⟨by decide, by decide, ⟨fun _ => h, fun _ => by decide⟩⟩
  · rw [if_neg h]
    exact ⟨by decide, by decide, ⟨fun hc => absurd hc (by decide), fun hc => absurd hc h⟩⟩

/-- It is an answer to any request for that block of that path. -/
theorem serverAnswer_answers {m : SCoAPNewRequest} {pdu : CoapPdu} (hz : (0 : UInt8) ∉ path)
    (hlen : path.length ≤ 255) (hm : m.data = (download 0x61 0 path).data) (hk : k + 1 < 2 ^ 28)
    (hasks : Asks pdu path) {v : View} (hv : pdu.blockOption = some v)
    (hvnum : (coapOptBlockNum v.value).toNat = k + 1)
    (hvszx : (coapOptBlockSzx v.value).toNat = 2) :
    AnswersBlock contents m pdu (serverAnswer (contents path) path k) := by
  rcases serverAnswer_low (contents path) k with ⟨hlow, hszx, hmore⟩
  rcases entry_of_data hm with ⟨-, haddr, hpath, -⟩
  have hnum : (UInt32.ofNat (k + 1)).toNat = k + 1 := by
    rw [UInt32.toNat_ofNat']
    omega
  have hcstr : cstr m.respath.bytes = path := by
    rw [hpath]
    exact (download_path 0x61 0 hz hlen).2
  have hhost : cstr m.addrBytes = [0x61] := by
    rw [haddr]
    exact download_host (by decide)
  -- The entry is the download, so its address and path are those of the answer.
  have hone := letter_length_le 0x61
  rcases blockAnswer_block [0x61] path (UInt32.ofNat (k + 1)) _
    (blockBytes (contents path) (k + 1) 2) hone hlen with ⟨w, hw, hwkey, hwvalue⟩
  have hbound : (UInt32.ofNat (k + 1)).toNat < 2 ^ 28 := by
    rw [hnum]
    exact hk
  constructor
  · rw [hcstr]
    exact hasks
  · exact nofun
  · rfl
  · rw [hhost]
    exact blockAnswer_host _ _ _ _ _ hone hlen
  · rw [hcstr]
    exact blockAnswer_path _ _ _ _ _ hone hlen
  · refine ⟨v, w, hv, hw, hwkey, ?_, ?_, ?_, ?_⟩
    · rw [hwvalue, blockValue_num _ _ hbound hlow]
      exact UInt32.toNat_inj.mp (hnum.trans hvnum.symm)
    · apply UInt32.toNat_inj.mp
      rw [hwvalue, blockValue_szx _ _ hbound hlow, hszx, hvszx]
    · rw [hwvalue, blockValue_more _ _ hbound hlow, decide_eq_true_eq, hmore, hvnum, hvszx, hcstr]
      omega
    · rw [hvnum, hvszx, hcstr]
      exact blockAnswer_data _ _ _ _ _ hone hlen

theorem downloading_from (hg : Downloading (contents path) path k g) (hz : (0 : UInt8) ∉ path)
    (hlen : path.length ≤ 255) (hlt : (contents path).length < 2 ^ 32) (r : LibcoapResult)
    (l : HandlerLocals) :
    FromServer contents g (.response r l (serverAnswer (contents path) path k)) := by
  rcases hg.asked with ⟨pdu, hpdu, hasks, v, hv, hvnum, hvszx⟩
  exact ⟨0, pdu, hg.holds.bounded 0 (List.mem_singleton_self _), (entry_of_data hg.data).1, hpdu,
    serverAnswer_answers hz hlen hg.data (hg.num hlt).2 hasks hv hvnum hvszx⟩

/-- What the requester has once the next block is appended. -/
theorem downloading_append (hg : Downloading content path k g) (hlt : content.length < 2 ^ 32) :
    ((g.para 0).append (blockBytes content (k + 1) 2)).msg.length = content.length ∧
      ((g.para 0).append (blockBytes content (k + 1) 2)).megleg.toNat =
        64 * k + (blockBytes content (k + 1) 2).length ∧
      ((g.para 0).append (blockBytes content (k + 1) 2)).delivered =
        (content.drop 64).take (64 * (k + 1)) := by
  have hblock : blockBytes content (k + 1) 2 = ((content.drop 64).drop (64 * k)).take 64 := by
    unfold blockBytes
    rw [List.drop_drop]
    congr 2
    omega
  -- The buffer is as long as the content and lacks its first block, so there is room.
  have hfits : 64 * k + (blockBytes content (k + 1) 2).length ≤ content.length := by
    rw [blockBytes_length]
    rcases hg.more with hk | hk <;> omega
  have hmegleg : ((g.para 0).append (blockBytes content (k + 1) 2)).megleg.toNat =
      64 * k + (blockBytes content (k + 1) 2).length := by
    unfold SPthreadPara.append
    rw [UInt32.toNat_add, hg.megleg, UInt32.toNat_ofNat']
    omega
  refine ⟨(overwrite_length _ _ _).trans hg.room, hmegleg, ?_⟩
  unfold SPthreadPara.delivered
  rw [hmegleg]
  unfold SPthreadPara.append
  rw [hg.megleg, take_overwrite _ _ _ (hg.room ▸ hfits), hg.got, hblock, ← List.take_add]
  congr 1

/-- An answer with more to come takes the download one block further. -/
theorem downloading_more (hg : Downloading content path k g) (hz : (0 : UInt8) ∉ path)
    (hlen : path.length ≤ 255) (hlt : content.length < 2 ^ 32)
    (hmore : 64 * (k + 2) < content.length) :
    ∃ g', messageHandler ⟨true, true⟩ ⟨.zero, some 0, none⟩ (serverAnswer content path k) g =
        .ok g' ∧
      Downloading content path (k + 1) g' := by
  have hnum := (hg.num hlt).1
  have hbound := hg.num_lt hlt
  rcases serverAnswer_low content k with ⟨hlow, hszx, hiff⟩
  rcases entry_of_data hg.data with ⟨hreq, -, hpath, hp⟩
  rcases download_path 0x61 0 hz hlen with ⟨hterm, hcstr⟩
  have hone := letter_length_le 0x61
  rw [← hpath] at hterm hcstr
  rcases blockAnswer_more (blockBytes content (k + 1) 2) hone hlen hbound hlow
    (hiff.mpr hmore) hg.writable hreq hp hterm with
    ⟨g', hrun, hlist, hpara, hw, block, hkey, hvalue, -, hsent⟩
  rcases downloading_append hg hlt with ⟨hroom, hmegleg, hgot⟩
  -- With more to come the block is a full one.
  have hfull : (blockBytes content (k + 1) 2).length = 64 := by
    rw [blockBytes_length]
    omega
  have hself : g'.para 0 = (g.para 0).append (blockBytes content (k + 1) 2) := by
    rw [hpara]
    exact Function.update_self _ _ _
  have hmegleg' : (g'.para 0).megleg.toNat = 64 * (k + 1) := by
    rw [hself, hmegleg, hfull]
    omega
  refine ⟨g', hrun, ?_⟩
  constructor
  · rw [hlist]
    exact hg.holds
  · rw [hlist]
    exact hg.data
  · exact hw
  · -- The request for the next block, as the server reads it.
    rcases nextBlockPdu_block block (g.list.node 0) g (Or.inr hkey) hterm with ⟨v, hv, hvvalue⟩
    have hblocknum : (coapOptBlockNum block.value + 1).toNat = k + 2 := by
      rw [hvalue, blockValue_num _ _ hbound hlow, UInt32.toNat_add, hnum,
        show (1 : UInt32).toNat = 1 from rfl]
      omega
    have hblockszx : (coapOptBlockSzx block.value).toNat = 2 := by
      rw [hvalue, blockValue_szx _ _ hbound hlow]
      exact hszx
    have hnext : (coapOptBlockNum block.value + 1).toNat < 2 ^ 28 := by
      rw [hblocknum]
      omega
    have hlow' : (coapOptBlockSzx block.value).toNat < 16 := by
      rw [hblockszx]
      omega
    refine ⟨nextBlockPdu block (g.list.node 0) g, ?_, ?_, v, hv, ?_, ?_⟩
    · rw [hsent]
      exact List.mem_append_right _ (List.mem_singleton_self _)
    · exact (nextBlockPdu_path block (g.list.node 0) g (isBlockKey_of_block (Or.inr hkey))
        hterm).trans
        (congrArg some hcstr)
    · rw [hvvalue, blockValue_num _ _ hnext hlow', hblocknum]
    · rw [hvvalue, blockValue_szx _ _ hnext hlow', hblockszx]
  · rw [hself]
    exact hroom
  · exact hmegleg'
  · rw [← hself, SPthreadPara.delivered, hmegleg'] at hgot
    exact hgot
  · exact Or.inr hmore

/-- The last answer completes it with all but the first 64 bytes. -/
theorem downloading_last (hg : Downloading content path k g) (hlen : path.length ≤ 255)
    (hlt : content.length < 2 ^ 32) (hlast : content.length ≤ 64 * (k + 2)) :
    ∃ g', messageHandler ⟨true, true⟩ ⟨.zero, some 0, none⟩ (serverAnswer content path k) g =
        .ok g' ∧
      g'.list.live 0 = false ∧ (g'.para 0).delivered = content.drop 64 := by
  have hbound := hg.num_lt hlt
  rcases serverAnswer_low content k with ⟨hlow, hszx, hiff⟩
  rcases entry_of_data hg.data with ⟨hreq, -, -, hp⟩
  have hone := letter_length_le 0x61
  have hless : (if 64 * (k + 2) < content.length then 10 else 2 : UInt32).toNat < 8 :=
    Nat.lt_of_not_le (fun hc => Nat.not_lt.mpr hlast (hiff.mp hc))
  rcases blockAnswer_last (blockBytes content (k + 1) 2) hone hlen hbound hless hg.writable
    hreq hp hg.holds (List.mem_singleton_self _) with ⟨g', hrun, hgone, hdelivered, -⟩
  refine ⟨g', hrun, hgone, hdelivered.trans ((downloading_append hg hlt).2.2.trans ?_)⟩
  refine List.take_of_length_le ?_
  rw [List.length_drop]
  omega

/-- A run ends with the completion of the download, all but the first 64 bytes
    delivered. -/
def Finishes (content path : List UInt8) (g : Gateway) (es : List Event) : Prop :=
  ∃ pre r l received h h', es = pre ++ [.response r l received] ∧ Path Steps g pre h ∧
    messageHandler r l received h = .ok h' ∧ h.list.live 0 = true ∧ h'.list.live 0 = false ∧
    (h.list.node 0).data = (download 0x61 0 path).data ∧
    (h'.para 0).delivered = content.drop 64

theorem finishes_cons {g g' : Gateway} {e : Event} {es : List Event}
    (hstep : Steps g e g') (h : Finishes content path g' es) :
    Finishes content path g (e :: es) := by
  rcases h with ⟨pre, r, l, received, h₁, h₂, hes, hpre, hrest⟩
  exact ⟨e :: pre, r, l, received, h₁, h₂, by rw [hes, List.cons_append],
    Path.cons g g' h₁ e pre hstep hpre, hrest⟩

-- Induction on the number of blocks beyond the next one.
theorem downloading_finishes (hz : (0 : UInt8) ∉ path) (hlen : path.length ≤ 255)
    (hlt : (contents path).length < 2 ^ 32) (n k : Nat) (g : Gateway)
    (hg : Downloading (contents path) path k g)
    (hn : (contents path).length ≤ 64 * (k + 2) + 64 * n) :
    ∃ es, Along Steps (FromServer contents) g es ∧ Finishes (contents path) path g es := by
  have hfrom : ∀ k g, Downloading (contents path) path k g → FromServer contents g
      (.response ⟨true, true⟩ ⟨.zero, some 0, none⟩ (serverAnswer (contents path) path k)) :=
    fun k g hg => downloading_from hg hz hlen hlt ⟨true, true⟩ ⟨.zero, some 0, none⟩
  induction n generalizing k g with
  | zero =>
      rcases downloading_last hg hlen hlt (by omega) with ⟨g', hrun, hgone, hdelivered⟩
      refine ⟨[.response ⟨true, true⟩ ⟨.zero, some 0, none⟩ (serverAnswer (contents path) path k)],
        ⟨hfrom k g hg, fun _ _ => trivial⟩, [], _, _, _, g, g', rfl, Path.nil g, hrun, ?_, hgone,
        hg.data, hdelivered⟩
      exact (hg.holds.live 0).mpr (List.mem_singleton_self _)
  | succ n ih =>
      -- If this block is the last one already, fewer would have done.
      by_cases hmore : 64 * (k + 2) < (contents path).length
      · rcases downloading_more hg hz hlen hlt hmore with ⟨g', hrun, hg'⟩
        rcases ih (k + 1) g' hg' (by omega) with ⟨es, halong, hfinish⟩
        refine ⟨
          .response ⟨true, true⟩ ⟨.zero, some 0, none⟩ (serverAnswer (contents path) path k) :: es,
          ⟨hfrom k g hg, fun t ht => ?_⟩, finishes_cons hrun hfinish⟩
        exact Except.ok.inj (hrun.symm.trans ht) ▸ halong
      · exact ih k g hg (by omega)

end Downloads

/-- The start, where every requester has a buffer of a given size. -/
def startGateway (n : Nat) : Gateway :=
  initialGateway .zero 0 (fun _ => ⟨List.replicate n 0, 0, 0, false⟩)

section Runs

variable (contents : List UInt8 → List UInt8) {path : List UInt8}

theorem download_start (hz : (0 : UInt8) ∉ path) (hlen : path.length ≤ 255) :
    ∃ g, Steps (startGateway (contents path).length)
        (.message ⟨true, true⟩ 0 (download 0x61 0 path)) g ∧
      FromServer contents (startGateway (contents path).length)
        (.message ⟨true, true⟩ 0 (download 0x61 0 path)) ∧
      Downloading (contents path) path 0 g ∧ g.para = (startGateway (contents path).length).para ∧
      g.tmp.req = .ltuTxBlock ∧ g.list.fresh = 1 := by
  rcases download_path 0x61 0 hz hlen with ⟨hterm, hcstr⟩
  have hstored : (startGateway (contents path).length).tmp.req ≠ .ltuNoAck := nofun
  rcases receive_block ⟨true, true⟩ 0 (download 0x61 0 path) (startGateway (contents path).length)
    hstored rfl hterm with ⟨g, hrun, hsent, htmp, hlist, hpath⟩
  have hpara := (receive_ok hstored hrun).2.1
  have hterm' : Terminated (stored 0 (download 0x61 0 path)
    (startGateway (contents path).length)).tmp.respath.bytes := hterm
  rcases firstBlockPdu_blockOption _ hterm' with ⟨v, hv, hvalue⟩
  refine ⟨g, hrun, ?_, ?_, hpara, htmp ▸ rfl, hlist ▸ rfl⟩
  · intro _ p _
    refine ⟨rfl, ?_, fun i hi => absurd hi nofun⟩
    rw [hcstr]
    exact Nat.le_of_eq List.length_replicate.symm
  · constructor
    · rw [hlist]
      exact add_holds RequestHeap.empty [] _ empty_holds
    · rw [hlist]
      exact add_data RequestHeap.empty _ 0
    · rw [hpath]
      exact ⟨_, rfl, rfl⟩
    · refine ⟨firstBlockPdu (stored 0 (download 0x61 0 path) (startGateway (contents path).length)),
        ?_, (firstBlockPdu_path _ hterm').trans (congrArg some hcstr), v, hv, ?_, ?_⟩
      · rw [hsent, if_pos rfl]
        exact List.mem_append_right _ (List.mem_singleton_self _)
      · rw [hvalue]
        decide
      · rw [hvalue]
        decide
    · rw [hpara]
      exact List.length_replicate
    · rw [hpara]
      rfl
    · rw [Nat.mul_zero, List.take_zero, List.take_zero]
    · exact Or.inl rfl

/-- An undisturbed download: everything but the first 64 bytes. -/
theorem download_delivers (hz : (0 : UInt8) ∉ path) (hlen : path.length ≤ 255)
    (hlt : (contents path).length < 2 ^ 32) :
    ∃ es, Along Steps (FromServer contents) (startGateway (contents path).length) es ∧
      Finishes (contents path) path (startGateway (contents path).length) es := by
  rcases download_start contents hz hlen with ⟨g, hstep, hfrom, hg, -⟩
  rcases downloading_finishes hz hlen hlt (contents path).length 0 g hg (by omega) with
    ⟨es, halong, hfinish⟩
  refine ⟨_ :: es, ⟨hfrom, fun t ht => ?_⟩, finishes_cons hstep hfinish⟩
  exact Except.ok.inj (hstep.symm.trans ht) ▸ halong

theorem empty_of_finishes {s : Gateway} {es : List Event} (hz : (0 : UInt8) ∉ path)
    (hlen : path.length ≤ 255) (h : Along Steps (Downloads contents) s es)
    (hf : Finishes (contents path) path s es) : contents path = [] := by
  rcases hf with ⟨pre, r, l, received, g, g', hes, hpre, hrun, hlive, hgone, hdata, hdelivered⟩
  subst hes
  rcases entry_of_data hdata with ⟨hreq, -, hpath, hp⟩
  have hwhole := (along_at h hpre g' hrun 0 0 hlive hp).1 hreq hgone
  rw [hpath, (download_path 0x61 0 hz hlen).2, hdelivered] at hwhole
  -- A content equal to itself without its first 64 bytes is empty.
  have hlength := congrArg List.length hwhole
  rw [List.length_drop] at hlength
  exact List.eq_nil_of_length_eq_zero (by omega)

/-- A second download of the same path, started while the first one runs: its
    entry is behind the first, and the first one's request is still out. -/
theorem second_download {g : Gateway} (hg : Downloading (contents path) path 0 g)
    (htmp : g.tmp.req = .ltuTxBlock) (hfresh : g.list.fresh = 1) (hz : (0 : UInt8) ∉ path)
    (hlen : path.length ≤ 255) :
    ∃ g', Steps g (.message ⟨true, true⟩ 0 (download 0x62 1 path)) g' ∧ Holds g'.list [0, 1] ∧
      (g'.list.node 0).data = (download 0x61 0 path).data ∧
      (g'.list.node 1).data = (download 0x62 1 path).data ∧ g'.para = g.para ∧
      sentPdus g.outputs ⊆ sentPdus g'.outputs ∧
      ∃ st, g'.path.s = some st ∧ st.writable = true := by
  rcases download_path 0x62 1 hz hlen with ⟨hterm, -⟩
  have hstored : g.tmp.req ≠ .ltuNoAck := by
    rw [htmp]
    exact nofun
  rcases receive_block ⟨true, true⟩ 0 (download 0x62 1 path) g hstored rfl hterm with
    ⟨g', hrun, hsent, -, hlist, hpath⟩
  have hdata := add_data g.list { download 0x62 1 path with time := 0 }
  rw [hfresh] at hdata
  refine ⟨g', hrun, ?_, ?_, ?_, (receive_ok hstored hrun).2.1, ?_, ?_⟩
  · rw [hlist]
    exact hfresh ▸ add_holds g.list [0] _ hg.holds
  · rw [hlist]
    refine (hdata 0).trans ?_
    rw [if_neg Nat.zero_ne_one]
    exact hg.data
  · rw [hlist]
    exact hdata 1
  · rw [hsent]
    exact List.subset_append_left _ _
  · rw [hpath]
    exact ⟨_, rfl, rfl⟩

/-- An answer for one download, handled for another of the same path. -/
theorem misdirected (hz : (0 : UInt8) ∉ path) (hlen : path.length ≤ 255)
    (hlarge : 128 < (contents path).length) :
    ∃ es, Along Steps (FromServer contents) (startGateway (contents path).length) es ∧
      ¬ Along Steps (Downloads contents) (startGateway (contents path).length) es := by
  rcases download_start contents hz hlen with
    ⟨g, hstep, hfrom, hg, hpara, htmp, hfresh⟩
  rcases download_path 0x62 1 hz hlen with ⟨hterm, hcstr⟩
  rcases second_download contents hg htmp hfresh hz hlen with
    ⟨g', hrun, hh, hzero, hone, hpara', hsent, hw⟩
  rcases entry_of_data hone with ⟨hreq, haddr, hrespath, hp⟩
  have hletter := letter_length_le 0x61
  rcases serverAnswer_low (contents path) 0 with ⟨hlow, -, hiff⟩
  have hnum : (UInt32.ofNat (0 + 1)).toNat < 2 ^ 28 := by decide
  have hterm' : Terminated (g'.list.node 1).respath.bytes := by
    rw [hrespath]
    exact hterm
  -- The pointer holds the second download while the answer is for the first.
  rcases blockAnswer_more (blockBytes (contents path) 1 2) hletter hlen hnum
    hlow (hiff.mpr hlarge) hw hreq hp hterm' with
    ⟨g'', hrun', -, hpara'', -⟩
  refine ⟨[.message ⟨true, true⟩ 0 (download 0x61 0 path),
    .message ⟨true, true⟩ 0 (download 0x62 1 path),
    .response ⟨true, true⟩ ⟨.zero, some 1, none⟩ (serverAnswer (contents path) path 0)], ?_, ?_⟩
  · refine ⟨hfrom, fun t ht => ?_⟩
    cases hstep.symm.trans ht
    refine ⟨fun _ p hsome => ?_, fun t' ht' => ?_⟩
    · cases hsome
      rw [hpara, hcstr]
      refine ⟨rfl, Nat.le_of_eq List.length_replicate.symm, fun i hi => ?_⟩
      have hi' : i = 0 := List.mem_singleton.mp ((hg.holds.live i).mp hi)
      rw [hi', (entry_of_data hg.data).2.2.2]
      exact nofun
    · cases hrun.symm.trans ht'
      rcases hg.asked with ⟨pdu, hpdu, hasks, v, hv, hvnum, hvszx⟩
      exact ⟨⟨0, pdu, hh.bounded 0 (by decide), (entry_of_data hzero).1, hsent hpdu,
        serverAnswer_answers hz hlen hzero (by decide) hasks hv hvnum hvszx⟩, fun _ _ => trivial⟩
  · intro h
    -- The second requester got a block that is not an answer to it.
    have hkept := (((h.2 g hstep).2 g' hrun).1 g'' hrun' 1 1 ((hh.live 1).mpr (by decide)) hp).2 ?_
    · have hzeroleg : (g'.para 1).megleg = 0 := by
        rw [hpara', hpara]
        rfl
      have hlength : (blockBytes (contents path) (0 + 1) 2).length = 64 := by
        rw [blockBytes_length]
        omega
      have hgrown := hkept.2
      rw [hpara'', Function.update_self, SPthreadPara.append, hlength, hzeroleg] at hgrown
      exact absurd (show (0 : UInt32) + UInt32.ofNat 64 = 0 from hgrown) (by decide)
    · rintro ⟨hhost, -⟩
      rw [haddr, download_host (by decide)] at hhost
      have hfirst : NamesHost (serverAnswer (contents path) path 0) [0x61] :=
        blockAnswer_host _ _ _ _ _ hletter hlen
      exact absurd (Option.some.inj (hfirst.symm.trans hhost)) (by decide)

end Runs

/-- Every download of every run is right if and only if there is nothing to
    download: no path has a content other than the empty one. -/
theorem downloadsWhole_iff (contents : List UInt8 → List UInt8) :
    DownloadsWhole contents ↔
      ∀ path, (0 : UInt8) ∉ path → path.length ≤ 255 → contents path = [] := by
  refine ⟨fun h path hz hlen => ?_, downloads_of_empty⟩
  by_cases hlt : (contents path).length < 2 ^ 32
  · rcases download_delivers contents hz hlen hlt with ⟨es, hfrom, hfinish⟩
    exact empty_of_finishes contents hz hlen (h _ _ _ _ hfrom) hfinish
  · rcases misdirected contents hz hlen (by omega) with ⟨es, hfrom, hnot⟩
    exact absurd (h _ _ _ _ hfrom) hnot

/-- A resource of one byte arrives as nothing. -/
theorem not_downloadsWhole_oneByte : ¬ DownloadsWhole (fun _ => [0x41]) := by
  intro h
  have hz : (0 : UInt8) ∉ pollPath := by decide
  have hlen : pollPath.length ≤ 255 := by decide
  rcases download_delivers (fun _ => [0x41]) hz hlen (by decide) with ⟨es, hfrom, hfinish⟩
  have hempty := empty_of_finishes (fun _ => [0x41]) hz hlen (h _ _ _ _ hfrom) hfinish
  exact absurd hempty (by decide)

end CoapThread
