import CoapThread.Core.State

/-!
# Handling Responses

`message_handler`: what the gateway does with a PDU the library has matched to
one of its requests.

Three of the handler's locals are read without having been assigned: the
pointer to the pending entry, whose lookup is commented out, the key the
lookup would have used, apart from the two fields filled from the options, and
the payload pointer of the measurement branch. They are arguments here, so
that a statement about every run is one about every value they may hold.

The measurement branch stands under a test of the pointer `memcpy` returns.
That is the destination, so the test can only pass after the copy has already
faulted; `contentBranch_eq` is that fact. The branch is kept as the operation
it was meant to be.

The received options are copied into fields of a fixed size under their own
length. What a longer option writes behind the field lands in the rest of the
key, which is cleared or not read again. The key has 304 bytes. An option that
goes beyond them runs over the frame of the handler, and from there on the
model says nothing of the program: it goes on as if the frame were intact.

## Main definitions

* `HandlerLocals`: The locals read unassigned.
* `responseKey`: The key of the lookup.
* `memcpyPath`: The copy into the request path.
* `markDevice`, `countAnswer`: A response's effect on the device table.
* `measurementBranch`: The branch for a poll's answer.
* `respond`: What it does to the device table.
* `appendData`, `nextBlockRequest`, `completeRequest`, `blockBranch`: The branch
  for a block.
* `messageHandler`: The handler.
* `Handled`: The ways it returns.
* `AsksFor`: A response makes it ask for the next block.

## Theorems

* `contentBranch_eq`: The measurement branch is never entered.
* `completeRequest_iff`: Where a download completes.
* `blockBranch_other`, `blockBranch_block`: What the branch for a block does.
* `messageHandler_handled`: The ways the handler returns.
* `messageHandler_sends`: What it sends.
* `measurementBranch_ok`, `measurementBranch_respond`: What the measurement
  branch does where it returns.
* `respond_ok`, `respond_count`, `respond_names`: What an answer does to the
  device table.
* `markDevice_succ`: One turn of the search loop.
-/

namespace CoapThread

open CBytes DeltaOption

/-- The locals of the handler it reads before it assigns them. -/
structure HandlerLocals where
  cnr : SCoAPNewRequest
  cnrList : Option NodeId
  databuf : Option (List UInt8)

/-- The key of the lookup: the first host and the first path option copied
    over zeros. Nothing when either is missing. -/
def responseKey (received : CoapPdu) (cnr : SCoAPNewRequest) : Option SCoAPNewRequest :=
  match coapCheckOption received coapOptionUriHost with
  | none => none
  | some host => match coapCheckOption received coapOptionUriPath with
    | none => none
    | some path =>
      some { cnr with addr := Buf.ofList 15 host.value, respath := Buf.ofList 256 path.value }

/-- `memcpy(path.s, value, 14)`: the length is the poll path's, not the
    option's. -/
def memcpyPath (path : Str) (value : List UInt8) : Except Fault Str :=
  match path.s with
  | none => .error .nullDeref
  | some st =>
    if value.length < 14 then .error .overread
    else if st.writable then
      .ok { path with s := some { st with bytes := overwrite st.bytes 0 (value.take 14) } }
    else .error .readOnly

/-- The search loop of the measurement branch over the first `n` entries: the
    first whose six bytes behind `LTU` make `memcmp` nonzero is marked. -/
def markDevice (host : List UInt8) : Nat → List LTUInfor → Except Fault (List LTUInfor)
  | 0, es => .ok es
  | _ + 1, [] => .error .overread
  | n + 1, e :: es => match memcmp host (e.name.bytes.drop 3) 6 with
    | none => .error .overread
    | some true => .ok ({ e with state := 1 } :: es)
    | some false => (markDevice host n es).map (e :: ·)

/-- Count an answer, and whether the round is complete by it. -/
def countAnswer (d : SDeviceInfo) : SDeviceInfo × Bool :=
  ({ d with count := d.count + 1 }, d.count + 1 == d.num)

/-- The measurement branch as an operation on the device table, and whether it
    signals the round. -/
def respond (host : List UInt8) (d : SDeviceInfo) : Except Fault (SDeviceInfo × Bool) :=
  match markDevice host d.num.toNat d.pLTUInfo with
  | .error f => .error f
  | .ok entries => .ok (countAnswer { d with pLTUInfo := entries })

def numCharTable : List UInt8 := "0123456789ABCDEF".toList.map (fun c => UInt8.ofNat c.toNat)

/-- The digits of the first `length` bytes, written out with a NUL. -/
def hexArrayToString (hexarray : List UInt8) (length : Nat) (string : List UInt8) : List UInt8 :=
  let digits := (hexarray.take length).flatMap (fun (b : UInt8) =>
    [numCharTable.getD (b >>> 4).toNat 0, numCharTable.getD (b &&& 0x0f).toNat 0])
  overwrite string 0 (digits ++ [0])

/-- The names the measured values are stored under, without the device. -/
def daName : List (List UInt8) :=
  ["Bay01_MC/MMXU1$MX$A$phsA$cVal$mag$f", "Bay01_MC/MMXU1$MX$A$phsB$cVal$mag$f",
    "Bay01_MC/MMXU1$MX$A$phsC$cVal$mag$f", "Bay01_MC/MMXU1$MX$A$res$cVal$mag$f",
    "Bay01_MC/MMXU1$MX$PhV$phsA$cVal$mag$f", "Bay01_MC/MMXU1$MX$PhV$phsB$cVal$mag$f",
    "Bay01_MC/MMXU1$MX$PhV$phsC$cVal$mag$f", "Bay01_MC/MMXU1$MX$W$phsA$cVal$mag$f",
    "Bay01_MC/MMXU1$MX$W$phsB$cVal$mag$f", "Bay01_MC/MMXU1$MX$W$phsC$cVal$mag$f",
    "Bay01_MC/MMXU1$MX$VAr$phsA$cVal$mag$f", "Bay01_MC/MMXU1$MX$VAr$phsB$cVal$mag$f",
    "Bay01_MC/MMXU1$MX$VAr$phsC$cVal$mag$f", "Bay01_MC/MMXU1$MX$VA$phsA$cVal$mag$f",
    "Bay01_MC/MMXU1$MX$VA$phsB$cVal$mag$f", "Bay01_MC/MMXU1$MX$VA$phsC$cVal$mag$f",
    "Bay01_MC/MMXU1$MX$PF$phsA$cVal$mag$f", "Bay01_MC/MMXU1$MX$PF$phsB$cVal$mag$f",
    "Bay01_MC/MMXU1$MX$PF$phsC$cVal$mag$f", "Bay01_MC/MMXU1$MX$Hz$mag$f",
    "Bay01_MC/GGIO1$ST$Ind2$stVal"].map (fun s => s.toList.map (fun c => UInt8.ofNat c.toNat))

/-- The saving loops: four bytes of the payload for each name in turn. -/
def saveLoop (ctxname : List UInt8) : List Nat → List UInt8 → Except Fault (List Output)
  | [], _ => .ok []
  | i :: is, databuf =>
    if databuf.length < 4 then .error .overread
    else (saveLoop ctxname is (databuf.drop 4)).map
      (.saveDouble (cstr ctxname ++ daName.getD i []) (databuf.take 4) :: ·)

/-- The order the four loops save in. -/
def saveOrder : List Nat :=
  List.range 7 ++ (List.range 9).map (7 + ·) ++ (List.range 3).map (16 + ·) ++ [19]

/-- The branch for a poll's answer. The hex digits are written over the option
    of the received PDU: source and destination of the conversion are swapped. -/
def measurementBranch (l : HandlerLocals) (received : CoapPdu) (g : Gateway) :
    Except Fault (CoapPdu × Gateway) :=
  match coapCheckOption received coapOptionUriHost with
  | none => .error .nullDeref
  | some host =>
    match markDevice host.bytes g.deviceInfo.num.toNat g.deviceInfo.pLTUInfo with
    | .error f => .error f
    | .ok entries =>
      let ctxname : List UInt8 := [0x4c, 0x54, 0x55, 0, 0, 0, 0, 0, 0]
      -- `host.bytes` runs from the option to the end of the PDU, so this is what
      -- stands in front of it.
      let before := received.wire.take (received.wire.length - host.bytes.length)
      let received :=
        { received with wire := before ++ hexArrayToString (ctxname.drop 3) 6 host.bytes }
      match l.databuf with
      | none => .error .wildPointer
      | some databuf => match saveLoop ctxname saveOrder databuf with
        | .error f => .error f
        | .ok saves =>
          let d := countAnswer { g.deviceInfo with pLTUInfo := entries }
          .ok (received, { g with deviceInfo := d.1 }.emit
            (saves ++ if d.2 then [Output.signalYC] else []))

/-- A copy to the end of the requester's buffer. -/
def SPthreadPara.append (para : SPthreadPara) (databuf : List UInt8) : SPthreadPara :=
  { para with
    msg := overwrite para.msg para.megleg.toNat databuf
    megleg := para.megleg + UInt32.ofNat databuf.length }

/-- The requesters once the payload, where the PDU has one, is appended. -/
def appended (received : CoapPdu) (entry : SCoAPNewRequest) (para : ParaId → SPthreadPara) :
    ParaId → SPthreadPara :=
  match coapGetData received, entry.pthpara with
  | some databuf, some p => Function.update para p ((para p).append databuf)
  | _, _ => para

/-- Append the payload. -/
def appendData (received : CoapPdu) (entry : SCoAPNewRequest) (g : Gateway) :
    Except Fault Gateway :=
  if coapGetData received ≠ none ∧ entry.pthpara = none then .error .nullDeref
  else .ok { g with para := appended received entry g.para }

/-- The options of the request for the block behind the received one. -/
def nextBlockOptions (blktype : Nat) (block : List UInt8) (entry : SCoAPNewRequest) : List Opt :=
  let buf := coapEncodeVarBytes ((coapOptBlockNum block + 1) <<< 4 ||| coapOptBlockSzx block)
  coapInsert orderOpts
    (coapInsert orderOpts
      (coapInsert orderOpts []
        (newOptionNode coapOptionUriHost (strlen entry.addrBytes) entry.addrBytes))
      (newOptionNode coapOptionUriPath (strlen entry.respath.bytes) entry.respath.bytes))
    (newOptionNode blktype buf.length buf)

/-- Build and send the request for the next block. -/
def nextBlockRequest (r : LibcoapResult) (blktype : Nat) (block : List UInt8)
    (entry : SCoAPNewRequest) (g : Gateway) : Except Fault Gateway :=
  if Terminated entry.respath.bytes then
    let optlist := nextBlockOptions blktype block entry
    match coapNewRequest r.allocated g.token g.messageId coapMessageCon coapRequestGet []
      optlist with
    -- The PDU is shown before its pointer is tested.
    | (_, _, none) => .error .nullDeref
    | (token, messageId, some pdu) =>
      let g := { g with token := token, messageId := messageId }.emit [.sendConfirmed (some pdu)]
      let g := if r.accepted then g else g.emit [.deletePdu pdu]
      .ok (g.emit [.deleteList optlist])
  else .error .overread

/-- Tell the requester that its download is complete and drop the entry. -/
def completeRequest (el : NodeId) (g : Gateway) : Except Fault Gateway :=
  match (g.list.node el).pthpara with
  | none => .error .nullDeref
  | some p => release false el p g

/-- The branch for a block. -/
def blockBranch (r : LibcoapResult) (l : HandlerLocals) (received : CoapPdu) (g : Gateway) :
    Except Fault Gateway :=
  match l.cnrList with
  | none => .error .wildPointer
  | some el =>
    if (g.list.node el).req = .ltuTxBlock then
      match appendData received (g.list.node el) g with
      | .error f => .error f
      | .ok g => match getBlock received with
        | none => .error .nullDeref
        | some block =>
          if coapOptBlockMore block.value then
            nextBlockRequest r block.key block.value (g.list.node el) g
          else completeRequest el g
    else .ok g

/-- A 2.05 response. -/
def contentBranch (r : LibcoapResult) (l : HandlerLocals) (received : CoapPdu) (value : List UInt8)
    (g : Gateway) : Except Fault Gateway :=
  match memcpyPath g.path value with
  | .error f => .error f
  | .ok path =>
    let g := { g with path := path }
    if path.s = none then
      if g.ycRequest then
        match measurementBranch l received g with
        | .error f => .error f
        | .ok (received, g) => blockBranch r l received g
      else .ok g
    else blockBranch r l received g

/-- The state once a PDU is acknowledged, where it asks for that. -/
def acked (received : CoapPdu) (g : Gateway) : Gateway :=
  g.emit (if received.type = coapMessageCon then [.ack] else [])

/-- Handle a PDU. -/
def messageHandler (r : LibcoapResult) (l : HandlerLocals) (received : CoapPdu) (g : Gateway) :
    Except Fault Gateway :=
  if received.type = coapMessageRst then .ok (acked received g)
  else match responseKey received l.cnr with
    | none => .ok (acked received g)
    | some _ =>
      if received.code = coapResponseCode 205 then
        match coapCheckOption received coapOptionUriPath with
        | none => .error .nullDeref
        | some path => contentBranch r l received path.bytes (acked received g)
      else .ok (acked received g)

theorem memcpyPath_ok {path path' : Str} {value : List UInt8}
    (h : memcpyPath path value = .ok path') :
    ∃ st, path.s = some st ∧ st.writable = true ∧ 14 ≤ value.length ∧
      path' = { path with
        s := some { st with bytes := overwrite st.bytes 0 (value.take 14) } } := by
  unfold memcpyPath at h
  cases hs : path.s with
  | none =>
      rw [hs] at h
      cases h
  | some st =>
      rw [hs] at h
      simp only [] at h
      by_cases hlen : value.length < 14
      · rw [if_pos hlen] at h
        cases h
      · rw [if_neg hlen] at h
        by_cases hw : st.writable = true
        · rw [if_pos hw] at h
          cases h
          exact ⟨st, rfl, hw, by omega, rfl⟩
        · rw [if_neg hw] at h
          cases h

/-- The measurement branch is never entered: the copy in front of it faults
    where the pointer it tests is null. -/
theorem contentBranch_eq (r : LibcoapResult) (l : HandlerLocals) (received : CoapPdu)
    (value : List UInt8) (g : Gateway) :
    contentBranch r l received value g = match memcpyPath g.path value with
      | .error f => .error f
      | .ok path => blockBranch r l received { g with path := path } := by
  unfold contentBranch
  cases h : memcpyPath g.path value with
  | error f => rfl
  | ok path =>
      rcases memcpyPath_ok h with ⟨st, -, -, -, hpath⟩
      -- The copy has gone through, so its destination is not null.
      have hsome : ¬ (path.s = none) := by
        intro hnone
        rw [hpath] at hnone
        cases hnone
      simp only []
      rw [if_neg hsome]

/-- A PDU the handler goes on with: it is no reset, its code is 2.05, and both
    options are there. `value` is what the path option is followed by. -/
structure IsContent (received : CoapPdu) (value : List UInt8) : Prop where
  type : received.type ≠ coapMessageRst
  host : coapCheckOption received coapOptionUriHost ≠ none
  path : ∃ v, coapCheckOption received coapOptionUriPath = some v ∧ v.bytes = value
  code : received.code = coapResponseCode 205

/-- The state in front of the branch for a block. -/
def pathCopied (received : CoapPdu) (path : Str) (g : Gateway) : Gateway :=
  { acked received g with path := path }

/-- What is sent for the next block. -/
def nextBlockPdu (block : View) (entry : SCoAPNewRequest) (g : Gateway) : CoapPdu :=
  requestPdu g.token g.messageId coapMessageCon coapRequestGet []
    (nextBlockOptions block.key block.value entry)

/-- The outputs of a request for the next block. -/
def nextBlockOutputs (r : LibcoapResult) (block : View) (entry : SCoAPNewRequest) (g : Gateway) :
    List Output :=
  .sendConfirmed (some (nextBlockPdu block entry g)) ::
    ((if r.accepted then [] else [.deletePdu (nextBlockPdu block entry g)]) ++
      [.deleteList (nextBlockOptions block.key block.value entry)])

theorem sentPdus_acked (received : CoapPdu) (g : Gateway) :
    sentPdus (acked received g).outputs = sentPdus g.outputs := by
  simp only [acked, Gateway.emit, sentPdus_append]
  split_ifs <;> exact List.append_nil _

theorem sentPdus_nextBlock (r : LibcoapResult) (block : View) (entry : SCoAPNewRequest)
    (g : Gateway) :
    sentPdus (nextBlockOutputs r block entry g) = [nextBlockPdu block entry g] := by
  unfold nextBlockOutputs
  split_ifs <;> rfl

/-- The ways the handler returns. -/
inductive Handled (r : LibcoapResult) (l : HandlerLocals) (received : CoapPdu) (g : Gateway) :
    Gateway → Prop where
  /-- Nothing is done beyond the acknowledgement. -/
  | ignored : (∀ value, ¬ IsContent received value) → Handled r l received g (acked received g)
  /-- The entry is no block request; the path has been written. -/
  | other (value : List UInt8) (path : Str) (el : NodeId) :
      IsContent received value → memcpyPath g.path value = .ok path →
      l.cnrList = some el → (g.list.node el).req ≠ .ltuTxBlock →
      Handled r l received g (pathCopied received path g)
  /-- The next block is requested. -/
  | continued (value : List UInt8) (path : Str) (el : NodeId) (block : View) :
      IsContent received value → memcpyPath g.path value = .ok path →
      l.cnrList = some el → (g.list.node el).req = .ltuTxBlock →
      getBlock received = some block → coapOptBlockMore block.value = true →
      Terminated (g.list.node el).respath.bytes → r.allocated = true →
      (coapGetData received = none ∨ (g.list.node el).pthpara ≠ none) →
      Handled r l received g
        { pathCopied received path g with
          para := appended received (g.list.node el) g.para
          token := g.token + 1
          messageId := g.messageId + 1
          outputs := (acked received g).outputs ++ nextBlockOutputs r block (g.list.node el) g }
  /-- The download is complete. -/
  | completed (value : List UInt8) (path : Str) (el : NodeId) (block : View) (p : ParaId)
      (g' : Gateway) :
      IsContent received value → memcpyPath g.path value = .ok path →
      l.cnrList = some el → (g.list.node el).req = .ltuTxBlock →
      getBlock received = some block → coapOptBlockMore block.value = false →
      (g.list.node el).pthpara = some p →
      release false el p
        { pathCopied received path g with
          para := appended received (g.list.node el) g.para } = .ok g' →
      Handled r l received g g'

theorem isContent_iff (received : CoapPdu) (value : List UInt8) (cnr : SCoAPNewRequest) :
    IsContent received value ↔ received.type ≠ coapMessageRst ∧ responseKey received cnr ≠ none ∧
      received.code = coapResponseCode 205 ∧
      ∃ v, coapCheckOption received coapOptionUriPath = some v ∧ v.bytes = value := by
  have hkey : ∀ v, coapCheckOption received coapOptionUriPath = some v →
      (responseKey received cnr ≠ none ↔ coapCheckOption received coapOptionUriHost ≠ none) := by
    intro v hv
    unfold responseKey
    cases coapCheckOption received coapOptionUriHost with
    | none => simp only [ne_eq, not_true_eq_false]
    | some host =>
        rw [hv]
        simp only [ne_eq, reduceCtorEq, not_false_eq_true]
  constructor
  · rintro ⟨htype, hhost, ⟨v, hv, hval⟩, hcode⟩
    exact ⟨htype, (hkey v hv).mpr hhost, hcode, v, hv, hval⟩
  · rintro ⟨htype, hresp, hcode, v, hv, hval⟩
    exact ⟨htype, (hkey v hv).mp hresp, ⟨v, hv, hval⟩, hcode⟩

/-- A PDU that carries content goes to the branch for a block, with the path
    written; any other is ignored. -/
theorem messageHandler_content (r : LibcoapResult) (l : HandlerLocals) (received : CoapPdu)
    (g : Gateway) (value : List UInt8) (h : IsContent received value) :
    messageHandler r l received g = match memcpyPath g.path value with
      | .error f => .error f
      | .ok path => blockBranch r l received (pathCopied received path g) := by
  rcases (isContent_iff received value l.cnr).mp h with ⟨htype, hresp, hcode, v, hv, hval⟩
  unfold messageHandler
  rw [if_neg htype]
  rcases hkey : responseKey received l.cnr with _ | key
  · exact absurd hkey hresp
  · simp only []
    rw [if_pos hcode, hv]
    simp only []
    rw [contentBranch_eq, hval]
    rfl

theorem messageHandler_ignored (r : LibcoapResult) (l : HandlerLocals) (received : CoapPdu)
    (g : Gateway) (h : ∀ value, ¬ IsContent received value) :
    messageHandler r l received g = .ok (acked received g) := by
  unfold messageHandler
  by_cases htype : received.type = coapMessageRst
  · rw [if_pos htype]
  · rw [if_neg htype]
    rcases hkey : responseKey received l.cnr with _ | key
    · rfl
    · simp only []
      by_cases hcode : received.code = coapResponseCode 205
      · rcases hpath : coapCheckOption received coapOptionUriPath with _ | v
        · unfold responseKey at hkey
          rw [hpath] at hkey
          split at hkey <;> cases hkey
        · refine absurd
            ((isContent_iff received v.bytes l.cnr).mpr ⟨htype, ?_, hcode, v, hpath, rfl⟩)
            (h v.bytes)
          rw [hkey]
          exact Option.some_ne_none key
      · rw [if_neg hcode]

theorem appendData_ok {received : CoapPdu} {entry : SCoAPNewRequest} {g g' : Gateway}
    (h : appendData received entry g = .ok g') :
    (coapGetData received = none ∨ entry.pthpara ≠ none) ∧
      g' = { g with para := appended received entry g.para } := by
  unfold appendData at h
  split_ifs at h with hnull
  refine ⟨?_, (Except.ok.inj h).symm⟩
  by_contra hno
  rw [not_or, not_not] at hno
  exact hnull hno

theorem nextBlockRequest_eq (r : LibcoapResult) (block : View) (entry : SCoAPNewRequest)
    (g : Gateway) : nextBlockRequest r block.key block.value entry g =
      if Terminated entry.respath.bytes then
        if r.allocated then .ok { g with
          token := g.token + 1
          messageId := g.messageId + 1
          outputs := g.outputs ++ nextBlockOutputs r block entry g }
        else .error .nullDeref
      else .error .overread := by
  unfold nextBlockRequest coapNewRequest
  by_cases hterm : Terminated entry.respath.bytes
  · rw [if_pos hterm, if_pos hterm]
    cases halloc : r.allocated with
    | true =>
        cases hacc : r.accepted <;>
          simp only [hacc, nextBlockOutputs, nextBlockPdu, Gateway.emit, creatTheToken, if_true,
            Bool.false_eq_true, if_false, List.append_assoc, List.cons_append, List.nil_append]
    | false => rfl
  · rw [if_neg hterm, if_neg hterm]

/-- A download completes at the requester of its entry. -/
theorem completeRequest_iff {el : NodeId} {g g' : Gateway} :
    completeRequest el g = .ok g' ↔
      ∃ p, (g.list.node el).pthpara = some p ∧ release false el p g = .ok g' := by
  unfold completeRequest
  rcases hp : (g.list.node el).pthpara with _ | p
  · exact ⟨(fun h => nomatch h), fun ⟨p, hsome, _⟩ => nomatch hsome⟩
  · exact ⟨fun h => ⟨p, rfl, h⟩, fun ⟨_, hsome, hrel⟩ => Option.some.inj hsome ▸ hrel⟩

theorem blockBranch_ok {r : LibcoapResult} {l : HandlerLocals} {received : CoapPdu}
    {g g' : Gateway} (h : blockBranch r l received g = .ok g') :
    ∃ el, l.cnrList = some el ∧
      (((g.list.node el).req ≠ .ltuTxBlock ∧ g' = g) ∨
        ((g.list.node el).req = .ltuTxBlock ∧ ∃ g₁ block,
          appendData received (g.list.node el) g = .ok g₁ ∧ getBlock received = some block ∧
          if coapOptBlockMore block.value then
            nextBlockRequest r block.key block.value (g₁.list.node el) g₁ = .ok g'
          else completeRequest el g₁ = .ok g')) := by
  unfold blockBranch at h
  rcases hel : l.cnrList with _ | el
  · rw [hel] at h
    cases h
  rw [hel] at h
  simp only [] at h
  refine ⟨el, rfl, ?_⟩
  by_cases hreq : (g.list.node el).req = .ltuTxBlock
  · rw [if_pos hreq] at h
    rcases happ : appendData received (g.list.node el) g with f | g₁
    · rw [happ] at h
      cases h
    rw [happ] at h
    rcases hblock : getBlock received with _ | block
    · rw [hblock] at h
      cases h
    rw [hblock] at h
    refine Or.inr ⟨hreq, g₁, block, rfl, rfl, ?_⟩
    simp only [] at h
    split_ifs at h ⊢ <;> exact h
  · rw [if_neg hreq] at h
    exact Or.inl ⟨hreq, (Except.ok.inj h).symm⟩

theorem blockBranch_other {r : LibcoapResult} {l : HandlerLocals} {received : CoapPdu}
    {g : Gateway} {el : NodeId} (hel : l.cnrList = some el)
    (hreq : (g.list.node el).req ≠ .ltuTxBlock) : blockBranch r l received g = .ok g := by
  unfold blockBranch
  rw [hel]
  simp only []
  rw [if_neg hreq]

theorem blockBranch_block {r : LibcoapResult} {l : HandlerLocals} {received : CoapPdu}
    {g : Gateway} {el : NodeId} {block : DeltaOption.View} (hel : l.cnrList = some el)
    (hreq : (g.list.node el).req = .ltuTxBlock) (hblock : getBlock received = some block)
    (hdata : coapGetData received = none ∨ (g.list.node el).pthpara ≠ none) :
    blockBranch r l received g =
      let g := { g with para := appended received (g.list.node el) g.para }
      if coapOptBlockMore block.value then
        nextBlockRequest r block.key block.value (g.list.node el) g
      else completeRequest el g := by
  have hnull : ¬ (coapGetData received ≠ none ∧ (g.list.node el).pthpara = none) := by
    rintro ⟨hget, hnone⟩
    exact hdata.elim hget (fun h => h hnone)
  unfold blockBranch
  rw [hel]
  simp only []
  rw [if_pos hreq]
  unfold appendData
  rw [if_neg hnull, hblock]

theorem memcpyPath_writable {path : Str} {value : List UInt8} {st : Storage}
    (hs : path.s = some st) (hw : st.writable = true) (hlen : 14 ≤ value.length) :
    memcpyPath path value =
      .ok { path with s := some { st with bytes := overwrite st.bytes 0 (value.take 14) } } := by
  unfold memcpyPath
  rw [hs]
  simp only []
  rw [if_neg (Nat.not_lt.mpr hlen), if_pos hw]

/-- Every return of the handler is one of these. -/
theorem messageHandler_handled {r : LibcoapResult} {l : HandlerLocals} {received : CoapPdu}
    {g g' : Gateway} (h : messageHandler r l received g = .ok g') : Handled r l received g g' := by
  by_cases hc : ∃ value, IsContent received value
  · rcases hc with ⟨value, hc⟩
    rw [messageHandler_content r l received g value hc] at h
    rcases hmem : memcpyPath g.path value with f | path
    · rw [hmem] at h
      cases h
    rw [hmem] at h
    -- The kind of the entry decides, and for a block the more bit.
    rcases blockBranch_ok h with ⟨el, hel, ⟨hreq, hsame⟩ | ⟨hreq, g₁, block, happ, hblock, hrest⟩⟩
    · rw [hsame]
      exact Handled.other value path el hc hmem hel hreq
    · rcases appendData_ok happ with ⟨hdata, hg₁⟩
      subst hg₁
      by_cases hmore : coapOptBlockMore block.value = true
      · rw [if_pos hmore, nextBlockRequest_eq] at hrest
        split_ifs at hrest with hterm halloc
        rw [← Except.ok.inj hrest]
        exact Handled.continued value path el block hc hmem hel hreq hblock hmore hterm halloc hdata
      · rw [if_neg hmore] at hrest
        rw [Bool.not_eq_true] at hmore
        rcases completeRequest_iff.mp hrest with ⟨p, hp, hrel⟩
        exact Handled.completed value path el block p g' hc hmem hel hreq hblock hmore hp hrel
  · rw [messageHandler_ignored r l received g (fun value hv => hc ⟨value, hv⟩)] at h
    rw [← Except.ok.inj h]
    exact Handled.ignored (fun value hv => hc ⟨value, hv⟩)

/-- A response with a block to follow, and the step that asks for it. -/
structure AsksFor (l : HandlerLocals) (received : CoapPdu) (el : NodeId) (block : View)
    (g g' : Gateway) : Prop where
  content : ∃ value path, IsContent received value ∧ memcpyPath g.path value = .ok path
  cnrList : l.cnrList = some el
  req : (g.list.node el).req = .ltuTxBlock
  option : getBlock received = some block
  more : coapOptBlockMore block.value = true
  respath : Terminated (g.list.node el).respath.bytes
  data : coapGetData received = none ∨ (g.list.node el).pthpara ≠ none
  counter : g'.token = g.token + 1
  sent : sentPdus g'.outputs = sentPdus g.outputs ++ [nextBlockPdu block (g.list.node el) g]

/-- The handler sends nothing, or the request for the next block. -/
theorem messageHandler_sends {r : LibcoapResult} {l : HandlerLocals} {received : CoapPdu}
    {g g' : Gateway} (h : messageHandler r l received g = .ok g') :
    (g'.token = g.token ∧ sentPdus g'.outputs = sentPdus g.outputs) ∨
      ∃ el block, AsksFor l received el block g g' := by
  have hacked := sentPdus_acked received g
  cases messageHandler_handled h with
  | ignored | other => exact Or.inl ⟨rfl, hacked⟩
  | continued value path el block hc hmem hel hreq hblock hmore hterm _ hdata =>
      refine Or.inr ⟨el, block, ⟨value, path, hc, hmem⟩, hel, hreq, hblock, hmore, hterm, hdata,
        rfl, ?_⟩
      rw [sentPdus_append, sentPdus_nextBlock, hacked]
  | completed value path el block p _ _ _ _ _ _ _ _ hrel =>
      -- Completing a download signals and frees.
      rcases release_sends hrel with ⟨htoken, hsent⟩
      exact Or.inl ⟨htoken, hsent.trans hacked⟩

/-- Saving the values signals no round. -/
theorem saveLoop_signalYC {ctxname : List UInt8} {is : List Nat} {databuf : List UInt8}
    {saves : List Output} (h : saveLoop ctxname is databuf = .ok saves) :
    Output.signalYC ∉ saves := by
  induction is generalizing databuf saves with
  | nil =>
      rw [← Except.ok.inj h]
      exact List.not_mem_nil
  | cons i is ih =>
      unfold saveLoop at h
      by_cases hlen : databuf.length < 4
      · rw [if_pos hlen] at h
        cases h
      rw [if_neg hlen] at h
      rcases hrest : saveLoop ctxname is (databuf.drop 4) with f | rest
      · rw [hrest] at h
        cases h
      rw [hrest] at h
      rw [← Except.ok.inj h]
      intro hmem
      rcases List.mem_cons.mp hmem with hsave | hmem
      · cases hsave
      · exact ih hrest hmem

/-- Where the measurement branch returns, the device table has the entry of
    the host marked and the answer counted, and the round is signalled exactly
    when the count has reached the number of entries. -/
theorem measurementBranch_ok {l : HandlerLocals} {received received' : CoapPdu} {g g' : Gateway}
    {host : View} (hhost : coapCheckOption received coapOptionUriHost = some host)
    (h : measurementBranch l received g = .ok (received', g')) :
    ∃ entries saves,
      markDevice host.bytes g.deviceInfo.num.toNat g.deviceInfo.pLTUInfo = .ok entries ∧
      g'.deviceInfo = (countAnswer { g.deviceInfo with pLTUInfo := entries }).1 ∧
      g'.outputs = g.outputs ++ (saves ++
        if (countAnswer { g.deviceInfo with pLTUInfo := entries }).2 then [Output.signalYC]
        else []) ∧
      Output.signalYC ∉ saves := by
  unfold measurementBranch at h
  rw [hhost] at h
  simp only [] at h
  cases hmark : markDevice host.bytes g.deviceInfo.num.toNat g.deviceInfo.pLTUInfo with
  | error f =>
      rw [hmark] at h
      cases h
  | ok entries =>
      rw [hmark] at h
      cases hbuf : l.databuf with
      | none =>
          rw [hbuf] at h
          cases h
      | some databuf =>
          rw [hbuf] at h
          simp only [] at h
          cases hloop : saveLoop [0x4c, 0x54, 0x55, 0, 0, 0, 0, 0, 0] saveOrder databuf with
          | error f =>
              rw [hloop] at h
              cases h
          | ok saves =>
              rw [hloop] at h
              cases h
              exact ⟨entries, saves, rfl, rfl, rfl, saveLoop_signalYC hloop⟩

/-- Where the branch returns, it has done this operation. -/
theorem measurementBranch_respond {l : HandlerLocals} {received received' : CoapPdu}
    {g g' : Gateway} {host : DeltaOption.View}
    (hhost : coapCheckOption received coapOptionUriHost = some host)
    (h : measurementBranch l received g = .ok (received', g')) :
    ∃ signalled saves, respond host.bytes g.deviceInfo = .ok (g'.deviceInfo, signalled) ∧
      g'.outputs = g.outputs ++ (saves ++ if signalled then [Output.signalYC] else []) ∧
      Output.signalYC ∉ saves := by
  rcases measurementBranch_ok hhost h with ⟨entries, saves, hmark, hdev, hout, hsaves⟩
  refine ⟨_, saves, ?_, hout, hsaves⟩
  unfold respond
  rw [hmark, hdev]

/-- What the operation does where it returns. -/
theorem respond_ok {host : List UInt8} {d d' : SDeviceInfo} {signalled : Bool}
    (h : respond host d = .ok (d', signalled)) :
    ∃ entries, markDevice host d.num.toNat d.pLTUInfo = .ok entries ∧
      d' = { d with pLTUInfo := entries, count := d.count + 1 } ∧
      signalled = (d.count + 1 == d.num) := by
  -- Only the search can fail.
  unfold respond at h
  rcases hmark : markDevice host d.num.toNat d.pLTUInfo with f | entries
  · rw [hmark] at h
    cases h
  · rw [hmark] at h
    cases h
    exact ⟨entries, rfl, rfl, rfl⟩

/-- An answer raises the count by one and signals the round if that makes it
    the number of entries. -/
theorem respond_count {host : List UInt8} {d d' : SDeviceInfo} {signalled : Bool}
    (h : respond host d = .ok (d', signalled)) :
    d'.num = d.num ∧ d'.count = d.count + 1 ∧ signalled = (d.count + 1 == d.num) := by
  rcases respond_ok h with ⟨entries, -, hd', hsignalled⟩
  subst hd'
  exact ⟨rfl, rfl, hsignalled⟩

/-- One turn of the search loop: the entry it looks at is marked and the loop
    left, or passed over. -/
theorem markDevice_succ {host : List UInt8} {n : Nat} {es es' : List LTUInfor}
    (h : markDevice host (n + 1) es = .ok es') :
    ∃ e rest, es = e :: rest ∧
      ((memcmp host (e.name.bytes.drop 3) 6 = some true ∧ es' = { e with state := 1 } :: rest) ∨
        (memcmp host (e.name.bytes.drop 3) 6 = some false ∧
          ∃ rest', markDevice host n rest = .ok rest' ∧ es' = e :: rest')) := by
  cases es with
  | nil => cases h
  | cons e rest =>
      unfold markDevice at h
      rcases hcmp : memcmp host (e.name.bytes.drop 3) 6 with _ | differs
      · rw [hcmp] at h
        cases h
      rw [hcmp] at h
      refine ⟨e, rest, rfl, ?_⟩
      cases differs with
      | true => exact Or.inl ⟨hcmp, (Except.ok.inj h).symm⟩
      | false =>
          rcases hrest : markDevice host n rest with f | rest'
          · rw [hrest] at h
            cases h
          · rw [hrest] at h
            exact Or.inr ⟨hcmp, rest', rfl, (Except.ok.inj h).symm⟩

theorem markDevice_names {host : List UInt8} {n : Nat} {es es' : List LTUInfor}
    (h : markDevice host n es = .ok es') :
    es'.map (fun e => (e.name, e.failedcount)) = es.map (fun e => (e.name, e.failedcount)) := by
  induction n generalizing es es' with
  | zero => rw [← Except.ok.inj h]
  | succ n ih =>
      rcases markDevice_succ h with ⟨e, rest, hes, ⟨-, hes'⟩ | ⟨-, rest', hrest, hes'⟩⟩
      · -- The loop is left at the entry it marks.
        rw [hes, hes']
        rfl
      · rw [hes, hes', List.map_cons, List.map_cons, ih hrest]

/-- An answer changes no entry but in its state. -/
theorem respond_names {host : List UInt8} {d d' : SDeviceInfo} {signalled : Bool}
    (h : respond host d = .ok (d', signalled)) :
    d'.pLTUInfo.map (fun e => (e.name, e.failedcount)) =
      d.pLTUInfo.map (fun e => (e.name, e.failedcount)) := by
  rcases respond_ok h with ⟨entries, hmark, hd', -⟩
  subst hd'
  exact markDevice_names hmark

end CoapThread
