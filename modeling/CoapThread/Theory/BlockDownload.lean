import CoapThread.Theory.RequestPath

/-!
# Downloading a Resource Block by Block

Whether a requester gets the resource it asked for.

The server is a map from paths to contents. It answers a block request for
block `n` with the bytes of that block, the more bit where some remain, and
the host and the path of the pending request; an answer may come as often as
the network likes. `Downloads` is what is asked of each response: a request it
completes holds the whole content in its buffer, and the buffers of the
requests it is not for stay as they were.

A server that has nothing to say at any path is served well by any handler:
no response carries a payload, every buffer stays empty, and whichever request
is completed holds what it asked for. That is the one case in which `Downloads`
holds throughout, and the one this module settles.

## Main definitions

* `AnswersBlock`: The server's answer to a block request.
* `FromServer`: A step of a run in which every response is such an answer.
* `Downloads`: What is asked of a response.
* `DownloadsWhole`: The same in every run.

## Theorems

* `appended_getD`: What a payload adds to a requester.
* `response_kept`: A response without payload leaves every buffer alone.
* `downloads_of_empty`: With nothing to deliver nothing goes wrong.
-/

namespace CoapThread

open CBytes DeltaOption Machine

/-- The bytes of a block. -/
def blockBytes (content : List UInt8) (num szx : Nat) : List UInt8 :=
  (content.drop (num * 2 ^ (szx + 4))).take (2 ^ (szx + 4))

/-- The answer of a server with the given contents to a block request sent for
    a pending request. -/
structure AnswersBlock (content : List UInt8 → List UInt8) (m : SCoAPNewRequest)
    (pdu received : CoapPdu) : Prop where
  asked : Asks pdu (cstr m.respath.bytes)
  type : received.type ≠ coapMessageRst
  code : received.code = coapResponseCode 205
  host : NamesHost received (cstr m.addrBytes)
  path : Asks received (cstr m.respath.bytes)
  block : ∃ v w, pdu.blockOption = some v ∧ received.blockOption = some w ∧
    w.key = coapOptionBlock2 ∧
    coapOptBlockNum w.value = coapOptBlockNum v.value ∧
    coapOptBlockSzx w.value = coapOptBlockSzx v.value ∧
    (coapOptBlockMore w.value = true ↔
      ((coapOptBlockNum v.value).toNat + 1) * 2 ^ ((coapOptBlockSzx v.value).toNat + 4) <
        (content (cstr m.respath.bytes)).length) ∧
    (coapGetData received).getD [] = blockBytes (content (cstr m.respath.bytes))
      (coapOptBlockNum v.value).toNat (coapOptBlockSzx v.value).toNat

/-- A response answers a block request that has been sent, for a request that
    has been appended. A block request comes with a requester of its own,
    whose buffer is empty and large enough. -/
def FromServer (content : List UInt8 → List UInt8) (g : Gateway) : Event → Prop
  | .message _ _ m => m.req = .ltuTxBlock → ∀ p, m.pthpara = some p →
      (g.para p).megleg = 0 ∧ (content (cstr m.respath.bytes)).length ≤ (g.para p).msg.length ∧
        ∀ i, g.list.live i = true → (g.list.node i).pthpara ≠ some p
  | .response _ _ received => ∃ i pdu, i < g.list.fresh ∧ (g.list.node i).req = .ltuTxBlock ∧
      pdu ∈ sentPdus g.outputs ∧ AnswersBlock content (g.list.node i) pdu received
  | _ => True

/-- What a requester has been given. -/
def SPthreadPara.delivered (para : SPthreadPara) : List UInt8 := para.msg.take para.megleg.toNat

/-- A response is for a request. -/
def IsFor (received : CoapPdu) (m : SCoAPNewRequest) : Prop :=
  NamesHost received (cstr m.addrBytes) ∧ Asks received (cstr m.respath.bytes)

/-- A block request that a response completes has the content it asked for,
    and a request the response is not for keeps its buffer. -/
def Downloads (content : List UInt8 → List UInt8) (g : Gateway) : Event → Prop
  | .response r l received => ∀ g', messageHandler r l received g = .ok g' →
      ∀ i p, g.list.live i = true → (g.list.node i).pthpara = some p →
        ((g.list.node i).req = .ltuTxBlock → g'.list.live i = false →
          (g'.para p).delivered = content (cstr (g.list.node i).respath.bytes)) ∧
        (¬ IsFor received (g.list.node i) →
          (g'.para p).msg = (g.para p).msg ∧ (g'.para p).megleg = (g.para p).megleg)
  | _ => True

/-- Every download is right in every run with the server. -/
def DownloadsWhole (content : List UInt8 → List UInt8) : Prop :=
  ∀ tmp messageId para es, Along Steps (FromServer content) (initialGateway tmp messageId para) es →
    Along Steps (Downloads content) (initialGateway tmp messageId para) es

section Empty

/-- A step that leaves every buffer as it is. -/
structure BuffersKept (g g' : Gateway) : Prop where
  data : ∀ i, (g'.list.node i).data = (g.list.node i).data
  msg : ∀ p, (g'.para p).msg = (g.para p).msg
  megleg : ∀ p, (g'.para p).megleg = (g.para p).megleg

theorem SPthreadPara.append_nil (para : SPthreadPara) : para.append [] = para := by
  unfold SPthreadPara.append
  have hmsg : overwrite para.msg para.megleg.toNat [] = para.msg := by
    unfold overwrite
    rw [List.take_nil, List.append_nil, List.length_nil, Nat.add_zero, List.take_append_drop]
  have hmegleg : para.megleg + UInt32.ofNat ([] : List UInt8).length = para.megleg :=
    UInt32.add_zero para.megleg
  rw [hmsg, hmegleg]

-- A missing payload is appended as an empty one.
theorem appended_getD (received : CoapPdu) (entry : SCoAPNewRequest) (para : ParaId → SPthreadPara)
    (p : ParaId) (hp : entry.pthpara = some p) :
    appended received entry para =
      Function.update para p ((para p).append ((coapGetData received).getD [])) := by
  unfold appended
  rw [hp]
  cases coapGetData received with
  | none => rw [Option.getD_none, SPthreadPara.append_nil, Function.update_eq_self]
  | some databuf => rfl

theorem appended_of_empty {received : CoapPdu} (entry : SCoAPNewRequest)
    (para : ParaId → SPthreadPara) (h : (coapGetData received).getD [] = []) :
    appended received entry para = para := by
  rcases hp : entry.pthpara with _ | p
  · unfold appended
    rw [hp]
    cases coapGetData received <;> rfl
  · rw [appended_getD received entry para p hp, h, SPthreadPara.append_nil, Function.update_eq_self]

theorem response_kept {r : LibcoapResult} {l : HandlerLocals} {received : CoapPdu} {g g' : Gateway}
    (h : messageHandler r l received g = .ok g') (hempty : (coapGetData received).getD [] = []) :
    BuffersKept g g' := by
  cases messageHandler_handled h with
  | ignored | other => exact ⟨fun _ => rfl, fun _ => rfl, fun _ => rfl⟩
  | continued value path el block =>
      rw [appended_of_empty _ _ hempty]
      exact ⟨fun _ => rfl, fun _ => rfl, fun _ => rfl⟩
  | completed value path el block p _ _ _ _ _ _ _ _ hrel =>
      rw [appended_of_empty _ _ hempty] at hrel
      rcases release_ok hrel with ⟨list, hg', hfresh, hdata⟩
      have hframe := release_frame (g := pathCopied received path g) p false
        [.signal p false, .free el] hfresh hdata
      rw [hg']
      exact ⟨hframe.data, hframe.msg, hframe.megleg⟩

/-- Every block request has a path that ends and an empty buffer. -/
def Undelivered (g : Gateway) : Prop :=
  ∀ i, (g.list.node i).req = .ltuTxBlock → Terminated (g.list.node i).respath.bytes ∧
    ∀ p, (g.list.node i).pthpara = some p → (g.para p).megleg = 0

theorem BuffersKept.undelivered {g g' : Gateway} (h : BuffersKept g g') (hg : Undelivered g) :
    Undelivered g' := by
  intro i hreq
  rcases entry_of_data (h.data i) with ⟨hreq', -, hpath, hpara⟩
  rcases hg i (hreq'.symm.trans hreq) with ⟨hterm, hzero⟩
  refine ⟨hpath ▸ hterm, fun p hp => ?_⟩
  rw [h.megleg p]
  exact hzero p (hpara.symm.trans hp)

theorem content_of_terminated {content : List UInt8 → List UInt8}
    (hempty : ∀ path, (0 : UInt8) ∉ path → path.length ≤ 255 → content path = [])
    (m : SCoAPNewRequest) (h : Terminated m.respath.bytes) :
    content (cstr m.respath.bytes) = [] :=
  hempty _ (zero_not_mem_cstr _) (respath_strlen_le m h)

theorem payload_of_empty {content : List UInt8 → List UInt8}
    (hempty : ∀ path, (0 : UInt8) ∉ path → path.length ≤ 255 → content path = []) {g : Gateway}
    {r : LibcoapResult} {l : HandlerLocals} {received : CoapPdu} (hg : Undelivered g)
    (hc : FromServer content g (.response r l received)) :
    (coapGetData received).getD [] = [] := by
  rcases hc with ⟨i, pdu, -, hreq, -, hanswer⟩
  rcases hanswer.block with ⟨v, w, -, -, -, -, -, -, hdata⟩
  rw [hdata, content_of_terminated hempty _ (hg i hreq).1]
  unfold blockBytes
  rw [List.drop_nil, List.take_nil]

theorem undelivered_step {content : List UInt8 → List UInt8}
    (hempty : ∀ path, (0 : UInt8) ∉ path → path.length ≤ 255 → content path = []) {g g' : Gateway}
    {e : Event} (hg : Undelivered g) (hc : FromServer content g e) (h : Steps g e g') :
    Undelivered g' := by
  cases e with
  | message r now m =>
      by_cases htmp : g.tmp.req = .ltuNoAck
      · rw [← Except.ok.inj ((receive_noAck r now m g htmp).symm.trans h)]
        exact hg
      · rcases receive_ok htmp h with ⟨hlist, hpara, hterm⟩
        have hdata := add_data g.list { m with time := now }
        intro i hreq
        rw [hlist] at hreq ⊢
        rw [hpara]
        by_cases hi : i = g.list.fresh
        · -- The new entry is the message, whose requester comes with an empty buffer.
          have hnew := hdata i
          rw [if_pos hi] at hnew
          rcases entry_of_data hnew with ⟨hreq', -, hpath, hpthpara⟩
          have htx := hreq'.symm.trans hreq
          exact ⟨hpath ▸ hterm htx, fun p hp => (hc htx p (hpthpara.symm.trans hp)).1⟩
        · have hold := hdata i
          rw [if_neg hi] at hold
          rcases entry_of_data hold with ⟨hreq', -, hpath, hpthpara⟩
          rcases hg i (hreq'.symm.trans hreq) with ⟨hterm', hzero⟩
          exact ⟨hpath ▸ hterm', fun p hp => hzero p (hpthpara.symm.trans hp)⟩
  | response r l received =>
      exact (response_kept h (payload_of_empty hempty hg hc)).undelivered hg
  | sweep now =>
      have hframe := sweep_frame h
      exact BuffersKept.undelivered ⟨hframe.data, hframe.msg, hframe.megleg⟩ hg
  | check300 now =>
      rw [← Except.ok.inj h, check300_eq]
      exact hg

/-- With nothing to deliver nothing goes wrong. -/
theorem downloads_of_empty {content : List UInt8 → List UInt8}
    (hempty : ∀ path, (0 : UInt8) ∉ path → path.length ≤ 255 → content path = []) :
    DownloadsWhole content := by
  intro tmp messageId para es h
  refine along_of_invariant (I := Undelivered)
    (fun g e g' hg hc hstep => undelivered_step hempty hg hc hstep) (fun g e hg hc => ?_)
    (fun i hreq => nomatch hreq) h
  cases e with
  | response r l received =>
      intro g' hrun i p hlive hp
      have hkept := response_kept hrun (payload_of_empty hempty hg hc)
      refine ⟨fun hreq _ => ?_, fun _ => ⟨hkept.msg p, hkept.megleg p⟩⟩
      rcases hg i hreq with ⟨hterm, hzero⟩
      rw [content_of_terminated hempty _ hterm, SPthreadPara.delivered, hkept.megleg p, hzero p hp]
      rfl
  | message | sweep | check300 => trivial

end Empty

end CoapThread
