import CoapThread.System.Others
import CoapThread.Theory.OptionOrder
import CoapThread.Theory.RequestPath

/-!
# What Goes on the Wire

What every request the thread sends has in common, whatever was asked of it
and whatever has come in.

A request is built from templates that other requests and responses write to,
from fields of an entry the handler may have picked wrongly, and from a block
option a peer has chosen. None of it reaches the form of the PDU: the lengths
the templates are read under stay what they were or come from a string that
ends inside its field, and of the block option no more than its own number and
that of the block go into the next one. So every PDU decodes, to options in
strictly ascending order.

The number of that option is the peer's choice all the same. `get_block` takes
any number with the low byte of a block option for one, and what it finds is
put in the next request under the number found, 279 for instance.

The message id goes up by one with every PDU that is built, and every PDU that
is built is sent.

## Main definitions

* `WellFormedRequest`: A PDU a server can read as a request.
* `SendsNumbered`: A step sends nothing, or one such PDU with the next id.
* `Consecutive`: PDUs carry consecutive message ids.

## Theorems

* `wellFormed_request`: Options that fit make a well-formed PDU.
* `step_sendsNumbered`: What a step sends is well formed.
* `requests_wellFormed`: So is every PDU of a run.
* `messageIds_apart`: PDUs carry consecutive ids, and those that are not too far
  apart different ones.
-/

namespace CoapThread

open CBytes DeltaOption Machine

/-- The options the program puts in a request: host, path, and what `get_block`
    takes for a block option. -/
def RequestKey (k : Nat) : Prop :=
  k = coapOptionUriHost ∨ k = coapOptionUriPath ∨ IsBlockKey k

instance (k : Nat) : Decidable (RequestKey k) := inferInstanceAs (Decidable (_ ∨ _))

/-- A PDU a server can read as a request: a confirmable GET without payload,
    within the size of a PDU, whose token has the length its header says and
    whose options decode in strictly ascending order. -/
structure WellFormedRequest (pdu : CoapPdu) : Prop where
  type : pdu.type = coapMessageCon
  code : pdu.code = coapRequestGet
  token : pdu.tokenLength = pdu.token.length
  tokenRoom : pdu.token.length ≤ 8
  room : pdu.length ≤ coapMaxPduSize
  options : ∃ os, pdu.decoded = some (os, none) ∧ os.Pairwise (fun a b => a.key < b.key) ∧
    (∀ o ∈ os, RequestKey o.key) ∧ ∃ o ∈ os, o.key = coapOptionUriPath

/-- A request decodes to the options it was given. -/
theorem requestPdu_decoded (token : UInt64) (messageId : UInt16) {os : List Opt}
    (hok : DeltaOption.Encodable 0 os) (hroom : 12 + optionsRoom os ≤ coapMaxPduSize) :
    (requestPdu token messageId coapMessageCon coapRequestGet [] os).decoded = some (os, none) := by
  have hwire := requestPdu_wire token messageId coapMessageCon coapRequestGet os hok hroom
  exact @decoded_of_wire _ os [] (hwire.trans (List.append_nil _).symm) hok

/-- Options that fit make a well-formed PDU. -/
theorem wellFormed_request (token : UInt64) (messageId : UInt16) {os : List Opt}
    (hok : DeltaOption.Encodable 0 os) (hroom : 12 + optionsRoom os ≤ coapMaxPduSize)
    (hsorted : os.Pairwise (fun a b => a.key < b.key)) (hkeys : ∀ o ∈ os, RequestKey o.key)
    (hpath : ∃ o ∈ os, o.key = coapOptionUriPath) :
    WellFormedRequest (requestPdu token messageId coapMessageCon coapRequestGet [] os) := by
  have hwire := requestPdu_wire token messageId coapMessageCon coapRequestGet os hok hroom
  have hlen := creatTheToken_length token
  have henc := encode_length_room 0 os
  have hdecoded := requestPdu_decoded token messageId hok hroom
  rcases requestPdu_frame token messageId coapMessageCon coapRequestGet [] os with ⟨d, w, hpdu⟩
  rw [hpdu] at hwire hdecoded ⊢
  refine ⟨rfl, rfl, rfl, hlen, ?_, os, hdecoded, hsorted, hkeys, hpath⟩
  unfold CoapPdu.length
  simp only [] at hwire ⊢
  rw [hwire]
  omega

section Requests

variable {g : Gateway}

theorem pollOptions_encodable (hg : TemplatesFit g) :
    DeltaOption.Encodable 0 (pollOptions (pollHost g) g.path) ∧
      12 + optionsRoom (pollOptions (pollHost g) g.path) ≤ coapMaxPduSize := by
  have hhost : (pollHost g).value.length ≤ 12 := hg.host ▸ (pollHost g).value_length_le
  have hpath : g.path.value.length ≤ 255 := Nat.le_trans g.path.value_length_le hg.path
  rw [pollOptions_eq]
  constructor
  · simp only [DeltaOption.Encodable, coapOptionUriHost, coapOptionUriPath, limit, and_true]
    omega
  · simp only [optionsRoom, List.map_cons, List.map_nil, List.sum_cons, List.sum_nil,
      coapMaxPduSize]
    omega

theorem pollPdu_wellFormed (hg : TemplatesFit g) : WellFormedRequest (pollPdu g) := by
  rcases pollOptions_encodable hg with ⟨hok, hroom⟩
  refine wellFormed_request _ _ hok hroom ?_ ?_ ?_
  · rw [pollOptions_eq]
    simp [coapOptionUriHost, coapOptionUriPath]
  · rw [pollOptions_eq]
    simp [RequestKey]
  · rw [pollOptions_eq]
    exact ⟨_, List.mem_cons_of_mem _ List.mem_cons_self, rfl⟩

theorem firstBlockPdu_wellFormed (h : Terminated g.tmp.respath.bytes) :
    WellFormedRequest (firstBlockPdu g) := by
  rcases firstBlockOptions_encodable g h with ⟨hok, hroom⟩
  refine wellFormed_request _ _ hok hroom ?_ ?_ ?_
  · rw [firstBlockOptions_eq]
    simp [coapOptionUriPath, coapOptionBlock2]
  · rw [firstBlockOptions_eq]
    have hblock : RequestKey coapOptionBlock2 := by decide
    simp [hblock, show RequestKey coapOptionUriPath from Or.inr (Or.inl rfl)]
  · rw [firstBlockOptions_eq]
    exact ⟨_, List.mem_cons_self, rfl⟩

theorem nextBlockPdu_wellFormed {block : View} {entry : SCoAPNewRequest}
    (hkey : IsBlockKey block.key) (h : Terminated entry.respath.bytes) :
    WellFormedRequest (nextBlockPdu block entry g) := by
  rcases nextBlockOptions_encodable block entry hkey h with ⟨hok, hroom⟩
  have hpath : coapOptionUriPath < block.key := Nat.lt_of_lt_of_le (by decide) hkey.le
  have hhost : coapOptionUriHost < coapOptionUriPath := by decide
  refine wellFormed_request _ _ hok hroom ?_ ?_ ?_
  · rw [nextBlockOptions_eq block entry hkey]
    simp [hpath, hhost, Nat.lt_trans hhost hpath]
  · rw [nextBlockOptions_eq block entry hkey]
    simp [RequestKey, hkey]
  · rw [nextBlockOptions_eq block entry hkey]
    exact ⟨_, List.mem_cons_of_mem _ List.mem_cons_self, rfl⟩

end Requests

/-- A step sends nothing and leaves the message id alone, or sends one
    well-formed request with the next id. -/
def SendsNumbered (g g' : Gateway) : Prop :=
  (g'.messageId = g.messageId ∧ sentPdus g'.outputs = sentPdus g.outputs) ∨
    ∃ pdu, g'.messageId = g.messageId + 1 ∧ sentPdus g'.outputs = sentPdus g.outputs ++ [pdu] ∧
      WellFormedRequest pdu ∧ pdu.id = g.messageId + 1

theorem requestPdu_id (token : UInt64) (messageId : UInt16) (msgtype method : UInt8)
    (data : List UInt8) (os : List Opt) :
    (requestPdu token messageId msgtype method data os).id = messageId + 1 := by
  rcases requestPdu_frame token messageId msgtype method data os with ⟨d, w, h⟩
  rw [h]

theorem receive_sendsNumbered {r : LibcoapResult} {now : Int} {m : SCoAPNewRequest}
    {g g' : Gateway} (hg : TemplatesFit g) (h : receive r now m g = .ok g') :
    SendsNumbered g g' := by
  cases receive_iff.mp h with
  | dropped | kept => exact Or.inl ⟨rfl, rfl⟩
  | polled htmp hyc halloc =>
      rcases receive_poll r now m g htmp hyc halloc with ⟨g'', hrun, hsent, -⟩
      cases h.symm.trans hrun
      have hfit : TemplatesFit (stored now m g) := ⟨hg.host, hg.path⟩
      exact Or.inr ⟨_, rfl, hsent, pollPdu_wellFormed hfit, requestPdu_id _ _ _ _ _ _⟩
  | requested htmp htx hterm =>
      rcases receive_block r now m g htmp htx hterm with ⟨g'', hrun, hsent, -⟩
      cases h.symm.trans hrun
      cases halloc : r.allocated with
      | false =>
          rw [halloc] at hsent
          exact Or.inl ⟨rfl, hsent.trans (List.append_nil _)⟩
      | true =>
          rw [halloc] at hsent
          exact Or.inr ⟨_, rfl, hsent, firstBlockPdu_wellFormed (g := stored now m g) hterm,
            requestPdu_id _ _ _ _ _ _⟩

theorem release_messageId {timeout : Bool} {el : NodeId} {p : ParaId} {g g' : Gateway}
    (h : release timeout el p g = .ok g') : g'.messageId = g.messageId := by
  rcases release_ok h with ⟨list, hg', -⟩
  rw [hg']
  rfl

theorem response_sendsNumbered {r : LibcoapResult} {l : HandlerLocals} {received : CoapPdu}
    {g g' : Gateway} (h : messageHandler r l received g = .ok g') : SendsNumbered g g' := by
  have hacked := sentPdus_acked received g
  cases messageHandler_handled h with
  | ignored | other => exact Or.inl ⟨rfl, hacked⟩
  | continued value path el block _ _ _ _ hblock _ hterm =>
      refine Or.inr ⟨nextBlockPdu block (g.list.node el) g, rfl, ?_,
        nextBlockPdu_wellFormed (getBlock_key hblock) hterm, requestPdu_id _ _ _ _ _ _⟩
      rw [sentPdus_append, sentPdus_nextBlock, hacked]
  | completed value path el block p _ _ _ _ _ _ _ _ hrel =>
      have hid := release_messageId hrel
      exact Or.inl ⟨hid, (release_sends hrel).2.trans hacked⟩

/-- What a step sends is well formed. -/
theorem step_sendsNumbered {g g' : Gateway} {e : Event} (hg : TemplatesFit g) (h : Steps g e g') :
    SendsNumbered g g' := by
  cases e with
  | message r now m => exact receive_sendsNumbered hg h
  | response r l received => exact response_sendsNumbered h
  | sweep now =>
      refine Or.inl (sweep_invariant (I := fun g₁ => g₁.messageId = g.messageId ∧
        sentPdus g₁.outputs = sentPdus g.outputs) ?_ h ⟨rfl, rfl⟩)
      rintro el p g₁ g₂ ⟨hid, hsent⟩ - - hrel
      exact ⟨(release_messageId hrel).trans hid, (release_sends hrel).2.trans hsent⟩
  | check300 now =>
      rw [← Except.ok.inj h]
      refine Or.inl ⟨?_, (check300_sends now g).2⟩
      rw [check300_eq]

section Runs

/-- PDUs carry consecutive message ids, from the one behind `start` on. -/
def Consecutive (start : UInt16) (pdus : List CoapPdu) : Prop :=
  ∀ i pdu, pdus[i]? = some pdu → pdu.id = start + UInt16.ofNat (i + 1)

theorem Consecutive.append {start : UInt16} {pdus : List CoapPdu} {pdu : CoapPdu}
    (h : Consecutive start pdus) (hid : pdu.id = start + UInt16.ofNat (pdus.length + 1)) :
    Consecutive start (pdus ++ [pdu]) := by
  intro i q hq
  by_cases hi : i < pdus.length
  · rw [List.getElem?_append_left hi] at hq
    exact h i q hq
  · -- Behind the others there is the new one alone.
    rw [List.getElem?_append_right (Nat.le_of_not_lt hi)] at hq
    have hlast : i - pdus.length = 0 := Nat.lt_one_iff.mp (List.getElem?_eq_some_iff.mp hq).1
    have hi' : i = pdus.length := by omega
    rw [hlast] at hq
    rw [← Option.some.inj hq, hi', hid]

theorem Consecutive.apart {start : UInt16} {pdus : List CoapPdu} (h : Consecutive start pdus)
    {i j : Nat} {p q : CoapPdu} (hlt : i < j) (hnear : j < i + 2 ^ 16) (hp : pdus[i]? = some p)
    (hq : pdus[j]? = some q) : p.id ≠ q.id := by
  intro heq
  rw [h i p hp, h j q hq, UInt16.add_right_inj] at heq
  have hcount := congrArg UInt16.toNat heq
  rw [UInt16.toNat_ofNat', UInt16.toNat_ofNat'] at hcount
  omega

/-- The templates fit, and the requests sent so far are well formed and carry
    the ids up to the current one. -/
structure SentWell (start : UInt16) (g : Gateway) : Prop where
  fit : TemplatesFit g
  wellFormed : ∀ pdu ∈ sentPdus g.outputs, WellFormedRequest pdu
  current : g.messageId = start + UInt16.ofNat (sentPdus g.outputs).length
  consecutive : Consecutive start (sentPdus g.outputs)

theorem sentWell_step {start : UInt16} {g g' : Gateway} {e : Event} (hg : SentWell start g)
    (h : Steps g e g') : SentWell start g' := by
  have hfit := step_fit hg.fit h
  rcases step_sendsNumbered hg.fit h with ⟨hid, hsent⟩ | ⟨pdu, hid, hsent, hwell, hpdu⟩
  · refine ⟨hfit, ?_, ?_, ?_⟩
    · rw [hsent]
      exact hg.wellFormed
    · rw [hid, hsent]
      exact hg.current
    · rw [hsent]
      exact hg.consecutive
  · have hnext : g.messageId + 1 = start + UInt16.ofNat ((sentPdus g.outputs).length + 1) := by
      rw [hg.current, UInt16.ofNat_add, UInt16.add_assoc]
      rfl
    refine ⟨hfit, ?_, ?_, ?_⟩
    · rw [hsent]
      simp only [List.forall_mem_append, List.forall_mem_singleton]
      exact ⟨hg.wellFormed, hwell⟩
    · rw [hid, hsent, List.length_append, List.length_singleton]
      exact hnext
    · rw [hsent]
      exact hg.consecutive.append (hpdu.trans hnext)

theorem sentWell_run {tmp : SCoAPNewRequest} {messageId : UInt16} {para : ParaId → SPthreadPara}
    {es : List (Option Event)} {g : Gateway}
    (h : Path OpenStep (initialGateway tmp messageId para) es g) : SentWell messageId g := by
  have hstart : SentWell messageId (initialGateway tmp messageId para) :=
    ⟨initialGateway_fit tmp messageId para, fun _ h => absurd h List.not_mem_nil,
      (UInt16.add_zero messageId).symm, fun _ _ h => nomatch h⟩
  refine among_invariant (I := SentWell messageId) (fun s e t hi hstep => sentWell_step hi hstep)
    (fun s t hi hother => ?_) h hstart
  cases hother with
  | shared d y para _ => exact ⟨⟨hi.fit.host, hi.fit.path⟩, hi.wellFormed, hi.current,
      hi.consecutive⟩

/-- Two polls in a row, and a turn of the others between them. -/
theorem twoPolls_run : ∃ g p q, Path OpenStep (bareGateway .zero)
      [some (.message ⟨true, true⟩ 0 .zero), none, some (.message ⟨true, true⟩ 1 .zero)] g ∧
    sentPdus g.outputs = [p, q] := by
  rcases receive_poll ⟨true, true⟩ 0 .zero (bareGateway .zero) nofun rfl rfl with
    ⟨g₁, hrun₁, hsent₁, htmp₁, -⟩
  have htmp : g₁.tmp.req ≠ .ltuNoAck := by
    rw [htmp₁]
    exact nofun
  rcases receive_poll ⟨true, true⟩ 1 .zero g₁ htmp rfl rfl with ⟨g₂, hrun₂, hsent₂, -⟩
  rw [hsent₁] at hsent₂
  exact ⟨g₂, _, _, Path.cons _ g₁ _ _ _ (Among.own _ _ _ hrun₁) (Path.cons _ g₁ _ _ _
    (Among.other _ _ (OthersDo.refl g₁)) (Path.cons _ g₂ _ _ _ (Among.own _ _ _ hrun₂)
      (Path.nil g₂))), hsent₂⟩

/-- In every run of the thread among the others, the requests sent take the next
    message id each, none is left out, and two that are less than `2 ^ 16` apart
    have different ones. -/
theorem messageIds_apart {tmp : SCoAPNewRequest} {messageId : UInt16}
    {para : ParaId → SPthreadPara} {es : List (Option Event)} {g : Gateway}
    (h : Path OpenStep (initialGateway tmp messageId para) es g) :
    g.messageId = messageId + UInt16.ofNat (sentPdus g.outputs).length ∧
      Consecutive messageId (sentPdus g.outputs) ∧
      ∀ i j p q, i < j → j < i + 2 ^ 16 → (sentPdus g.outputs)[i]? = some p →
        (sentPdus g.outputs)[j]? = some q → p.id ≠ q.id := by
  have hwell := sentWell_run h
  exact ⟨hwell.current, hwell.consecutive, fun i j p q hlt hnear hp hq =>
    hwell.consecutive.apart hlt hnear hp hq⟩

/-- The two polls have the first two ids. -/
theorem messageIds_apart_twoPolls : ∃ g p q, Path OpenStep (bareGateway .zero)
      [some (.message ⟨true, true⟩ 0 .zero), none, some (.message ⟨true, true⟩ 1 .zero)] g ∧
    sentPdus g.outputs = [p, q] ∧ p.id = 1 ∧ q.id = 2 ∧ p.id ≠ q.id ∧ g.messageId = 2 := by
  rcases twoPolls_run with ⟨g, p, q, hp, hsent⟩
  rcases messageIds_apart hp with ⟨hcurrent, hids, hapart⟩
  rw [hsent] at hcurrent hids hapart
  exact ⟨g, p, q, hp, hsent, hids 0 p rfl, hids 1 q rfl,
    hapart 0 1 p q (by decide) (by decide) rfl rfl, hcurrent⟩

end Runs

end CoapThread
