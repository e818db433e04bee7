import CoapThread.Core.Helpers
import CoapThread.Core.Thread
import CoapThread.Library.Machine

/-!
# Tokens

Which token a request carries.

The token of a call is the counter after it in base 256, least significant
digit first and without leading zeros, and base 256 gives no two numbers the
same digits. The counter has 64 bits and starts over after `2 ^ 64` calls, so
two requests have the same token only if so many lie between them.

`tokenLoop_run` is what makes this a statement about the source: the loop is at
its end within eight turns, has stored inside the buffer, and has left the
digits in front of it.

## Main definitions

* `HoldsToken`: The static variables hold the token of a counter.
* `TokensApart`: Requests that are not too far apart have different tokens.
* `CarriesTokens`: Requests carry what the variables held.
* `Numbered`: PDUs carry the tokens in order.

## Theorems

* `tokenLoop_run`: What the loop leaves in the buffer.
* `tokenAfter_holds`: The variables after any number of calls.
* `newRequests_token`: The token of each request.
* `tokens_apart`: Requests have different tokens.
* `step_sends`: What a step sends.
* `sentPdus_numbered`: The PDUs of a run carry the tokens in order.
-/

namespace CoapThread

open CBytes DeltaOption Machine

section Loop

/-- The loop, with some digits of the counter stored: it comes to its end in as
    many turns as there are bytes to go, and the buffer holds the rest too. -/
theorem tokenLoop_run (n : Nat) (written : List UInt8) (me : UInt64) (hme : me.toNat < 256 ^ n)
    (hfit : written.length + n ≤ 8) :
    tokenLoop n (Buf.ofList 8 written) (UInt8.ofNat written.length) me =
      .ok (some (Buf.ofList 8 (written ++ tokenDigits me),
        UInt8.ofNat (written ++ tokenDigits me).length)) := by
  -- Induction on the turns left, the digits stored so far being any.
  induction n generalizing written me with
  | zero =>
      have hzero : me = 0 := UInt64.toNat_inj.mp (Nat.lt_one_iff.mp hme)
      rw [tokenLoop, if_pos hzero, hzero, tokenDigits_zero, List.append_nil]
  | succ n ih =>
      by_cases hzero : me = 0
      · rw [tokenLoop, if_pos hzero, hzero, tokenDigits_zero, List.append_nil]
      · have hindex : (UInt8.ofNat written.length).toNat = written.length := by
          rw [UInt8.toNat_ofNat']
          omega
        have hinside : (UInt8.ofNat written.length).toNat < 8 := by omega
        set digit := UInt8.ofNat (me.toNat % 256) with hdigit
        have hrest : (me >>> 8).toNat < 256 ^ n := by
          rw [shiftRight_eight_toNat]
          rw [Nat.pow_succ] at hme
          omega
        have hlen : (written ++ [digit]).length = written.length + 1 := List.length_append
        have hnext : UInt8.ofNat written.length + 1 = UInt8.ofNat (written ++ [digit]).length := by
          rw [hlen, UInt8.ofNat_add]
          rfl
        rw [tokenLoop, if_neg hzero, if_pos hinside, hindex, ← hdigit,
          Buf.ofList_write written [digit] (by rw [List.length_singleton]; omega), hnext,
          ih (written ++ [digit]) (me >>> 8) hrest (by omega)]
        -- The digit stored is the first of those the counter had left.
        have hdigits : tokenDigits me = digit :: tokenDigits (me >>> 8) := by
          rw [tokenDigits, if_neg hzero]
        rw [hdigits, List.append_assoc, List.singleton_append]

/-- A call within eight turns: the counter goes up by one, and the buffer holds
    its token. -/
theorem creatTheTokenWithin_eq (s : TokenState) :
    creatTheTokenWithin 8 s = .ok (some ⟨s.token + 1, Buf.ofList 8 (tokenDigits (s.token + 1)),
      UInt8.ofNat (tokenDigits (s.token + 1)).length⟩) := by
  have hrun := tokenLoop_run 8 [] (s.token + 1) (UInt64.toNat_lt _) (Nat.le_refl 8)
  have hstart : (Buf.zero 8 : Buf 8) = Buf.ofList 8 [] := (Buf.write_nil (Buf.zero 8)).symm
  unfold creatTheTokenWithin
  simp only [hstart]
  rw [show (0 : UInt8) = UInt8.ofNat ([] : List UInt8).length from rfl, hrun]
  rfl

end Loop

/-- Different counters have different tokens. -/
theorem tokenDigits_injective {me me' : UInt64} (h : tokenDigits me = tokenDigits me') :
    me = me' := by
  have hdigits := congrArg (List.map UInt8.toNat) h
  rw [tokenDigits_toNat, tokenDigits_toNat, Nat.digits_inj_iff] at hdigits
  exact UInt64.toNat_inj.mp hdigits

section Calls

/-- The static variables hold the token of a counter: the length is the least
    number of bytes that has room for it, the bytes of that length are its
    digits, and the others are zero. -/
structure HoldsToken (me : UInt64) (s : TokenState) : Prop where
  token : s.token = me
  least : ∀ k, s.length.toNat ≤ k ↔ me.toNat < 256 ^ k
  digits : (s.tokenData.bytes.take s.length.toNat).map UInt8.toNat = Nat.digits 256 me.toNat
  rest : s.tokenData.bytes.drop s.length.toNat = List.replicate (8 - s.length.toNat) 0

theorem tokenLength_toNat (me : UInt64) :
    (UInt8.ofNat (tokenDigits me).length).toNat = (tokenDigits me).length := by
  have hlen := (tokenDigits_length_le_iff me 8).mpr me.toNat_lt
  rw [UInt8.toNat_ofNat']
  omega

theorem tokenData_bytes (me : UInt64) : (Buf.ofList 8 (tokenDigits me)).bytes =
    tokenDigits me ++ List.replicate (8 - (tokenDigits me).length) 0 :=
  Buf.ofList_bytes _ ((tokenDigits_length_le_iff me 8).mpr me.toNat_lt)

theorem holdsToken_digits (me : UInt64) : HoldsToken me
    ⟨me, Buf.ofList 8 (tokenDigits me), UInt8.ofNat (tokenDigits me).length⟩ where
  token := rfl
  least k := by
    rw [tokenLength_toNat]
    exact tokenDigits_length_le_iff me k
  digits := by
    rw [tokenLength_toNat, tokenData_bytes, List.take_left]
    exact tokenDigits_toNat me
  rest := by
    rw [tokenLength_toNat, tokenData_bytes, List.drop_left]

/-- Every number of calls is made in eight turns each, and leaves the variables
    at the number of calls, taken modulo `2 ^ 64`. -/
theorem tokenAfter_eq (calls : Nat) :
    tokenAfter 8 calls = .ok (some ⟨UInt64.ofNat calls,
      Buf.ofList 8 (tokenDigits (UInt64.ofNat calls)),
      UInt8.ofNat (tokenDigits (UInt64.ofNat calls)).length⟩) := by
  induction calls with
  | zero =>
      have hstart : tokenDigits (UInt64.ofNat 0) = [] := tokenDigits_zero
      rw [hstart]
      rfl
  | succ calls ih =>
      rw [tokenAfter, ih]
      simp only []
      rw [creatTheTokenWithin_eq, UInt64.ofNat_add]
      rfl

theorem tokenAfter_holds (calls : Nat) :
    ∃ s, tokenAfter 8 calls = .ok (some s) ∧ HoldsToken (UInt64.ofNat calls) s :=
  ⟨_, tokenAfter_eq calls, holdsToken_digits _⟩

/-- The token of each request is the one of the call it was built with. -/
theorem newRequests_token {token : UInt64} {messageId : UInt16} {calls : List RequestCall} {i : Nat}
    {pdu : CoapPdu} (h : (newRequests token messageId calls)[i]? = some pdu) :
    pdu.token = tokenDigits (token + UInt64.ofNat (i + 1)) ∧
      pdu.tokenLength = (tokenDigits (token + UInt64.ofNat (i + 1))).length := by
  induction calls generalizing token messageId i with
  | nil => cases h
  | cons c cs ih =>
      rw [newRequests] at h
      cases ha : c.allocated with
      | false =>
          -- Without a PDU the counter stays.
          rw [coapNewRequest, ha] at h
          exact ih h
      | true =>
          rw [coapNewRequest, ha] at h
          simp only [if_true, Option.toList_some, List.singleton_append] at h
          cases i with
          | zero =>
              rw [List.getElem?_cons_zero] at h
              rw [← Option.some.inj h]
              exact requestPdu_token _ _ _ _ _ _
          | succ i =>
              rw [List.getElem?_cons_succ] at h
              have hrest := ih h
              have hcount : (creatTheToken token).1 + UInt64.ofNat (i + 1) =
                  token + UInt64.ofNat (i + 1 + 1) := by
                rw [creatTheToken, UInt64.add_assoc, UInt64.add_comm 1, ← UInt64.ofNat_one,
                  ← UInt64.ofNat_add]
              rw [hcount] at hrest
              exact hrest

end Calls

section Requests

variable {pdus : List CoapPdu}

/-- The first PDU carries the token of the first call, the next one that of
    the second, and so on. -/
def Numbered (pdus : List CoapPdu) : Prop :=
  ∀ i pdu, pdus[i]? = some pdu → pdu.token = tokenDigits (UInt64.ofNat (i + 1)) ∧
    pdu.tokenLength = (tokenDigits (UInt64.ofNat (i + 1))).length

/-- A PDU carries what the static variables hold after its call, and its length
    field, of four bits, has room for the length. -/
def CarriesTokens (pdus : List CoapPdu) : Prop :=
  ∀ i pdu, pdus[i]? = some pdu → ∃ s, tokenAfter 8 (i + 1) = .ok (some s) ∧
    pdu.token = s.tokenData.bytes.take s.length.toNat ∧ pdu.tokenLength = s.length.toNat ∧
    s.length.toNat < 2 ^ 4

/-- Requests with fewer than `2 ^ 64` calls between them have different
    tokens. -/
def TokensApart (pdus : List CoapPdu) : Prop :=
  ∀ i j p q, i < j → j < i + 2 ^ 64 → pdus[i]? = some p → pdus[j]? = some q →
    (p.tokenLength, p.token) ≠ (q.tokenLength, q.token)

theorem Numbered.carries (h : Numbered pdus) : CarriesTokens pdus := by
  intro i pdu hpdu
  rcases h i pdu hpdu with ⟨htoken, hlength⟩
  have hlen := (tokenDigits_length_le_iff (UInt64.ofNat (i + 1)) 8).mpr (UInt64.toNat_lt _)
  refine ⟨_, tokenAfter_eq (i + 1), ?_, ?_, ?_⟩
  · rw [tokenLength_toNat, tokenData_bytes, List.take_left]
    exact htoken
  · rw [tokenLength_toNat]
    exact hlength
  · rw [tokenLength_toNat]
    omega

theorem Numbered.apart (h : Numbered pdus) : TokensApart pdus := by
  intro i j p q hlt hnear hp hq heq
  -- Equal tokens are tokens of one counter.
  have htoken : tokenDigits (UInt64.ofNat (i + 1)) = tokenDigits (UInt64.ofNat (j + 1)) := by
    rw [← (h i p hp).1, ← (h j q hq).1]
    exact congrArg Prod.snd heq
  have hcount := congrArg UInt64.toNat (tokenDigits_injective htoken)
  rw [UInt64.toNat_ofNat', UInt64.toNat_ofNat'] at hcount
  omega

theorem newRequests_numbered (messageId : UInt16) (calls : List RequestCall) :
    Numbered (newRequests 0 messageId calls) := by
  intro i pdu hpdu
  have htoken := newRequests_token hpdu
  rw [UInt64.zero_add] at htoken
  exact htoken

/-- After any number of calls the loop has been at its end in eight turns and
    the static variables hold the token; each request carries its call's; and
    requests fewer than `2 ^ 64` calls apart carry different ones. -/
theorem tokens_apart (messageId : UInt16) (calls : List RequestCall) :
    (∀ n, ∃ s, tokenAfter 8 n = .ok (some s) ∧ HoldsToken (UInt64.ofNat n) s) ∧
      CarriesTokens (newRequests 0 messageId calls) ∧
      TokensApart (newRequests 0 messageId calls) :=
  ⟨tokenAfter_holds, (newRequests_numbered messageId calls).carries,
    (newRequests_numbered messageId calls).apart⟩

end Requests

section Runs

/-- A step has built one PDU with the next token and sent it. -/
structure SendsNext (g g' : Gateway) (pdu : CoapPdu) : Prop where
  counter : g'.token = g.token + 1
  sent : sentPdus g'.outputs = sentPdus g.outputs ++ [pdu]
  token : pdu.token = tokenDigits (g.token + 1)
  tokenLength : pdu.tokenLength = (tokenDigits (g.token + 1)).length

theorem receive_sends {r : LibcoapResult} {now : Int} {m : SCoAPNewRequest} {g g' : Gateway}
    (h : receive r now m g = .ok g') :
    (g'.token = g.token ∧ sentPdus g'.outputs = sentPdus g.outputs) ∨
      ∃ pdu, SendsNext g g' pdu := by
  cases receive_iff.mp h with
  | dropped => exact Or.inl ⟨rfl, rfl⟩
  | polled htmp hyc halloc =>
      rcases receive_poll r now m g htmp hyc halloc with ⟨g'', hrun, hsent, -⟩
      cases h.symm.trans hrun
      rcases requestPdu_token g.token g.messageId coapMessageCon coapRequestGet []
        (pollOptions (pollHost (stored now m g)) g.path) with ⟨htoken, hlength⟩
      exact Or.inr ⟨pollPdu (stored now m g), rfl, hsent, htoken, hlength⟩
  | requested htmp htx hterm =>
      rcases receive_block r now m g htmp htx hterm with ⟨g'', hrun, hsent, -⟩
      cases h.symm.trans hrun
      cases halloc : r.allocated with
      | false =>
          rw [halloc] at hsent
          exact Or.inl ⟨rfl, hsent.trans (List.append_nil _)⟩
      | true =>
          rw [halloc] at hsent
          rcases requestPdu_token g.token g.messageId coapMessageCon coapRequestGet []
            (firstBlockOptions (blockPath m)) with ⟨htoken, hlength⟩
          exact Or.inr ⟨firstBlockPdu (stored now m g), rfl, hsent, htoken, hlength⟩
  | kept => exact Or.inl ⟨rfl, rfl⟩

/-- A request for the next block is the next to be sent. -/
theorem sendsNext_nextBlock {l : HandlerLocals} {received : CoapPdu} {el : NodeId} {block : View}
    {g g' : Gateway} (h : AsksFor l received el block g g') :
    SendsNext g g' (nextBlockPdu block (g.list.node el) g) := by
  rcases requestPdu_token g.token g.messageId coapMessageCon coapRequestGet []
    (nextBlockOptions block.key block.value (g.list.node el)) with ⟨htoken, hlength⟩
  exact ⟨h.counter, h.sent, htoken, hlength⟩

/-- A step sends nothing and leaves the counter alone, or sends the next. -/
theorem step_sends {g g' : Gateway} {e : Event} (h : Steps g e g') :
    (g'.token = g.token ∧ sentPdus g'.outputs = sentPdus g.outputs) ∨
      ∃ pdu, SendsNext g g' pdu := by
  cases e with
  | message r now m => exact receive_sends h
  | response r l received =>
      rcases messageHandler_sends h with hsame | ⟨el, block, hasks⟩
      · exact Or.inl hsame
      · exact Or.inr ⟨_, sendsNext_nextBlock hasks⟩
  | sweep now => exact Or.inl (sweep_sends h)
  | check300 now =>
      rw [← Except.ok.inj h]
      exact Or.inl (check300_sends now g)

/-- The counter is the number of PDUs sent, and these carry the tokens. -/
def Counted (g : Gateway) : Prop :=
  g.token = UInt64.ofNat (sentPdus g.outputs).length ∧ Numbered (sentPdus g.outputs)

theorem counted_step {g g' : Gateway} {e : Event} (hg : Counted g) (h : Steps g e g') :
    Counted g' := by
  rcases hg with ⟨hcount, hnum⟩
  rcases step_sends h with ⟨htoken, hsent⟩ | ⟨pdu, hnext⟩
  · unfold Counted
    rw [htoken, hsent]
    exact ⟨hcount, hnum⟩
  · have hsucc : g.token + 1 = UInt64.ofNat ((sentPdus g.outputs).length + 1) := by
      rw [hcount, UInt64.ofNat_add]
      rfl
    unfold Counted
    rw [hnext.counter, hnext.sent, List.length_append, List.length_singleton]
    refine ⟨hsucc, fun i q hq => ?_⟩
    -- The new PDU stands behind those there were.
    by_cases hi : i < (sentPdus g.outputs).length
    · rw [List.getElem?_append_left hi] at hq
      exact hnum i q hq
    · rw [List.getElem?_append_right (Nat.le_of_not_lt hi)] at hq
      have hlast : i - (sentPdus g.outputs).length = 0 :=
        Nat.lt_one_iff.mp (List.getElem?_eq_some_iff.mp hq).1
      have hi' : i = (sentPdus g.outputs).length := by omega
      rw [hlast] at hq
      rw [← Option.some.inj hq, hi', ← hsucc]
      exact ⟨hnext.token, hnext.tokenLength⟩

/-- In every run the PDUs handed to the library carry the tokens in order. -/
theorem sentPdus_numbered {tmp : SCoAPNewRequest} {messageId : UInt16}
    {para : ParaId → SPthreadPara} {es : List Event} {g : Gateway}
    (h : Path Steps (initialGateway tmp messageId para) es g) :
    Numbered (sentPdus g.outputs) := by
  have hstart : Counted (initialGateway tmp messageId para) :=
    ⟨rfl, fun i pdu hpdu => nomatch hpdu⟩
  exact (path_invariant (fun g e g' hg hstep => counted_step hg hstep) h hstart).2

end Runs

end CoapThread
