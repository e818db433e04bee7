import CoapThread.Core.State

/-!
# Taking Requests Off the Queue

The branch of `CoapPthread` that a received message enters.

The order of its steps is the source's: the request variable of the loop is
tested before the message is copied into it. What the test sees is therefore
the request of an earlier message, or before the first one whatever the
variable held when the thread began.

Both kinds of request are built from the globals. A poll replaces the bytes of
`host` and leaves its length alone; a block request replaces `path` altogether,
in a heap block with no room for the terminating NUL `strcpy` adds.

## Main definitions

* `pollHost`, `pollOptions`, `requestYC`: Build and send a poll.
* `blockPath`, `firstBlockOptions`, `requestTxBlock`: Build and send a first
  block request.
* `stored`, `store`: Take the message over.
* `receive`: Handle one message.
* `Received`: The ways it is handled.

## Theorems

* `requestYC_eq`: A poll hands one PDU over and replaces the host.
* `requestTxBlock_eq`: A block request does so and replaces the path.
* `receive_noAck`, `receive_stored`: The two ways a message can go.
* `receive_iff`: What a message that is handled comes to.
* `receive_ok`: What a message that is taken over leaves alone.
* `receive_poll`, `receive_block`: What is sent for a message.
-/

namespace CoapThread

open CBytes DeltaOption

/-- A heap block of the given size after `strcpy` of the string at `src`. The
    block is written from the front, so what it held before does not matter
    where the string fills it. -/
def mallocStrcpy (size : Nat) (src : List UInt8) : List UInt8 :=
  overwrite (List.replicate size 0) 0 (cstr src ++ [0])

theorem mallocStrcpy_strlen (src : List UInt8) : mallocStrcpy (strlen src) src = cstr src := by
  have hlen : (List.replicate (strlen src) (0 : UInt8)).length = (cstr src).length :=
    List.length_replicate
  simp only [mallocStrcpy, overwrite, List.take_zero, List.nil_append, Nat.sub_zero, Nat.zero_add]
  rw [List.drop_eq_nil_of_le (by rw [hlen, List.length_append]; exact Nat.le_add_right _ _), hlen,
    List.append_nil, List.take_left]

/-- The host of a poll: the address copied to a heap block, under the length
    `host` has had from the start. -/
def pollHost (g : Gateway) : Str := ⟨g.host.length, some ⟨true, g.tmp.addr.bytes⟩⟩

def pollOptions (host path : Str) : List Opt :=
  coapInsert orderOpts
    (coapInsert orderOpts [] (newOptionNode coapOptionUriHost host.length host.bytes))
    (newOptionNode coapOptionUriPath path.length path.bytes)

/-- Build and send a poll for the request in `tmp`. -/
def requestYC (r : LibcoapResult) (g : Gateway) : Except Fault Gateway :=
  let host := pollHost g
  let optlist := pollOptions host g.path
  match coapNewRequest r.allocated g.token g.messageId coapMessageCon coapRequestGet [] optlist with
  | (_, _, none) => .error .nullDeref
  | (token, messageId, some pdu) =>
    let g := { g with host := host, token := token, messageId := messageId }
    let g := if pdu.type = coapMessageCon then g.emit [.sendConfirmed (some pdu)]
      else g.emit [.send (some pdu)]
    .ok (if pdu.type ≠ coapMessageCon ∨ r.accepted = false then
      g.emit [.deleteList optlist, .deletePdu pdu] else g)

/-- The path of a block request: the resource path and its length, in a heap
    block of that many bytes. -/
def blockPath (m : SCoAPNewRequest) : Str :=
  let length := strlen m.respath.bytes
  ⟨length, some ⟨true, mallocStrcpy length m.respath.bytes⟩⟩

/-- The options of a first block request: block 1 of size exponent 2, and no
    host. -/
def firstBlockOptions (path : Str) : List Opt :=
  coapInsert orderOpts
    (coapInsert orderOpts [] (newOptionNode coapOptionUriPath path.length path.bytes))
    (newOptionNode coapOptionBlock2 1 [0x12])

/-- Build and send a first block request for the request in `tmp`. -/
def requestTxBlock (r : LibcoapResult) (g : Gateway) : Except Fault Gateway :=
  if Terminated g.tmp.respath.bytes then
    let path := blockPath g.tmp
    let optlist := firstBlockOptions path
    match coapNewRequest r.allocated g.token g.messageId coapMessageCon coapRequestGet []
      optlist with
    | (token, messageId, pdu) =>
      let g := { g with path := path, token := token, messageId := messageId }
      .ok (g.emit [.sendConfirmed pdu, .deleteList optlist])
  else .error .overread

/-- Copy the message into `tmp` and append it. -/
def stored (now : Int) (m : SCoAPNewRequest) (g : Gateway) : Gateway :=
  let tmp := { m with time := now }
  { g with tmp := tmp, list := addPthreadRequestToList g.list tmp }

/-- Take the message over, if the request `tmp` held before is not
    `LTU_NOACK`. -/
def store (now : Int) (m : SCoAPNewRequest) (g : Gateway) : Gateway :=
  if g.tmp.req ≠ .ltuNoAck then stored now m g else g

/-- Handle one message taken off the queue. -/
def receive (r : LibcoapResult) (now : Int) (m : SCoAPNewRequest) (g : Gateway) :
    Except Fault Gateway :=
  let g := store now m g
  if g.tmp.req = .ltuYC then requestYC r g
  else if g.tmp.req = .ltuTxBlock then requestTxBlock r g
  else .ok g

/-- The PDU of a poll. -/
def pollPdu (g : Gateway) : CoapPdu :=
  requestPdu g.token g.messageId coapMessageCon coapRequestGet [] (pollOptions (pollHost g) g.path)

/-- The PDU of a first block request. -/
def firstBlockPdu (g : Gateway) : CoapPdu :=
  requestPdu g.token g.messageId coapMessageCon coapRequestGet []
    (firstBlockOptions (blockPath g.tmp))

/-- What is done with a poll that was not taken. -/
def pollRefused (r : LibcoapResult) (g : Gateway) : List Output :=
  if r.accepted then []
  else [.deleteList (pollOptions (pollHost g) g.path), .deletePdu (pollPdu g)]

/-- A poll hands one PDU to the library and replaces the host. -/
theorem requestYC_eq (r : LibcoapResult) (g : Gateway) :
    requestYC r g = if r.allocated then
      .ok { g with
        host := pollHost g
        token := g.token + 1
        messageId := g.messageId + 1
        outputs := g.outputs ++ .sendConfirmed (some (pollPdu g)) :: pollRefused r g }
    else .error .nullDeref := by
  -- The PDU is built confirmable, so the test of its type always passes.
  unfold requestYC coapNewRequest
  by_cases ha : r.allocated = true
  · simp only [ha, if_true, requestPdu_type, ne_eq, not_true_eq_false, false_or]
    cases hacc : r.accepted <;>
      simp only [hacc, pollRefused, pollPdu, Gateway.emit, creatTheToken, reduceCtorEq, if_true,
        if_false, Bool.false_eq_true, List.append_assoc, List.singleton_append]
  · simp only [ha, Bool.false_eq_true, if_false]

/-- A block request hands what it built to the library and replaces the path. -/
theorem requestTxBlock_eq (r : LibcoapResult) (g : Gateway) (h : Terminated g.tmp.respath.bytes) :
    requestTxBlock r g = .ok { g with
      path := blockPath g.tmp
      token := if r.allocated then g.token + 1 else g.token
      messageId := if r.allocated then g.messageId + 1 else g.messageId
      outputs := g.outputs ++
        [.sendConfirmed (if r.allocated then some (firstBlockPdu g) else none),
          .deleteList (firstBlockOptions (blockPath g.tmp))] } := by
  unfold requestTxBlock coapNewRequest
  by_cases ha : r.allocated = true
  · simp only [h, ha, if_true, firstBlockPdu, Gateway.emit, creatTheToken]
  · simp only [h, ha, Bool.false_eq_true, if_true, if_false, Gateway.emit]

theorem requestTxBlock_overread (r : LibcoapResult) (g : Gateway)
    (h : ¬ Terminated g.tmp.respath.bytes) : requestTxBlock r g = .error .overread := by
  unfold requestTxBlock
  rw [if_neg h]

/-- Behind an `LTU_NOACK` a message is dropped. -/
theorem receive_noAck (r : LibcoapResult) (now : Int) (m : SCoAPNewRequest) (g : Gateway)
    (h : g.tmp.req = .ltuNoAck) : receive r now m g = .ok g := by
  simp only [receive, store, h, ne_eq, not_true_eq_false, if_false, reduceCtorEq]

/-- Behind any other request it is taken over and handled as its own says. -/
theorem receive_stored (r : LibcoapResult) (now : Int) (m : SCoAPNewRequest) (g : Gateway)
    (h : g.tmp.req ≠ .ltuNoAck) : receive r now m g =
      if m.req = .ltuYC then requestYC r (stored now m g)
      else if m.req = .ltuTxBlock then requestTxBlock r (stored now m g)
      else .ok (stored now m g) := by
  simp only [receive, store, h, ne_eq, not_false_eq_true, if_true, stored]

/-- The ways a message is handled. -/
inductive Received (r : LibcoapResult) (now : Int) (m : SCoAPNewRequest) (g : Gateway) :
    Gateway → Prop where
  /-- Nothing is done behind an `LTU_NOACK`. -/
  | dropped : g.tmp.req = .ltuNoAck → Received r now m g g
  /-- A poll is sent. -/
  | polled : g.tmp.req ≠ .ltuNoAck → m.req = .ltuYC → r.allocated = true →
      Received r now m g { stored now m g with
        host := pollHost (stored now m g)
        token := g.token + 1
        messageId := g.messageId + 1
        outputs := g.outputs ++
          .sendConfirmed (some (pollPdu (stored now m g))) :: pollRefused r (stored now m g) }
  /-- A first block request is sent, or the library is handed nothing. -/
  | requested : g.tmp.req ≠ .ltuNoAck → m.req = .ltuTxBlock → Terminated m.respath.bytes →
      Received r now m g { stored now m g with
        path := blockPath m
        token := if r.allocated then g.token + 1 else g.token
        messageId := if r.allocated then g.messageId + 1 else g.messageId
        outputs := g.outputs ++
          [.sendConfirmed (if r.allocated then some (firstBlockPdu (stored now m g)) else none),
            .deleteList (firstBlockOptions (blockPath m))] }
  /-- The list grows, and that is all. -/
  | kept : g.tmp.req ≠ .ltuNoAck → m.req ≠ .ltuYC → m.req ≠ .ltuTxBlock →
      Received r now m g (stored now m g)

/-- These are the ways, and each is taken where it can be. -/
theorem receive_iff {r : LibcoapResult} {now : Int} {m : SCoAPNewRequest} {g g' : Gateway} :
    receive r now m g = .ok g' ↔ Received r now m g g' := by
  constructor
  · intro h
    by_cases htmp : g.tmp.req = .ltuNoAck
    · rw [receive_noAck r now m g htmp] at h
      cases h
      exact .dropped htmp
    -- The request looked at is the one just stored.
    rw [receive_stored r now m g htmp] at h
    split_ifs at h with hyc htx
    · rw [requestYC_eq] at h
      split_ifs at h with halloc
      cases h
      exact .polled htmp hyc halloc
    · by_cases hterm : Terminated m.respath.bytes
      · rw [requestTxBlock_eq _ _ hterm] at h
        cases h
        exact .requested htmp htx hterm
      · rw [requestTxBlock_overread _ _ hterm] at h
        cases h
    · cases h
      exact .kept htmp hyc htx
  · intro h
    cases h with
    | dropped htmp => exact receive_noAck r now m g htmp
    | polled htmp hyc halloc =>
        rw [receive_stored r now m g htmp, if_pos hyc, requestYC_eq, if_pos halloc]
        rfl
    | requested htmp htx hterm =>
        -- The polls are tested for first.
        have hne : m.req ≠ .ltuYC := fun hc => nomatch htx.symm.trans hc
        rw [receive_stored r now m g htmp, if_neg hne, if_pos htx,
          requestTxBlock_eq r (stored now m g) hterm]
        rfl
    | kept htmp hyc htx => rw [receive_stored r now m g htmp, if_neg hyc, if_neg htx]

/-- A message that is taken over is handled if its request can be built. -/
theorem receive_returns {r : LibcoapResult} (now : Int) {m : SCoAPNewRequest} {g : Gateway}
    (htmp : g.tmp.req ≠ .ltuNoAck) (hyc : m.req = .ltuYC → r.allocated = true)
    (htx : m.req = .ltuTxBlock → Terminated m.respath.bytes) :
    ∃ g', receive r now m g = .ok g' := by
  by_cases h : m.req = .ltuYC
  · exact ⟨_, receive_iff.mpr (.polled htmp h (hyc h))⟩
  by_cases h' : m.req = .ltuTxBlock
  · exact ⟨_, receive_iff.mpr (.requested htmp h' (htx h'))⟩
  · exact ⟨_, receive_iff.mpr (.kept htmp h h')⟩

/-- Taking a message over, wherever it returns, appends the request and leaves
    the requesters alone. -/
theorem receive_ok {r : LibcoapResult} {now : Int} {m : SCoAPNewRequest} {g g' : Gateway}
    (htmp : g.tmp.req ≠ .ltuNoAck) (h : receive r now m g = .ok g') :
    g'.list = (stored now m g).list ∧ g'.para = g.para ∧
      (m.req = .ltuTxBlock → Terminated m.respath.bytes) := by
  cases receive_iff.mp h with
  | dropped hnoack => exact absurd hnoack htmp
  | polled _ hyc => exact ⟨rfl, rfl, fun hc => nomatch hyc.symm.trans hc⟩
  | requested _ _ hterm => exact ⟨rfl, rfl, fun _ => hterm⟩
  | kept _ _ htx => exact ⟨rfl, rfl, fun hc => absurd hc htx⟩

/-- A poll that is taken over sends one PDU. -/
theorem receive_poll (r : LibcoapResult) (now : Int) (m : SCoAPNewRequest) (g : Gateway)
    (htmp : g.tmp.req ≠ .ltuNoAck) (hreq : m.req = .ltuYC) (halloc : r.allocated = true) :
    ∃ g', receive r now m g = .ok g' ∧
      sentPdus g'.outputs = sentPdus g.outputs ++ [pollPdu (stored now m g)] ∧
      g'.tmp = { m with time := now } ∧ g'.list = (stored now m g).list ∧ g'.path = g.path := by
  refine ⟨_, receive_iff.mpr (.polled htmp hreq halloc), ?_, rfl, rfl, rfl⟩
  rw [sentPdus_append]
  unfold pollRefused
  split_ifs <;> rfl

/-- So does a block request, and leaves its path in the template. -/
theorem receive_block (r : LibcoapResult) (now : Int) (m : SCoAPNewRequest) (g : Gateway)
    (htmp : g.tmp.req ≠ .ltuNoAck) (hreq : m.req = .ltuTxBlock)
    (hterm : Terminated m.respath.bytes) :
    ∃ g', receive r now m g = .ok g' ∧
      sentPdus g'.outputs = sentPdus g.outputs ++
        (if r.allocated then [firstBlockPdu (stored now m g)] else []) ∧
      g'.tmp = { m with time := now } ∧ g'.list = (stored now m g).list ∧
      g'.path = blockPath m := by
  refine ⟨_, receive_iff.mpr (.requested htmp hreq hterm), ?_, rfl, rfl, rfl⟩
  rw [sentPdus_append]
  split_ifs <;> rfl

end CoapThread
