import CoapThread.Core.Receive
import CoapThread.Library.Machine

/-!
# Each Message Under Its Own Request

Whether the loop of `CoapPthread` treats a message as its own `req` asks.

The loop tests its request variable before it copies the message in, so what
decides whether a message is taken over is the `req` of the message before it.
While no `LTU_NOACK` is about the two tests agree. The first `LTU_NOACK` that
arrives is appended like any other request, and from then on the variable
holds it and is never overwritten again, so every later message is dropped. A
variable that happens to hold `LTU_NOACK` from the start does the same to all.

`handledByOwnReq_iff` states this exactly: a run is handled well if and only
if each of its messages is an `LTU_NOACK` precisely when the variable held one
to begin with. The invariant that carries the proof is that along such a run
the variable's answer to that question never changes.

## Main definitions

* `Arrival`: A message as it comes off the queue.
* `Taken`: The loop as a labelled machine.
* `HandledByOwnReq`: What one message is owed.

## Theorems

* `handledByOwnReq_arrival`: One message gets what it is owed iff the variable
  and the message agree on `LTU_NOACK`.
* `handledByOwnReq_iff`: The condition for a whole run.
* `not_handledByOwnReq_noAck_poll`: A poll behind an `LTU_NOACK` is dropped.
-/

namespace CoapThread

open CBytes Machine

/-- A message as it comes off the queue, at a time. A block request's path is
    a string. -/
structure Arrival where
  now : Int
  message : SCoAPNewRequest
  wellFormed : message.req = .ltuTxBlock → Terminated message.respath.bytes

/-- The message as it is kept, with the time it was taken off. -/
def Arrival.kept (a : Arrival) : SCoAPNewRequest := { a.message with time := a.now }

/-- The loop takes a message, the library giving what it is asked for. -/
def Taken (g : Gateway) (a : Arrival) (g' : Gateway) : Prop :=
  receive ⟨true, true⟩ a.now a.message g = .ok g'

/-- What one message is owed: an `LTU_NOACK` leaves no trace, any other is
    appended, and a poll or a block request hands one PDU to the library. -/
def HandledByOwnReq (g : Gateway) (a : Arrival) : Prop :=
  ∃ g' pdus, Taken g a g' ∧
    (a.message.req = .ltuNoAck → g' = g) ∧
    (a.message.req ≠ .ltuNoAck → ∀ reqs, Stores g.list reqs →
      Stores g'.list (reqs ++ [a.kept.data])) ∧
    sentPdus g'.outputs = sentPdus g.outputs ++ pdus ∧
    pdus.length = if a.message.req = .ltuYC ∨ a.message.req = .ltuTxBlock then 1 else 0

-- Behind anything but an LTU_NOACK every message is appended, an LTU_NOACK too.
theorem taken_stored (g : Gateway) (a : Arrival) (h : g.tmp.req ≠ .ltuNoAck) :
    ∃ g' pdus, Taken g a g' ∧ g'.tmp = a.kept ∧
      g'.list = addPthreadRequestToList g.list a.kept ∧
      sentPdus g'.outputs = sentPdus g.outputs ++ pdus ∧
      pdus.length = if a.message.req = .ltuYC ∨ a.message.req = .ltuTxBlock then 1 else 0 := by
  by_cases hyc : a.message.req = .ltuYC
  · rcases receive_poll ⟨true, true⟩ a.now a.message g h hyc rfl with
      ⟨g', hrun, hsent, htmp, hlist, -⟩
    refine ⟨g', _, hrun, htmp, hlist, hsent, ?_⟩
    rw [if_pos (Or.inl hyc)]
    rfl
  · by_cases htx : a.message.req = .ltuTxBlock
    · rcases receive_block ⟨true, true⟩ a.now a.message g h htx (a.wellFormed htx) with
        ⟨g', hrun, hsent, htmp, hlist, -⟩
      refine ⟨g', _, hrun, htmp, hlist, hsent, ?_⟩
      rw [if_pos (Or.inr htx)]
      rfl
    · refine ⟨stored a.now a.message g, [], receive_iff.mpr (.kept h hyc htx), rfl, rfl,
        (List.append_nil _).symm, ?_⟩
      rw [if_neg (fun hc => hc.elim hyc htx)]
      rfl

/-- One message gets what it is owed exactly when the variable and the message
    agree on `LTU_NOACK`. -/
theorem handledByOwnReq_arrival (g : Gateway) (a : Arrival) (hs : ∃ reqs, Stores g.list reqs) :
    HandledByOwnReq g a ↔ (a.message.req = .ltuNoAck ↔ g.tmp.req = .ltuNoAck) := by
  rcases hs with ⟨reqs, hreqs⟩
  by_cases htmp : g.tmp.req = .ltuNoAck
  · have hdrop : Taken g a g := receive_noAck _ _ _ _ htmp
    constructor
    · rintro ⟨g', pdus, hrun, -, happend, -⟩
      have hsame : g' = g := Except.ok.inj (hrun.symm.trans hdrop)
      subst hsame
      refine ⟨fun _ => htmp, fun _ => ?_⟩
      by_contra hne
      -- A dropped message cannot have made the list longer.
      have heq := stores_unique _ _ _ (happend hne reqs hreqs) hreqs
      have hlen := congrArg List.length heq
      rw [List.length_append, List.length_singleton] at hlen
      omega
    · intro hiff
      have hreq := hiff.mpr htmp
      refine ⟨g, [], hdrop, fun _ => rfl, fun hne => absurd hreq hne,
        (List.append_nil _).symm, ?_⟩
      rw [hreq]
      rfl
  · rcases taken_stored g a htmp with ⟨g', pdus, hrun, -, hlist, hsent, hlen⟩
    constructor
    · rintro ⟨g'', -, hrun'', hnoack, -⟩
      refine ⟨fun hreq => ?_, fun hc => absurd hc htmp⟩
      -- The LTU_NOACK has been appended, so it left a trace.
      have hsame : g' = g := (Except.ok.inj (hrun.symm.trans hrun'')).trans (hnoack hreq)
      have hfresh := congrArg (fun x => x.list.fresh) hsame
      simp only [hlist, add_fresh] at hfresh
      exact absurd hfresh (Nat.succ_ne_self _)
    · intro hiff
      have hne : a.message.req ≠ .ltuNoAck := fun hc => htmp (hiff.mp hc)
      refine ⟨g', pdus, hrun, fun hc => absurd hc hne, fun _ reqs' hreqs' => ?_, hsent, hlen⟩
      rw [hlist]
      exact add_stores g.list reqs' a.kept hreqs'

-- What a run keeps: some list, and the variable's answer to the test.
theorem taken_keeps (b : Prop) (g : Gateway) (a : Arrival) (g' : Gateway)
    (hi : (∃ reqs, Stores g.list reqs) ∧ (g.tmp.req = .ltuNoAck ↔ b))
    (hc : a.message.req = .ltuNoAck ↔ b) (hstep : Taken g a g') :
    (∃ reqs, Stores g'.list reqs) ∧ (g'.tmp.req = .ltuNoAck ↔ b) := by
  rcases hi with ⟨⟨reqs, hreqs⟩, hb⟩
  by_cases htmp : g.tmp.req = .ltuNoAck
  · have hsame : g = g' := Except.ok.inj ((receive_noAck _ _ _ _ htmp).symm.trans hstep)
    subst hsame
    exact ⟨⟨reqs, hreqs⟩, hb⟩
  · rcases taken_stored g a htmp with ⟨g'', _, hrun, hvar, hlist, -⟩
    have hsame : g'' = g' := Except.ok.inj (hrun.symm.trans hstep)
    subst hsame
    rw [hlist, hvar]
    exact ⟨⟨_, add_stores g.list reqs a.kept hreqs⟩, hc⟩

/-- A run is handled well, each message under its own request, if and only if
    each of its messages is an `LTU_NOACK` precisely when the variable held
    one at the start. -/
theorem handledByOwnReq_iff (g : Gateway) (as : List Arrival) (reqs : List SCoAPNewRequest)
    (hs : Stores g.list reqs) :
    Along Taken HandledByOwnReq g as ↔
      ∀ a ∈ as, (a.message.req = .ltuNoAck ↔ g.tmp.req = .ltuNoAck) := by
  refine along_iff_forall (taken_keeps (g.tmp.req = .ltuNoAck)) (fun g' a hi => ?_)
    (fun g' a hi hc => ?_) ⟨⟨reqs, hs⟩, Iff.rfl⟩
  · rw [handledByOwnReq_arrival g' a hi.1, hi.2]
  · rcases (handledByOwnReq_arrival g' a hi.1).mpr (hc.trans hi.2.symm) with ⟨g'', -, hrun, -⟩
    exact ⟨g'', hrun⟩

/-- A block request of the path `3`. -/
def pathThree : Arrival where
  now := 0
  message := { SCoAPNewRequest.zero with respath := Buf.ofList 256 [0x33], req := .ltuTxBlock }
  wellFormed _ := Buf.terminated_ofList [0x33] (by
    rw [List.length_singleton]
    omega)

/-- A block request, a poll of the host `a` and a request for which no PDU is
    sent are handled well from a variable that holds a poll. -/
theorem handledByOwnReq_threeKinds :
    Along Taken HandledByOwnReq (bareGateway .zero)
      [pathThree, ⟨1, { SCoAPNewRequest.zero with addr := Buf.ofList 15 [0x61] }, nofun⟩,
        ⟨2, { SCoAPNewRequest.zero with req := .ltuYK }, nofun⟩] := by
  refine (handledByOwnReq_iff (bareGateway .zero) _ [] ⟨[], empty_holds, rfl⟩).mpr (fun a ha => ?_)
  have hlocal : (bareGateway .zero).tmp.req ≠ .ltuNoAck := nofun
  simp only [List.mem_cons, List.not_mem_nil, or_false] at ha
  rcases ha with rfl | rfl | rfl <;> exact iff_of_false nofun hlocal

/-- A poll behind an `LTU_NOACK` is not: the first is appended and the second
    is dropped. -/
theorem not_handledByOwnReq_noAck_poll :
    ¬ Along Taken HandledByOwnReq (bareGateway .zero)
      [⟨0, { SCoAPNewRequest.zero with req := .ltuNoAck }, nofun⟩, ⟨0, .zero, nofun⟩] := by
  intro h
  have hiff := (handledByOwnReq_arrival _ _ ⟨[], [], empty_holds, rfl⟩).mp h.1
  exact absurd (hiff.mp rfl) (by simp only [bareGateway, initialGateway, SCoAPNewRequest.zero,
    reduceCtorEq, not_false_eq_true])

end CoapThread
