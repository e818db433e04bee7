import CoapThread.Core.Receive
import CoapThread.Core.Senders
import Mathlib.Data.List.Forall2

/-!
# Confirmable or Not

Whether a poll is confirmable exactly for the devices that have not failed too
often.

Neither end of the queue keeps to it. The poll thread goes on with one local
through a round and only ever sets its type to non-confirmable, so the type a
message is queued with depends on all devices up to its own; `pollMessages_type`
is the law. The receive loop does not look at the field and builds every PDU
confirmable. A round is right only if there is no device in it that has failed
nine times.

## Main definitions

* `wantedType`: The type a device's poll ought to have.
* `TypeKept`: A message and its PDU have that type.

## Theorems

* `pollMessages_type`: The type each message is queued with.
* `poll_type`: The type every PDU is built with.
* `typesKept_iff`: A round is right exactly where no device has failed nine times.
* `not_typesKept_nine`: The shortest round that is not right.
-/

namespace CoapThread

/-- A device has failed so often that its polls are not confirmed. -/
def Failing (device : LTUInfor) : Prop := 9 ≤ device.failedcount

instance (device : LTUInfor) : Decidable (Failing device) := inferInstanceAs (Decidable (_ ≤ _))

/-- The type a device's poll ought to have. -/
def wantedType (device : LTUInfor) : UInt8 :=
  if Failing device then coapMessageNon else coapMessageCon

/-- The message is queued with its device's type, and whenever it is taken over
    and there is a PDU for it, one PDU is built and has that type. -/
def TypeKept (device : LTUInfor) (m : SCoAPNewRequest) : Prop :=
  m.msgtype = wantedType device ∧
    ∀ (r : LibcoapResult) (now : Int) (g : Gateway), g.tmp.req ≠ .ltuNoAck → r.allocated = true →
      ∃ g' pdu, receive r now m g = .ok g' ∧ newPdus g g' = [pdu] ∧ pdu.type = wantedType device

theorem pollFill_type {tmp tmp' : SCoAPNewRequest} {device : LTUInfor}
    (h : pollFill tmp device = .ok tmp') :
    tmp'.msgtype = if Failing device then coapMessageNon else tmp.msgtype := by
  unfold pollFill at h
  split_ifs at h with hterm hfail
  · have hfailing : Failing device := hfail
    rw [← Except.ok.inj h, if_pos hfailing]
  · have hhealthy : ¬ Failing device := hfail
    rw [← Except.ok.inj h, if_neg hhealthy]
    rfl

/-- A message is non-confirmable from the first failing device of the round on. -/
theorem pollMessages_type {tmp : SCoAPNewRequest} {devices : List LTUInfor}
    {ms : List SCoAPNewRequest} (h : pollMessages tmp devices = .ok ms) (i : Nat)
    (m : SCoAPNewRequest) (hm : ms[i]? = some m) :
    m.msgtype =
      if (devices.take (i + 1)).any (Failing ·) then coapMessageNon else tmp.msgtype := by
  induction devices generalizing tmp ms i with
  | nil =>
      rw [← Except.ok.inj h] at hm
      cases hm
  | cons device devices ih =>
      rcases pollMessages_cons h with ⟨tmp', ms', hfill, hrest, hms⟩
      rw [hms] at hm
      have htype := pollFill_type hfill
      rw [List.take_succ_cons, List.any_cons]
      cases i with
      | zero =>
          rw [List.getElem?_cons_zero] at hm
          rw [← Option.some.inj hm, htype]
          simp only [List.take_zero, List.any_nil, Bool.or_false, decide_eq_true_eq]
      | succ i =>
          rw [List.getElem?_cons_succ] at hm
          rw [ih hrest i hm, htype]
          -- The local the rest goes on with has the type of this device's message.
          by_cases hfail : Failing device
          · simp only [hfail, if_true, decide_true, Bool.true_or, ite_self]
          · simp only [hfail, if_false, decide_false, Bool.false_or]

/-- A poll that is taken over is built confirmable, whatever its message says. -/
theorem poll_type (r : LibcoapResult) (now : Int) (m : SCoAPNewRequest) (g : Gateway)
    (htmp : g.tmp.req ≠ .ltuNoAck) (hreq : m.req = .ltuYC) (halloc : r.allocated = true) :
    ∃ g' pdu, receive r now m g = .ok g' ∧ newPdus g g' = [pdu] ∧ pdu.type = coapMessageCon := by
  rcases receive_poll r now m g htmp hreq halloc with ⟨g', hrun, hsent, -⟩
  exact ⟨g', _, hrun, newPdus_of_append hsent, requestPdu_type _ _ _ _ _⟩

/-- A device whose message keeps its type has not failed nine times. -/
theorem TypeKept.not_failing {device : LTUInfor} {m : SCoAPNewRequest} (h : TypeKept device m)
    (hreq : m.req = .ltuYC) : ¬ Failing device := by
  intro hfail
  have htmp : (bareGateway .zero).tmp.req ≠ .ltuNoAck := nofun
  rcases h.2 ⟨true, true⟩ 0 (bareGateway .zero) htmp rfl with ⟨g', pdu, hrun, hnew, htype⟩
  rcases poll_type ⟨true, true⟩ 0 m (bareGateway .zero) htmp hreq rfl with
    ⟨g'', pdu', hrun', hnew', htype'⟩
  cases hrun.symm.trans hrun'
  cases hnew.symm.trans hnew'
  rw [wantedType, if_pos hfail, htype'] at htype
  exact absurd htype (by decide)

/-- For every table and whatever the poll thread's local held before: each
    device's message and PDU have the device's type if and only if no device
    has failed nine times. -/
theorem typesKept_iff (junk : SCoAPNewRequest) (devices : List LTUInfor)
    (ms : List SCoAPNewRequest) (h : pollMessages (pollTemplate junk) devices = .ok ms) :
    List.Forall₂ TypeKept devices ms ↔ ∀ device ∈ devices, ¬ Failing device := by
  rcases pollMessages_req h with ⟨hlen, hreq⟩
  rw [List.forall₂_iff_get]
  constructor
  · rintro ⟨-, hkept⟩ device hdevice
    rcases List.mem_iff_get.mp hdevice with ⟨i, hi⟩
    have hlt : i.1 < ms.length := by rw [hlen]; exact i.2
    rw [← hi]
    exact (hkept i.1 i.2 hlt).not_failing (hreq _ (List.get_mem ms ⟨i.1, hlt⟩)).1
  · intro hhealthy
    refine ⟨hlen.symm, fun i hi hi' => ?_⟩
    have hwanted : wantedType (devices.get ⟨i, hi⟩) = coapMessageCon :=
      if_neg (hhealthy _ (List.get_mem devices ⟨i, hi⟩))
    have htype := pollMessages_type h i (ms.get ⟨i, hi'⟩) (List.getElem?_eq_getElem hi')
    have hnone : ¬ (devices.take (i + 1)).any (Failing ·) = true := by
      rw [List.any_eq_true]
      rintro ⟨d, hd, hfail⟩
      exact hhealthy d (List.mem_of_mem_take hd) (of_decide_eq_true hfail)
    rw [if_neg hnone] at htype
    refine ⟨htype.trans hwanted.symm, fun r now g htmp halloc => ?_⟩
    rw [hwanted]
    exact poll_type r now _ g htmp (hreq _ (List.get_mem ms ⟨i, hi'⟩)).1 halloc

/-- The record of a device named `LTUA` that has failed so often. -/
def failedDevice (n : Int32) : LTUInfor :=
  { LTUInfor.ofName [0x4c, 0x54, 0x55, 0x41] with failedcount := n }

/-- The round of one device. -/
def oneRound (n : Int32) : Except Fault (List SCoAPNewRequest) :=
  pollMessages (pollTemplate .zero) [failedDevice n]

/-- A device that has failed eight times, and one behind it that never has. -/
theorem typesKept_twoDevices : ∃ ms,
    pollMessages (pollTemplate .zero) [failedDevice 8, .ofName [0x4c, 0x54, 0x55, 0x42]] = .ok ms ∧
      List.Forall₂ TypeKept [failedDevice 8, .ofName [0x4c, 0x54, 0x55, 0x42]] ms := by
  refine ⟨_, rfl, (typesKept_iff .zero _ _ rfl).mpr (fun device hdevice => ?_)⟩
  simp only [List.mem_cons, List.not_mem_nil, or_false] at hdevice
  rcases hdevice with rfl | rfl <;> decide

/-- A device that has failed nine times. -/
theorem not_typesKept_nine :
    ∃ ms, oneRound 9 = .ok ms ∧ ¬ List.Forall₂ TypeKept [failedDevice 9] ms := by
  refine ⟨_, rfl, fun h => ?_⟩
  cases h with
  | cons hkept _ => exact hkept.not_failing rfl (by decide)

end CoapThread
