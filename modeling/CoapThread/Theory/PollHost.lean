import CoapThread.Theory.RequestPath
import CoapThread.Core.Registry
import CoapThread.Core.Senders

/-!
# A Device's Address on Its Way to the Wire

Whether the poll of a device names the device.

A device's address is its name without the three letters in front. It passes
through three arrays: up to thirty letters in the record, fifteen bytes in the
message, and the host of the request, which is always twelve bytes. The copy to
the message looks at no length and the host is cut at a fixed one, so an
address arrives as it is exactly if it has twelve letters. A shorter one is
followed by its NUL and what the message held before; a longer one is cut, and
one of fifteen or more runs out of its field.

The three letters are not sent at all. Names that differ only there name the
same host.

## Main definitions

* `address`: A device's address.
* `PollsDevice`: A PDU built for the message a round has for a device.
* `AddressIntact`: The addresses of a table arrive as they are.
* `TwelveLetters`: The names that this is true of.

## Theorems

* `pollsDevice_host`: The host of a device's poll.
* `pollsDevice_exists`: Every device of a table is polled.
* `addressIntact_iff`: The addresses arrive exactly if they have twelve letters
  and tell the devices apart.
* `not_addressIntact_short`: A name of four letters.
-/

namespace CoapThread

open CBytes Machine

/-- A device's address: the name behind the three letters in front. -/
def address (device : LTUInfor) : List UInt8 := cstr (device.name.bytes.drop 3)

/-- A name is a string of three letters or more. -/
def Named (device : LTUInfor) : Prop :=
  Terminated device.name.bytes ∧ 3 ≤ strlen device.name.bytes

/-- A PDU is built for the message a round over the table has for a device, in
    some state the thread can be in. -/
def PollsDevice (devices : List LTUInfor) (device : LTUInfor) (pdu : CoapPdu) : Prop :=
  ∃ (junk : SCoAPNewRequest) (ms : List SCoAPNewRequest) (i : Nat) (m : SCoAPNewRequest),
    pollMessages (pollTemplate junk) devices = .ok ms ∧
    devices[i]? = some device ∧ ms[i]? = some m ∧
    ∃ tmp messageId para es g, Path Steps (initialGateway tmp messageId para) es g ∧
      ∃ r now g', receive r now m g = .ok g' ∧ pdu ∈ newPdus g g'

/-- What is copied to a message stays in its address, every poll of a device
    has the device's address as its host, and no two devices of different
    names are polled under one host. -/
structure AddressIntact (devices : List LTUInfor) : Prop where
  inside : ∀ device ∈ devices, (address device ++ [0]).length ≤ 15
  host : ∀ device pdu, PollsDevice devices device pdu → NamesHost pdu (address device)
  apart : ∀ device device' pdu pdu', PollsDevice devices device pdu →
    PollsDevice devices device' pdu' → device.nameOf ≠ device'.nameOf →
    ∀ host, NamesHost pdu host → ¬ NamesHost pdu' host

/-- Every name has twelve letters behind the first three, and those tell the
    devices apart. -/
structure TwelveLetters (devices : List LTUInfor) : Prop where
  length : ∀ device ∈ devices, strlen device.name.bytes = 15
  apart : ∀ device ∈ devices, ∀ device' ∈ devices, device.nameOf ≠ device'.nameOf →
    address device ≠ address device'

section Names

variable {device : LTUInfor}

theorem address_eq (h : Named device) : address device = device.nameOf.drop 3 :=
  cstr_drop _ _ h.2

/-- The name of a device is three letters longer than its address. -/
theorem address_length (h : Named device) :
    strlen device.name.bytes = (address device).length + 3 := by
  have hlen := h.2
  rw [address_eq h, List.length_drop]
  unfold LTUInfor.nameOf strlen at *
  omega

/-- The address ends where the name does. -/
theorem address_terminated (h : Named device) : Terminated (device.name.bytes.drop 3) := by
  apply terminated_of_strlen_lt
  have hlt := strlen_lt_of_terminated _ h.1
  have hlen := address_length h
  rw [List.length_drop]
  unfold strlen address at *
  omega

end Names

section Host

variable {devices : List LTUInfor} {device : LTUInfor} {pdu : CoapPdu}

theorem PollsDevice.mem (h : PollsDevice devices device pdu) : device ∈ devices := by
  rcases h with ⟨junk, ms, i, m, -, hdevice, -⟩
  exact List.mem_of_getElem? hdevice

/-- The host of a device's poll is twelve bytes of a message's address that
    begins with the device's, which runs on into the path where it is longer. -/
theorem pollsDevice_host (h : PollsDevice devices device pdu) :
    ∃ m : SCoAPNewRequest, cstr m.addrBytes = address device ∧
      NamesHost pdu (m.addr.bytes.take 12) := by
  rcases h with ⟨junk, ms, i, m, hms, hdevice, hm, tmp, messageId, para, es, g, hg, r, now, g',
    hrun, hpdu⟩
  rcases pollMessages_fill hms hdevice hm with ⟨tmp', hfill⟩
  have hreq : m.req = .ltuYC := ((pollMessages_req hms).2 m (List.mem_of_getElem? hm)).1
  have hfit := path_fit hg
  refine ⟨m, pollFill_name hfill, ?_⟩
  cases receive_iff.mp hrun with
  | dropped =>
      rw [newPdus_of_sent rfl] at hpdu
      cases hpdu
  | polled htmp hyc halloc =>
      rcases receive_poll r now m g htmp hyc halloc with ⟨g'', hrun', hsent, -⟩
      cases hrun.symm.trans hrun'
      rw [newPdus_of_append hsent] at hpdu
      rw [List.mem_singleton.mp hpdu]
      exact pollPdu_host (stored now m g) hfit.host hfit.path
  | requested _ htx => exact absurd (hreq.symm.trans htx) nofun
  | kept _ hyc => exact absurd hreq hyc

/-- An address of twelve letters is the host. -/
theorem pollsDevice_host_twelve (h : PollsDevice devices device pdu)
    (hlen : (address device).length = 12) : NamesHost pdu (address device) := by
  rcases pollsDevice_host h with ⟨m, haddr, hhost⟩
  have htake : m.addrBytes.take 12 = address device := by
    rw [← hlen, ← haddr]
    exact take_strlen m.addrBytes
  -- Twelve bytes of the address end before the path begins.
  have hfront : m.addrBytes.take 12 = m.addr.bytes.take 12 := by
    unfold SCoAPNewRequest.addrBytes
    rw [List.take_append_of_le_length (by rw [m.addr.length_eq]; omega)]
  rw [← htake, hfront]
  exact hhost

/-- Any other is not, for the host has twelve bytes whatever the address. -/
theorem length_of_pollsDevice_host (h : PollsDevice devices device pdu)
    (hhost : NamesHost pdu (address device)) : (address device).length = 12 := by
  rcases pollsDevice_host h with ⟨m, -, htwelve⟩
  have heq : m.addr.bytes.take 12 = address device := Option.some.inj (htwelve.symm.trans hhost)
  rw [← heq, List.length_take, m.addr.length_eq]
  rfl

/-- Every device of a table is polled. -/
theorem pollsDevice_exists (hnamed : ∀ device ∈ devices, Named device) (h : device ∈ devices) :
    ∃ pdu, PollsDevice devices device pdu := by
  rcases pollMessages_ok (pollTemplate .zero) (fun d hd => address_terminated (hnamed d hd)) with
    ⟨ms, hms⟩
  rcases List.mem_iff_getElem?.mp h with ⟨i, hi⟩
  rcases pollMessages_req hms with ⟨hlen, hreq⟩
  have hlt : i < ms.length := by
    rw [hlen]
    exact (List.getElem?_eq_some_iff.mp hi).1
  have hyc : ms[i].req = .ltuYC := (hreq _ (List.getElem_mem hlt)).1
  -- The first message the thread takes over.
  rcases receive_poll ⟨true, true⟩ 0 ms[i] (bareGateway .zero) nofun hyc rfl with
    ⟨g', hrun, hsent, -⟩
  refine ⟨pollPdu (stored 0 ms[i] (bareGateway .zero)), .zero, ms, i, ms[i], hms, hi,
    List.getElem?_eq_getElem hlt, .zero, 0, _, [], bareGateway .zero, Path.nil _, ⟨true, true⟩, 0,
    g', hrun, ?_⟩
  rw [newPdus_of_append hsent]
  exact List.mem_singleton_self _

end Host

/-- For every table of named devices: the addresses arrive as they are if and
    only if they have twelve letters each and tell the devices apart. -/
theorem addressIntact_iff (devices : List LTUInfor) (hnamed : ∀ device ∈ devices, Named device) :
    AddressIntact devices ↔ TwelveLetters devices := by
  constructor
  · intro h
    refine ⟨fun device hdevice => ?_, fun device hdevice device' hdevice' hne heq => ?_⟩
    · rcases pollsDevice_exists hnamed hdevice with ⟨pdu, hpdu⟩
      rw [address_length (hnamed device hdevice),
        length_of_pollsDevice_host hpdu (h.host device pdu hpdu)]
    · rcases pollsDevice_exists hnamed hdevice with ⟨pdu, hpdu⟩
      rcases pollsDevice_exists hnamed hdevice' with ⟨pdu', hpdu'⟩
      exact h.apart device device' pdu pdu' hpdu hpdu' hne (address device)
        (h.host device pdu hpdu) (heq ▸ h.host device' pdu' hpdu')
  · intro h
    have htwelve : ∀ device ∈ devices, (address device).length = 12 := by
      intro device hdevice
      have hlen := address_length (hnamed device hdevice)
      rw [h.length device hdevice] at hlen
      omega
    refine ⟨fun device hdevice => ?_, fun device pdu hpdu => ?_,
      fun device device' pdu pdu' hpdu hpdu' hne host hhost hhost' => ?_⟩
    · rw [List.length_append, htwelve device hdevice]
      decide
    · exact pollsDevice_host_twelve hpdu (htwelve device hpdu.mem)
    · have hsame := pollsDevice_host_twelve hpdu (htwelve device hpdu.mem)
      have hsame' := pollsDevice_host_twelve hpdu' (htwelve device' hpdu'.mem)
      -- Both PDUs name one host, so the addresses are equal.
      refine h.apart device hpdu.mem device' hpdu'.mem hne ?_
      exact (Option.some.inj (hsame.symm.trans hhost)).trans
        (Option.some.inj (hhost'.symm.trans hsame'))

/-- A table of the devices of the given names. -/
def tableOf (names : List (List UInt8)) : List LTUInfor := names.map LTUInfor.ofName

/-- The devices `LTUfc0000abbcbd` and `LTUfc0000abbcbe`. -/
def twoNamed : List LTUInfor := tableOf
  [[0x4c, 0x54, 0x55, 0x66, 0x63, 0x30, 0x30, 0x30, 0x30, 0x61, 0x62, 0x62, 0x63, 0x62, 0x64],
    [0x4c, 0x54, 0x55, 0x66, 0x63, 0x30, 0x30, 0x30, 0x30, 0x61, 0x62, 0x62, 0x63, 0x62, 0x65]]

/-- Their addresses have twelve letters and differ in the last. -/
theorem addressIntact_twoNamed : AddressIntact twoNamed := by
  have hnamed : ∀ device ∈ twoNamed, Named device := by
    unfold Named
    decide
  exact (addressIntact_iff _ hnamed).mpr ⟨by decide, by decide⟩

/-- The device `LTUA`. -/
theorem not_addressIntact_short :
    (∀ device ∈ tableOf [[0x4c, 0x54, 0x55, 0x41]], Named device) ∧
      ¬ AddressIntact (tableOf [[0x4c, 0x54, 0x55, 0x41]]) := by
  have hnamed : ∀ device ∈ tableOf [[0x4c, 0x54, 0x55, 0x41]], Named device := by
    unfold Named
    decide
  refine ⟨hnamed, fun h => ?_⟩
  have hmem : LTUInfor.ofName [0x4c, 0x54, 0x55, 0x41] ∈ tableOf [[0x4c, 0x54, 0x55, 0x41]] :=
    List.mem_singleton_self _
  rcases pollsDevice_exists hnamed hmem with ⟨pdu, hpdu⟩
  exact absurd (length_of_pollsDevice_host hpdu (h.host _ pdu hpdu)) (by decide)

end CoapThread
