import CoapThread.Core.Handler

/-!
# Decoding a Measurement

What the measurement branch stores, and under which names.

The four loops do cover the table and the payload without a gap: the order
they save in is the first twenty names, each with the next four bytes. What
goes wrong is in front of them. The conversion to hex digits is called with
its source and destination swapped, so it reads the six zeros behind `LTU` and
writes over the host option of the received PDU, and the prefix of the names
stays `LTU` for every device. The pointer the values are read through has not
been set from the payload either.

## Main definitions

* `hexDigits`: The digits of a host.
* `expectedSaves`: What a measurement ought to store.
* `Decodes`: The branch stores that and leaves the PDU as it was.

## Theorems

* `saveLoop_ok`: The loops store consecutive words.
* `branch_saves`: What the branch stores where it returns.
* `not_decodes`: It decodes no measurement of a host of six bytes.
* `not_decodes_device`: Nor that of the device `FC0000AFBCBD`.
* `branch_names_hostless`: Two devices' values are stored under the same names.
-/

namespace CoapThread

open CBytes DeltaOption

/-- Two digits for each byte, upper case. -/
def hexDigits (host : List UInt8) : List UInt8 :=
  host.flatMap (fun (b : UInt8) =>
    [numCharTable.getD (b >>> 4).toNat 0, numCharTable.getD (b &&& 0x0f).toNat 0])

/-- The `k`-th value under its name: the letters `LTU`, a prefix, and the `k`-th
    entry of the table, for twenty values. -/
def savesUnder (digits : List UInt8) (words : List UInt8) : List Output :=
  (List.range 20).map (fun k =>
    .saveDouble ([0x4c, 0x54, 0x55] ++ digits ++ daName.getD k []) ((words.drop (4 * k)).take 4))

/-- What a measurement ought to store: the payload's words under the digits of
    its host. -/
def expectedSaves (host payload : List UInt8) : List Output := savesUnder (hexDigits host) payload

/-- The stores among the outputs. -/
def saves (os : List Output) : List Output := os.filter (fun o => match o with
  | .saveDouble _ _ => true
  | _ => false)

/-- The branch returns with the PDU as it was and has stored what it ought. -/
def Decodes (l : HandlerLocals) (received : CoapPdu) (g : Gateway) : Prop :=
  ∃ host payload g', coapCheckOption received coapOptionUriHost = some host ∧
    coapGetData received = some payload ∧ measurementBranch l received g = .ok (received, g') ∧
    saves (g'.outputs.drop g.outputs.length) = expectedSaves host.value payload

/-- The loops cover the names in order, without a gap. -/
theorem saveOrder_eq : saveOrder = List.range 20 := by decide

/-- A store for each name in turn, of the next four bytes. -/
theorem saveLoop_ok {ctxname : List UInt8} {is : List Nat} {databuf : List UInt8}
    {os : List Output} (h : saveLoop ctxname is databuf = .ok os) :
    4 * is.length ≤ databuf.length ∧ os = is.mapIdx (fun k i =>
      .saveDouble (cstr ctxname ++ daName.getD i []) ((databuf.drop (4 * k)).take 4)) := by
  induction is generalizing databuf os with
  | nil => exact ⟨Nat.zero_le _, (Except.ok.inj h).symm⟩
  | cons i is ih =>
      unfold saveLoop at h
      split_ifs at h with hshort
      rcases hrest : saveLoop ctxname is (databuf.drop 4) with f | rest
      · rw [hrest] at h
        cases h
      rw [hrest] at h
      rcases ih hrest with ⟨hlen, hos⟩
      rw [List.length_drop] at hlen
      refine ⟨by rw [List.length_cons]; omega, ?_⟩
      rw [← Except.ok.inj h, List.mapIdx_cons, hos]
      -- The words of the rest stand four bytes further on.
      have hword : (fun k i => Output.saveDouble (cstr ctxname ++ daName.getD i [])
          (((databuf.drop 4).drop (4 * k)).take 4)) =
          fun k i => .saveDouble (cstr ctxname ++ daName.getD i [])
            ((databuf.drop (4 * (k + 1))).take 4) := by
        funext k i
        rw [List.drop_drop, Nat.mul_add, Nat.add_comm 4]
      rw [hword]
      rfl

theorem mapIdx_range {α : Type} (n : Nat) (f : Nat → Nat → α) :
    (List.range n).mapIdx f = (List.range n).map (fun k => f k k) := by
  refine List.ext_getElem ?_ (fun k hk hk' => ?_)
  · simp only [List.length_mapIdx, List.length_map]
  · simp only [List.getElem_mapIdx, List.getElem_map, List.getElem_range]

theorem saves_savesUnder (digits words : List UInt8) :
    saves (savesUnder digits words) = savesUnder digits words := by
  unfold saves
  refine List.filter_eq_self.mpr (fun o ho => ?_)
  rcases List.mem_map.mp ho with ⟨k, -, hk⟩
  rw [← hk]

/-- Where the branch returns it has stored the words it found under names that
    begin with `LTU` and no digits. -/
theorem branch_saves {l : HandlerLocals} {received received' : CoapPdu} {g g' : Gateway}
    (h : measurementBranch l received g = .ok (received', g')) :
    ∃ databuf, l.databuf = some databuf ∧ 80 ≤ databuf.length ∧
      saves (g'.outputs.drop g.outputs.length) = savesUnder [] databuf := by
  unfold measurementBranch at h
  rcases hhost : coapCheckOption received coapOptionUriHost with _ | host
  · rw [hhost] at h
    cases h
  rw [hhost] at h
  simp only [] at h
  rcases hmark : markDevice host.bytes g.deviceInfo.num.toNat g.deviceInfo.pLTUInfo with f | entries
  · rw [hmark] at h
    cases h
  rw [hmark] at h
  rcases hbuf : l.databuf with _ | databuf
  · rw [hbuf] at h
    cases h
  rw [hbuf] at h
  simp only [] at h
  rcases hloop : saveLoop [0x4c, 0x54, 0x55, 0, 0, 0, 0, 0, 0] saveOrder databuf with f | os
  · rw [hloop] at h
    cases h
  rw [hloop] at h
  rcases saveLoop_ok hloop with ⟨hlen, hos⟩
  rw [saveOrder_eq, mapIdx_range] at hos
  rw [saveOrder_eq, List.length_range] at hlen
  have hltu : cstr [0x4c, 0x54, 0x55, 0, 0, 0, 0, 0, 0] = [0x4c, 0x54, 0x55] := by decide
  rw [hltu] at hos
  have hsaves : os = savesUnder [] databuf := hos
  refine ⟨databuf, rfl, by omega, ?_⟩
  cases h
  simp only [Gateway.emit, List.drop_left]
  unfold saves
  rw [List.filter_append, hsaves]
  have hrest : ∀ b : Bool, (if b then [Output.signalYC] else []).filter (fun o => match o with
      | .saveDouble _ _ => true
      | _ => false) = [] := by
    intro b
    cases b <;> rfl
  rw [hrest, List.append_nil]
  exact saves_savesUnder [] databuf

/-- A decoded measurement has a host without digits. -/
theorem Decodes.digits {l : HandlerLocals} {received : CoapPdu} {g : Gateway} {host : View}
    (h : Decodes l received g) (hhost : coapCheckOption received coapOptionUriHost = some host) :
    hexDigits host.value = [] := by
  rcases h with ⟨host', payload, g', hhost', -, hrun, hsaves⟩
  cases hhost.symm.trans hhost'
  rcases branch_saves hrun with ⟨databuf, -, -, hstored⟩
  -- The names of the first value differ in the digits alone.
  have hfirst := congrArg List.head? (hstored.symm.trans hsaves)
  unfold expectedSaves savesUnder at hfirst
  rw [List.range_succ_eq_map] at hfirst
  simp only [List.map_cons, List.head?_cons, Option.some.injEq, Output.saveDouble.injEq,
    List.append_assoc, List.append_cancel_left_eq] at hfirst
  have hlen := congrArg List.length hfirst.1
  simp only [List.length_append, List.length_nil] at hlen
  exact List.eq_nil_of_length_eq_zero (by omega)

theorem hexDigits_length (host : List UInt8) : (hexDigits host).length = 2 * host.length := by
  induction host with
  | nil => rfl
  | cons b host ih =>
      unfold hexDigits at ih ⊢
      rw [List.flatMap_cons, List.length_append, ih, List.length_cons]
      simp only [List.length_cons, List.length_nil]
      omega

/-- No response of a host of six bytes is decoded, whatever its payload and
    whatever the branch reads the values through. -/
theorem not_decodes (l : HandlerLocals) (received : CoapPdu) (g : Gateway) (host : View)
    (hhost : coapCheckOption received coapOptionUriHost = some host)
    (hlen : host.value.length = 6) : ¬ Decodes l received g := by
  intro h
  have hdigits := hexDigits_length host.value
  rw [h.digits hhost, hlen, List.length_nil] at hdigits
  omega

/-- The measurement of a host: its options and its payload. -/
def measurementOf (host payload : List UInt8) : CoapPdu :=
  contentPdu [⟨coapOptionUriHost, host⟩, ⟨coapOptionUriPath, pollPath⟩] (255 :: payload)

theorem measurementOf_host (host payload : List UInt8) (h : host.length < limit) :
    ∃ v, coapCheckOption (measurementOf host payload) coapOptionUriHost = some v ∧
      v.value = host := by
  have hok : Encodable 0 [⟨coapOptionUriHost, host⟩, ⟨coapOptionUriPath, pollPath⟩] :=
    ⟨Nat.zero_le _, show 3 - 0 < limit by decide, h, show 3 ≤ 11 by decide,
      show 11 - 3 < limit by decide, show 14 < limit by decide, trivial⟩
  have hvalue := option_wire (measurementOf host payload) _ (255 :: payload)
    coapOptionUriHost rfl hok (Or.inr ⟨payload, rfl⟩)
  rcases Option.map_eq_some_iff.mp hvalue with ⟨v, hv, hvhost⟩
  exact ⟨v, coapCheckOption_of_option hv (by decide), hvhost⟩

/-- A poll round with one device, under way. -/
def pollingGateway : Gateway :=
  { bareGateway .zero with
    deviceInfo := ⟨1, 0, 0, [LTUInfor.ofName [0x4c, 0x54, 0x55, 0x41]]⟩
    ycRequest := true }

/-- The measurement of the host `bbbbbb`, in bytes. -/
theorem not_decodes_letters :
    ¬ Decodes ⟨.zero, none, some (List.replicate 80 0)⟩
      (measurementOf (List.replicate 6 0x62) (List.replicate 80 0)) pollingGateway := by
  rcases measurementOf_host (List.replicate 6 0x62) (List.replicate 80 0) (by decide) with
    ⟨v, hv, hvalue⟩
  exact not_decodes _ _ _ v hv (by rw [hvalue]; rfl)

/-- The measurement of the host `FC0000AFBCBD`, in six bytes, with the values
    read through a pointer that happens to hold the payload. -/
theorem not_decodes_device :
    ¬ Decodes ⟨.zero, none, some (List.replicate 80 0)⟩
      (measurementOf [0xfc, 0, 0, 0xaf, 0xbc, 0xbd] (List.replicate 80 0)) pollingGateway := by
  intro h
  rcases measurementOf_host [0xfc, 0, 0, 0xaf, 0xbc, 0xbd] (List.replicate 80 0) (by decide) with
    ⟨v, hv, hvalue⟩
  have hdigits := h.digits hv
  rw [hvalue] at hdigits
  exact absurd hdigits (by decide)

/-- The values of any two responses are stored under the same names. -/
theorem branch_names_hostless {l l' : HandlerLocals}
    {received received₁ received' received₁' : CoapPdu}
    {g g₁ g' g₁' : Gateway} (h : measurementBranch l received g = .ok (received₁, g₁))
    (h' : measurementBranch l' received' g' = .ok (received₁', g₁')) :
    (saves (g₁.outputs.drop g.outputs.length)).map (fun o => match o with
      | .saveDouble name _ => name
      | _ => []) =
    (saves (g₁'.outputs.drop g'.outputs.length)).map (fun o => match o with
      | .saveDouble name _ => name
      | _ => []) := by
  rcases branch_saves h with ⟨databuf, -, -, hstored⟩
  rcases branch_saves h' with ⟨databuf', -, -, hstored'⟩
  rw [hstored, hstored']
  simp only [savesUnder, List.map_map]
  rfl

end CoapThread
