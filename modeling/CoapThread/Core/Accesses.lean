import CoapThread.Core.Handler

/-!
# What the Handler Touches

The memory accesses of `message_handler` in the order of the source: the copies
of a fixed size with the sizes of what they touch, and the pointers that are
followed with whether they lead to an object at that moment.

The lists are kept apart from the handler itself, which goes wrong with a
`Fault` only where nothing is known of what comes next. A copy that runs on
into another local is no fault there and an access out of bounds here; a
pointer into a node that has just been freed is no fault either, since a freed
node keeps its content. `messageHandler_defined` ties the two together.

Two pointers are taken from outside: `cnrList` is a local of the handler, and
`buffers` says of which requesters the `msg` field points to a buffer.

## Main definitions

* `Access`: An access.
* `Access.InBounds`, `Access.Defined`: What is asked of it.
* `measurementAccesses`, `blockAccesses`, `handlerAccesses`: The accesses of the
  branches and of the handler.

## Theorems

* `contentAccesses_eq`: The measurement branch touches nothing, as it is never
  entered.
* `messageHandler_defined`: With its pointers defined the handler follows none
  into nothing.
-/

namespace CoapThread

open CBytes DeltaOption

/-- A pointer the handler follows. -/
inductive Pointer where
  | coapopt
  | path
  | cnrList
  | pthpara
  | msg
  | blockOpt
  | databuf
  | pdu
  | pLTUInfo
  deriving DecidableEq

/-- An access of the handler. -/
inductive Access where
  /-- The host option, of this length, to the address and its NUL. -/
  | copyAddr (length : Nat)
  /-- The path option to the resource path and its NUL. -/
  | copyRespath (length : Nat)
  /-- So many bytes from the front of an option of this length. -/
  | readOption (count length : Nat)
  | writeOption (count length : Nat)
  /-- So many bytes of a payload of this length, from an offset on. -/
  | readPayload (first count length : Nat)
  /-- A pointer, and whether it leads to an object. -/
  | follow (p : Pointer) (defined : Bool)
  deriving DecidableEq

/-- A copy or a comparison stays inside its objects. -/
def Access.InBounds : Access → Prop
  | .copyAddr length => length + 1 ≤ 15
  | .copyRespath length => length + 1 ≤ 256
  | .readOption count length => count ≤ length
  | .writeOption count length => count ≤ length
  | .readPayload first count length => first + count ≤ length
  | .follow _ _ => True

/-- A pointer leads to an object. -/
def Access.Defined : Access → Prop
  | .follow _ defined => defined = true
  | _ => True

@[simp] theorem copyAddr_inBounds (n : Nat) : (Access.copyAddr n).InBounds ↔ n + 1 ≤ 15 := Iff.rfl

@[simp] theorem copyRespath_inBounds (n : Nat) : (Access.copyRespath n).InBounds ↔ n + 1 ≤ 256 :=
  Iff.rfl

@[simp] theorem readOption_inBounds (count n : Nat) :
    (Access.readOption count n).InBounds ↔ count ≤ n := Iff.rfl

@[simp] theorem writeOption_inBounds (count n : Nat) :
    (Access.writeOption count n).InBounds ↔ count ≤ n := Iff.rfl

@[simp] theorem readPayload_inBounds (first count n : Nat) :
    (Access.readPayload first count n).InBounds ↔ first + count ≤ n := Iff.rfl

@[simp] theorem follow_inBounds (p : Pointer) (b : Bool) : (Access.follow p b).InBounds := trivial

/-- The search loop of the measurement branch, up to the entry it marks. -/
def scanAccesses (host : View) : Nat → List LTUInfor → List Access
  | 0, _ => []
  | _ + 1, [] => [.follow .pLTUInfo false]
  | n + 1, e :: es =>
    .follow .pLTUInfo true :: .readOption 6 host.length ::
      match memcmp host.bytes (e.name.bytes.drop 3) 6 with
      | some false => scanAccesses host n es
      | _ => []

/-- The measurement branch: the search, the digits written over the option, and
    twenty words read through a pointer that no statement has set. -/
def measurementAccesses (received : CoapPdu) (g : Gateway) : List Access :=
  match coapCheckOption received coapOptionUriHost with
  | none => [.follow .coapopt false]
  | some host =>
    scanAccesses host g.deviceInfo.num.toNat g.deviceInfo.pLTUInfo ++
      .writeOption 13 host.length ::
        (List.range 20).flatMap (fun k =>
          [.follow .databuf false,
            .readPayload (4 * k) 4 ((coapGetData received).getD []).length])

/-- The append to the requester's buffer. -/
def appendAccesses (buffers : ParaId → Bool) (received : CoapPdu) (entry : SCoAPNewRequest) :
    List Access :=
  match coapGetData received with
  | none => []
  | some databuf => match entry.pthpara with
    | none => [.follow .pthpara false]
    | some p => [.follow .pthpara true, .follow .msg (buffers p),
        .readPayload 0 databuf.length databuf.length]

/-- The branch for a block. After a completed download the node has been freed
    and its request is tested once more. -/
def blockAccesses (buffers : ParaId → Bool) (r : LibcoapResult) (l : HandlerLocals)
    (received : CoapPdu) (g : Gateway) : List Access :=
  match l.cnrList with
  | none => [.follow .cnrList false]
  | some el =>
    let entry := g.list.node el
    .follow .cnrList (g.list.live el) ::
      if entry.req = .ltuTxBlock then
        appendAccesses buffers received entry ++
          match getBlock received with
          | none => [.follow .blockOpt false]
          | some block =>
            .follow .blockOpt true ::
              if coapOptBlockMore block.value then
                if Terminated entry.respath.bytes then
                  [.follow .pdu r.allocated, .follow .cnrList (g.list.live el)]
                else []
              -- The last test reads the request of the node once more, freed or not.
              else .follow .pthpara entry.pthpara.isSome ::
                match completeRequest el g with
                | .error _ => [.follow .cnrList false]
                | .ok g => [.follow .cnrList (g.list.live el)]
      else [.follow .cnrList (g.list.live el)]

/-- A 2.05 response. -/
def contentAccesses (buffers : ParaId → Bool) (r : LibcoapResult) (l : HandlerLocals)
    (received : CoapPdu) (path : View) (g : Gateway) : List Access :=
  .follow .path g.path.s.isSome :: .readOption 14 path.length ::
    match memcpyPath g.path path.bytes with
    | .error _ => []
    | .ok template =>
      if template.s = none then
        if g.ycRequest then
          measurementAccesses received g ++ blockAccesses buffers r l received g
        else []
      else blockAccesses buffers r l received g

/-- The accesses of the handler. -/
def handlerAccesses (buffers : ParaId → Bool) (r : LibcoapResult) (l : HandlerLocals)
    (received : CoapPdu) (g : Gateway) : List Access :=
  if received.type = coapMessageRst then []
  else match coapCheckOption received coapOptionUriHost with
    | none => []
    | some host =>
      .copyAddr host.length :: match coapCheckOption received coapOptionUriPath with
        | none => []
        | some path =>
          .copyRespath path.length ::
            if received.code = coapResponseCode 205 then
              contentAccesses buffers r l received path g
            else []

/-- The measurement branch is never entered and touches nothing. -/
theorem contentAccesses_eq (buffers : ParaId → Bool) (r : LibcoapResult) (l : HandlerLocals)
    (received : CoapPdu) (path : View) (g : Gateway) :
    contentAccesses buffers r l received path g =
      .follow .path g.path.s.isSome :: .readOption 14 path.length ::
        match memcpyPath g.path path.bytes with
        | .error _ => []
        | .ok _ => blockAccesses buffers r l received g := by
  unfold contentAccesses
  rcases hmem : memcpyPath g.path path.bytes with f | template
  · rfl
  · rcases memcpyPath_ok hmem with ⟨st, -, -, -, htemplate⟩
    -- A copy that goes through has had a destination.
    have hsome : ¬ (template.s = none) := by
      intro hnone
      rw [htemplate] at hnone
      cases hnone
    simp only []
    rw [if_neg hsome]

/-- The requester's buffer can be appended to. -/
def Appendable (buffers : ParaId → Bool) (received : CoapPdu) (entry : SCoAPNewRequest) : Prop :=
  coapGetData received ≠ none → ∃ p, entry.pthpara = some p ∧ buffers p = true

theorem appendAccesses_defined (buffers : ParaId → Bool) (received : CoapPdu)
    (entry : SCoAPNewRequest) :
    (∀ a ∈ appendAccesses buffers received entry, a.Defined) ↔
      Appendable buffers received entry := by
  unfold appendAccesses Appendable
  rcases hdata : coapGetData received with _ | databuf
  · simp only [List.not_mem_nil, false_imp_iff, implies_true, ne_eq, not_true_eq_false]
  · rcases hp : entry.pthpara with _ | p
    · simp only [List.forall_mem_singleton, Access.Defined, Bool.false_eq_true, ne_eq,
        reduceCtorEq, not_false_eq_true, true_imp_iff, false_and, exists_false]
    · simp only [List.forall_mem_cons, List.not_mem_nil, false_imp_iff, implies_true,
        Access.Defined, true_and, and_true, ne_eq, reduceCtorEq, not_false_eq_true, true_imp_iff,
        Option.some.injEq, exists_eq_left']

/-- The node is released by a completed download. -/
theorem completeRequest_freed {el : NodeId} {g g' : Gateway} (h : completeRequest el g = .ok g') :
    g'.list.live el = false := by
  rcases completeRequest_iff.mp h with ⟨p, -, hrel⟩
  exact release_live hrel

/-- The entry is in the list; and where it is a block request, its requester's
    buffer can be appended to, a block option is there with the more bit set,
    and there is a PDU for the next request. -/
structure EntryDefined (buffers : ParaId → Bool) (r : LibcoapResult) (received : CoapPdu)
    (g : Gateway) (el : NodeId) : Prop where
  live : g.list.live el = true
  append : (g.list.node el).req = .ltuTxBlock → Appendable buffers received (g.list.node el)
  more : (g.list.node el).req = .ltuTxBlock →
    ∃ block, getBlock received = some block ∧ coapOptBlockMore block.value = true
  pdu : (g.list.node el).req = .ltuTxBlock → Terminated (g.list.node el).respath.bytes →
    r.allocated = true

theorem blockAccesses_defined (buffers : ParaId → Bool) (r : LibcoapResult) (l : HandlerLocals)
    (received : CoapPdu) (g : Gateway) :
    (∀ a ∈ blockAccesses buffers r l received g, a.Defined) ↔
      ∃ el, l.cnrList = some el ∧ EntryDefined buffers r received g el := by
  unfold blockAccesses
  rcases hel : l.cnrList with _ | el
  · simp only [List.forall_mem_singleton, Access.Defined, Bool.false_eq_true, reduceCtorEq,
      false_and, exists_false]
  simp only [List.forall_mem_cons, Option.some.injEq, exists_eq_left']
  by_cases hreq : (g.list.node el).req = .ltuTxBlock
  · rw [if_pos hreq]
    -- The append, then the block option, then what its more bit says.
    simp only [List.forall_mem_append, appendAccesses_defined]
    constructor
    · rintro ⟨hlive, happend, hrest⟩
      rcases hblock : getBlock received with _ | block
      · rw [hblock] at hrest
        exact absurd (hrest _ List.mem_cons_self) Bool.false_ne_true
      rw [hblock] at hrest
      simp only [List.forall_mem_cons] at hrest
      by_cases hmore : coapOptBlockMore block.value = true
      · rw [if_pos hmore] at hrest
        refine ⟨hlive, fun _ => happend, fun _ => ⟨block, hblock, hmore⟩, fun _ hterm => ?_⟩
        rw [if_pos hterm] at hrest
        exact hrest.2 _ List.mem_cons_self
      · -- The completed download leaves a node that has been freed.
        rw [if_neg hmore, List.forall_mem_cons] at hrest
        rcases hdone : completeRequest el g with f | g'
        · rw [hdone] at hrest
          exact absurd (hrest.2.2 _ List.mem_cons_self) Bool.false_ne_true
        · rw [hdone] at hrest
          have hlive' := hrest.2.2 _ List.mem_cons_self
          rw [Access.Defined, completeRequest_freed hdone] at hlive'
          cases hlive'
    · intro h
      rcases h.more hreq with ⟨block, hblock, hmore⟩
      refine ⟨h.live, h.append hreq, ?_⟩
      rw [hblock]
      simp only [List.forall_mem_cons]
      rw [if_pos hmore]
      refine ⟨rfl, ?_⟩
      split_ifs with hterm
      · simp only [List.forall_mem_cons, List.not_mem_nil, false_imp_iff, implies_true, and_true]
        exact ⟨h.pdu hreq hterm, h.live⟩
      · exact fun a ha => absurd ha List.not_mem_nil
  · -- Any other request: the entry alone is read.
    rw [if_neg hreq, List.forall_mem_singleton]
    constructor
    · rintro ⟨hlive, -⟩
      exact ⟨hlive, fun hc => absurd hc hreq, fun hc => absurd hc hreq, fun hc => absurd hc hreq⟩
    · exact fun h => ⟨h.live, h.live⟩

/-- A response that carries content: both options are copied, and the rest is
    that of its branch. -/
theorem handlerAccesses_content (buffers : ParaId → Bool) (r : LibcoapResult) (l : HandlerLocals)
    {received : CoapPdu} (g : Gateway) {value : List UInt8} (h : IsContent received value) :
    ∃ host path, coapCheckOption received coapOptionUriHost = some host ∧
      coapCheckOption received coapOptionUriPath = some path ∧ path.bytes = value ∧
      handlerAccesses buffers r l received g = .copyAddr host.length ::
        .copyRespath path.length :: contentAccesses buffers r l received path g := by
  rcases Option.ne_none_iff_exists'.mp h.host with ⟨host, hhost⟩
  rcases h.path with ⟨path, hpath, hvalue⟩
  refine ⟨host, path, hhost, hpath, hvalue, ?_⟩
  unfold handlerAccesses
  rw [if_neg h.type, hhost]
  simp only []
  rw [hpath]
  simp only []
  rw [if_pos h.code]

theorem blockBranch_defined {buffers : ParaId → Bool} {r : LibcoapResult} {l : HandlerLocals}
    {received : CoapPdu} {g : Gateway} {el : NodeId} (hel : l.cnrList = some el)
    (h : EntryDefined buffers r received g el) {f : Fault}
    (hf : blockBranch r l received g = .error f) : f = .overread := by
  by_cases hreq : (g.list.node el).req = .ltuTxBlock
  · rcases h.more hreq with ⟨block, hblock, hmore⟩
    have hdata : coapGetData received = none ∨ (g.list.node el).pthpara ≠ none := by
      by_cases hnone : coapGetData received = none
      · exact Or.inl hnone
      · rcases h.append hreq hnone with ⟨p, hp, -⟩
        rw [hp]
        exact Or.inr (Option.some_ne_none p)
    rw [blockBranch_block hel hreq hblock hdata] at hf
    simp only [] at hf
    rw [if_pos hmore, nextBlockRequest_eq] at hf
    -- Of the two faults left the missing PDU is excluded.
    split_ifs at hf with hterm halloc
    · exact absurd (h.pdu hreq hterm) halloc
    · exact (Except.error.inj hf).symm
  · rw [blockBranch_other hel hreq] at hf
    cases hf

/-- With its pointers defined the handler follows none into nothing: where it
    stops, it is at an option that is too short, a path without a NUL, or a
    string literal. -/
theorem messageHandler_defined {buffers : ParaId → Bool} {r : LibcoapResult} {l : HandlerLocals}
    {received : CoapPdu} {g : Gateway} {f : Fault}
    (h : ∀ a ∈ handlerAccesses buffers r l received g, a.Defined)
    (hf : messageHandler r l received g = .error f) : f = .overread ∨ f = .readOnly := by
  by_cases hc : ∃ value, IsContent received value
  · rcases hc with ⟨value, hc⟩
    rcases handlerAccesses_content buffers r l g hc with ⟨host, path, -, -, hvalue, hacc⟩
    rw [messageHandler_content r l received g value hc] at hf
    rw [hacc, contentAccesses_eq, hvalue] at h
    simp only [List.forall_mem_cons] at h
    rcases h with ⟨-, -, hpath, -, hrest⟩
    rcases hmem : memcpyPath g.path value with f' | template
    · rw [hmem] at hf
      cases hf
      unfold memcpyPath at hmem
      rcases hs : g.path.s with _ | st
      · rw [hs] at hpath
        cases hpath
      · rw [hs] at hmem
        simp only [] at hmem
        split_ifs at hmem
        · exact Or.inl (Except.error.inj hmem).symm
        · exact Or.inr (Except.error.inj hmem).symm
    · rw [hmem] at hf hrest
      rcases (blockAccesses_defined buffers r l received g).mp hrest with ⟨el, hel, hdef⟩
      -- Neither the acknowledgement nor the copy of the path touches the list.
      have hcopied : EntryDefined buffers r received (pathCopied received template g) el :=
        ⟨hdef.live, hdef.append, hdef.more, hdef.pdu⟩
      exact Or.inl (blockBranch_defined hel hcopied hf)
  · rw [messageHandler_ignored r l received g (fun value hv => hc ⟨value, hv⟩)] at hf
    cases hf

end CoapThread
