import CoapThread.Theory.RequestPath

/-!
# The Storage Behind the Path Template

Whether what is written through `path.s` stays inside the bytes it points at.

There are two writes. A block request copies its path, with the NUL, to a block
of as many bytes as the path has letters, so each of them writes one byte past
the block's end, the empty path included. A content response copies fourteen
bytes, and from the start `path.s` points at a string literal. So the first of
either kind is a bad write, and a run is clean exactly as long as there is
none.

What is read is another matter: the length goes with the storage in every run,
and the path option of a request is read from bytes that have been written.

## Main definitions

* `PathWrite`: A write through `path.s`.
* `pathWrites`: The writes at an event.
* `PathReadable`: The length is that of the bytes behind the pointer.
* `PathSafe`: What is asked of a run.
* `PathUntouched`: The condition on a step.

## Theorems

* `path_readable`: The length goes with the storage in every run.
* `pathSafe_iff`: A run is safe exactly where its steps leave the path alone.
* `not_pathSafe_block`: The first block request.
-/

namespace CoapThread

open CBytes Machine

/-- So many bytes written to the front of the object behind `path.s`. -/
structure PathWrite where
  object : Option Storage
  count : Nat

/-- The object is there, can be written, and has the bytes. -/
def PathWrite.Inside (w : PathWrite) : Prop :=
  ∃ st, w.object = some st ∧ st.writable = true ∧ w.count ≤ st.bytes.length

/-- The block `strcpy` copies a path to. -/
def pathBlock (m : SCoAPNewRequest) : Storage :=
  ⟨true, List.replicate (strlen m.respath.bytes) 0⟩

/-- The path option of a response the handler goes on with. -/
def contentPath (received : CoapPdu) : Option DeltaOption.View :=
  if received.type ≠ coapMessageRst ∧ coapCheckOption received coapOptionUriHost ≠ none ∧
    received.code = coapResponseCode 205 then coapCheckOption received coapOptionUriPath
  else none

/-- The writes through `path.s` at an event: the `strcpy` of a block request and
    the `memcpy` of a content response. -/
def pathWrites (g : Gateway) : Event → List PathWrite
  | .message _ now m =>
    let tmp := (store now m g).tmp
    if tmp.req = .ltuTxBlock then [⟨some (pathBlock tmp), strlen tmp.respath.bytes + 1⟩] else []
  | .response _ _ received => match contentPath received with
    | none => []
    | some _ => [⟨g.path.s, 14⟩]
  | _ => []

/-- The writes of a step stay inside. -/
def WritesInside (g : Gateway) (e : Event) : Prop := ∀ w ∈ pathWrites g e, w.Inside

/-- The length is the number of bytes behind the pointer, the NUL of a literal
    aside. -/
def PathReadable (g : Gateway) : Prop :=
  ∃ st, g.path.s = some st ∧ (st.bytes.length = g.path.length ∨
    (st.writable = false ∧ st.bytes.length = g.path.length + 1))

/-- Every write of a run stays inside, and in every state the path can be read
    under its length. -/
structure PathSafe (g : Gateway) (es : List Event) : Prop where
  writes : Along Steps WritesInside g es
  readable : Throughout Steps PathReadable g es

/-- No block request is taken over, and no content response is handled. -/
def PathUntouched (g : Gateway) : Event → Prop
  | .message _ _ m => g.tmp.req ≠ .ltuNoAck → m.req ≠ .ltuTxBlock
  | .response _ _ received => ∀ value, ¬ IsContent received value
  | _ => True

theorem contentPath_iff (received : CoapPdu) (v : DeltaOption.View) :
    contentPath received = some v ↔
      coapCheckOption received coapOptionUriPath = some v ∧ IsContent received v.bytes := by
  unfold contentPath
  constructor
  · intro h
    split_ifs at h with hc
    exact ⟨h, hc.1, hc.2.1, ⟨v, h, rfl⟩, hc.2.2⟩
  · rintro ⟨hv, hc⟩
    rw [if_pos ⟨hc.type, hc.host, hc.code⟩]
    exact hv

theorem blockPath_readable (m : SCoAPNewRequest) {g : Gateway} (h : g.path = blockPath m) :
    PathReadable g := by
  refine ⟨_, by rw [h]; rfl, Or.inl ?_⟩
  rw [h]
  unfold blockPath mallocStrcpy
  rw [overwrite_length, List.length_replicate]

theorem PathReadable.congr {g g' : Gateway} (hg : PathReadable g) (h : g'.path = g.path) :
    PathReadable g' := by
  unfold PathReadable
  rw [h]
  exact hg

/-- The copy of fourteen bytes changes neither the length nor the storage's. -/
theorem memcpyPath_readable {g g' : Gateway} {value : List UInt8} {path : Str}
    (hg : PathReadable g) (h : memcpyPath g.path value = .ok path) (hpath : g'.path = path) :
    PathReadable g' := by
  rcases hg with ⟨st, hs, hlen⟩
  rcases memcpyPath_ok h with ⟨st', hs', -, -, hpath'⟩
  cases hs.symm.trans hs'
  refine ⟨{ st with bytes := overwrite st.bytes 0 (value.take 14) }, ?_, ?_⟩
  · rw [hpath, hpath']
  · rw [hpath, hpath']
    simp only [overwrite_length]
    exact hlen

theorem receive_readable {r : LibcoapResult} {now : Int} {m : SCoAPNewRequest} {g g' : Gateway}
    (hg : PathReadable g) (h : receive r now m g = .ok g') : PathReadable g' := by
  cases receive_iff.mp h with
  | dropped => exact hg
  | polled | kept => exact hg.congr rfl
  | requested => exact blockPath_readable m rfl

/-- Every step keeps the length that of the bytes. -/
theorem step_readable {g g' : Gateway} {e : Event} (hg : PathReadable g) (h : Steps g e g') :
    PathReadable g' := by
  cases e with
  | message r now m => exact receive_readable hg h
  | response r l received =>
      cases messageHandler_handled h with
      | ignored => exact hg.congr rfl
      | other value path el _ hmem => exact memcpyPath_readable hg hmem rfl
      | continued value path el block _ hmem => exact memcpyPath_readable hg hmem rfl
      | completed value path el block p _ _ hmem _ _ _ _ _ hrel =>
          exact memcpyPath_readable hg hmem (release_templates hrel).2
  | sweep now => exact hg.congr (sweep_frame h).path
  | check300 now =>
      rw [← Except.ok.inj h, check300_eq]
      exact hg.congr rfl

theorem initialPath_readable {g : Gateway} (h : g.path = initialPath) : PathReadable g := by
  refine ⟨⟨false, pollPath ++ [0]⟩, ?_, Or.inr ⟨rfl, ?_⟩⟩
  · rw [h]
    rfl
  · rw [h]
    rfl

/-- In every state of every run from the start the path can be read under its
    length. -/
theorem path_readable (tmp : SCoAPNewRequest) (messageId : UInt16) (para : ParaId → SPthreadPara)
    (es : List Event) : Throughout Steps PathReadable (initialGateway tmp messageId para) es :=
  throughout_invariant (P := PathReadable) (fun _ _ _ hg h => step_readable hg h) es
    (initialPath_readable rfl)

/-- A step that touches the path leaves it where it is. -/
theorem untouched_step {g g' : Gateway} {e : Event} (hg : g.path = initialPath)
    (hc : PathUntouched g e) (h : Steps g e g') : g'.path = initialPath := by
  cases e with
  | message r now m =>
      cases receive_iff.mp h with
      | dropped | polled | kept => exact hg
      | requested htmp htx => exact absurd htx (hc htmp)
  | response r l received =>
      have hsame := (messageHandler_ignored r l received g hc).symm.trans h
      rw [← Except.ok.inj hsame]
      exact hg
  | sweep now => exact (sweep_frame h).path.trans hg
  | check300 now =>
      rw [← Except.ok.inj h, check300_eq]
      exact hg

/-- While the template is the one from the start, every write through it is bad. -/
theorem writesInside_iff {g : Gateway} (e : Event) (hg : g.path = initialPath) :
    WritesInside g e ↔ PathUntouched g e := by
  cases e with
  | message r now m =>
      unfold WritesInside PathUntouched pathWrites
      by_cases htmp : g.tmp.req = .ltuNoAck
      · have hkept : (store now m g).tmp.req = .ltuNoAck := by
          simp only [store, htmp, ne_eq, not_true_eq_false, if_false]
        simp only [hkept, reduceCtorEq, if_false, List.not_mem_nil, false_imp_iff, implies_true,
          htmp, ne_eq, not_true_eq_false]
      · have htaken : (store now m g).tmp = { m with time := now } := by
          simp only [store, htmp, ne_eq, not_false_eq_true, if_true, stored]
        simp only [htaken, ne_eq, htmp, not_false_eq_true, true_imp_iff]
        split_ifs with htx
        · -- One byte more than the block has.
          simp only [List.forall_mem_singleton, htx, not_true_eq_false, iff_false]
          rintro ⟨st, hs, -, hroom⟩
          rw [← Option.some.inj hs] at hroom
          simp only [pathBlock, List.length_replicate] at hroom
          omega
        · simp only [List.not_mem_nil, false_imp_iff, implies_true, htx, not_false_eq_true]
  | response r l received =>
      unfold WritesInside PathUntouched pathWrites
      rcases hpath : contentPath received with _ | v
      · simp only [hpath, List.not_mem_nil, false_imp_iff, implies_true, true_iff]
        intro value hc
        rcases hc.path with ⟨v, hv, hvalue⟩
        rw [← hvalue] at hc
        have hsome := (contentPath_iff received v).mpr ⟨hv, hc⟩
        exact absurd (hpath.symm.trans hsome) (Option.some_ne_none v).symm
      · simp only [hpath, List.forall_mem_singleton]
        constructor
        · -- The literal cannot be written.
          rintro ⟨st, hs, hw, -⟩
          rw [hg] at hs
          rw [← Option.some.inj hs] at hw
          cases hw
        · exact fun hno => absurd ((contentPath_iff received v).mp hpath).2 (hno v.bytes)
  | sweep now => exact ⟨fun _ => trivial, fun _ w hw => absurd hw List.not_mem_nil⟩
  | check300 now => exact ⟨fun _ => trivial, fun _ w hw => absurd hw List.not_mem_nil⟩

/-- A run of the thread from its start is safe if and only if none of its steps
    takes a block request over or handles a content response. -/
theorem pathSafe_iff (tmp : SCoAPNewRequest) (messageId : UInt16) (para : ParaId → SPthreadPara)
    (es : List Event) :
    PathSafe (initialGateway tmp messageId para) es ↔
      Along Steps PathUntouched (initialGateway tmp messageId para) es := by
  have hiff : Along Steps WritesInside (initialGateway tmp messageId para) es ↔
      Along Steps PathUntouched (initialGateway tmp messageId para) es :=
    along_iff (I := fun g => g.path = initialPath)
      (fun _ _ _ hg hc h => untouched_step hg hc h) (fun _ e hg => writesInside_iff e hg) rfl
  constructor
  · exact fun h => hiff.mp h.writes
  · -- Reading is safe in any case.
    exact fun h => ⟨hiff.mpr h, path_readable tmp messageId para es⟩

/-- The block request of the path `3` writes two bytes to a block of one. -/
theorem not_pathSafe_block :
    ¬ PathSafe (bareGateway .zero) [.message ⟨true, true⟩ 0 blockMessage] := by
  intro h
  exact (writesInside_iff (.message ⟨true, true⟩ 0 blockMessage) rfl).mp h.writes.1 nofun rfl

end CoapThread
