import CoapThread.Core.Thread

/-!
# What the Requests Carry

The options of the three kinds of request the thread builds, read back from
the PDU.

None of the three can fail to fit: the host template is twelve bytes long, a
path is shorter than the 256 bytes of the field it comes from, and a block
option has at most four bytes. That is why the bounds here are on the
templates and not on the PDU.

## Theorems

* `pollPdu_host`, `pollPdu_path`: A poll carries the templates.
* `firstBlockPdu_path`, `firstBlockPdu_block`: A first block request carries
  its message's path and asks for block 1.
* `firstBlockPdu_blockOption`: So a server reads it.
* `nextBlockPdu_path`, `nextBlockPdu_block`: A request for the next block
  carries its entry's path and asks for the block behind the received one.
-/

namespace CoapThread

open CBytes DeltaOption

theorem Str.value_length_le (x : Str) : x.value.length ≤ x.length := List.length_take_le _ _

/-- The options of a poll. -/
theorem pollOptions_eq (host path : Str) : pollOptions host path =
    [⟨coapOptionUriHost, host.value⟩, ⟨coapOptionUriPath, path.value⟩] := rfl

section Poll

variable (g : Gateway)

theorem pollPdu_option (hhost : g.host.length = 12) (hpath : g.path.length ≤ 255) (type : Nat) :
    ((pollPdu g).option type).map View.value =
      ((pollOptions (pollHost g) g.path).find? (fun o => decide (o.key = type))).map Opt.value := by
  have hhostlen : (pollHost g).value.length ≤ 12 := hhost ▸ (pollHost g).value_length_le
  have hpathlen : g.path.value.length ≤ 255 := Nat.le_trans g.path.value_length_le hpath
  refine requestPdu_option _ _ _ _ _ _ ?_ ?_
  · rw [pollOptions_eq]
    simp only [DeltaOption.Encodable, coapOptionUriHost, coapOptionUriPath, limit, and_true]
    omega
  · rw [pollOptions_eq]
    simp only [optionsRoom, List.map_cons, List.map_nil, List.sum_cons, List.sum_nil,
      coapMaxPduSize]
    omega

/-- A poll carries twelve bytes of its message's address as the host. -/
theorem pollPdu_host (hhost : g.host.length = 12) (hpath : g.path.length ≤ 255) :
    ((pollPdu g).option coapOptionUriHost).map View.value =
      some (g.tmp.addr.bytes.take 12) := by
  rw [pollPdu_option g hhost hpath, pollOptions_eq, ← hhost]
  rfl

end Poll

section FirstBlock

variable (g : Gateway)

theorem blockPath_value (m : SCoAPNewRequest) : (blockPath m).value = cstr m.respath.bytes := by
  have hbytes : (blockPath m).bytes = cstr m.respath.bytes := mallocStrcpy_strlen _
  unfold Str.value
  rw [hbytes]
  exact List.take_of_length_le (Nat.le_refl _)

theorem respath_strlen_le (m : SCoAPNewRequest) (h : Terminated m.respath.bytes) :
    strlen m.respath.bytes ≤ 255 := by
  have hlt := strlen_lt_of_terminated m.respath.bytes h
  rw [m.respath.length_eq] at hlt
  omega

/-- The options of a first block request. -/
theorem firstBlockOptions_eq (path : Str) : firstBlockOptions path =
    [⟨coapOptionUriPath, path.value⟩, ⟨coapOptionBlock2, [0x12]⟩] := rfl

theorem firstBlockOptions_encodable (h : Terminated g.tmp.respath.bytes) :
    Encodable 0 (firstBlockOptions (blockPath g.tmp)) ∧
      12 + optionsRoom (firstBlockOptions (blockPath g.tmp)) ≤ coapMaxPduSize := by
  have hlen : (blockPath g.tmp).value.length ≤ 255 :=
    Nat.le_trans (blockPath g.tmp).value_length_le (respath_strlen_le g.tmp h)
  rw [firstBlockOptions_eq]
  constructor
  · simp only [DeltaOption.Encodable, coapOptionUriPath, coapOptionBlock2, limit,
      List.length_singleton, and_true]
    omega
  · simp only [optionsRoom, List.map_cons, List.map_nil, List.sum_cons, List.sum_nil,
      coapMaxPduSize, List.length_singleton]
    omega

theorem firstBlockPdu_option (h : Terminated g.tmp.respath.bytes) (type : Nat) :
    ((firstBlockPdu g).option type).map View.value =
      ((firstBlockOptions (blockPath g.tmp)).find? (fun o => decide (o.key = type))).map
        Opt.value := by
  rcases firstBlockOptions_encodable g h with ⟨hok, hroom⟩
  exact requestPdu_option _ _ _ _ _ _ hok hroom

/-- A first block request carries its message's path. -/
theorem firstBlockPdu_path (h : Terminated g.tmp.respath.bytes) :
    ((firstBlockPdu g).option coapOptionUriPath).map View.value =
      some (cstr g.tmp.respath.bytes) := by
  rw [firstBlockPdu_option g h, firstBlockOptions_eq, ← blockPath_value]
  rfl

/-- The block option of a first block request, as a server reads it. -/
theorem firstBlockPdu_blockOption (h : Terminated g.tmp.respath.bytes) :
    ∃ v, (firstBlockPdu g).blockOption = some v ∧ v.value = [0x12] := by
  rcases firstBlockOptions_encodable g h with ⟨hok, hroom⟩
  have hwire := requestPdu_wire g.token g.messageId coapMessageCon coapRequestGet _ hok hroom
  -- The path option is passed over, being neither block option.
  have hfind := find_wire (fun k => k = coapOptionBlock1 || k = coapOptionBlock2)
    (firstBlockPdu g) _ [] (hwire.trans (List.append_nil _).symm) hok (Or.inl rfl)
  rcases Option.map_eq_some_iff.mp hfind with ⟨v, hv, hvalue⟩
  exact ⟨v, hv, congrArg Prod.snd hvalue⟩

end FirstBlock

section NextBlock

variable (block : View) (entry : SCoAPNewRequest) (g : Gateway)

-- A node goes behind a node of a smaller number.
theorem orderOpts_behind {node q : Opt} (h : q.key < node.key) : orderOpts node q = 0 := by
  unfold orderOpts
  rw [if_neg (Nat.not_lt_of_gt h), if_neg (Ne.symm (Nat.ne_of_lt h))]

/-- The options of a request for the next block. -/
theorem nextBlockOptions_eq (hkey : IsBlockKey block.key) :
    nextBlockOptions block.key block.value entry =
      [⟨coapOptionUriHost, cstr entry.addrBytes⟩, ⟨coapOptionUriPath, cstr entry.respath.bytes⟩,
        ⟨block.key, coapEncodeVarBytes
          ((coapOptBlockNum block.value + 1) <<< 4 ||| coapOptBlockSzx block.value)⟩] := by
  have hle : 23 ≤ block.key := hkey.le
  simp only [nextBlockOptions, newOptionNode, take_strlen, List.take_length]
  -- The three are inserted in ascending order.
  simp only [coapInsert, orderOpts_behind, coapOptionUriHost, coapOptionUriPath,
    show 3 < block.key by omega, show 11 < block.key by omega, Nat.reduceLT, Int.lt_irrefl,
    if_false]

theorem nextBlockOptions_encodable
    (hkey : IsBlockKey block.key) (h : Terminated entry.respath.bytes) :
    Encodable 0 (nextBlockOptions block.key block.value entry) ∧
      12 + optionsRoom (nextBlockOptions block.key block.value entry) ≤ coapMaxPduSize := by
  have hpath : (cstr entry.respath.bytes).length ≤ 255 := respath_strlen_le entry h
  -- An address without a NUL runs on through the resource path behind it.
  have haddr : (cstr entry.addrBytes).length ≤ 271 := by
    refine Nat.le_trans (strlen_le entry.addrBytes) ?_
    simp only [SCoAPNewRequest.addrBytes, List.length_append, entry.addr.length_eq,
      entry.respath.length_eq]
    exact Nat.le_refl _
  have hblock : (coapEncodeVarBytes ((coapOptBlockNum block.value + 1) <<< 4 |||
      coapOptBlockSzx block.value)).length ≤ 4 := varBytes_length 4 _
  -- A block option comes after host and path.
  have hnum : 23 ≤ block.key ∧ block.key < 65536 := ⟨hkey.le, hkey.2⟩
  rw [nextBlockOptions_eq block entry hkey]
  constructor
  · simp only [DeltaOption.Encodable, coapOptionUriHost, coapOptionUriPath, limit, and_true]
    omega
  · simp only [optionsRoom, List.map_cons, List.map_nil, List.sum_cons, List.sum_nil,
      coapMaxPduSize]
    omega

theorem nextBlockPdu_option (hkey : IsBlockKey block.key)
    (h : Terminated entry.respath.bytes) (type : Nat) :
    ((nextBlockPdu block entry g).option type).map View.value =
      ((nextBlockOptions block.key block.value entry).find?
        (fun o => decide (o.key = type))).map Opt.value := by
  rcases nextBlockOptions_encodable block entry hkey h with ⟨hok, hroom⟩
  exact requestPdu_option _ _ _ _ _ _ hok hroom

/-- A request for the next block carries its entry's path. -/
theorem nextBlockPdu_path (hkey : IsBlockKey block.key)
    (h : Terminated entry.respath.bytes) :
    ((nextBlockPdu block entry g).option coapOptionUriPath).map View.value =
      some (cstr entry.respath.bytes) := by
  rw [nextBlockPdu_option block entry g hkey h, nextBlockOptions_eq block entry hkey]
  rfl

/-- It asks for the block behind the received one. -/
theorem nextBlockPdu_block (hkey : block.key = coapOptionBlock1 ∨ block.key = coapOptionBlock2)
    (h : Terminated entry.respath.bytes) :
    ∃ v, (nextBlockPdu block entry g).blockOption = some v ∧ v.value = coapEncodeVarBytes
      ((coapOptBlockNum block.value + 1) <<< 4 ||| coapOptBlockSzx block.value) := by
  have hblock := isBlockKey_of_block hkey
  rcases nextBlockOptions_encodable block entry hblock h with ⟨hok, hroom⟩
  have hwire := requestPdu_wire g.token g.messageId coapMessageCon coapRequestGet _ hok hroom
  have hfind := find_wire (fun k => k = coapOptionBlock1 || k = coapOptionBlock2)
    (nextBlockPdu block entry g) _ [] (hwire.trans (List.append_nil _).symm) hok (Or.inl rfl)
  -- Host and path are passed over, and the option found is the one put in.
  have hhit : (nextBlockOptions block.key block.value entry).find?
      (fun o => o.key = coapOptionBlock1 || o.key = coapOptionBlock2) =
        some ⟨block.key, coapEncodeVarBytes
          ((coapOptBlockNum block.value + 1) <<< 4 ||| coapOptBlockSzx block.value)⟩ := by
    rw [nextBlockOptions_eq block entry hblock]
    rcases hkey with hkey | hkey <;> rw [hkey] <;> rfl
  rw [hhit] at hfind
  rcases Option.map_eq_some_iff.mp hfind with ⟨v, hv, hvalue⟩
  exact ⟨v, hv, congrArg Prod.snd hvalue⟩

end NextBlock

end CoapThread
