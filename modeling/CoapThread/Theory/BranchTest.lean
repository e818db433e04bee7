import CoapThread.Theory.RequestPath

/-!
# The Test in Front of the Measurement Branch

Whether the handler knows a measurement by its path, and looks without
touching.

The test is written with `memcpy` where `memcmp` was meant. So it writes the
first fourteen bytes of the path option to the path template, and then asks
whether the template's pointer is null, which it never is. A measurement is
taken for something else, and the template is overwritten whatever the
response.

The test can still be right: on a response that is no measurement, where the
template holds the bytes of its path already.

## Main definitions

* `branchTest`: The test, with what it leaves of the path template.
* `DecidesRight`: The test tells a measurement by its whole path, and changes
  nothing.

## Theorems

* `messageHandler_branchTest`: The test is the handler's.
* `decidesRight_iff`: Where the test is right.
* `not_decidesRight_first`: The first measurement after the start.
-/

namespace CoapThread

open CBytes DeltaOption Machine

/-- The test on the first bytes of the path option: the path template after it,
    and whether the measurement branch is taken. -/
def branchTest (path : Str) (value : List UInt8) : Except Fault (Str × Bool) :=
  match memcpyPath path value with
  | .error f => .error f
  | .ok path => .ok (path, path.s = none)

/-- The handler takes the branch the test says, on the template it leaves. -/
theorem contentBranch_branchTest (r : LibcoapResult) (l : HandlerLocals) (received : CoapPdu)
    (value : List UInt8) (g : Gateway) :
    contentBranch r l received value g = match branchTest g.path value with
      | .error f => .error f
      | .ok (path, false) => blockBranch r l received { g with path := path }
      | .ok (path, true) =>
        if g.ycRequest then
          match measurementBranch l received { g with path := path } with
          | .error f => .error f
          | .ok (received, g) => blockBranch r l received g
        else .ok { g with path := path } := by
  unfold contentBranch branchTest
  rcases hmem : memcpyPath g.path value with f | path
  · rfl
  · simp only []
    by_cases hs : path.s = none
    · rewrite [if_pos hs, decide_eq_true hs]
      rfl
    · rewrite [if_neg hs, decide_eq_false hs]
      rfl

/-- The test is what the handler does with a response that carries content. -/
theorem messageHandler_branchTest (r : LibcoapResult) (l : HandlerLocals) (received : CoapPdu)
    (g : Gateway) (value : List UInt8) (h : IsContent received value) :
    messageHandler r l received g = match branchTest g.path value with
      | .error f => .error f
      | .ok (path, _) => blockBranch r l received (pathCopied received path g) := by
  rw [messageHandler_content r l received g value h]
  unfold branchTest
  cases memcpyPath g.path value <;> rfl

/-- The test returns; it takes the branch exactly for the poll path, the whole
    of it and nothing else; and it leaves the path template as it was and
    writes nowhere outside. -/
def DecidesRight (g : Gateway) (v : View) : Prop :=
  ∃ taken st, branchTest g.path v.bytes = .ok (g.path, taken) ∧
    (taken = true ↔ v.value = pollPath) ∧ g.path.s = some st ∧ 14 ≤ st.bytes.length

/-- A copy to the front changes nothing exactly where the bytes are there. -/
theorem overwrite_eq_self_iff (dst src : List UInt8) (h : src.length ≤ dst.length) :
    overwrite dst 0 src = dst ↔ dst.take src.length = src := by
  rw [overwrite_zero dst src h]
  constructor
  · intro heq
    rw [← heq, List.take_left]
  · intro htake
    nth_rewrite 1 [← htake]
    exact List.take_append_drop src.length dst

/-- The test never takes the branch. -/
theorem branchTest_ok {path path' : Str} {value : List UInt8} {taken : Bool}
    (h : branchTest path value = .ok (path', taken)) :
    taken = false ∧ memcpyPath path value = .ok path' := by
  unfold branchTest at h
  rcases hmem : memcpyPath path value with f | p
  · rw [hmem] at h
    cases h
  · rw [hmem] at h
    rcases memcpyPath_ok hmem with ⟨st, -, -, -, hp⟩
    cases h
    refine ⟨?_, rfl⟩
    rw [hp]
    rfl

/-- For every path template and every path option: the test is right if and
    only if the option is not the poll path, fourteen bytes can be read from
    it and written behind the template, and the template holds them already. -/
theorem decidesRight_iff (g : Gateway) (v : View) :
    DecidesRight g v ↔ v.value ≠ pollPath ∧ 14 ≤ v.bytes.length ∧
      ∃ st, g.path.s = some st ∧ st.writable = true ∧ 14 ≤ st.bytes.length ∧
        st.bytes.take 14 = v.bytes.take 14 := by
  constructor
  · rintro ⟨taken, st, htest, hright, hs, hroom⟩
    rcases branchTest_ok htest with ⟨htaken, hmem⟩
    rcases memcpyPath_ok hmem with ⟨st', hs', hw, hlen, hpath⟩
    cases hs.symm.trans hs'
    have hcopied : (v.bytes.take 14).length = 14 := List.length_take_of_le hlen
    refine ⟨fun hpoll => ?_, hlen, st, hs, hw, hroom, ?_⟩
    · rw [htaken] at hright
      exact Bool.false_ne_true (hright.mpr hpoll)
    · -- The template is as it was, so the copy wrote what was there.
      have hbytes : overwrite st.bytes 0 (v.bytes.take 14) = st.bytes := by
        have hs'' := congrArg Str.s hpath
        rw [hs, Option.some.injEq] at hs''
        exact (congrArg Storage.bytes hs'').symm
      have htake := (overwrite_eq_self_iff _ _ (by omega)).mp hbytes
      rw [hcopied] at htake
      exact htake
  · rintro ⟨hother, hlen, st, hs, hw, hroom, hsame⟩
    have hcopied : (v.bytes.take 14).length = 14 := List.length_take_of_le hlen
    have hbytes : overwrite st.bytes 0 (v.bytes.take 14) = st.bytes := by
      refine (overwrite_eq_self_iff _ _ (by omega)).mpr ?_
      rw [hcopied]
      exact hsame
    refine ⟨false, st, ?_, ⟨nofun, fun hpoll => absurd hpoll hother⟩, hs, hroom⟩
    have hstr : ({ g.path with s := some st } : Str) = g.path := by rw [← hs]
    unfold branchTest
    rw [memcpyPath_writable hs hw hlen, hbytes]
    simp only [reduceCtorEq, decide_false]
    rw [hstr]

/-- The measurement of the host `bbbbbb`, without its values. -/
def firstMeasurement : CoapPdu :=
  contentPdu [⟨coapOptionUriHost, List.replicate 6 0x62⟩, ⟨coapOptionUriPath, pollPath⟩] []

/-- The first measurement after the start: it is one, and the test on it
    writes to a string literal. -/
theorem not_decidesRight_first : ∃ v,
    coapCheckOption firstMeasurement coapOptionUriPath = some v ∧
      IsContent firstMeasurement v.bytes ∧ v.value = pollPath ∧
      branchTest initialPath v.bytes = .error .readOnly ∧
      ¬ DecidesRight (bareGateway .zero) v := by
  have hpath : coapCheckOption firstMeasurement coapOptionUriPath =
      some ⟨coapOptionUriPath, 14, pollPath⟩ := by decide
  have htest : branchTest initialPath pollPath = .error .readOnly := rfl
  refine ⟨_, hpath, ⟨by decide, by decide, ⟨_, hpath, rfl⟩, rfl⟩, rfl, htest, ?_⟩
  rintro ⟨taken, st, hrun, -⟩
  cases htest.symm.trans hrun

end CoapThread
