import CoapThread.Core.Registry
import Mathlib.Data.List.Nodup

/-!
# What a Round Writes Back

Whether the registry and the published messages say of each device what the
round found out.

The branch for a silent device publishes it and writes its record with state
0. It has no alternative, so the turn goes on with what is meant for a device
that has answered, reads the record back and writes it with state 1. The
messages are right, then, and the registry says that every device is online.

`postLoop_run` is that as an invariant of the loop: names are distinct, so a
later turn leaves an earlier device's record alone.

## Main definitions

* `DigitalOut.says`: What a message says, and of which device.
* `Reported`: The outcome the loop ought to have.
* `HeldTable`: A table of distinct names that the registry holds.

## Theorems

* `rewrite_ok`, `postEntry_ok`: What one turn does.
* `postLoop_run`: What the loop does.
* `reported_iff`: The outcome is right exactly where every device has answered.
* `not_reported_silent`: A silent device is online in the registry.
-/

namespace CoapThread

open CBytes

variable {ρ : Type}

/-- What a message says, and of which device. -/
def DigitalOut.says (m : DigitalOut) : Int32 × List UInt8 := (m.bVal, cstr m.strDa.bytes)

/-- The loop leaves each device's record with the state its table entry had and
    every other record as it was, and publishes one message for each silent
    device, in table order. -/
def Reported (R : Registry ρ) (d : SDeviceInfo) (s : PostState ρ) : Prop :=
  ∃ es s', postProcess R d s = .ok (es, s') ∧
    (∀ e ∈ d.pLTUInfo, ∀ x, R.getLTUInforByName s.registry e.nameOf = some x →
      R.getLTUInforByName s'.registry e.nameOf = some { x with state := e.state }) ∧
    (∀ name, name ∉ d.pLTUInfo.map LTUInfor.nameOf →
      R.getLTUInforByName s'.registry name = R.getLTUInforByName s.registry name) ∧
    s'.published.map DigitalOut.says = s.published.map DigitalOut.says ++
      (d.pLTUInfo.filter (fun e => e.state = 0)).map (fun e => (0, e.nameOf))

theorem terminated_of_nameOf {e e' : LTUInfor} (h : e'.nameOf = e.nameOf)
    (hterm : Terminated e.name.bytes) : Terminated e'.name.bytes := by
  have hlt := strlen_lt_of_terminated e.name.bytes hterm
  have hlen : strlen e'.name.bytes = strlen e.name.bytes := congrArg List.length h
  refine terminated_of_strlen_lt e'.name.bytes ?_
  rw [hlen, e'.name.length_eq]
  rw [e.name.length_eq] at hlt
  exact hlt

section Turn

variable {R : Registry ρ} {e x : LTUInfor}

/-- Reading, setting the state and writing back changes one record in one
    field. -/
theorem rewrite_ok (law : R.Lawful) (state : Int32) {db : ρ} (hterm : Terminated e.name.bytes)
    (hx : R.getLTUInforByName db e.nameOf = some x) :
    ∃ db', rewrite R state e db = .ok ({ x with state := state }, db') ∧
      R.getLTUInforByName db' e.nameOf = some { x with state := state } ∧
      ∀ name, name ≠ e.nameOf → R.getLTUInforByName db' name = R.getLTUInforByName db name := by
  -- The record read has the name it was asked for by, so it goes back under it.
  have hname : x.nameOf = e.nameOf := law.name db e.nameOf x hx
  have hterm' : Terminated x.name.bytes := terminated_of_nameOf hname hterm
  have hsame : ({ x with state := state } : LTUInfor).nameOf = e.nameOf := hname
  refine ⟨R.setLTUInforByName db e.nameOf { x with state := state }, ?_, ?_, ?_⟩
  · unfold rewrite
    rw [if_pos hterm, hx, Option.getD_some, if_pos hterm', hsame]
  · have hrep := law.replace db { x with state := state }
    rw [hsame, hx] at hrep
    exact hrep (Option.some_ne_none x)
  · intro name hne
    have hoth := law.other db { x with state := state } name
    rw [hsame] at hoth
    exact hoth hne

theorem publish_says (e : LTUInfor) (s : PostState ρ) :
    (publish e s).published.map DigitalOut.says =
      s.published.map DigitalOut.says ++ [(0, e.nameOf)] := by
  have hlen : strlen e.name.bytes < 256 := by
    have hle := strlen_le e.name.bytes
    rw [e.name.length_eq] at hle
    omega
  unfold publish
  simp only [List.map_append, List.map_cons, List.map_nil, DigitalOut.says]
  rw [LTUInfor.nameOf, Buf.cstr_write s.digMsg.strDa e.name.bytes hlen]

/-- One turn: the device's record ends with state 1 whatever its entry says,
    and the device is published where its entry says 0. -/
theorem postEntry_ok (law : R.Lawful) {s : PostState ρ} (hterm : Terminated e.name.bytes)
    (hx : R.getLTUInforByName s.registry e.nameOf = some x) :
    ∃ s', postEntry R e s = .ok ({ x with state := 1 }, s') ∧
      R.getLTUInforByName s'.registry e.nameOf = some { x with state := 1 } ∧
      (∀ name, name ≠ e.nameOf →
        R.getLTUInforByName s'.registry name = R.getLTUInforByName s.registry name) ∧
      s'.published.map DigitalOut.says = s.published.map DigitalOut.says ++
        if e.state = 0 then [(0, e.nameOf)] else [] := by
  unfold postEntry
  by_cases hstate : e.state = 0
  · rcases rewrite_ok law 0 hterm hx with ⟨db, hrun, hget, hother⟩
    have hname : x.nameOf = e.nameOf := law.name s.registry e.nameOf x hx
    -- The record the second pass starts from is the one the first has written.
    rcases rewrite_ok law (e := { x with state := 0 }) (x := { x with state := 0 }) 1
      (terminated_of_nameOf hname hterm) (hname ▸ hget) with ⟨db', hrun', hget', hother'⟩
    have hrun'' : rewrite R 0 e (publish e s).registry = .ok ({ x with state := 0 }, db) := hrun
    simp only [hstate, if_true, hrun'', hrun']
    refine ⟨_, rfl, ?_, ?_, publish_says e s⟩
    · exact hname ▸ hget'
    · intro name hne
      exact (hother' name (hname ▸ hne)).trans (hother name hne)
  · rcases rewrite_ok law 1 hterm hx with ⟨db, hrun, hget, hother⟩
    simp only [hstate, if_false, hrun]
    exact ⟨_, rfl, hget, hother, (List.append_nil _).symm⟩

end Turn

/-- The loop: every device's record ends with state 1, and the silent devices
    are published in table order. Induction on the table; the names ahead
    differ from the one at hand, so its record stays. -/
theorem postLoop_run {R : Registry ρ} (law : R.Lawful) (es : List LTUInfor) (s : PostState ρ)
    (hterm : ∀ e ∈ es, Terminated e.name.bytes) (hnodup : (es.map LTUInfor.nameOf).Nodup)
    (hheld : ∀ e ∈ es, R.getLTUInforByName s.registry e.nameOf ≠ none) :
    ∃ es' s', postLoop R es.length es s = .ok (es', s') ∧
      (∀ e ∈ es, ∀ x, R.getLTUInforByName s.registry e.nameOf = some x →
        R.getLTUInforByName s'.registry e.nameOf = some { x with state := 1 }) ∧
      (∀ name, name ∉ es.map LTUInfor.nameOf →
        R.getLTUInforByName s'.registry name = R.getLTUInforByName s.registry name) ∧
      s'.published.map DigitalOut.says = s.published.map DigitalOut.says ++
        (es.filter (fun e => e.state = 0)).map (fun e => (0, e.nameOf)) := by
  induction es generalizing s with
  | nil =>
      exact ⟨[], s, rfl, fun e he => absurd he List.not_mem_nil, fun _ _ => rfl,
        (List.append_nil _).symm⟩
  | cons e es ih =>
      rcases List.forall_mem_cons.mp hterm with ⟨hterme, hterms⟩
      rcases List.forall_mem_cons.mp hheld with ⟨hhelde, hhelds⟩
      rw [List.map_cons, List.nodup_cons] at hnodup
      rcases Option.ne_none_iff_exists'.mp hhelde with ⟨x, hx⟩
      rcases postEntry_ok law hterme hx with ⟨s₁, hrun, hget, hother, hsays⟩
      -- The names ahead are others, so this turn leaves their records.
      have hapart : ∀ e' ∈ es, e'.nameOf ≠ e.nameOf := by
        intro e' he' hc
        exact hnodup.1 (hc ▸ List.mem_map_of_mem he')
      rcases ih s₁ hterms hnodup.2
        (fun e' he' => by
          rw [hother _ (hapart e' he')]
          exact hhelds e' he') with ⟨es', s', hrun', hgets, hothers, hsays'⟩
      refine ⟨{ x with state := 1 } :: es', s', ?_, ?_, ?_, ?_⟩
      · rw [List.length_cons, postLoop, hrun]
        simp only []
        rw [hrun']
        rfl
      · refine List.forall_mem_cons.mpr ⟨fun y hy => ?_, fun e' he' y hy => ?_⟩
        · rw [hothers _ hnodup.1, hget, Option.some.inj (hx.symm.trans hy)]
        · refine hgets e' he' y ?_
          rw [hother _ (hapart e' he')]
          exact hy
      · intro name hname
        rw [List.map_cons, List.mem_cons, not_or] at hname
        exact (hothers name hname.2).trans (hother name hname.1)
      · rw [hsays', hsays, List.append_assoc, List.filter_cons]
        congr 1
        by_cases hstate : e.state = 0
        · simp only [hstate, if_true, decide_true, List.map_cons, List.singleton_append]
        · simp only [hstate, if_false, decide_false, Bool.false_eq_true, List.nil_append]

/-- A table of distinct names, each of which the registry holds. -/
structure HeldTable (R : Registry ρ) (d : SDeviceInfo) (s : PostState ρ) : Prop where
  num : d.num.toNat = d.pLTUInfo.length
  terminated : ∀ e ∈ d.pLTUInfo, Terminated e.name.bytes
  distinct : (d.pLTUInfo.map LTUInfor.nameOf).Nodup
  held : ∀ e ∈ d.pLTUInfo, R.getLTUInforByName s.registry e.nameOf ≠ none

theorem postProcess_run {R : Registry ρ} (law : R.Lawful) {d : SDeviceInfo} {s : PostState ρ}
    (h : HeldTable R d s) :
    ∃ es s', postProcess R d s = .ok (es, s') ∧
      (∀ e ∈ d.pLTUInfo, ∀ x, R.getLTUInforByName s.registry e.nameOf = some x →
        R.getLTUInforByName s'.registry e.nameOf = some { x with state := 1 }) ∧
      (∀ name, name ∉ d.pLTUInfo.map LTUInfor.nameOf →
        R.getLTUInforByName s'.registry name = R.getLTUInforByName s.registry name) ∧
      s'.published.map DigitalOut.says = s.published.map DigitalOut.says ++
        (d.pLTUInfo.filter (fun e => e.state = 0)).map (fun e => (0, e.nameOf)) := by
  unfold postProcess
  rw [h.num]
  exact postLoop_run law d.pLTUInfo s h.terminated h.distinct h.held

theorem answered_of_reported {R : Registry ρ} (law : R.Lawful) {d : SDeviceInfo} {s : PostState ρ}
    (h : HeldTable R d s) (hrep : Reported R d s) : ∀ e ∈ d.pLTUInfo, e.state = 1 := by
  rcases postProcess_run law h with ⟨es, s', hrun, hgets, -⟩
  rcases hrep with ⟨es₁, s₁, hrun₁, hgets₁, -⟩
  intro e he
  cases hrun.symm.trans hrun₁
  rcases Option.ne_none_iff_exists'.mp (h.held e he) with ⟨x, hx⟩
  -- The record ends with state 1, and was to end with the entry's.
  have hrecord := (hgets₁ e he x hx).symm.trans (hgets e he x hx)
  exact congrArg LTUInfor.state (Option.some.inj hrecord)

/-- For every table of distinct names that the registry holds, the outcome is
    right if and only if every device has answered. -/
theorem reported_iff (R : Registry ρ) (law : R.Lawful) (d : SDeviceInfo) (s : PostState ρ)
    (h : HeldTable R d s) : Reported R d s ↔ ∀ e ∈ d.pLTUInfo, e.state = 1 := by
  refine ⟨answered_of_reported law h, fun hall => ?_⟩
  rcases postProcess_run law h with ⟨es, s', hrun, hgets, hothers, hsays⟩
  refine ⟨es, s', hrun, fun e he x hx => ?_, hothers, hsays⟩
  rw [hall e he]
  exact hgets e he x hx

/-- A registry that holds the device `LTUa`, and a table with its entry. -/
def oneDevice (state : Int32) : SDeviceInfo :=
  ⟨1, 0, 0, [{ LTUInfor.ofName [0x4c, 0x54, 0x55, 0x61] with state := state }]⟩

def oneRecord : PostState (List UInt8 → Option LTUInfor) :=
  ⟨⟨Buf.zero 256, 0, 0⟩, fun _ => some (LTUInfor.ofName [0x4c, 0x54, 0x55, 0x61]), []⟩

theorem oneDevice_held (state : Int32) : HeldTable mapRegistry (oneDevice state) oneRecord where
  num := rfl
  terminated e he := by
    rw [oneDevice, List.mem_singleton] at he
    rw [he]
    exact Buf.terminated_ofList [0x4c, 0x54, 0x55, 0x61] (by decide)
  distinct := List.nodup_singleton _
  held e he := by
    rw [oneDevice, List.mem_singleton] at he
    have hname : e.nameOf = (LTUInfor.ofName [0x4c, 0x54, 0x55, 0x61]).nameOf := by
      rw [he]
      rfl
    simp only [mapRegistry, oneRecord, hname, Option.filter_some, decide_true, if_true, ne_eq,
      reduceCtorEq, not_false_eq_true]

/-- A registry that holds the devices `LTUa` and `LTUb`, and a table of a round
    both have answered. -/
def twoAnswered : SDeviceInfo :=
  ⟨2, 0, 2, [{ LTUInfor.ofName [0x4c, 0x54, 0x55, 0x61] with state := 1 },
    { LTUInfor.ofName [0x4c, 0x54, 0x55, 0x62] with state := 1 }]⟩

def twoRecords : PostState (List UInt8 → Option LTUInfor) :=
  ⟨⟨Buf.zero 256, 0, 0⟩, fun name => some (LTUInfor.ofName name), []⟩

theorem twoAnswered_held : HeldTable mapRegistry twoAnswered twoRecords := by
  constructor
  · rfl
  · decide
  · decide
  · decide

/-- They are written back as they are. -/
theorem reported_answered : Reported mapRegistry twoAnswered twoRecords :=
  (reported_iff mapRegistry mapRegistry_lawful twoAnswered twoRecords twoAnswered_held).mpr
    (by decide)

/-- A silent device is online in the registry. -/
theorem not_reported_silent : HeldTable mapRegistry (oneDevice 0) oneRecord ∧
    ¬ Reported mapRegistry (oneDevice 0) oneRecord := by
  refine ⟨oneDevice_held 0, fun h => ?_⟩
  have hone := answered_of_reported mapRegistry_lawful (oneDevice_held 0) h _
    (List.mem_singleton_self _)
  exact absurd (show (0 : Int32) = 1 from hone) (by decide)

end CoapThread
