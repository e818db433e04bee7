import CoapThread.Core.Registry
import Mathlib.Data.Nat.Digits.Lemmas

/-!
# Filling the Device Table

Whether the table of a round says what the registry has delivered.

The registry is asked twice, for the number of its records and then for the
records, and it may have changed in between. The table keeps the first number,
cut to sixteen bits, and the memory is allocated for the first; the records and
the loop that clears their states go by the second. Where the two do not agree
the table counts entries nobody has written, or the records do not fit.

## Main definitions

* `FilledFrom`: A table is what the registry delivered.
* `Consistent`: A call leaves such a table, or an empty one.

## Theorems

* `filledFrom_iff`: When a table that was filled is what was delivered.
* `consistent_iff`: The two numbers must agree.
* `not_consistent_left`: A device leaves between the two queries.
-/

namespace CoapThread

/-- The table counts the delivered entries, which fit into the `n` allocated
    ones, and holds each with its state reset and no answer counted. -/
structure FilledFrom (n : Nat) (entries : List LTUInfor) (d : SDeviceInfo) : Prop where
  num : d.num.toNat = entries.length
  fits : entries.length ≤ n
  entry : ∀ i < d.num.toNat, ∃ e ∈ entries, d.pLTUInfo[i]? = some { e with state := 0 }
  count : d.count = 0

/-- A call returns with a table of what was delivered, or reports a failure and
    counts nothing. -/
def Consistent (r : RegistryReply) (d : SDeviceInfo) : Prop :=
  ∃ d' filled, getRegisteredDeviceInfo r d = .ok (d', filled) ∧
    if filled then ∃ n entries, r.count = some n ∧ r.entries = some entries ∧
      FilledFrom n.toNat entries d'
    else d'.num = 0

/-- Both queries and the allocation have succeeded. -/
def Delivers (r : RegistryReply) (n : Int) (entries : List LTUInfor) : Prop :=
  r.count = some n ∧ 0 ≤ n ∧ r.allocated = true ∧ r.entries = some entries

/-- The table as it is filled. -/
def filledTable (n : Int) (entries : List LTUInfor) (d : SDeviceInfo) : SDeviceInfo :=
  { d with
    num := UInt16.ofInt n
    count := 0
    pLTUInfo := entries.map (fun e => { e with state := 0 }) ++
      (List.replicate n.toNat (LTUInfor.ofName [])).drop entries.length }

theorem getRegisteredDeviceInfo_delivers {r : RegistryReply} {n : Int} {entries : List LTUInfor}
    (d : SDeviceInfo) (h : Delivers r n entries) :
    getRegisteredDeviceInfo r d =
      if entries.length ≤ n.toNat then .ok (filledTable n entries d, true)
      else .error .overrun := by
  rcases h with ⟨hcount, hnonneg, halloc, hentries⟩
  unfold getRegisteredDeviceInfo
  rw [hcount]
  simp only []
  rw [if_pos ⟨hnonneg, halloc⟩, hentries]
  rfl

/-- A call whose queries or allocation fail reports it and counts nothing. -/
theorem consistent_of_failed {r : RegistryReply} (d : SDeviceInfo)
    (h : ∀ n entries, ¬ Delivers r n entries) : Consistent r d := by
  unfold Consistent getRegisteredDeviceInfo
  rcases hcount : r.count with _ | n
  · exact ⟨_, false, rfl, rfl⟩
  by_cases halloc : 0 ≤ n ∧ r.allocated
  · simp only [halloc, and_self, if_true]
    rcases hentries : r.entries with _ | entries
    · exact ⟨_, false, rfl, rfl⟩
    · exact absurd ⟨hcount, halloc.1, halloc.2, hentries⟩ (h n entries)
  · simp only [halloc, if_false]
    exact ⟨_, false, rfl, rfl⟩

/-- A filled table is what was delivered if the sixteen bits of the first number
    are the second. -/
theorem filledFrom_iff {n : Int} (hn : 0 ≤ n) {entries : List LTUInfor}
    (hfits : entries.length ≤ n.toNat) (d : SDeviceInfo) :
    FilledFrom n.toNat entries (filledTable n entries d) ↔ entries.length = n.toNat % 2 ^ 16 := by
  have hnum : (filledTable n entries d).num.toNat = n.toNat % 2 ^ 16 := by
    have hcut : (UInt16.ofInt n).toNat = (n % 2 ^ 16).toNat % 2 ^ 16 := UInt16.toNat_ofNat'
    simp only [filledTable, hcut]
    omega
  constructor
  · intro h
    rw [← hnum]
    exact h.num.symm
  · intro h
    refine ⟨hnum.trans h.symm, hfits, fun i hi => ?_, rfl⟩
    have hlt : i < entries.length := by omega
    -- Every entry that is counted stands among the delivered ones.
    refine ⟨entries[i], List.getElem_mem hlt, ?_⟩
    have hlt' : i < (entries.map (fun e : LTUInfor => { e with state := 0 })).length := by
      rw [List.length_map]
      exact hlt
    simp only [filledTable]
    rw [List.getElem?_append_left hlt', List.getElem?_map, List.getElem?_eq_getElem hlt]
    rfl

/-- For every answer of the registry and every outcome of the allocation: the
    table is consistent if and only if the number of records delivered is the
    number asked for, in sixteen bits. -/
theorem consistent_iff (r : RegistryReply) (d : SDeviceInfo) :
    Consistent r d ↔ ∀ n entries, Delivers r n entries → entries.length = n.toNat % 2 ^ 16 := by
  constructor
  · rintro ⟨d', filled, hrun, hkept⟩ n entries h
    rw [getRegisteredDeviceInfo_delivers d h] at hrun
    split_ifs at hrun with hfits
    cases hrun
    rcases hkept with ⟨n', entries', hcount, hentries, hfilled⟩
    cases h.1.symm.trans hcount
    cases h.2.2.2.symm.trans hentries
    exact (filledFrom_iff h.2.1 hfits d).mp hfilled
  · intro h
    by_cases hdelivers : ∃ n entries, Delivers r n entries
    · rcases hdelivers with ⟨n, entries, hd⟩
      have hlen := h n entries hd
      have hfits : entries.length ≤ n.toNat := by
        rw [hlen]
        exact Nat.mod_le _ _
      have hrun := getRegisteredDeviceInfo_delivers d hd
      rw [if_pos hfits] at hrun
      exact ⟨_, true, hrun, n, entries, hd.1, hd.2.2.2, (filledFrom_iff hd.2.1 hfits d).mpr hlen⟩
    · refine consistent_of_failed d (fun n entries hd => hdelivers ⟨n, entries, hd⟩)

/-- A table without entries. -/
def emptyTable : SDeviceInfo := ⟨0, 0, 0, []⟩

/-- The registry has two devices when it is asked for their number, and one
    when it is asked for them. -/
theorem not_consistent_left :
    ¬ Consistent ⟨some 2, true, some [LTUInfor.ofName [0x4c, 0x54, 0x55, 0x41]]⟩ emptyTable := by
  rintro ⟨d', filled, hrun, hkept⟩
  cases hrun
  rcases hkept with ⟨n, entries, hcount, hentries, hfilled⟩
  cases hentries
  exact absurd hfilled.num (by decide)

end CoapThread
