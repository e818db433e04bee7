import CoapThread.Core.Helpers

/-!
# The Deadline of the Receive Call

Whether the time `delay_us_at_TimesSpec` returns is the one it was asked for.

The nanoseconds are added up and carried into the seconds, but in units of
999999999 where a second has 1000000000. A sum below a second is not carried
and comes out right; from a second on, every unit carried makes the deadline a
nanosecond late. The result is normalised either way, so nothing in the call
that waits for it shows the difference.

## Main definitions

* `Timespec.Normalised`: The nanoseconds are less than a second.
* `Timespec.total`: The time in nanoseconds.
* `DelaysExactly`: The deadline is normalised and the one asked for.

## Theorems

* `delay_sum`: The sum of the nanoseconds does not overflow.
* `delay_normalised`: The deadline is normalised.
* `delay_carried`: What a carried sum is turned into.
* `delaysExactly_iff`: The deadline is right exactly where nothing is carried.
* `not_delaysExactly_carry`: Twenty milliseconds before a second is full.
-/

namespace CoapThread

/-- The nanoseconds are less than a second. -/
def Timespec.Normalised (t : Timespec) : Prop := 0 ≤ t.tvNsec.toInt ∧ t.tvNsec.toInt < 10 ^ 9

instance (t : Timespec) : Decidable t.Normalised := inferInstanceAs (Decidable (_ ∧ _))

/-- The time in nanoseconds. -/
def Timespec.total (t : Timespec) : Int := t.tvSec.toInt * 10 ^ 9 + t.tvNsec.toInt

/-- The deadline is normalised, and lies the 32-bit product of nanoseconds
    ahead. -/
def DelaysExactly (us : UInt32) (now : Timespec) : Prop :=
  (delayUsAtTimesSpec us now).Normalised ∧
    (delayUsAtTimesSpec us now).total = now.total + (us * 1000).toNat

section Delay

variable {us : UInt32} {now : Timespec}

/-- The sum of the nanoseconds does not overflow. -/
theorem delay_sum (h : now.Normalised) :
    (now.tvNsec + Int64.ofNat (us * 1000).toNat).toInt = now.tvNsec.toInt + (us * 1000).toNat := by
  rcases h with ⟨hnonneg, hlt⟩
  have hproduct : (us * 1000).toNat < 2 ^ 32 := UInt32.toNat_lt _
  rw [Int64.toInt_add, Int64.toInt_ofNat_of_lt (by omega)]
  exact Int.bmod_eq_of_le (by omega) (by omega)

/-- A sum below a second is taken as it is. -/
theorem delay_uncarried (h : now.Normalised)
    (hsum : now.tvNsec.toInt + (us * 1000).toNat < 10 ^ 9) :
    delayUsAtTimesSpec us now = ⟨now.tvSec, now.tvNsec + Int64.ofNat (us * 1000).toNat⟩ := by
  have hle : ¬ (999999999 < now.tvNsec + Int64.ofNat (us * 1000).toNat) := by
    rw [Int64.lt_iff_toInt_lt, delay_sum h, show (999999999 : Int64).toInt = 999999999 from rfl]
    omega
  unfold delayUsAtTimesSpec
  simp only []
  rw [if_neg hle]

/-- A larger one is divided by 999999999, the quotient added to the seconds. -/
theorem delay_carried (h : now.Normalised)
    (hsum : 10 ^ 9 ≤ now.tvNsec.toInt + (us * 1000).toNat) :
    (delayUsAtTimesSpec us now).tvNsec.toInt =
        (now.tvNsec.toInt + (us * 1000).toNat) % 999999999 ∧
      (delayUsAtTimesSpec us now).tvSec.toInt =
        (now.tvSec.toInt + (now.tvNsec.toInt + (us * 1000).toNat) / 999999999).bmod (2 ^ 64) := by
  have hlt : 999999999 < now.tvNsec + Int64.ofNat (us * 1000).toNat := by
    rw [Int64.lt_iff_toInt_lt, delay_sum h, show (999999999 : Int64).toInt = 999999999 from rfl]
    omega
  have hne : (999999999 : Int64) ≠ -1 := by decide
  unfold delayUsAtTimesSpec
  simp only []
  rw [if_pos hlt]
  constructor
  · rw [Int64.toInt_mod, delay_sum h, show (999999999 : Int64).toInt = 999999999 from rfl]
    exact Int.tmod_eq_emod_of_nonneg (by omega)
  · rw [Int64.toInt_add, Int64.toInt_div_of_ne_right _ _ hne, delay_sum h,
      show (999999999 : Int64).toInt = 999999999 from rfl, Int.tdiv_eq_ediv_of_nonneg (by omega)]

/-- The deadline is normalised, carried or not. -/
theorem delay_normalised (h : now.Normalised) : (delayUsAtTimesSpec us now).Normalised := by
  by_cases hsum : now.tvNsec.toInt + (us * 1000).toNat < 10 ^ 9
  · rw [delay_uncarried h hsum, Timespec.Normalised, delay_sum h]
    exact ⟨Int.add_nonneg h.1 (Int.natCast_nonneg _), hsum⟩
  · rw [Timespec.Normalised, (delay_carried h (Int.not_lt.mp hsum)).1]
    omega

/-- A carried sum gives another time than the one asked for, by a nanosecond
    for each unit carried, or by the seconds' whole range where they wrap. -/
theorem delay_total_ne (h : now.Normalised)
    (hsum : 10 ^ 9 ≤ now.tvNsec.toInt + (us * 1000).toNat) :
    (delayUsAtTimesSpec us now).total ≠ now.total + (us * 1000).toNat := by
  rcases delay_carried h hsum with ⟨hnsec, hsec⟩
  have hproduct : (us * 1000).toNat < 2 ^ 32 := UInt32.toNat_lt _
  have hlower := now.tvSec.le_toInt
  have hupper := now.tvSec.toInt_lt
  have hlt := h.2
  unfold Timespec.total
  rw [hnsec, hsec, Int.bmod_def]
  split_ifs <;> omega

end Delay

/-- For every delay and every normalised time: the deadline is normalised and
    exactly the product ahead if and only if the nanoseconds add up to less
    than a second. -/
theorem delaysExactly_iff (us : UInt32) (now : Timespec) (h : now.Normalised) :
    DelaysExactly us now ↔ now.tvNsec.toInt + (us * 1000).toNat < 10 ^ 9 := by
  constructor
  · rintro ⟨-, htotal⟩
    by_contra hsum
    exact delay_total_ne h (Int.not_lt.mp hsum) htotal
  · intro hsum
    refine ⟨delay_normalised h, ?_⟩
    rw [delay_uncarried h hsum]
    simp only [Timespec.total, delay_sum h]
    omega

/-- Twenty milliseconds from the start of a second. -/
theorem delaysExactly_start : DelaysExactly 20000 ⟨1, 0⟩ :=
  (delaysExactly_iff 20000 ⟨1, 0⟩ (by decide)).mpr (by decide)

/-- Twenty milliseconds before a second is full: the deadline is a nanosecond
    late. -/
theorem not_delaysExactly_carry : (⟨1, 980000000⟩ : Timespec).Normalised ∧
    delayUsAtTimesSpec 20000 ⟨1, 980000000⟩ = ⟨2, 1⟩ ∧ ¬ DelaysExactly 20000 ⟨1, 980000000⟩ := by
  refine ⟨by decide, by decide, ?_⟩
  rintro ⟨-, htotal⟩
  exact absurd htotal (by decide)

end CoapThread
