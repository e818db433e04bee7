import CoapThread.Core.Pdu
import Mathlib.Data.Nat.Bitwise

/-!
# The Value of a Block Option

A block option's value is a number in its shortest big-endian form: the block
number above, then the more bit and three bits for the size exponent. The
program writes such a value with `coap_encode_var_bytes` and reads one field
by field from the last byte and those before it. Here the two are brought
together: what is read from a written value are the fields it was written
with.

All of it is 32-bit arithmetic, so a number that does not fit in 28 bits does
not survive. The lemmas carry that bound.

A block option has at most three bytes, and its number therefore 20 bits.
Nothing in the encoding keeps to that: how long a value is written depends on
the number alone.

## Theorems

* `decodeVarBytes_varBytes`: A number reads back from its bytes.
* `varBytes_length_le_iff`: How many bytes a number takes.
* `coapOptBlockNum_lt`: A value of three bytes has a number of 20 bits.
* `coapOptBlockNum_encode`, `coapOptBlockLast_encode`: What a written value is
  read as.
* `blockValue_num`, `blockValue_szx`, `blockValue_more`: The fields of a value
  put together from them.
-/

namespace CoapThread

theorem or_toNat_eq_add (a b : Nat) (i : Nat) (h : b < 2 ^ i) :
    a * 2 ^ i ||| b = a * 2 ^ i + b := by
  rw [← Nat.shiftLeft_eq, Nat.shiftLeft_add_eq_or_of_lt h]

/-- A number reads back from its bytes. -/
theorem decodeVarBytes_varBytes (n v : Nat) (h : v < 256 ^ n) (hv : v < 2 ^ 32) :
    coapDecodeVarBytes (varBytes n v) = UInt32.ofNat v := by
  induction n generalizing v with
  | zero =>
      have hzero : v = 0 := by
        rw [Nat.pow_zero] at h
        omega
      rw [hzero]
      rfl
  | succ n ih =>
      unfold varBytes
      by_cases hzero : v = 0
      · rw [if_pos hzero, hzero]
        rfl
      · have hdiv : v / 256 < 256 ^ n := by
          rw [Nat.pow_succ] at h
          omega
        have hfront := ih (v / 256) hdiv (by omega)
        rw [if_neg hzero]
        unfold coapDecodeVarBytes at hfront ⊢
        rw [List.foldl_append, hfront, List.foldl_cons, List.foldl_nil]
        apply UInt32.toNat_inj.mp
        rw [UInt32.toNat_or, UInt32.toNat_shiftLeft, UInt32.toNat_ofNat', UInt8.toNat_toUInt32,
          UInt8.toNat_ofNat', UInt32.toNat_ofNat']
        have hshift :
            (v / 256 % 2 ^ 32) <<< ((8 : UInt32).toNat % 32) % 2 ^ 32 = v / 256 * 2 ^ 8 := by
          rw [show (8 : UInt32).toNat % 32 = 8 from rfl, Nat.shiftLeft_eq]
          omega
        rw [hshift, or_toNat_eq_add _ _ 8 (by omega)]
        omega

/-- A number takes the bytes it needs and no more. -/
theorem varBytes_length_le_iff (n v k : Nat) (h : v < 256 ^ n) :
    (varBytes n v).length ≤ k ↔ v < 256 ^ k := by
  induction n generalizing v k with
  | zero =>
      have hzero : v = 0 := Nat.lt_one_iff.mp h
      rw [hzero]
      exact ⟨fun _ => Nat.pow_pos (by omega), fun _ => Nat.zero_le k⟩
  | succ n ih =>
      unfold varBytes
      by_cases hv : v = 0
      · rw [if_pos hv, hv]
        exact ⟨fun _ => Nat.pow_pos (by omega), fun _ => Nat.zero_le k⟩
      · have hdiv : v / 256 < 256 ^ n := by
          rw [Nat.pow_succ] at h
          omega
        rw [if_neg hv, List.length_append, List.length_singleton]
        -- One byte for the last digit, and the rest for the quotient.
        cases k with
        | zero => simp only [Nat.pow_zero]; omega
        | succ k =>
            rw [Nat.succ_le_succ_iff, ih (v / 256) k hdiv, Nat.pow_succ,
              Nat.div_lt_iff_lt_mul (by omega)]

/-- So many bytes read as a number of so many digits. -/
theorem coapDecodeVarBytes_lt (buf : List UInt8) :
    (coapDecodeVarBytes buf).toNat < 2 ^ (8 * buf.length) := by
  have hfold : ∀ (n : UInt32) (k : Nat), n.toNat < 2 ^ k →
      (buf.foldl (fun (n : UInt32) b => n <<< 8 ||| b.toUInt32) n).toNat <
        2 ^ (k + 8 * buf.length) := by
    induction buf with
    | nil => exact fun n k h => h
    | cons b buf ih =>
        intro n k h
        rw [List.foldl_cons, List.length_cons, Nat.mul_add, Nat.mul_one, Nat.add_comm _ 8,
          ← Nat.add_assoc]
        -- What the number is shifted by is what the byte fills.
        refine ih _ (k + 8) ?_
        rw [UInt32.toNat_or, UInt32.toNat_shiftLeft, UInt8.toNat_toUInt32,
          show (8 : UInt32).toNat % 32 = 8 from rfl, Nat.shiftLeft_eq]
        refine Nat.or_lt_two_pow ?_ (Nat.lt_of_lt_of_le b.toNat_lt
          (Nat.pow_le_pow_right (by omega) (Nat.le_add_left 8 k)))
        refine Nat.lt_of_le_of_lt (Nat.mod_le _ _) ?_
        rw [Nat.pow_add]
        omega
  have hzero := hfold 0 0 (by decide)
  rw [Nat.zero_add] at hzero
  exact hzero

/-- The number of a value of three bytes has 20 bits. -/
theorem coapOptBlockNum_lt (value : List UInt8) (h : value.length ≤ 3) :
    (coapOptBlockNum value).toNat < 2 ^ 20 := by
  have hlen : value.dropLast.length ≤ 2 := by
    rw [List.length_dropLast]
    omega
  have hhigh : (coapDecodeVarBytes value.dropLast).toNat < 2 ^ 16 :=
    Nat.lt_of_lt_of_le (coapDecodeVarBytes_lt _) (Nat.pow_le_pow_right (by omega) (by omega))
  have hlow : (coapOptBlockLast value >>> 4).toNat < 2 ^ 20 :=
    Nat.lt_of_lt_of_le (coapOptBlockLast value >>> 4).toNat_lt (by omega)
  unfold coapOptBlockNum
  rw [UInt32.toNat_or, UInt32.toNat_shiftLeft, UInt8.toNat_toUInt32,
    show (4 : UInt32).toNat % 32 = 4 from rfl, Nat.shiftLeft_eq]
  exact Nat.or_lt_two_pow (by omega) hlow

/-- The size exponent has three bits. -/
theorem coapOptBlockSzx_lt (value : List UInt8) : (coapOptBlockSzx value).toNat < 8 := by
  unfold coapOptBlockSzx
  rw [UInt8.toNat_toUInt32, UInt8.toNat_and]
  exact Nat.lt_succ_of_le Nat.and_le_right

/-- The last byte of a written value. -/
theorem coapOptBlockLast_encode (v : UInt32) :
    coapOptBlockLast (coapEncodeVarBytes v) = UInt8.ofNat (v.toNat % 256) := by
  unfold coapEncodeVarBytes varBytes
  by_cases hzero : v.toNat = 0
  · rw [if_pos hzero, hzero]
    rfl
  · rw [if_neg hzero]
    unfold coapOptBlockLast
    rw [List.getLast?_concat]
    rfl

/-- The block number of a written value is the number without its low four
    bits. -/
theorem coapOptBlockNum_encode (v : UInt32) :
    (coapOptBlockNum (coapEncodeVarBytes v)).toNat = v.toNat / 16 := by
  have hv : v.toNat < 2 ^ 32 := v.toNat_lt
  have hfront :
      coapDecodeVarBytes (coapEncodeVarBytes v).dropLast = UInt32.ofNat (v.toNat / 256) := by
    unfold coapEncodeVarBytes varBytes
    by_cases hzero : v.toNat = 0
    · rw [if_pos hzero, hzero]
      rfl
    · rw [if_neg hzero, List.dropLast_concat]
      exact decodeVarBytes_varBytes 3 _ (by omega) (by omega)
  unfold coapOptBlockNum
  rw [hfront, coapOptBlockLast_encode, UInt32.toNat_or, UInt32.toNat_shiftLeft,
    UInt8.toNat_toUInt32, UInt8.toNat_shiftRight, UInt32.toNat_ofNat', UInt8.toNat_ofNat']
  have hhigh : (v.toNat / 256 % 2 ^ 32) <<< ((4 : UInt32).toNat % 32) % 2 ^ 32 =
      v.toNat / 256 * 2 ^ 4 := by
    rw [show (4 : UInt32).toNat % 32 = 4 from rfl, Nat.shiftLeft_eq]
    omega
  have hlow : (v.toNat % 256 % 2 ^ 8) >>> ((4 : UInt8).toNat % 8) = v.toNat % 256 / 16 := by
    rw [show (4 : UInt8).toNat % 8 = 4 from rfl, Nat.shiftRight_eq_div_pow]
    omega
  rw [hhigh, hlow, or_toNat_eq_add _ _ 4 (by omega)]
  omega

section Fields

variable (num low : UInt32)

/-- A block number over four low bits. -/
theorem blockValue_toNat (hnum : num.toNat < 2 ^ 28) (hlow : low.toNat < 16) :
    (num <<< 4 ||| low).toNat = num.toNat * 16 + low.toNat := by
  have hhigh : num.toNat <<< ((4 : UInt32).toNat % 32) % 2 ^ 32 = num.toNat * 2 ^ 4 := by
    rw [show (4 : UInt32).toNat % 32 = 4 from rfl, Nat.shiftLeft_eq]
    omega
  rw [UInt32.toNat_or, UInt32.toNat_shiftLeft, hhigh, or_toNat_eq_add _ _ 4 hlow]
  omega

theorem blockValue_num (hnum : num.toNat < 2 ^ 28) (hlow : low.toNat < 16) :
    coapOptBlockNum (coapEncodeVarBytes (num <<< 4 ||| low)) = num := by
  apply UInt32.toNat_inj.mp
  rw [coapOptBlockNum_encode, blockValue_toNat num low hnum hlow]
  omega

theorem blockValue_szx (hnum : num.toNat < 2 ^ 28) (hlow : low.toNat < 16) :
    (coapOptBlockSzx (coapEncodeVarBytes (num <<< 4 ||| low))).toNat = low.toNat % 8 := by
  unfold coapOptBlockSzx
  rw [coapOptBlockLast_encode, blockValue_toNat num low hnum hlow, UInt8.toNat_toUInt32,
    UInt8.toNat_and, UInt8.toNat_ofNat', show (0x07 : UInt8).toNat = 2 ^ 3 - 1 from rfl,
    Nat.and_two_pow_sub_one_eq_mod]
  omega

theorem blockValue_more (hnum : num.toNat < 2 ^ 28) (hlow : low.toNat < 16) :
    coapOptBlockMore (coapEncodeVarBytes (num <<< 4 ||| low)) = decide (8 ≤ low.toNat) := by
  -- The more bit is bit 3 of the last byte.
  have hbit : ∀ x : UInt8, (x &&& 0x08 != 0) = decide (x.toNat / 8 % 2 = 1) := by
    intro x
    have hand : (x &&& 0x08).toNat = (x.toNat.testBit 3).toNat * 2 ^ 3 := by
      rw [UInt8.toNat_and]
      exact Nat.and_two_pow x.toNat 3
    rw [Nat.testBit_eq_decide_div_mod_eq] at hand
    by_cases hodd : x.toNat / 8 % 2 = 1
    · rw [decide_eq_true hodd]
      rw [decide_eq_true (show x.toNat / 2 ^ 3 % 2 = 1 from hodd)] at hand
      refine bne_iff_ne.mpr (fun hc => ?_)
      rw [hc] at hand
      exact absurd hand (by decide)
    · rw [decide_eq_false hodd]
      rw [decide_eq_false (show ¬ (x.toNat / 2 ^ 3 % 2 = 1) from hodd)] at hand
      exact bne_eq_false_iff_eq.mpr (UInt8.toNat_inj.mp hand)
  unfold coapOptBlockMore
  rw [coapOptBlockLast_encode, blockValue_toNat num low hnum hlow, hbit, UInt8.toNat_ofNat']
  congr 1
  apply propext
  omega

end Fields

end CoapThread
