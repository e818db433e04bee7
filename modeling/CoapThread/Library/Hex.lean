import Mathlib.Data.List.Basic

/-!
# Hexadecimal Strings

Bytes written as pairs of the digits `0` to `9` and `A` to `F`, the high half
first.

A digit is a byte here, the code of its character, because that is what a C
string holds. No digit is the NUL, so the digits of any bytes can be ended by
one.

## Main definitions

* `digit`: The digit of a number below 16.
* `encode`: The digits of a list of bytes.
* `value`: What a digit stands for.
* `decode`: The bytes a list of digits stands for.

## Theorems

* `value_digit`: A digit reads back.
* `decode_encode`: So do the digits of a list of bytes.
* `encode_injective`: Different bytes have different digits.
* `encode_mem`: Every character is a digit.
-/

namespace Hex

/-- The digits, in order. -/
def digits : List UInt8 :=
  [0x30, 0x31, 0x32, 0x33, 0x34, 0x35, 0x36, 0x37, 0x38, 0x39,
    0x41, 0x42, 0x43, 0x44, 0x45, 0x46]

/-- The digit of a number below 16. -/
def digit (n : Nat) : UInt8 := digits.getD n 0

/-- The two digits of each byte in turn. -/
def encode (bytes : List UInt8) : List UInt8 :=
  bytes.flatMap (fun b => [digit (b.toNat / 16), digit (b.toNat % 16)])

/-- What a digit stands for. -/
def value (c : UInt8) : Option Nat :=
  if 0x30 ≤ c ∧ c ≤ 0x39 then some (c.toNat - 0x30)
  else if 0x41 ≤ c ∧ c ≤ 0x46 then some (c.toNat - 0x37)
  else none

/-- The bytes that pairs of digits stand for. -/
def decode : List UInt8 → Option (List UInt8)
  | [] => some []
  | [_] => none
  | hi :: lo :: rest => match value hi, value lo, decode rest with
    | some h, some l, some bytes => some (UInt8.ofNat (16 * h + l) :: bytes)
    | _, _, _ => none

/-- A digit reads back. -/
theorem value_digit (n : Nat) (h : n < 16) : value (digit n) = some n := by
  have hall : ∀ k : Fin 16, value (digit k.1) = some k.1 := by decide
  exact hall ⟨n, h⟩

theorem digit_mem (n : Nat) (h : n < 16) : digit n ∈ digits := by
  have hall : ∀ k : Fin 16, digit k.1 ∈ digits := by decide
  exact hall ⟨n, h⟩

theorem zero_not_mem_digits : (0 : UInt8) ∉ digits := by decide

@[simp] theorem encode_cons (b : UInt8) (bytes : List UInt8) :
    encode (b :: bytes) = digit (b.toNat / 16) :: digit (b.toNat % 16) :: encode bytes := rfl

/-- Two digits for every byte. -/
theorem encode_length (bytes : List UInt8) : (encode bytes).length = 2 * bytes.length := by
  induction bytes with
  | nil => rfl
  | cons b bytes ih =>
      simp only [encode_cons, List.length_cons, ih]
      omega

/-- Every character is a digit. -/
theorem encode_mem (bytes : List UInt8) (c : UInt8) (h : c ∈ encode bytes) : c ∈ digits := by
  induction bytes with
  | nil => exact absurd h List.not_mem_nil
  | cons b bytes ih =>
      have hb : b.toNat < 256 := b.toNat_lt
      rw [encode_cons, List.mem_cons, List.mem_cons] at h
      rcases h with rfl | rfl | htail
      · exact digit_mem _ (by omega)
      · exact digit_mem _ (by omega)
      · exact ih htail

/-- The digits of a list of bytes read back. -/
theorem decode_encode (bytes : List UInt8) : decode (encode bytes) = some bytes := by
  induction bytes with
  | nil => rfl
  | cons b bytes ih =>
      have hb : b.toNat < 256 := b.toNat_lt
      -- A byte is put together from its halves.
      have hjoin : UInt8.ofNat (16 * (b.toNat / 16) + b.toNat % 16) = b := by
        rw [Nat.div_add_mod]
        exact UInt8.ofNat_toNat
      rw [encode_cons, decode, value_digit _ (by omega), value_digit _ (by omega), ih]
      simp only [hjoin]

/-- Different bytes have different digits. -/
theorem encode_injective {as bs : List UInt8} (h : encode as = encode bs) : as = bs := by
  have hdecode := congrArg decode h
  rw [decode_encode, decode_encode] at hdecode
  exact Option.some.inj hdecode

end Hex
