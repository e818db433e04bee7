import CoapThread.Core.Config

/-!
# The Option Filter

The filter an option iterator is given, and the bit vector it is kept in.

A filter has a bit for each option number the library knows, up to 63. It is
asked for a number of sixteen bits and hands it on as one of eight, so what it
looks at is the low byte: 259 has the bit of 3, and 279 that of 23. Only then
does the vector find out whether the number fits.

## Main definitions

* `bitsSetb`, `bitsClrb`, `bitsGetb`: A bit vector of so many bytes.
* `coapOptionFilterClear`, `coapOptionSetb`, `coapOptionClrb`,
  `coapOptionGetb`: The filter.
* `typeFilter`: The filter of `coap_check_option`.
* `blockFilter`: The filter of `get_block`.

## Theorems

* `bitsGetb_setb`, `bitsGetb_clrb`, `bitsGetb_zero`: What a bit is read as.
* `typeFilter_getb`, `blockFilter_getb`: What the two filters say of a number.
-/

namespace CoapThread

open CBytes

/-- The highest option number the library knows, `COAP_MAX_OPT`. -/
def coapMaxOpt : Nat := 63

/-- A filter, `coap_opt_filter_t`. -/
abbrev CoapOptFilter := Buf ((coapMaxOpt >>> 3) + 1)

/-- The byte with one bit, `1 << (bit & 0x07)`. -/
def bitMask (bit : UInt8) : UInt8 := 1 <<< (bit &&& 0x07)

/-- The place of its byte, `bit >> 3`. -/
def bitByte (bit : UInt8) : Nat := (bit >>> 3).toNat

section Vector

variable {n : Nat}

def bitsSetb (vec : Buf n) (bit : UInt8) : Buf n × Int :=
  if n ≤ bitByte bit then (vec, -1)
  else (vec.modify (bitByte bit) (· ||| bitMask bit), 1)

def bitsClrb (vec : Buf n) (bit : UInt8) : Buf n × Int :=
  if n ≤ bitByte bit then (vec, -1)
  else (vec.modify (bitByte bit) (· &&& ~~~(bitMask bit)), 1)

def bitsGetb (vec : Buf n) (bit : UInt8) : Int :=
  if n ≤ bitByte bit then -1
  else if vec.bytes.getD (bitByte bit) 0 &&& bitMask bit ≠ 0 then 1 else 0

end Vector

def coapOptionFilterClear (_f : CoapOptFilter) : CoapOptFilter := Buf.zero _

def coapOptionSetb (filter : CoapOptFilter) (type : UInt16) : CoapOptFilter × Int :=
  bitsSetb filter type.toUInt8

def coapOptionClrb (filter : CoapOptFilter) (type : UInt16) : CoapOptFilter × Int :=
  bitsClrb filter type.toUInt8

def coapOptionGetb (filter : CoapOptFilter) (type : UInt16) : Int := bitsGetb filter type.toUInt8

/-- The filter of `coap_check_option` for one number. -/
def typeFilter (type : Nat) : CoapOptFilter :=
  (coapOptionSetb (coapOptionFilterClear (Buf.zero _)) (UInt16.ofNat type)).1

/-- The filter of `get_block`, for any content of its local. -/
def blockFilter (f : CoapOptFilter) : CoapOptFilter :=
  let f := coapOptionFilterClear f
  let f := (coapOptionSetb f (UInt16.ofNat coapOptionBlock1)).1
  (coapOptionSetb f (UInt16.ofNat coapOptionBlock2)).1

section Masks

/-- The facts on masks, for one and the same bit of a byte and for two. -/
theorem bit_cases : ∀ i j : Fin 8,
    ((1 : UInt8) <<< UInt8.ofNat i &&& 1 <<< UInt8.ofNat j) =
        (if i = j then (1 : UInt8) <<< UInt8.ofNat j else 0) ∧
      (~~~((1 : UInt8) <<< UInt8.ofNat i) &&& 1 <<< UInt8.ofNat j) =
        (if i = j then (0 : UInt8) else 1 <<< UInt8.ofNat j) ∧
      (1 : UInt8) <<< UInt8.ofNat j ≠ 0 := by decide

/-- The bit of a number in its byte. -/
def bitPlace (bit : UInt8) : Fin 8 := ⟨bit.toNat % 8, Nat.mod_lt _ (by decide)⟩

theorem bitMask_eq (bit : UInt8) : bitMask bit = 1 <<< UInt8.ofNat (bitPlace bit) := by
  have hlow : bit &&& 0x07 = UInt8.ofNat (bit.toNat % 8) := by
    apply UInt8.toNat_inj.mp
    rw [UInt8.toNat_and, UInt8.toNat_ofNat', show (0x07 : UInt8).toNat = 2 ^ 3 - 1 from rfl,
      Nat.and_two_pow_sub_one_eq_mod]
    omega
  rw [bitMask, hlow]
  rfl

theorem bitByte_eq (bit : UInt8) : bitByte bit = bit.toNat / 8 := by
  unfold bitByte
  rw [UInt8.toNat_shiftRight, Nat.shiftRight_eq_div_pow]
  rfl

/-- A number is its byte and its bit there. -/
theorem bit_eq_iff (a b : UInt8) : a = b ↔ bitByte a = bitByte b ∧ bitPlace a = bitPlace b := by
  rw [bitByte_eq, bitByte_eq, bitPlace, bitPlace, Fin.mk.injEq, ← UInt8.toNat_inj]
  constructor
  · intro h
    rw [h]
    exact ⟨rfl, rfl⟩
  · rintro ⟨hbyte, hplace⟩
    omega

theorem or_and_mask (x m k : UInt8) : (x ||| m) &&& k = (x &&& k) ||| (m &&& k) := by
  apply UInt8.toNat_inj.mp
  simp only [UInt8.toNat_and, UInt8.toNat_or]
  exact Nat.and_or_distrib_right _ _ _

/-- A byte with a bit set has it, and the others it had. -/
theorem set_mask (x a b : UInt8) : (x ||| bitMask a) &&& bitMask b ≠ 0 ↔
    bitPlace a = bitPlace b ∨ x &&& bitMask b ≠ 0 := by
  rcases bit_cases (bitPlace a) (bitPlace b) with ⟨hand, -, hne⟩
  rw [← bitMask_eq, ← bitMask_eq] at hand
  rw [← bitMask_eq] at hne
  rw [or_and_mask, hand, Ne, UInt8.or_eq_zero_iff]
  by_cases hplace : bitPlace a = bitPlace b
  · rw [if_pos hplace]
    exact iff_of_true (fun h => hne h.2) (Or.inl hplace)
  · rw [if_neg hplace, or_iff_right hplace, and_iff_left rfl]

/-- A byte with a bit cleared has the others it had. -/
theorem clear_mask (x a b : UInt8) : (x &&& ~~~(bitMask a)) &&& bitMask b ≠ 0 ↔
    bitPlace a ≠ bitPlace b ∧ x &&& bitMask b ≠ 0 := by
  rcases bit_cases (bitPlace a) (bitPlace b) with ⟨-, hnot, -⟩
  rw [← bitMask_eq, ← bitMask_eq] at hnot
  rw [UInt8.and_assoc, hnot]
  by_cases hplace : bitPlace a = bitPlace b
  · rw [if_pos hplace, UInt8.and_zero]
    exact iff_of_false (fun h => h rfl) (fun h => h.1 hplace)
  · rw [if_neg hplace, and_iff_right hplace]

end Masks

section Reading

variable {n : Nat} (vec : Buf n) (a b : UInt8)

/-- A byte of a vector that is there, once one of its bytes is changed. -/
theorem getD_modify {b : UInt8} (h : ¬ (n ≤ bitByte b)) (i : Nat) (f : UInt8 → UInt8) :
    (vec.modify i f).bytes.getD (bitByte b) 0 =
      if i = bitByte b then f (vec.bytes.getD (bitByte b) 0)
      else vec.bytes.getD (bitByte b) 0 := by
  have hlt : bitByte b < vec.bytes.length := by
    rw [vec.length_eq]
    exact Nat.lt_of_not_le h
  have hget : vec.bytes[bitByte b]? = some vec.bytes[bitByte b] := List.getElem?_eq_getElem hlt
  unfold Buf.modify
  rw [List.getD_eq_getElem?_getD, List.getD_eq_getElem?_getD, List.getElem?_modify, hget]
  split_ifs <;> rfl

theorem hasBit_set {b : UInt8} (h : ¬ (n ≤ bitByte b)) :
    (vec.modify (bitByte a) (· ||| bitMask a)).bytes.getD (bitByte b) 0 &&& bitMask b ≠ 0 ↔
      a = b ∨ vec.bytes.getD (bitByte b) 0 &&& bitMask b ≠ 0 := by
  rw [getD_modify vec h, bit_eq_iff]
  by_cases hbyte : bitByte a = bitByte b
  · rw [if_pos hbyte, set_mask, and_iff_right hbyte]
  · rw [if_neg hbyte, or_iff_right (fun hc => hbyte hc.1)]

theorem hasBit_clear {b : UInt8} (h : ¬ (n ≤ bitByte b)) :
    (vec.modify (bitByte a) (· &&& ~~~(bitMask a))).bytes.getD (bitByte b) 0 &&& bitMask b ≠ 0 ↔
      ¬ (a = b) ∧ vec.bytes.getD (bitByte b) 0 &&& bitMask b ≠ 0 := by
  rw [getD_modify vec h, bit_eq_iff a b]
  by_cases hbyte : bitByte a = bitByte b
  · rw [if_pos hbyte, clear_mask, and_iff_right hbyte]
  · rw [if_neg hbyte, and_iff_right (fun hc => hbyte hc.1)]

/-- A bit that has been set is read as set, and any other as it was. -/
theorem bitsGetb_setb : bitsGetb (bitsSetb vec a).1 b =
    if a = b ∧ ¬ (n ≤ bitByte a) then 1 else bitsGetb vec b := by
  unfold bitsSetb
  by_cases ha : n ≤ bitByte a
  · rw [if_pos ha, if_neg (fun h => h.2 ha)]
  rw [if_neg ha]
  unfold bitsGetb
  by_cases hb : n ≤ bitByte b
  · rw [if_pos hb, if_pos hb, if_neg]
    rintro ⟨rfl, -⟩
    exact ha hb
  · rw [if_neg hb, if_neg hb]
    simp only [hasBit_set vec a hb]
    by_cases hab : a = b
    · rw [if_pos (Or.inl hab), if_pos ⟨hab, ha⟩]
    · simp only [hab, false_or, false_and, if_false]

/-- A bit that has been cleared is read as clear, and any other as it was. -/
theorem bitsGetb_clrb : bitsGetb (bitsClrb vec a).1 b =
    if a = b ∧ ¬ (n ≤ bitByte a) then 0 else bitsGetb vec b := by
  unfold bitsClrb
  by_cases ha : n ≤ bitByte a
  · rw [if_pos ha, if_neg (fun h => h.2 ha)]
  rw [if_neg ha]
  unfold bitsGetb
  by_cases hb : n ≤ bitByte b
  · rw [if_pos hb, if_pos hb, if_neg]
    rintro ⟨rfl, -⟩
    exact ha hb
  · rw [if_neg hb, if_neg hb]
    simp only [hasBit_clear vec a hb]
    by_cases hab : a = b
    · rw [if_neg (fun h => h.1 hab), if_pos ⟨hab, ha⟩]
    · simp only [hab, not_false_eq_true, true_and, false_and, if_false]

/-- In the vector of zeros every bit that fits is clear. -/
theorem bitsGetb_zero : bitsGetb (Buf.zero n) b = if n ≤ bitByte b then -1 else 0 := by
  unfold bitsGetb
  by_cases hb : n ≤ bitByte b
  · rw [if_pos hb, if_pos hb]
  · have hzero : (Buf.zero n).bytes.getD (bitByte b) 0 = 0 := by
      rw [Buf.zero, List.getD_eq_getElem?_getD, List.getElem?_replicate]
      split_ifs <;> rfl
    rw [if_neg hb, if_neg hb, hzero, if_neg]
    rw [UInt8.zero_and]
    exact fun h => h rfl

end Reading

section Filters

theorem fits_iff (b : UInt8) : (coapMaxOpt >>> 3) + 1 ≤ bitByte b ↔ 64 ≤ b.toNat := by
  rw [bitByte_eq, show (coapMaxOpt >>> 3) + 1 = 8 from rfl]
  omega

/-- In a cleared filter every number that fits is clear. -/
theorem cleared_getb (f : CoapOptFilter) (b : UInt8) :
    bitsGetb (coapOptionFilterClear f) b = if 64 ≤ b.toNat then -1 else 0 := by
  refine (bitsGetb_zero b).trans ?_
  simp only [fits_iff]

/-- Setting the bit of a number that fits. -/
theorem setb_getb (f : CoapOptFilter) {a : UInt8} (h : a.toNat < 64) (b : UInt8) :
    bitsGetb (bitsSetb f a).1 b = if a = b then 1 else bitsGetb f b := by
  have hfits : ¬ ((coapMaxOpt >>> 3) + 1 ≤ bitByte a) :=
    fun hc => absurd ((fits_iff a).mp hc) (Nat.not_le_of_lt h)
  rw [bitsGetb_setb]
  simp only [hfits, not_false_eq_true, and_true]

/-- The low byte of a number, as a filter sees it. -/
theorem lowByte_toNat (k : Nat) : (UInt16.ofNat k).toUInt8.toNat = k % 256 := by
  rw [UInt16.toNat_toUInt8, UInt16.toNat_ofNat']
  omega

theorem lowByte_eq_iff (a k : Nat) :
    (UInt16.ofNat a).toUInt8 = (UInt16.ofNat k).toUInt8 ↔ a % 256 = k % 256 := by
  rw [← UInt8.toNat_inj, lowByte_toNat, lowByte_toNat]

/-- The filter of `coap_check_option` has the bit of the numbers with the same
    low byte, and none for a low byte that does not fit. -/
theorem typeFilter_getb {type : Nat} (h : type < 64) (k : Nat) :
    coapOptionGetb (typeFilter type) (UInt16.ofNat k) =
      if k % 256 = type then 1 else if 64 ≤ k % 256 then -1 else 0 := by
  have hlow : type % 256 = type := Nat.mod_eq_of_lt (by omega)
  have hfits : (UInt16.ofNat type).toUInt8.toNat < 64 := by
    rw [lowByte_toNat, hlow]
    exact h
  refine (setb_getb _ hfits _).trans ?_
  rw [cleared_getb, lowByte_toNat]
  simp only [lowByte_eq_iff, hlow, eq_comm]

/-- The filter of `get_block`, likewise for its two numbers. -/
theorem blockFilter_getb (f : CoapOptFilter) (k : Nat) :
    coapOptionGetb (blockFilter f) (UInt16.ofNat k) =
      if k % 256 = coapOptionBlock1 ∨ k % 256 = coapOptionBlock2 then 1
      else if 64 ≤ k % 256 then -1 else 0 := by
  refine (setb_getb _ (by decide) _).trans ?_
  rw [coapOptionSetb, setb_getb _ (by decide), cleared_getb, lowByte_toNat]
  simp only [lowByte_eq_iff, coapOptionBlock1, coapOptionBlock2, Nat.reduceMod]
  by_cases h1 : k % 256 = 27
  · simp only [h1, Nat.reduceEqDiff, if_false, if_true, true_or]
  · by_cases h2 : k % 256 = 23
    · simp only [h2, if_true, or_true]
    · simp only [h1, h2, Ne.symm h1, Ne.symm h2, or_self, if_false]

end Filters

end CoapThread
