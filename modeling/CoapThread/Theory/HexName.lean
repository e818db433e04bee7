import CoapThread.Core.Helpers

/-!
# Names in Hexadecimal

What `HexArrayToString` writes.

Two cursors run through memory, one over the bytes and one, twice as fast,
over the digits. As long as the two regions have no address in common, the
digits written for one byte leave the bytes behind it as they were, and that is
all the induction needs: `hexLoop_spec` says what a number of turns has written
and what it has not.

## Main definitions

* `bytesAt`: The bytes at an address.
* `Apart`: The digits and their NUL fall outside the array.
* `stringAt`: The string written.
* `WritesHex`: What is asked of a call.

## Theorems

* `hexLoop_spec`: What a number of turns does.
* `hexArrayToStringAt_bytes`: The string is the digits.
* `hexArrayToStringAt_refines`: The loop computes `hexArrayToString`.
* `hexArrayToString_writes`: A call writes the array's digits, and no two arrays
  have the same.
-/

namespace CoapThread

open CBytes

/-- The bytes at an address. -/
def bytesAt (mem : Nat → UInt8) : Nat → Nat → List UInt8
  | _, 0 => []
  | a, n + 1 => mem a :: bytesAt mem (a + 1) n

theorem bytesAt_length (mem : Nat → UInt8) (a n : Nat) : (bytesAt mem a n).length = n := by
  induction n generalizing a with
  | zero => rfl
  | succ n ih => exact congrArg Nat.succ (ih (a + 1))

theorem bytesAt_add (mem : Nat → UInt8) (a m n : Nat) :
    bytesAt mem a (m + n) = bytesAt mem a m ++ bytesAt mem (a + m) n := by
  induction m generalizing a with
  | zero =>
      rw [Nat.zero_add]
      rfl
  | succ m ih =>
      rw [Nat.succ_add, bytesAt, bytesAt, ih (a + 1), List.cons_append, Nat.add_right_comm a 1 m]
      rfl

/-- Memory that agrees on a region holds the same bytes there. -/
theorem bytesAt_congr {mem mem' : Nat → UInt8} {a n : Nat}
    (h : ∀ k < n, mem' (a + k) = mem (a + k)) : bytesAt mem' a n = bytesAt mem a n := by
  induction n generalizing a with
  | zero => rfl
  | succ n ih =>
      have hfirst := h 0 (by omega)
      have hrest := ih (fun k hk => by
        rw [Nat.add_assoc, Nat.add_comm 1 k]
        exact h (k + 1) (by omega))
      rw [Nat.add_zero] at hfirst
      rw [bytesAt, bytesAt, hfirst, hrest]

/-- The digits and their NUL fall outside the array. -/
def Apart (hexarray length string : Nat) : Prop :=
  ∀ k < length, ∀ j < 2 * length + 1, hexarray + k ≠ string + j

/-- The string a call for so many bytes leaves at an address. -/
def stringAt (c : Cursor) (string length : Nat) : List UInt8 :=
  cstr (bytesAt c.mem string (2 * length + 1))

/-- A call has written the digits of an array, a NUL behind them, and nothing
    else. -/
structure WritesHex (array : List UInt8) (mem : Nat → UInt8) (string : Nat) (c : Cursor) :
    Prop where
  stored : c.stored = List.range' string (2 * array.length + 1)
  kept : ∀ x, x ∉ c.stored → c.mem x = mem x
  length : (stringAt c string array.length).length = 2 * array.length
  nul : bytesAt c.mem string (2 * array.length + 1) = stringAt c string array.length ++ [0]
  digit : ∀ ch ∈ stringAt c string array.length, ch ∈ Hex.digits ∧ ch ≠ 0
  decoded : Hex.decode (stringAt c string array.length) = some array

theorem numCharTable_eq : numCharTable = Hex.digits := by decide

theorem shiftRight_four_toNat (b : UInt8) : (b >>> 4).toNat = b.toNat / 16 := by
  rw [UInt8.toNat_shiftRight, show (4 : UInt8).toNat % 8 = 4 from rfl, Nat.shiftRight_eq_div_pow]

theorem highDigit_eq (b : UInt8) :
    numCharTable.getD ((b >>> 4) &&& 0x0f).toNat 0 = Hex.digit (b.toNat / 16) := by
  have hb : b.toNat < 256 := b.toNat_lt
  have hhigh : ((b >>> 4) &&& 0x0f).toNat = b.toNat / 16 := by
    rw [UInt8.toNat_and, shiftRight_four_toNat, show (0x0f : UInt8).toNat = 2 ^ 4 - 1 from rfl,
      Nat.and_two_pow_sub_one_eq_mod]
    omega
  rw [hhigh, numCharTable_eq]
  rfl

theorem lowDigit_eq (b : UInt8) :
    numCharTable.getD (b &&& 0x0f).toNat 0 = Hex.digit (b.toNat % 16) := by
  have hlow : (b &&& 0x0f).toNat = b.toNat % 16 := by
    rw [UInt8.toNat_and, show (0x0f : UInt8).toNat = 2 ^ 4 - 1 from rfl,
      Nat.and_two_pow_sub_one_eq_mod]
  rw [hlow, numCharTable_eq]
  rfl

section Turn

variable (c : Cursor) (byte : Nat)

/-- One turn stores to two addresses and moves on by two. -/
theorem putDigits_stored : (c.putDigits byte).string = c.string + 2 ∧
    (c.putDigits byte).stored = c.stored ++ List.range' c.string 2 := by
  refine ⟨rfl, ?_⟩
  simp only [Cursor.putDigits, Cursor.put, List.append_assoc]
  rfl

theorem putDigits_kept (x : Nat) (h : x ≠ c.string) (h' : x ≠ c.string + 1) :
    (c.putDigits byte).mem x = c.mem x := by
  simp only [Cursor.putDigits, Cursor.put]
  rw [Function.update_of_ne h', Function.update_of_ne h]

/-- The two digits are those of the byte, which the first one must not have
    been stored over. -/
theorem putDigits_mem (h : byte ≠ c.string) :
    (c.putDigits byte).mem c.string = Hex.digit ((c.mem byte).toNat / 16) ∧
      (c.putDigits byte).mem (c.string + 1) = Hex.digit ((c.mem byte).toNat % 16) := by
  have hne : c.string ≠ c.string + 1 := by omega
  simp only [Cursor.putDigits, Cursor.put]
  rw [Function.update_of_ne hne, Function.update_self, Function.update_self,
    Function.update_of_ne h, highDigit_eq, lowDigit_eq]
  exact ⟨rfl, rfl⟩

end Turn

/-- What a number of turns does: the digits of the bytes are stored, each
    address once and in order, and no other address is touched. -/
theorem hexLoop_spec (n byte : Nat) (c : Cursor)
    (h : ∀ k < n, ∀ j < 2 * n, byte + k ≠ c.string + j) :
    (hexLoop n byte c).string = c.string + 2 * n ∧
      (hexLoop n byte c).stored = c.stored ++ List.range' c.string (2 * n) ∧
      bytesAt (hexLoop n byte c).mem c.string (2 * n) = Hex.encode (bytesAt c.mem byte n) ∧
      ∀ x, x < c.string ∨ c.string + 2 * n ≤ x → (hexLoop n byte c).mem x = c.mem x := by
  induction n generalizing byte c with
  | zero => exact ⟨rfl, (List.append_nil _).symm, rfl, fun _ _ => rfl⟩
  | succ n ih =>
      have hne : byte ≠ c.string := h 0 (by omega) 0 (by omega)
      rcases putDigits_stored c byte with ⟨hstring, hstored⟩
      rcases putDigits_mem c byte hne with ⟨hhigh, hlow⟩
      -- The bytes still to come are none of the two stored to.
      have hbytes : bytesAt (c.putDigits byte).mem (byte + 1) n = bytesAt c.mem (byte + 1) n := by
        refine bytesAt_congr (fun k hk => putDigits_kept c byte _ ?_ ?_)
        · have := h (k + 1) (by omega) 0 (by omega)
          omega
        · have := h (k + 1) (by omega) 1 (by omega)
          omega
      have hrest : ∀ k < n, ∀ j < 2 * n, byte + 1 + k ≠ (c.putDigits byte).string + j := by
        intro k hk j hj
        have := h (k + 1) (by omega) (j + 2) (by omega)
        rw [hstring]
        omega
      rcases ih (byte + 1) (c.putDigits byte) hrest with ⟨hstring', hstored', hdigits, hkept⟩
      rw [hstring] at hstring' hstored' hdigits hkept
      have htwo : 2 * (n + 1) = 2 + 2 * n := by omega
      rw [htwo, hexLoop]
      refine ⟨by omega, ?_, ?_, ?_⟩
      · rw [hstored', hstored, List.append_assoc, ← List.range'_append_1]
      · -- Nor does the rest of the loop touch the two digits.
        have hfirst := hkept c.string (Or.inl (by omega))
        have hsecond := hkept (c.string + 1) (Or.inl (by omega))
        rw [bytesAt_add, hdigits, hbytes]
        simp only [bytesAt, hfirst, hsecond, hhigh, hlow, Hex.encode_cons, List.cons_append,
          List.nil_append]
      · intro x hx
        rw [hkept x (by omega)]
        exact putDigits_kept c byte x (by omega) (by omega)

section Call

variable (mem : Nat → UInt8) {hexarray length string : Nat}

theorem hexArrayToStringAt_stored (h : Apart hexarray length string) :
    (hexArrayToStringAt mem hexarray length string).stored = List.range' string (2 * length + 1) ∧
      ∀ x, x < string ∨ string + 2 * length < x →
        (hexArrayToStringAt mem hexarray length string).mem x = mem x := by
  rcases hexLoop_spec length hexarray ⟨mem, string, []⟩
    (fun k hk j hj => h k hk j (by omega)) with ⟨hstring, hstored, -, hkept⟩
  simp only [hexArrayToStringAt, Cursor.put, hstring, hstored, List.nil_append]
  refine ⟨?_, fun x hx => ?_⟩
  · rw [← List.range'_append_1]
    rfl
  · rw [Function.update_of_ne (by omega)]
    exact hkept x (by simp only []; omega)

/-- The digits of the array, and a NUL. -/
theorem hexArrayToStringAt_bytes (h : Apart hexarray length string) :
    bytesAt (hexArrayToStringAt mem hexarray length string).mem string (2 * length + 1) =
      Hex.encode (bytesAt mem hexarray length) ++ [0] := by
  rcases hexLoop_spec length hexarray ⟨mem, string, []⟩
    (fun k hk j hj => h k hk j (by omega)) with ⟨hstring, -, hdigits, -⟩
  -- The NUL is stored behind the digits and leaves them alone.
  have hsame : bytesAt (hexArrayToStringAt mem hexarray length string).mem string (2 * length) =
      bytesAt (hexLoop length hexarray ⟨mem, string, []⟩).mem string (2 * length) := by
    refine bytesAt_congr (fun k hk => ?_)
    simp only [hexArrayToStringAt, Cursor.put, hstring]
    exact Function.update_of_ne (by omega) _ _
  rw [bytesAt_add, hsame, hdigits]
  simp only [bytesAt, hexArrayToStringAt, Cursor.put, hstring, Function.update_self]

theorem zero_not_mem_encode (bytes : List UInt8) : (0 : UInt8) ∉ Hex.encode bytes :=
  fun hmem => Hex.zero_not_mem_digits (Hex.encode_mem bytes 0 hmem)

theorem stringAt_eq (h : Apart hexarray length string) :
    stringAt (hexArrayToStringAt mem hexarray length string) string length =
      Hex.encode (bytesAt mem hexarray length) := by
  unfold stringAt
  rw [hexArrayToStringAt_bytes mem h]
  exact cstr_append_zero _ [] (zero_not_mem_encode _)

theorem hexArrayToString_eq (bytes : List UInt8) (length : Nat) (buffer : List UInt8) :
    hexArrayToString bytes length buffer =
      overwrite buffer 0 (Hex.encode (bytes.take length) ++ [0]) := by
  have hdigits : ∀ b : UInt8, [numCharTable.getD (b >>> 4).toNat 0,
      numCharTable.getD (b &&& 0x0f).toNat 0] =
        [Hex.digit (b.toNat / 16), Hex.digit (b.toNat % 16)] := by
    intro b
    rw [lowDigit_eq, shiftRight_four_toNat, numCharTable_eq]
    rfl
  simp only [hexArrayToString, Hex.encode, hdigits]

/-- What the loop leaves in a buffer that has room is what `hexArrayToString`
    says of it. -/
theorem hexArrayToStringAt_refines (h : Apart hexarray length string) {size : Nat}
    (hsize : 2 * length + 1 ≤ size) :
    bytesAt (hexArrayToStringAt mem hexarray length string).mem string size =
      hexArrayToString (bytesAt mem hexarray length) length (bytesAt mem string size) := by
  have hlen : (Hex.encode (bytesAt mem hexarray length) ++ [0]).length = 2 * length + 1 := by
    rw [List.length_append, Hex.encode_length, bytesAt_length]
    rfl
  have htake : (bytesAt mem hexarray length).take length = bytesAt mem hexarray length :=
    List.take_of_length_le (Nat.le_of_eq (bytesAt_length mem hexarray length))
  -- A buffer is the part written and a rest.
  rcases Nat.exists_eq_add_of_le hsize with ⟨rest, rfl⟩
  rw [hexArrayToString_eq, htake, overwrite_zero _ _ (by rw [hlen, bytesAt_length]; omega), hlen,
    bytesAt_add, bytesAt_add mem, hexArrayToStringAt_bytes mem h]
  congr 1
  rw [List.drop_left' (bytesAt_length mem string _)]
  exact bytesAt_congr (fun k _ => (hexArrayToStringAt_stored mem h).2 _ (Or.inr (by omega)))

end Call

/-- A call for any bytes at any addresses apart from them writes their digits
    and a NUL and nothing else, the digits decode to the bytes, and two calls
    for different bytes leave different strings. -/
theorem hexArrayToString_writes (mem mem' : Nat → UInt8) {hexarray length string hexarray' length'
    string' : Nat} (h : Apart hexarray length string) (h' : Apart hexarray' length' string') :
    WritesHex (bytesAt mem hexarray length) mem string
        (hexArrayToStringAt mem hexarray length string) ∧
      (bytesAt mem hexarray length ≠ bytesAt mem' hexarray' length' →
        stringAt (hexArrayToStringAt mem hexarray length string) string length ≠
          stringAt (hexArrayToStringAt mem' hexarray' length' string') string' length') := by
  constructor
  · constructor
    · rw [bytesAt_length]
      exact (hexArrayToStringAt_stored mem h).1
    · intro x hx
      rcases hexArrayToStringAt_stored mem h with ⟨hstored, hkept⟩
      rw [hstored, List.mem_range'_1] at hx
      exact hkept x (by omega)
    · rw [bytesAt_length, stringAt_eq mem h, Hex.encode_length, bytesAt_length]
    · rw [bytesAt_length, stringAt_eq mem h, hexArrayToStringAt_bytes mem h]
    · rw [bytesAt_length, stringAt_eq mem h]
      exact fun ch hch => ⟨Hex.encode_mem _ ch hch, fun hc => zero_not_mem_encode _ (hc ▸ hch)⟩
    · rw [bytesAt_length, stringAt_eq mem h]
      exact Hex.decode_encode _
  · intro hne heq
    rw [stringAt_eq mem h, stringAt_eq mem' h'] at heq
    exact hne (Hex.encode_injective heq)

/-- Two bytes at address 0, written from address 2 on, beside two others. -/
theorem hexArrayToString_twoBytes :
    WritesHex [0xa0, 0xa1] (fun a => UInt8.ofNat (0xa0 + a)) 2
        (hexArrayToStringAt (fun a => UInt8.ofNat (0xa0 + a)) 0 2 2) ∧
      stringAt (hexArrayToStringAt (fun a => UInt8.ofNat (0xa0 + a)) 0 2 2) 2 2 ≠
        stringAt (hexArrayToStringAt (fun a => UInt8.ofNat (0xb0 + a)) 0 2 2) 2 2 := by
  have h : Apart 0 2 2 := fun k hk j hj => by omega
  rcases hexArrayToString_writes (fun a => UInt8.ofNat (0xa0 + a))
    (fun a => UInt8.ofNat (0xb0 + a)) h h with ⟨hwrites, hne⟩
  exact ⟨hwrites, hne (by decide)⟩

end CoapThread
