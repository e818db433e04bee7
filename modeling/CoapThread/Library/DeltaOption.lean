import Mathlib.Data.List.Basic

/-!
# Delta-Coded Options

A sequence of numbered options written one behind the other, each giving its
number as a difference to the one before.

The header of an option is a byte of two nibbles, the difference and the
length of the value. A nibble below 13 is the number itself, 13 and 14 announce
one and two further bytes, and 15 is no number: a byte with that nibble in
front, the payload marker among them, ends the sequence.

Reading does not copy. `find` returns a `View`, the length of the value and
the bytes from the value on, because a reader that trusts its own idea of the
length over the option's will read what stands behind the value, and the view
is what it reads.

## Main definitions

* `Opt`: A numbered option.
* `header`: The header of an option.
* `encode`: The bytes of a sequence of options.
* `readHeader`: Reading a header.
* `View`: An option found in place.
* `find`: The first option whose number passes a test.
* `views`: All options that can be read, in place.
* `payload`: The bytes behind the marker.
* `decode`: All options and the bytes behind the marker.

## Theorems

* `readHeader_header`: A header reads back.
* `find_eq_find?`: Finding is searching the options that can be read.
* `find_test`: What is found passes the test.
* `find_encode_cons`: Finding decides on the first option or goes on behind it.
* `find_encode`: Finding agrees with searching the sequence.
* `payload_encode`: The payload behind a sequence of options reads back.
* `decode_encode`: So does the whole sequence.
-/

namespace DeltaOption

/-- A numbered option. -/
structure Opt where
  key : Nat
  value : List UInt8
  deriving DecidableEq

/-- The largest number the two extension bytes can carry, exclusive. -/
def limit : Nat := 269 + 65536

/-- The nibble a number is announced by. -/
def nibble (n : Nat) : Nat := if n < 13 then n else if n < 269 then 13 else 14

/-- The extension bytes of a number. -/
def extension (n : Nat) : List UInt8 :=
  if n < 13 then []
  else if n < 269 then [UInt8.ofNat (n - 13)]
  else [UInt8.ofNat ((n - 269) / 256), UInt8.ofNat ((n - 269) % 256)]

/-- The header of an option: the nibbles, then both extensions. -/
def header (delta len : Nat) : List UInt8 :=
  UInt8.ofNat (nibble delta * 16 + nibble len) :: (extension delta ++ extension len)

/-- The bytes of a sequence of options behind one of number `prev`. -/
def encode : Nat → List Opt → List UInt8
  | _, [] => []
  | prev, o :: os => header (o.key - prev) o.value.length ++ (o.value ++ encode o.key os)

/-- Read a number from its nibble and the bytes behind it. -/
def readNumber (nib : Nat) (b : List UInt8) : Option (Nat × List UInt8) :=
  if nib < 13 then some (nib, b)
  else if nib = 13 then
    match b with
    | x :: b => some (x.toNat + 13, b)
    | [] => none
  else if nib = 14 then
    match b with
    | x :: y :: b => some (x.toNat * 256 + y.toNat + 269, b)
    | _ => none
  else none

/-- Read a header: the difference, the length, and the bytes behind it. -/
def readHeader : List UInt8 → Option (Nat × Nat × List UInt8)
  | [] => none
  | x :: b => match readNumber (x.toNat / 16) b with
    | none => none
    | some (delta, b) => match readNumber (x.toNat % 16) b with
      | none => none
      | some (len, b) => some (delta, len, b)

theorem nibble_lt (n : Nat) : nibble n < 15 := by
  unfold nibble
  by_cases h1 : n < 13
  · rw [if_pos h1]
    omega
  · rw [if_neg h1]
    by_cases h2 : n < 269
    · rw [if_pos h2]
      omega
    · rw [if_neg h2]
      omega

/-- A number reads back from its nibble and its extension. -/
theorem readNumber_extension (n : Nat) (rest : List UInt8) (h : n < limit) :
    readNumber (nibble n) (extension n ++ rest) = some (n, rest) := by
  unfold limit at h
  -- A number takes no byte, one byte or two behind its nibble.
  by_cases h1 : n < 13
  · simp only [readNumber, nibble, extension, h1, if_true, List.nil_append]
  · by_cases h2 : n < 269
    · have hbyte : (UInt8.ofNat (n - 13)).toNat = n - 13 := by
        rw [UInt8.toNat_ofNat']
        omega
      simp only [readNumber, nibble, extension, h1, h2, if_true, if_false, Nat.lt_irrefl,
        List.cons_append, List.nil_append, hbyte]
      have hn : n - 13 + 13 = n := by omega
      rw [hn]
    · have hhi : (UInt8.ofNat ((n - 269) / 256)).toNat = (n - 269) / 256 := by
        rw [UInt8.toNat_ofNat']
        omega
      have hlo : (UInt8.ofNat ((n - 269) % 256)).toNat = (n - 269) % 256 := by
        rw [UInt8.toNat_ofNat']
        omega
      have hn14 : ¬ (14 < 13) := by omega
      have hn1413 : ¬ (14 = 13) := by omega
      simp only [readNumber, nibble, extension, h1, h2, if_true, if_false, hn14, hn1413,
        List.cons_append, List.nil_append, hhi, hlo]
      have hn : (n - 269) / 256 * 256 + (n - 269) % 256 + 269 = n := by omega
      rw [hn]

/-- A header reads back. -/
theorem readHeader_header (delta len : Nat) (rest : List UInt8)
    (hdelta : delta < limit) (hlen : len < limit) :
    readHeader (header delta len ++ rest) = some (delta, len, rest) := by
  have hd := nibble_lt delta
  have hl := nibble_lt len
  have hbyte : (UInt8.ofNat (nibble delta * 16 + nibble len)).toNat
      = nibble delta * 16 + nibble len := by
    rw [UInt8.toNat_ofNat']
    omega
  -- The two nibbles come apart again, each being less than 16.
  have hdiv : (nibble delta * 16 + nibble len) / 16 = nibble delta := by omega
  have hmod : (nibble delta * 16 + nibble len) % 16 = nibble len := by omega
  simp only [header, List.cons_append, readHeader, hbyte, hdiv, hmod, List.append_assoc]
  rw [readNumber_extension delta _ hdelta]
  simp only []
  rw [readNumber_extension len _ hlen]

/-- The payload marker is no header. -/
theorem readHeader_marker (b : List UInt8) : readHeader (255 :: b) = none := rfl

/-- An option found in place: its number, the length of its value, and the
    bytes from the value on. -/
structure View where
  key : Nat
  length : Nat
  bytes : List UInt8
  deriving DecidableEq

/-- The value of an option found in place. -/
def View.value (v : View) : List UInt8 := v.bytes.take v.length

/-- The first option whose number passes a test, reading at most so many. -/
def find (test : Nat → Bool) : Nat → Nat → List UInt8 → Option View
  | 0, _, _ => none
  | n + 1, prev, b => match readHeader b with
    | none => none
    | some (delta, len, v) =>
      if v.length < len then none
      else if test (prev + delta) then some ⟨prev + delta, len, v⟩
      else find test n (prev + delta) (v.drop len)

/-- The options up to the first one that cannot be read, reading at most so
    many. -/
def views : Nat → Nat → List UInt8 → List View
  | 0, _, _ => []
  | n + 1, prev, b => match readHeader b with
    | none => []
    | some (delta, len, v) =>
      if v.length < len then []
      else ⟨prev + delta, len, v⟩ :: views n (prev + delta) (v.drop len)

/-- The bytes behind the payload marker, reading past at most so many options.
    A marker with nothing behind it carries no payload. -/
def payload : Nat → List UInt8 → Option (List UInt8)
  | 0, _ => none
  | n + 1, b => match b with
    | [] => none
    | 255 :: d => if d = [] then none else some d
    | b => match readHeader b with
      | none => none
      | some (_, len, v) => if v.length < len then none else payload n (v.drop len)

/-- All options, reading at most so many, and the bytes behind the marker where
    there is one. -/
def decode : Nat → Nat → List UInt8 → Option (List Opt × Option (List UInt8))
  | 0, _, _ => none
  | n + 1, prev, b => match b with
    | [] => some ([], none)
    | 255 :: d => some ([], some d)
    | b => match readHeader b with
      | none => none
      | some (delta, len, v) =>
        if v.length < len then none
        else (decode n (prev + delta) (v.drop len)).map
          (fun x => (⟨prev + delta, v.take len⟩ :: x.1, x.2))

/-- A sequence of options a header can describe: numbers ascending from
    `prev`, no difference and no value too long. -/
def Encodable : Nat → List Opt → Prop
  | _, [] => True
  | prev, o :: os => prev ≤ o.key ∧ o.key - prev < limit ∧ o.value.length < limit ∧
      Encodable o.key os

/-- Reading the first option of a sequence. -/
theorem readHeader_encode_cons (prev : Nat) (o : Opt) (os : List Opt) (tail : List UInt8)
    (h : Encodable prev (o :: os)) :
    readHeader (encode prev (o :: os) ++ tail)
      = some (o.key - prev, o.value.length, o.value ++ (encode o.key os ++ tail)) := by
  simp only [encode, List.append_assoc]
  exact readHeader_header _ _ _ h.2.1 h.2.2.1

/-- In front of an option stands neither the end of the bytes nor the marker. -/
theorem encode_cons_front {prev : Nat} {o : Opt} {os : List Opt} (tail : List UInt8)
    (h : Encodable prev (o :: os)) : encode prev (o :: os) ++ tail ≠ [] ∧
      ∀ d, encode prev (o :: os) ++ tail ≠ 255 :: d := by
  have hread := readHeader_encode_cons prev o os tail h
  constructor
  · intro hc
    rw [hc] at hread
    exact absurd hread (by simp only [readHeader, reduceCtorEq, not_false_eq_true])
  · intro d hc
    rw [hc, readHeader_marker] at hread
    exact absurd hread (by simp only [reduceCtorEq, not_false_eq_true])

/-- Finding decides on the first option or goes on behind it. -/
theorem find_encode_cons (test : Nat → Bool) (n prev : Nat) (o : Opt) (os : List Opt)
    (tail : List UInt8) (h : Encodable prev (o :: os)) :
    find test (n + 1) prev (encode prev (o :: os) ++ tail) =
      if test o.key then some ⟨o.key, o.value.length, o.value ++ (encode o.key os ++ tail)⟩
      else find test n o.key (encode o.key os ++ tail) := by
  have hkey : prev + (o.key - prev) = o.key := by
    have := h.1
    omega
  -- The value is all there, so its length does not end the search.
  have hlen : ¬ ((o.value ++ (encode o.key os ++ tail)).length < o.value.length) := by
    simp only [List.length_append]
    omega
  rw [find, readHeader_encode_cons prev o os tail h]
  simp only [hkey]
  rw [if_neg hlen]
  by_cases ht : test o.key = true
  · rw [if_pos ht, if_pos ht]
  · rw [if_neg ht, if_neg ht, List.drop_left]

/-- What may stand behind the options: nothing, or the marker. -/
def Ends (tail : List UInt8) : Prop := tail = [] ∨ ∃ d, tail = 255 :: d

theorem readHeader_ends (tail : List UInt8) (h : Ends tail) : readHeader tail = none := by
  rcases h with rfl | ⟨d, rfl⟩
  · rfl
  · exact readHeader_marker d

/-- What is found passes the test. -/
theorem find_test (test : Nat → Bool) (n prev : Nat) (b : List UInt8) (v : View)
    (h : find test n prev b = some v) : test v.key = true := by
  induction n generalizing prev b with
  | zero => cases h
  | succ n ih =>
      unfold find at h
      rcases hread : readHeader b with _ | ⟨delta, len, rest⟩
      · rw [hread] at h
        cases h
      · rw [hread] at h
        simp only [] at h
        split_ifs at h with hlen htest
        · rw [← Option.some.inj h]
          exact htest
        · exact ih (prev + delta) (rest.drop len) h

/-- What is found has a number from the first one on. -/
theorem find_key_le {test : Nat → Bool} {n prev : Nat} {b : List UInt8} {v : View}
    (h : find test n prev b = some v) : prev ≤ v.key := by
  induction n generalizing prev b with
  | zero => cases h
  | succ n ih =>
      unfold find at h
      rcases hread : readHeader b with _ | ⟨delta, len, rest⟩
      · rw [hread] at h
        cases h
      · rw [hread] at h
        simp only [] at h
        split_ifs at h with hlen htest
        · rw [← Option.some.inj h]
          exact Nat.le_add_right _ _
        · exact Nat.le_trans (Nat.le_add_right _ _) (ih h)

/-- What is found is found by every test that passes it and agrees on the
    numbers up to it. -/
theorem find_congr {test test' : Nat → Bool} {n prev : Nat} {b : List UInt8} {v : View}
    (h : find test n prev b = some v) (hagree : ∀ k ≤ v.key, test' k = test k) :
    find test' n prev b = some v := by
  induction n generalizing prev b with
  | zero => cases h
  | succ n ih =>
      unfold find at h ⊢
      rcases hread : readHeader b with _ | ⟨delta, len, rest⟩
      · rw [hread] at h
        cases h
      rw [hread] at h
      simp only [] at h ⊢
      by_cases hlen : rest.length < len
      · rw [if_pos hlen] at h
        cases h
      rw [if_neg hlen] at h ⊢
      by_cases htest : test (prev + delta) = true
      · rw [if_pos htest] at h
        have hkey : prev + delta ≤ v.key := Nat.le_of_eq (congrArg View.key (Option.some.inj h))
        rw [if_pos ((hagree _ hkey).trans htest)]
        exact h
      · rw [if_neg htest] at h
        rw [hagree _ (find_key_le h), if_neg htest]
        exact ih h

/-- Finding agrees with searching the sequence. -/
theorem find_encode (test : Nat → Bool) (n prev : Nat) (os : List Opt) (tail : List UInt8)
    (hn : os.length < n) (h : Encodable prev os) (htail : Ends tail) :
    (find test n prev (encode prev os ++ tail)).map (fun v => (v.key, v.value)) =
      (os.find? (fun o => test o.key)).map (fun o => (o.key, o.value)) := by
  -- Induction on the options, the delta counted from the key of the one
  -- before.
  induction os generalizing n prev with
  | nil =>
      cases n with
      | zero => exact absurd hn (Nat.not_lt_zero _)
      | succ n =>
          simp only [encode, List.nil_append, find, readHeader_ends tail htail, List.find?_nil,
            Option.map_none]
  | cons o os ih =>
      cases n with
      | zero => exact absurd hn (Nat.not_lt_zero _)
      | succ n =>
          rw [find_encode_cons test n prev o os tail h]
          by_cases ht : test o.key = true
          · simp only [ht, if_true, List.find?_cons, Option.map_some, View.value, List.take_left]
          · rw [Bool.not_eq_true] at ht
            simp only [ht, Bool.false_eq_true, if_false, List.find?_cons]
            exact ih n o.key (by simp only [List.length_cons] at hn; omega) h.2.2.2

/-- The payload behind a sequence of options reads back. -/
theorem payload_encode (n prev : Nat) (os : List Opt) (tail : List UInt8) (hn : os.length < n)
    (h : Encodable prev os) (htail : Ends tail) :
    (payload n (encode prev os ++ tail)).getD [] = tail.drop 1 := by
  induction os generalizing n prev with
  | nil =>
      cases n with
      | zero => exact absurd hn (Nat.not_lt_zero _)
      | succ n =>
          rcases htail with rfl | ⟨d, rfl⟩
          · rfl
          · simp only [encode, List.nil_append, payload, List.drop_succ_cons, List.drop_zero]
            split_ifs with hd
            · exact hd.symm
            · rfl
  | cons o os ih =>
      cases n with
      | zero => exact absurd hn (Nat.not_lt_zero _)
      | succ n =>
          have hread := readHeader_encode_cons prev o os tail h
          have hlen : ¬ ((o.value ++ (encode o.key os ++ tail)).length < o.value.length) := by
            simp only [List.length_append]
            omega
          have hrest := ih n o.key (by simp only [List.length_cons] at hn; omega) h.2.2.2
          rcases encode_cons_front tail h with ⟨hend, hmarker⟩
          rw [payload]
          · rw [hread]
            simp only []
            rw [if_neg hlen, List.drop_left]
            exact hrest
          · exact hend
          · exact hmarker

/-- What stands behind the options, without the marker. -/
def behind : List UInt8 → Option (List UInt8)
  | [] => none
  | _ :: d => some d

/-- A sequence of options reads back, and so does what stands behind it. -/
theorem decode_encode (n prev : Nat) (os : List Opt) (tail : List UInt8) (hn : os.length < n)
    (h : Encodable prev os) (htail : Ends tail) :
    decode n prev (encode prev os ++ tail) = some (os, behind tail) := by
  induction os generalizing n prev with
  | nil =>
      cases n with
      | zero => exact absurd hn (Nat.not_lt_zero _)
      | succ n => rcases htail with rfl | ⟨d, rfl⟩ <;> rfl
  | cons o os ih =>
      cases n with
      | zero => exact absurd hn (Nat.not_lt_zero _)
      | succ n =>
          have hread := readHeader_encode_cons prev o os tail h
          have hkey : prev + (o.key - prev) = o.key := by
            have := h.1
            omega
          have hlen : ¬ ((o.value ++ (encode o.key os ++ tail)).length < o.value.length) := by
            simp only [List.length_append]
            omega
          have hrest := ih n o.key (by simp only [List.length_cons] at hn; omega) h.2.2.2
          rcases encode_cons_front tail h with ⟨hend, hmarker⟩
          rw [decode]
          · rw [hread]
            simp only []
            rw [if_neg hlen, List.drop_left, List.take_left, hkey, hrest]
            rfl
          · exact hend
          · exact hmarker

end DeltaOption
