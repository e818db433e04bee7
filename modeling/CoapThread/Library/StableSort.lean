import Mathlib.Data.List.Basic
import Mathlib.Order.Lattice

/-!
# Stable Sorting

Lists ordered by a key, with elements of one key in the order they came.

The elements of a key are a sublist, `tied`, and to sort stably is to bring the
keys into order and to leave each of these sublists as it is. There is only one
list that does both, which is why it does not matter how it is reached:
inserting each element behind those of its key gives the same list as
`List.mergeSort`, and so does any other order of insertion that has each key's
elements in the same order.

## Main definitions

* `tied`: The elements of a key.
* `IsStableSort`: A list is another one, stably sorted.
* `insertBehind`: Insertion behind the elements of the same key.
* `sort`: The stable sort.

## Theorems

* `eq_of_tied`: A sorted list is determined by the elements of each key.
* `isStableSort_sort`: Merge sort sorts stably.
* `isStableSort_foldl`: So does insertion.
* `foldl_insertBehind`: They give the same list.
* `sort_congr`: The order of elements of different keys does not matter.
-/

namespace StableSort

variable {α κ : Type} [LinearOrder κ] {key : α → κ}

/-- The elements of a key, in their order. -/
def tied (key : α → κ) (k : κ) (l : List α) : List α := l.filter (fun a => key a = k)

/-- The keys ascend. -/
def Sorted (key : α → κ) (l : List α) : Prop := l.Pairwise (fun a b => key a ≤ key b)

/-- A list is another one, stably sorted. -/
structure IsStableSort (key : α → κ) (l s : List α) : Prop where
  sorted : Sorted key s
  tied : ∀ k, tied key k s = tied key k l

theorem mem_tied {k : κ} {l : List α} {a : α} : a ∈ tied key k l ↔ a ∈ l ∧ key a = k := by
  unfold tied
  rw [List.mem_filter, decide_eq_true_eq]

theorem tied_cons_pos {k : κ} {a : α} (l : List α) (h : key a = k) :
    tied key k (a :: l) = a :: tied key k l := List.filter_cons_of_pos (decide_eq_true h)

theorem tied_cons_neg {k : κ} {a : α} (l : List α) (h : key a ≠ k) :
    tied key k (a :: l) = tied key k l :=
  List.filter_cons_of_neg (by rw [decide_eq_true_eq]; exact h)

theorem tied_append (k : κ) (l l' : List α) :
    tied key k (l ++ l') = tied key k l ++ tied key k l' := List.filter_append l l'

/-- The first element of a sorted list has the least key. -/
theorem Sorted.head_le {a b : α} {l : List α} (h : Sorted key (a :: l)) (hb : b ∈ a :: l) :
    key a ≤ key b := by
  rcases List.mem_cons.mp hb with rfl | htail
  · exact le_refl _
  · exact (List.pairwise_cons.mp h).1 b htail

/-- A sorted list is determined by the elements of each key. -/
theorem eq_of_tied {s s' : List α} (hs : Sorted key s) (hs' : Sorted key s')
    (h : ∀ k, tied key k s = tied key k s') : s = s' := by
  induction s generalizing s' with
  | nil =>
      cases s' with
      | nil => rfl
      | cons b s' =>
          have hb : b ∈ tied key (key b) [] := by
            rw [h (key b)]
            exact mem_tied.mpr ⟨List.mem_cons_self, rfl⟩
          cases hb
  | cons a s ih =>
      cases s' with
      | nil =>
          have ha : a ∈ tied key (key a) [] := by
            rw [← h (key a)]
            exact mem_tied.mpr ⟨List.mem_cons_self, rfl⟩
          cases ha
      | cons b s' =>
          -- Each of the two first elements occurs in the other list.
          have ha : a ∈ tied key (key a) (b :: s') := by
            rw [← h (key a)]
            exact mem_tied.mpr ⟨List.mem_cons_self, rfl⟩
          have hb : b ∈ tied key (key b) (a :: s) := by
            rw [h (key b)]
            exact mem_tied.mpr ⟨List.mem_cons_self, rfl⟩
          have hkey : key a = key b :=
            le_antisymm (hs.head_le (mem_tied.mp hb).1) (hs'.head_le (mem_tied.mp ha).1)
          -- They are the first of one key, and hence one element.
          have hfirst := h (key a)
          rw [tied_cons_pos s rfl, tied_cons_pos s' hkey.symm] at hfirst
          have hab : a = b := (List.cons.inj hfirst).1
          subst hab
          refine congrArg (a :: ·) (ih (List.Pairwise.of_cons hs) (List.Pairwise.of_cons hs')
            (fun k => ?_))
          have hk := h k
          by_cases hak : key a = k
          · rw [tied_cons_pos s hak, tied_cons_pos s' hak] at hk
            exact (List.cons.inj hk).2
          · rw [tied_cons_neg s hak, tied_cons_neg s' hak] at hk
            exact hk

theorem IsStableSort.unique {l s s' : List α} (h : IsStableSort key l s)
    (h' : IsStableSort key l s') : s = s' :=
  eq_of_tied h.sorted h'.sorted (fun k => (h.tied k).trans (h'.tied k).symm)

section MergeSort

/-- The stable sort. -/
def sort (key : α → κ) (l : List α) : List α := l.mergeSort (fun a b => key a ≤ key b)

theorem sort_perm (l : List α) : (sort key l).Perm l := List.mergeSort_perm l _

/-- Merge sort sorts stably. -/
theorem isStableSort_sort (l : List α) : IsStableSort key l (sort key l) := by
  have htrans : ∀ a b c : α, decide (key a ≤ key b) = true → decide (key b ≤ key c) = true →
      decide (key a ≤ key c) = true := by
    intro a b c hab hbc
    rw [decide_eq_true_eq] at hab hbc ⊢
    exact le_trans hab hbc
  have htotal : ∀ a b : α, (decide (key a ≤ key b) || decide (key b ≤ key a)) = true := by
    intro a b
    rw [Bool.or_eq_true, decide_eq_true_eq, decide_eq_true_eq]
    exact le_total (key a) (key b)
  constructor
  · exact (List.pairwise_mergeSort htrans htotal l).imp (fun h => of_decide_eq_true h)
  · intro k
    -- The elements of a key are a sorted sublist, and stay one.
    have hpairwise : (tied key k l).Pairwise (fun a b => decide (key a ≤ key b) = true) := by
      refine List.pairwise_of_forall_mem_list (fun a ha b hb => ?_)
      rw [decide_eq_true_eq, (mem_tied.mp ha).2, (mem_tied.mp hb).2]
    have hsub := List.sublist_mergeSort htrans htotal hpairwise List.filter_sublist
    have htied := hsub.filter (fun a => decide (key a = k))
    have hself : (tied key k l).filter (fun a => decide (key a = k)) = tied key k l :=
      List.filter_eq_self.mpr (fun a ha => decide_eq_true (mem_tied.mp ha).2)
    rw [hself] at htied
    exact (htied.eq_of_length ((sort_perm l).filter _).length_eq.symm).symm

/-- The order of elements of different keys does not matter. -/
theorem sort_congr {l l' : List α} (h : ∀ k, tied key k l = tied key k l') :
    sort key l = sort key l' :=
  eq_of_tied (isStableSort_sort l).sorted (isStableSort_sort l').sorted (fun k =>
    ((isStableSort_sort l).tied k).trans ((h k).trans ((isStableSort_sort l').tied k).symm))

end MergeSort

section Insertion

/-- Insertion behind the elements of the same key. -/
def insertBehind (key : α → κ) (x : α) : List α → List α
  | [] => [x]
  | y :: l => if key x < key y then x :: y :: l else y :: insertBehind key x l

theorem mem_insertBehind {x a : α} {l : List α} : a ∈ insertBehind key x l → a = x ∨ a ∈ l := by
  induction l with
  | nil => exact fun h => Or.inl (List.mem_singleton.mp h)
  | cons y l ih =>
      unfold insertBehind
      by_cases hlt : key x < key y
      · rw [if_pos hlt]
        exact List.mem_cons.mp
      · rw [if_neg hlt]
        intro h
        rcases List.mem_cons.mp h with rfl | htail
        · exact Or.inr List.mem_cons_self
        · exact (ih htail).imp id (List.mem_cons_of_mem y)

theorem sorted_insertBehind (x : α) {l : List α} (h : Sorted key l) :
    Sorted key (insertBehind key x l) := by
  induction l with
  | nil => exact List.pairwise_singleton _ x
  | cons y l ih =>
      unfold insertBehind
      by_cases hlt : key x < key y
      · rw [if_pos hlt]
        exact List.pairwise_cons.mpr ⟨fun b hb => le_trans (le_of_lt hlt) (h.head_le hb), h⟩
      · rw [if_neg hlt]
        refine List.pairwise_cons.mpr ⟨fun b hb => ?_, ih (List.Pairwise.of_cons h)⟩
        rcases mem_insertBehind hb with rfl | htail
        · exact le_of_not_gt hlt
        · exact h.head_le (List.mem_cons_of_mem y htail)

/-- The new element is the last of its key. -/
theorem tied_insertBehind (x : α) {l : List α} (h : Sorted key l) (k : κ) :
    tied key k (insertBehind key x l) = tied key k l ++ tied key k [x] := by
  induction l with
  | nil => rfl
  | cons y l ih =>
      unfold insertBehind
      by_cases hlt : key x < key y
      · rw [if_pos hlt]
        by_cases hx : key x = k
        · -- Nothing from here on has so small a key.
          have hnone : tied key k (y :: l) = [] := by
            refine List.eq_nil_iff_forall_not_mem.mpr (fun b hb => ?_)
            have hle := h.head_le (mem_tied.mp hb).1
            rw [(mem_tied.mp hb).2, ← hx] at hle
            exact absurd hlt (not_lt_of_ge hle)
          rw [tied_cons_pos (y :: l) hx, tied_cons_pos [] hx, hnone]
          rfl
        · rw [tied_cons_neg (y :: l) hx, tied_cons_neg [] hx]
          exact (List.append_nil _).symm
      · rw [if_neg hlt]
        have hrest := ih (List.Pairwise.of_cons h)
        by_cases hy : key y = k
        · rw [tied_cons_pos _ hy, tied_cons_pos _ hy, hrest]
          rfl
        · rw [tied_cons_neg _ hy, tied_cons_neg _ hy, hrest]

/-- Insertion goes on with a stable sort of what has been inserted. -/
theorem isStableSort_foldl {before s : List α} (h : IsStableSort key before s) (l : List α) :
    IsStableSort key (before ++ l) (l.foldl (fun s x => insertBehind key x s) s) := by
  induction l generalizing before s with
  | nil =>
      rw [List.append_nil]
      exact h
  | cons x l ih =>
      have hnext : IsStableSort key (before ++ [x]) (insertBehind key x s) := by
        refine ⟨sorted_insertBehind x h.sorted, fun k => ?_⟩
        rw [tied_insertBehind x h.sorted k, h.tied k, tied_append]
      rw [List.foldl_cons, List.append_cons]
      exact ih hnext

/-- Inserting one element after the other is the stable sort. -/
theorem foldl_insertBehind (l : List α) :
    l.foldl (fun s x => insertBehind key x s) [] = sort key l := by
  have hempty : IsStableSort key ([] : List α) [] := ⟨List.Pairwise.nil, fun _ => rfl⟩
  exact (isStableSort_foldl hempty l).unique (isStableSort_sort l)

end Insertion

end StableSort
