import CoapThread.Core.PendingList
import Mathlib.Data.List.Find

/-!
# The List as a Sequence

What any sequence of calls on the pending list amounts to.

The list refines a sequence of entries, each an address and a request. Adding
puts an entry at the end, deleting takes one out, finding looks for a key and
changes nothing. `Represents` relates the two, and `call_represents` is the
simulation: where a call is allowed, the pointer structure does what the
sequence does and returns the same.

The address of a new node is the allocator's choice. Any address that is not
in use will do, so one that was released can come back, and nothing here rests
on an address naming one request for good. A call is allowed where its caller
keeps to the list's rules: an entry that is deleted is in the list, and keys
are strings.

## Main definitions

* `ListCall`: A call.
* `call`, `runCalls`: The calls on the pointer structure.
* `specCall`, `specRun`: The calls on the sequence.
* `Allowed`, `AllAllowed`: The rules for the caller.
* `Represents`: The pointer structure stands for the sequence.

## Theorems

* `call_represents`: One call.
* `runCalls_represents`: A sequence of calls, from any list.
* `listCalls_refine`: A sequence of calls from the empty list.
-/

namespace CoapThread

open CBytes

/-- A call on the list, an added request with the address its node gets. -/
inductive ListCall where
  | add (el : NodeId) (element : SCoAPNewRequest)
  | delete (el : NodeId)
  | find (el : SCoAPNewRequest)
  deriving DecidableEq

/-- A call on the pointer structure, and the pointer it returns. -/
def call (h : RequestHeap) : ListCall → Except Fault (RequestHeap × Option NodeId)
  | .add el element => .ok (addAt h el element, some el)
  | .delete el => match deletePthreadRequestFromList h el with
    | .error f => .error f
    | .ok h => .ok (h, none)
  | .find el => .ok (h, findPthreadRequestFromListById h el)

/-- The calls in turn, and what they return. -/
def runCalls (h : RequestHeap) : List ListCall → Except Fault (RequestHeap × List (Option NodeId))
  | [] => .ok (h, [])
  | c :: cs => match call h c with
    | .error f => .error f
    | .ok (h, r) => (runCalls h cs).map (fun x => (x.1, r :: x.2))

/-- An entry of the sequence. -/
abbrev Entry := NodeId × SCoAPNewRequest

/-- Two requests have the same key. -/
def SameKey (m m' : SCoAPNewRequest) : Prop :=
  cstr m.addr.bytes = cstr m'.addr.bytes ∧ cstr m.respath.bytes = cstr m'.respath.bytes

instance (m m' : SCoAPNewRequest) : Decidable (SameKey m m') :=
  inferInstanceAs (Decidable (_ ∧ _))

/-- A call on the sequence. -/
def specCall (s : List Entry) : ListCall → List Entry × Option NodeId
  | .add el element => (s ++ [(el, element.data)], some el)
  | .delete el => (s.filter (fun x => x.1 ≠ el), none)
  | .find el => (s, (s.find? (fun x => SameKey x.2 el)).map Prod.fst)

def specRun (s : List Entry) : List ListCall → List Entry × List (Option NodeId)
  | [] => (s, [])
  | c :: cs =>
    let next := specCall s c
    let rest := specRun next.1 cs
    (rest.1, next.2 :: rest.2)

/-- The key of a request consists of strings. -/
def KeyTerminated (m : SCoAPNewRequest) : Prop :=
  Terminated m.addr.bytes ∧ Terminated m.respath.bytes

/-- A call keeps to the rules: the allocator gives an address that is not in
    use, a deleted entry is in the list, and keys are strings. -/
def Allowed (s : List Entry) : ListCall → Prop
  | .add el element => el ∉ s.map Prod.fst ∧ KeyTerminated element
  | .delete el => el ∈ s.map Prod.fst
  | .find el => KeyTerminated el

def AllAllowed (s : List Entry) : List ListCall → Prop
  | [] => True
  | c :: cs => Allowed s c ∧ AllAllowed (specCall s c).1 cs

/-- The pointer structure stands for the sequence: it is a chain of its
    distinct nodes, in order, and each holds its request. -/
structure Represents (h : RequestHeap) (s : List Entry) : Prop where
  holds : Holds h (s.map Prod.fst)
  data : ∀ x ∈ s, (h.node x.1).data = x.2
  key : ∀ x ∈ s, KeyTerminated x.2

theorem empty_represents : Represents RequestHeap.empty [] where
  holds := empty_holds
  data _ hx := absurd hx List.not_mem_nil
  key _ hx := absurd hx List.not_mem_nil

theorem add_represents {h : RequestHeap} {s : List Entry} {el : NodeId} {m : SCoAPNewRequest}
    (hr : Represents h s) (hnew : el ∉ s.map Prod.fst) (hkey : KeyTerminated m) :
    Represents (addAt h el m) (s ++ [(el, m.data)]) where
  holds := by
    rw [List.map_append]
    exact addAt_holds h _ el m hr.holds hnew
  data x hx := by
    rw [addAt_data]
    rcases List.mem_append.mp hx with hx | hx
    · have hne : x.1 ≠ el := fun hc => hnew (hc ▸ List.mem_map_of_mem hx)
      rw [if_neg hne]
      exact hr.data x hx
    · rw [List.mem_singleton.mp hx, if_pos rfl]
  key x hx := by
    rcases List.mem_append.mp hx with hx | hx
    · exact hr.key x hx
    · rw [List.mem_singleton.mp hx]
      exact hkey

theorem delete_represents {h : RequestHeap} {s : List Entry} {el : NodeId}
    (hr : Represents h s) (hmem : el ∈ s.map Prod.fst) :
    ∃ h', deletePthreadRequestFromList h el = .ok h' ∧
      Represents h' (s.filter (fun x => x.1 ≠ el)) := by
  rcases delete_holds h _ el hr.holds hmem with ⟨h', hdel, hholds, -, hdata, -⟩
  refine ⟨h', hdel, ?_, ?_, ?_⟩
  · -- Distinct nodes: erasing the one is filtering the rest.
    rw [hr.holds.nodup.erase_eq_filter, List.filter_map] at hholds
    have hsame : (s.filter (fun x => x.1 ≠ el)) = s.filter ((fun i => i != el) ∘ Prod.fst) := by
      refine List.filter_congr (fun x _ => ?_)
      simp only [Function.comp_apply, ne_eq, decide_not, bne, beq_eq_decide]
    rw [hsame]
    exact hholds
  · intro x hx
    rw [hdata]
    exact hr.data x (List.mem_of_mem_filter hx)
  · exact fun x hx => hr.key x (List.mem_of_mem_filter hx)

/-- For keys that are strings the comparison is on the two fields. -/
theorem idCmp_sameKey {m m' : SCoAPNewRequest} (h : KeyTerminated m) (h' : KeyTerminated m') :
    idCmp m m' = false ↔ SameKey m m' := by
  rw [idCmp_eq_false]
  unfold SCoAPNewRequest.addrBytes SameKey
  rw [cstr_append_of_terminated _ _ h.1, cstr_append_of_terminated _ _ h'.1]

theorem find_represents {h : RequestHeap} {s : List Entry} {el : SCoAPNewRequest}
    (hr : Represents h s) (hkey : KeyTerminated el) :
    findPthreadRequestFromListById h el =
      (s.find? (fun x => SameKey x.2 el)).map Prod.fst := by
  rw [find_holds h _ el hr.holds, List.find?_map]
  congr 1
  refine List.find?_congr (fun x hx => ?_)
  have hdata := idCmp_data (h.node x.1) x.2 el ?_
  · rw [Function.comp_apply, hdata, Bool.eq_iff_iff, Bool.not_eq_true', decide_eq_true_eq]
    exact idCmp_sameKey (hr.key x hx) hkey
  · rw [← hr.data x hx]
    rfl

/-- One call: the pointer structure does what the sequence does and returns the
    same. -/
theorem call_represents {h : RequestHeap} {s : List Entry} {c : ListCall} (hr : Represents h s)
    (hc : Allowed s c) :
    ∃ h', call h c = .ok (h', (specCall s c).2) ∧ Represents h' (specCall s c).1 := by
  cases c with
  | add el element => exact ⟨addAt h el element, rfl, add_represents hr hc.1 hc.2⟩
  | delete el =>
      rcases delete_represents hr hc with ⟨h', hdel, hrep⟩
      refine ⟨h', ?_, hrep⟩
      simp only [call, hdel, specCall]
  | find el =>
      refine ⟨h, ?_, hr⟩
      simp only [call, find_represents hr hc, specCall]

theorem runCalls_represents {h : RequestHeap} {s : List Entry} (cs : List ListCall)
    (hr : Represents h s) (hcs : AllAllowed s cs) :
    ∃ h', runCalls h cs = .ok (h', (specRun s cs).2) ∧ Represents h' (specRun s cs).1 := by
  induction cs generalizing h s with
  | nil => exact ⟨h, rfl, hr⟩
  | cons c cs ih =>
      rcases hcs with ⟨hc, hrest⟩
      rcases call_represents hr hc with ⟨h₁, hcall, hr₁⟩
      rcases ih hr₁ hrest with ⟨h', hrun, hr'⟩
      refine ⟨h', ?_, hr'⟩
      unfold runCalls
      rw [hcall]
      simp only []
      rw [hrun]
      rfl

/-- Any sequence of allowed calls, from the empty list: the pointer structure
    ends as a chain of distinct nodes that holds the sequence's requests in
    order, and every call has returned what it returns on the sequence. -/
theorem listCalls_refine (cs : List ListCall) (hcs : AllAllowed [] cs) :
    ∃ h, runCalls RequestHeap.empty cs = .ok (h, (specRun [] cs).2) ∧
      Represents h (specRun [] cs).1 :=
  runCalls_represents cs empty_represents hcs

/-- The request of zeros is a key. -/
theorem zero_keyTerminated : KeyTerminated SCoAPNewRequest.zero :=
  ⟨List.mem_replicate.mpr ⟨nofun, rfl⟩, List.mem_replicate.mpr ⟨nofun, rfl⟩⟩

/-- A node is released and its address is given out again, for a request whose
    own link points back at it. -/
theorem listCalls_refine_reuse :
    ∃ h, runCalls RequestHeap.empty [.add 5 .zero, .add 2 .zero, .delete 5,
        .add 5 { SCoAPNewRequest.zero with next := some 5 }, .find .zero] =
      .ok (h, [some 5, some 2, none, some 5, some 2]) ∧
      Represents h [(2, .zero), (5, .zero)] := by
  refine listCalls_refine [.add 5 .zero, .add 2 .zero, .delete 5,
    .add 5 { SCoAPNewRequest.zero with next := some 5 }, .find .zero] ?_
  have hkey := zero_keyTerminated
  exact ⟨⟨List.not_mem_nil, hkey⟩, ⟨by decide, hkey⟩, List.mem_cons_self, ⟨by decide, hkey⟩, hkey,
    trivial⟩

end CoapThread
