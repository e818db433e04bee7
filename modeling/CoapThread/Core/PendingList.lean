import CoapThread.Core.Config
import CoapThread.Library.Linked

/-!
# The Pending List

`list.c`: the linked list of requests waiting for an answer.

The nodes live in a heap of their own. An address is never given out twice,
which makes a node's address the name of one request for the whole run, and a
freed node keeps its content, which is what a loop that reads it after the
release finds there. Allocation is taken to succeed.

`Holds` is the representation invariant: the links from the head run through
a given sequence of distinct nodes, and those are exactly the allocated ones.
Each operation has one lemma saying what it does to that sequence, and nothing
above this module unfolds an operation.

## Main definitions

* `RequestHeap`: The head pointer and the nodes.
* `addPthreadRequestToList`: Append a copy of a request.
* `addAt`: The same at an address of the allocator's choice.
* `deletePthreadRequestFromList`: Unlink a node and free it.
* `idCmp`: Two requests differ in address or resource path.
* `findPthreadRequestFromListById`: The first node with a given key.
* `Holds`: The list stands for a sequence of nodes.
* `Stores`: The list stands for a sequence of requests.
* `RequestHeap.empty`: The list at the start.

## Theorems

* `addAt_holds`, `add_holds`: Appending adds the new node at the end.
* `add_data`: Appending stores the request and changes no other.
* `add_stores`: Appending adds the request at the end.
* `delete_holds`: Deleting takes the node out and keeps the rest.
* `delete_frame`: Deleting changes no request.
* `delete_live`, `delete_erase`: Only a node of the list can be released.
* `find_holds`: Finding is searching the sequence.
* `find_of_key`: Finding gives the first entry with the key.
-/

namespace CoapThread

open CBytes

/-- The nodes of pending requests and the pointer to the first. -/
structure RequestHeap where
  head : Option NodeId
  node : NodeId → SCoAPNewRequest
  live : NodeId → Bool
  fresh : NodeId

/-- No node allocated. -/
def RequestHeap.empty : RequestHeap := ⟨none, fun _ => SCoAPNewRequest.zero, fun _ => false, 0⟩

/-- The link of a node. -/
def RequestHeap.next (h : RequestHeap) (i : NodeId) : Option NodeId := (h.node i).next

/-- Write the head pointer and the links back. -/
def RequestHeap.relink (h : RequestHeap) (head : Option NodeId)
    (next : NodeId → Option NodeId) : RequestHeap :=
  { h with head := head, node := fun i => { h.node i with next := next i } }

/-- Append a copy of a request to the list. -/
def addPthreadRequestToList (h : RequestHeap) (element : SCoAPNewRequest) : RequestHeap :=
  let el := h.fresh
  let h' : RequestHeap :=
    { h with
      node := Function.update h.node el element
      live := Function.update h.live el true
      fresh := el + 1 }
  let links := Linked.append h'.next h'.fresh h'.head el
  h'.relink links.1 links.2

/-- Append a copy of a request in a node of the allocator's choice, which may be
    one that was released before. -/
def addAt (h : RequestHeap) (el : NodeId) (element : SCoAPNewRequest) : RequestHeap :=
  let h' : RequestHeap :=
    { h with
      node := Function.update h.node el element
      live := Function.update h.live el true
      fresh := max h.fresh (el + 1) }
  let links := Linked.append h'.next h'.fresh h'.head el
  h'.relink links.1 links.2

theorem addAt_fresh (h : RequestHeap) (element : SCoAPNewRequest) :
    addAt h h.fresh element = addPthreadRequestToList h element := by
  unfold addAt addPthreadRequestToList
  rw [Nat.max_eq_right (Nat.le_succ h.fresh)]

/-- Unlink a node and release it. -/
def deletePthreadRequestFromList (h : RequestHeap) (el : NodeId) : Except Fault RequestHeap :=
  match Linked.delete h.next h.fresh h.head el with
  | none => .error .nullDeref
  | some (head, next) =>
    if h.live el then
      let h' := h.relink head next
      .ok { h' with live := Function.update h'.live el false }
    else .error .doubleFree

/-- Two requests differ in address or resource path. -/
def idCmp (out el : SCoAPNewRequest) : Bool :=
  cstr out.addrBytes != cstr el.addrBytes || cstr out.respath.bytes != cstr el.respath.bytes

/-- The first node of the list with the key of `el`. -/
def findPthreadRequestFromListById (h : RequestHeap) (el : SCoAPNewRequest) : Option NodeId :=
  Linked.search h.next (fun i => !idCmp (h.node i) el) h.fresh h.head

/-- A request without its link. -/
def SCoAPNewRequest.data (m : SCoAPNewRequest) : SCoAPNewRequest := { m with next := none }

/-- Requests that differ in no more than the link. -/
theorem entry_of_data {m m' : SCoAPNewRequest} (h : m'.data = m.data) :
    m'.req = m.req ∧ m'.addrBytes = m.addrBytes ∧ m'.respath = m.respath ∧
      m'.pthpara = m.pthpara := by
  have haddr : m'.addr = m.addr := congrArg (fun m => m.addr) h
  have hpath : m'.respath = m.respath := congrArg (fun m => m.respath) h
  refine ⟨congrArg (fun m => m.req) h, ?_, hpath, congrArg (fun m => m.pthpara) h⟩
  rw [SCoAPNewRequest.addrBytes, SCoAPNewRequest.addrBytes, haddr, hpath]

theorem idCmp_data (out out' el : SCoAPNewRequest) (h : out.data = out'.data) :
    idCmp out el = idCmp out' el := by
  rcases entry_of_data h with ⟨-, haddr, hpath, -⟩
  simp only [idCmp, haddr, hpath]

/-- The list stands for a sequence of distinct nodes, and these are the
    allocated ones. -/
structure Holds (h : RequestHeap) (ids : List NodeId) : Prop where
  chain : Linked.Chain h.next h.head ids
  nodup : ids.Nodup
  bounded : ∀ i ∈ ids, i < h.fresh
  live : ∀ i, h.live i = true ↔ i ∈ ids

theorem empty_holds : Holds RequestHeap.empty [] where
  chain := rfl
  nodup := List.nodup_nil
  bounded i hi := absurd hi List.not_mem_nil
  live i := by simp only [RequestHeap.empty, Bool.false_eq_true, List.not_mem_nil]

/-- A sequence of distinct addresses is no longer than the count given out. -/
theorem Holds.length_le {h : RequestHeap} {ids : List NodeId} (hh : Holds h ids) :
    ids.length ≤ h.fresh := by
  have hsub : ids ⊆ List.range h.fresh := fun i hi => List.mem_range.mpr (hh.bounded i hi)
  have hle := hh.nodup.length_le_of_subset hsub
  rw [List.length_range] at hle
  exact hle

theorem Holds.fresh_not_mem {h : RequestHeap} {ids : List NodeId} (hh : Holds h ids) :
    h.fresh ∉ ids := fun hmem => Nat.lt_irrefl _ (hh.bounded _ hmem)

/-- Appending adds the new node at the end of the sequence. -/
theorem addAt_holds (h : RequestHeap) (ids : List NodeId) (el : NodeId) (m : SCoAPNewRequest)
    (hh : Holds h ids) (hnew : el ∉ ids) : Holds (addAt h el m) (ids ++ [el]) := by
  have hlen := hh.length_le
  constructor
  · -- The copied link of the new node is overwritten before the walk reads it.
    refine Linked.chain_append _ h.head ids el (max h.fresh (el + 1)) (by omega) hh.nodup hnew ?_
    refine Linked.chain_congr h.next _ h.head ids (fun i hi => ?_) hh.chain
    have hne : i ≠ el := fun hc => hnew (hc ▸ hi)
    simp only [RequestHeap.next, Function.update_of_ne hne]
  · rw [List.nodup_append]
    refine ⟨hh.nodup, List.nodup_singleton _, fun i hi j hj hij => ?_⟩
    rw [List.mem_singleton] at hj
    exact hnew (hj ▸ hij ▸ hi)
  · intro i hi
    change i < max h.fresh (el + 1)
    rcases List.mem_append.mp hi with hi | hi
    · exact Nat.lt_of_lt_of_le (hh.bounded i hi) (Nat.le_max_left _ _)
    · rw [List.mem_singleton] at hi
      rw [hi]
      exact Nat.lt_of_lt_of_le (Nat.lt_succ_self el) (Nat.le_max_right _ _)
  · intro i
    simp only [addAt, RequestHeap.relink, List.mem_append, List.mem_singleton]
    by_cases hi : i = el
    · simp only [hi, Function.update_self, or_true]
    · simp only [Function.update_of_ne hi, hi, or_false]
      exact hh.live i

theorem add_holds (h : RequestHeap) (ids : List NodeId) (m : SCoAPNewRequest) (hh : Holds h ids) :
    Holds (addPthreadRequestToList h m) (ids ++ [h.fresh]) := by
  rw [← addAt_fresh]
  exact addAt_holds h ids h.fresh m hh hh.fresh_not_mem

/-- Appending stores the request in the new node and changes no other. -/
theorem addAt_data (h : RequestHeap) (el : NodeId) (m : SCoAPNewRequest) (i : NodeId) :
    ((addAt h el m).node i).data = if i = el then m.data else (h.node i).data := by
  by_cases hi : i = el
  · rw [if_pos hi, hi]
    simp only [addAt, RequestHeap.relink, SCoAPNewRequest.data, Function.update_self]
  · rw [if_neg hi]
    simp only [addAt, RequestHeap.relink, SCoAPNewRequest.data, Function.update_of_ne hi]

theorem add_data (h : RequestHeap) (m : SCoAPNewRequest) (i : NodeId) :
    ((addPthreadRequestToList h m).node i).data =
      if i = h.fresh then m.data else (h.node i).data := by
  rw [← addAt_fresh]
  exact addAt_data h h.fresh m i

@[simp] theorem add_fresh (h : RequestHeap) (m : SCoAPNewRequest) :
    (addPthreadRequestToList h m).fresh = h.fresh + 1 := rfl

/-- Deleting takes the node out of the sequence, keeps every request, and
    changes no link but one that pointed at the node. -/
theorem delete_holds (h : RequestHeap) (ids : List NodeId) (el : NodeId) (hh : Holds h ids)
    (hmem : el ∈ ids) :
    ∃ h', deletePthreadRequestFromList h el = .ok h' ∧ Holds h' (ids.erase el) ∧
      h'.fresh = h.fresh ∧ (∀ i, (h'.node i).data = (h.node i).data) ∧
      ∀ k, h.next k ≠ some el → h'.next k = h.next k := by
  rcases Linked.chain_delete h.next h.head ids el h.fresh hh.length_le hh.nodup hmem hh.chain with
    ⟨head', next', hdel, hchain, hother⟩
  have hlive : h.live el = true := (hh.live el).mpr hmem
  refine ⟨{ h.relink head' next' with live := Function.update h.live el false }, ?_, ?_, rfl,
    fun _ => rfl, hother⟩
  · unfold deletePthreadRequestFromList
    rw [hdel]
    simp only [hlive, if_true]
    rfl
  · constructor
    · exact hchain
    · exact hh.nodup.erase el
    · exact fun i hi => hh.bounded i (List.mem_of_mem_erase hi)
    · -- The node handed out is the only one whose allocation changes.
      intro i
      change Function.update h.live el false i = true ↔ i ∈ ids.erase el
      by_cases hi : i = el
      · subst hi
        simp only [Function.update_self, Bool.false_eq_true, false_iff]
        exact hh.nodup.not_mem_erase
      · rw [Function.update_of_ne hi, List.mem_erase_of_ne hi]
        exact hh.live i

/-- Deleting, wherever it returns: the node was allocated, and the links are
    those of the walk. -/
theorem delete_ok {h h' : RequestHeap} {el : NodeId}
    (hdel : deletePthreadRequestFromList h el = .ok h') :
    h.live el = true ∧ ∃ head next, h' =
      { h.relink head next with live := Function.update h.live el false } := by
  unfold deletePthreadRequestFromList at hdel
  rcases hlinks : Linked.delete h.next h.fresh h.head el with _ | ⟨head, next⟩
  · rw [hlinks] at hdel
    cases hdel
  · rw [hlinks] at hdel
    simp only [] at hdel
    split_ifs at hdel with hlive
    exact ⟨hlive, head, next, (Except.ok.inj hdel).symm⟩

/-- It gives out no address and changes no request. -/
theorem delete_frame {h h' : RequestHeap} {el : NodeId}
    (hdel : deletePthreadRequestFromList h el = .ok h') :
    h'.fresh = h.fresh ∧ ∀ i, (h'.node i).data = (h.node i).data := by
  rcases delete_ok hdel with ⟨-, head, next, hh'⟩
  subst hh'
  exact ⟨rfl, fun _ => rfl⟩

/-- Only an allocated node can be released, and it is not allocated then. -/
theorem delete_live {h h' : RequestHeap} {el : NodeId}
    (hdel : deletePthreadRequestFromList h el = .ok h') :
    h.live el = true ∧ h'.live el = false := by
  rcases delete_ok hdel with ⟨hlive, head, next, hh'⟩
  subst hh'
  exact ⟨hlive, Function.update_self _ _ _⟩

/-- A node that could be released was in the list, and is not any more. -/
theorem delete_erase {h h' : RequestHeap} {ids : List NodeId} {el : NodeId} (hh : Holds h ids)
    (hdel : deletePthreadRequestFromList h el = .ok h') :
    el ∈ ids ∧ Holds h' (ids.erase el) := by
  have hmem := (hh.live el).mp (delete_live hdel).1
  rcases delete_holds h ids el hh hmem with ⟨h'', hdel', hholds, -⟩
  cases hdel.symm.trans hdel'
  exact ⟨hmem, hholds⟩

/-- Any one pointer structure stands for at most one sequence. -/
theorem holds_unique (h : RequestHeap) (ids ids' : List NodeId) (hh : Holds h ids)
    (hh' : Holds h ids') : ids = ids' :=
  Linked.chain_unique h.next h.head ids ids' hh.chain hh'.chain

/-- The requests in the list, in order. -/
def Stores (h : RequestHeap) (reqs : List SCoAPNewRequest) : Prop :=
  ∃ ids, Holds h ids ∧ ids.map (fun i => (h.node i).data) = reqs

theorem stores_unique (h : RequestHeap) (reqs reqs' : List SCoAPNewRequest) (hs : Stores h reqs)
    (hs' : Stores h reqs') : reqs = reqs' := by
  rcases hs with ⟨ids, hh, hmap⟩
  rcases hs' with ⟨ids', hh', hmap'⟩
  rw [← hmap, ← hmap', holds_unique h ids ids' hh hh']

/-- Appending adds the request at the end. -/
theorem add_stores (h : RequestHeap) (reqs : List SCoAPNewRequest) (m : SCoAPNewRequest)
    (hs : Stores h reqs) : Stores (addPthreadRequestToList h m) (reqs ++ [m.data]) := by
  rcases hs with ⟨ids, hh, hmap⟩
  refine ⟨ids ++ [h.fresh], add_holds h ids m hh, ?_⟩
  rw [List.map_append, List.map_singleton, add_data, if_pos rfl, ← hmap]
  congr 1
  -- The new node is none of the old ones, so they keep their requests.
  refine List.map_congr_left (fun i hi => ?_)
  have hne : i ≠ h.fresh := fun hc => hh.fresh_not_mem (hc ▸ hi)
  rw [add_data, if_neg hne]

/-- Finding is searching the sequence. -/
theorem find_holds (h : RequestHeap) (ids : List NodeId) (el : SCoAPNewRequest)
    (hh : Holds h ids) :
    findPthreadRequestFromListById h el = ids.find? (fun i => !idCmp (h.node i) el) :=
  Linked.search_chain h.next _ ids h.head h.fresh hh.length_le hh.chain

theorem idCmp_eq_false (out el : SCoAPNewRequest) :
    idCmp out el = false ↔ cstr out.addrBytes = cstr el.addrBytes ∧
      cstr out.respath.bytes = cstr el.respath.bytes := by
  simp only [idCmp, Bool.or_eq_false_iff, bne_eq_false_iff_eq]

end CoapThread
