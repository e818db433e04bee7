import CoapThread.System.Others
import CoapThread.Theory.Departures

/-!
# Every Entry Is Accounted For

What can be said of the pending list whatever happens: whoever sends, whatever
comes in, whatever the pointer the handler never assigns holds.

Which entry a response releases is a matter of that pointer, and
`Orderly` asks a lot of it. That an entry is released at all asks nothing: a
release that returns has found its entry in the list. So in every run the list
is one of distinct nodes in the order they came, every node allocated is in it
or has been freed once, and whenever one is freed the requester it names has
been signalled just before. What the requester is told is true: of a timeout
after a sweep at which the request was due, and of success after a response
that had no block left.

## Main definitions

* `Settled`: The account of the list.
* `Tells`: An event accounts for what a requester was told.
* `SettledBy`: The account behind a step.

## Theorems

* `settled_release`: A release moves an entry from the list to the record.
* `settled_tells`: A step keeps the account, and says what left at it.
* `settled_run`: Every entry of a run is accounted for.
* `told_run`: And its requester was told the truth.
-/

namespace CoapThread

open CBytes Machine

/-- Of every entry appended so far: it is in the list, in the order of arrival,
    or it has left once, and the requester it names was signalled once, just
    before it was freed. -/
structure Settled (g : Gateway) (ids : List NodeId) (left : List (NodeId × Bool)) : Prop where
  holds : Holds g.list ids
  arrival : ids.Pairwise (· < ·)
  once : (ids ++ left.map Prod.fst).Perm (List.range g.list.fresh)
  named : ∀ x ∈ left, (g.list.node x.1).pthpara ≠ none
  notices : notices g.outputs = left.flatMap (departure g)

/-- A signal among what an entry's leaving puts out is to the requester it
    names. -/
theorem departure_signal {g : Gateway} {x : NodeId × Bool} {p : ParaId} {timeout : Bool}
    (h : .signal p timeout ∈ departure g x) :
    (g.list.node x.1).pthpara = some p ∧ x.2 = timeout := by
  unfold departure at h
  rcases hp : (g.list.node x.1).pthpara with _ | q
  · rw [hp] at h
    exact absurd h List.not_mem_nil
  · rw [hp] at h
    simp only [List.mem_cons, Output.signal.injEq, reduceCtorEq, List.not_mem_nil, or_false] at h
    exact ⟨congrArg some h.1.symm, h.2.symm⟩

/-- What has left was allocated. -/
theorem Settled.bound {g : Gateway} {ids : List NodeId} {left : List (NodeId × Bool)}
    (h : Settled g ids left) {i : NodeId} (hi : i ∈ left.map Prod.fst) : i < g.list.fresh :=
  List.mem_range.mp (h.once.mem_iff.mp (List.mem_append_right ids hi))

/-- A state with the same list, the same requests and the same signals and
    releases. -/
theorem Settled.congr {g g' : Gateway} {ids : List NodeId} {left : List (NodeId × Bool)}
    (h : Settled g ids left) (hlist : g'.list = g.list)
    (hout : CoapThread.notices g'.outputs = CoapThread.notices g.outputs) :
    Settled g' ids left := by
  have hdeparture : ∀ x, departure g' x = departure g x := by
    intro x
    unfold departure
    rw [hlist]
  refine ⟨hlist ▸ h.holds, h.arrival, hlist ▸ h.once, hlist ▸ h.named, ?_⟩
  rw [hout, h.notices]
  exact congrArg left.flatMap (funext fun x => (hdeparture x).symm)

/-- A release moves an entry from the list to the record. -/
theorem settled_release {timeout : Bool} {el : NodeId} {p : ParaId} {g g' : Gateway}
    {ids : List NodeId} {left : List (NodeId × Bool)} (h : Settled g ids left)
    (hp : (g.list.node el).pthpara = some p) (hrel : release timeout el p g = .ok g') :
    Settled g' (ids.erase el) (left ++ [(el, timeout)]) := by
  rcases release_erase h.holds hrel with ⟨hmem, hholds⟩
  rcases release_ok hrel with ⟨list, hg', -⟩
  have hframe := release_sweepFrame hrel
  have hpara : ∀ i, (g'.list.node i).pthpara = (g.list.node i).pthpara :=
    fun i => pthpara_of_data (hframe.data i)
  refine ⟨hholds, h.arrival.sublist List.erase_sublist, ?_, ?_, ?_⟩
  · -- The entry is taken out in one place and put in at the other.
    rw [hframe.fresh, List.map_append, List.map_singleton, ← List.append_assoc]
    refine List.Perm.trans ?_ h.once
    refine (List.perm_append_singleton el _).trans ?_
    rw [← List.cons_append]
    exact (List.perm_cons_erase hmem).symm.append_right _
  · intro x hx
    rw [hpara]
    rcases List.mem_append.mp hx with hx | hx
    · exact h.named x hx
    · rw [List.mem_singleton.mp hx, hp]
      exact Option.some_ne_none p
  · have hsame : (left ++ [(el, timeout)]).flatMap (departure g') =
        (left ++ [(el, timeout)]).flatMap (departure g) := departure_congr (fun i _ => hpara i)
    have hlast : departure g (el, timeout) = [.signal p timeout, .free el] := by
      unfold departure
      rw [hp]
    rw [hsame, List.flatMap_append, ← h.notices, List.flatMap_singleton, hlast, hg']
    exact notices_append g.outputs [.signal p timeout, .free el]

/-- A message that is taken over is the last entry of the list. -/
theorem settled_message {r : LibcoapResult} {now : Int} {m : SCoAPNewRequest} {g g' : Gateway}
    {ids : List NodeId} {left : List (NodeId × Bool)} (h : Settled g ids left)
    (hrun : receive r now m g = .ok g') : ∃ ids', Settled g' ids' left := by
  rcases (receive_taken hrun).2 with ⟨-, hsame⟩ | ⟨htmp, -, hlist⟩
  · exact ⟨ids, hsame ▸ h⟩
  have hout := receive_notices hrun
  have hdata : ∀ i ∈ left.map Prod.fst, (g'.list.node i).pthpara = (g.list.node i).pthpara := by
    intro i hi
    have hkept := add_data g.list { m with time := now } i
    rw [← hlist, if_neg (Nat.ne_of_lt (h.bound hi))] at hkept
    exact pthpara_of_data hkept
  refine ⟨ids ++ [g.list.fresh], ?_, ?_, ?_, ?_, ?_⟩
  · rw [hlist]
    exact add_holds _ _ _ h.holds
  · rw [List.pairwise_append]
    refine ⟨h.arrival, List.pairwise_singleton _ _, fun i hi j hj => ?_⟩
    rw [List.mem_singleton.mp hj]
    exact h.holds.bounded i hi
  · rw [hlist, add_fresh, List.range_succ, List.append_assoc]
    refine List.Perm.trans ?_ (h.once.append_right _)
    rw [List.append_assoc]
    exact List.perm_append_comm.append_left ids
  · intro x hx
    rw [hdata x.1 (List.mem_map_of_mem hx)]
    exact h.named x hx
  · rw [hout, h.notices]
    exact (departure_congr hdata).symm

theorem notices_check300 (now : Int) (g : Gateway) :
    notices (check300 now g).outputs = notices g.outputs := by
  unfold check300 Gateway.emit
  split_ifs
  · exact (notices_append _ _).trans (List.append_nil _)
  · rfl
  · rfl

/-- What an event has to be for an entry to have left at it: a sweep at which it
    was due, if its requester was told of a timeout, and otherwise a response
    that completed it. -/
def Tells (g : Gateway) : Event → NodeId × Bool → Prop
  | .sweep now, (i, true) => due now g.para (g.list.node i) = true
  | .response _ l received, (i, false) =>
    l.cnrList = some i ∧ (g.list.node i).req = .ltuTxBlock ∧
      (∃ value, IsContent received value) ∧
      ∃ block, getBlock received = some block ∧ coapOptBlockMore block.value = false
  | _, _ => False

/-- It is the same where the entry and the time allowed for it are. -/
theorem Tells.kept {g g' : Gateway} {e : Event} {x : NodeId × Bool} (h : Tells g e x)
    (hdata : (g'.list.node x.1).data = (g.list.node x.1).data)
    (htiming : ∀ p, (g.list.node x.1).pthpara = some p →
      (g'.para p).timing = (g.para p).timing) : Tells g' e x := by
  rcases x with ⟨i, timeout⟩
  simp only at hdata htiming
  rcases entry_of_data hdata with ⟨hreq, -, -, hpara⟩
  have htime : (g'.list.node i).time = (g.list.node i).time := congrArg (fun m => m.time) hdata
  cases e with
  | message | check300 => exact absurd h (fun hc => hc)
  | response r l received =>
      cases timeout with
      | true => exact absurd h (fun hc => hc)
      | false =>
          rcases h with ⟨hel, htx, hrest⟩
          exact ⟨hel, hreq.trans htx, hrest⟩
  | sweep now =>
      cases timeout with
      | false => exact absurd h (fun hc => hc)
      | true =>
          have hdue : due now g.para (g.list.node i) = true := h
          have hsame : due now g'.para (g'.list.node i) = due now g.para (g.list.node i) := by
            unfold due
            rw [hpara, htime]
            rcases hp : (g.list.node i).pthpara with _ | p
            · rfl
            · simp only []
              rw [htiming p hp]
          exact hsame.trans hdue

/-- Success is told for a block request alone. -/
theorem Tells.req {g : Gateway} {e : Event} {i : NodeId} (h : Tells g e (i, false)) :
    (g.list.node i).req = .ltuTxBlock := by
  cases e with
  | message | sweep | check300 => exact absurd h (fun hc => hc)
  | response => exact h.2.1

/-- The account goes on behind a step, which tells why what left at it did. -/
def SettledBy (e : Event) (left : List (NodeId × Bool)) (g' : Gateway) : Prop :=
  ∃ ids more, Settled g' ids (left ++ more) ∧ ∀ x ∈ more, Tells g' e x

section Steps

variable {g g' : Gateway} {ids : List NodeId} {left : List (NodeId × Bool)}

/-- Where nothing leaves there is nothing to tell. -/
theorem Settled.quiet (h : Settled g' ids left) (e : Event) : SettledBy e left g' := by
  rw [← List.append_nil left] at h
  exact ⟨ids, [], h, fun x hx => absurd hx List.not_mem_nil⟩

theorem settled_response {r : LibcoapResult} {l : HandlerLocals} {received : CoapPdu}
    (hset : Settled g ids left) (h : messageHandler r l received g = .ok g') :
    SettledBy (.response r l received) left g' := by
  have hacked := notices_acked received g
  cases messageHandler_handled h with
  | ignored | other =>
      refine Settled.quiet (?_ : Settled _ ids left) _
      exact hset.congr rfl hacked
  | continued value path el block =>
      refine Settled.quiet (?_ : Settled _ ids left) _
      refine hset.congr rfl ?_
      rw [notices_append, notices_nextBlock, List.append_nil, hacked]
  | completed value path el block p _ hc _ hel hreq hblock hmore hp hrel =>
      have hset' : Settled { pathCopied received path g with
          para := appended received (g.list.node el) g.para } ids left :=
        hset.congr rfl hacked
      have hframe := release_sweepFrame hrel
      have hreq' := (entry_of_data (hframe.data el)).1.trans hreq
      refine ⟨ids.erase el, [(el, false)], settled_release hset' hp hrel, ?_⟩
      exact List.forall_mem_singleton.mpr ⟨hel, hreq', ⟨value, hc⟩, block, hblock, hmore⟩

theorem settled_sweep {now : Int} (hset : Settled g ids left) (h : sweep now g = .ok g') :
    SettledBy (.sweep now) left g' := by
  refine sweep_invariant (I := SettledBy (.sweep now) left) ?_ h (hset.quiet _)
  rintro el p g₁ g₂ ⟨ids₁, more, hset₁, htells⟩ hp hdue hrel
  have hset₂ := settled_release hset₁ hp hrel
  rw [List.append_assoc] at hset₂
  have hframe := release_sweepFrame hrel
  have hkept : ∀ x, Tells g₁ (.sweep now) x → Tells g₂ (.sweep now) x :=
    fun x hx => hx.kept (hframe.data x.1) (fun q _ => hframe.timing q)
  refine ⟨_, _, hset₂, List.forall_mem_append.mpr ⟨fun x hx => hkept x (htells x hx), ?_⟩⟩
  refine List.forall_mem_singleton.mpr (hkept (el, true) ?_)
  change due now g₁.para (g₁.list.node el) = true
  unfold due
  rw [hp]
  exact decide_eq_true hdue

/-- A step keeps the account, and tells of what leaves at it why it does. -/
theorem settled_tells {e : Event} (hset : Settled g ids left) (h : Steps g e g') :
    SettledBy e left g' := by
  cases e with
  | message r now m =>
      rcases settled_message hset h with ⟨ids', hset'⟩
      exact hset'.quiet _
  | response r l received => exact settled_response hset h
  | sweep now => exact settled_sweep hset h
  | check300 now =>
      have hsame : g' = check300 now g := (Except.ok.inj h).symm
      refine Settled.quiet (?_ : Settled _ ids left) _
      refine hset.congr ?_ ?_
      · rw [hsame, check300_eq]
      · rw [hsame]
        exact notices_check300 now g

end Steps

/-- A response at which the entry it is for leaves has told its requester. -/
theorem response_gone {r : LibcoapResult} {l : HandlerLocals} {received : CoapPdu}
    {g g' : Gateway} {el : NodeId} (h : messageHandler r l received g = .ok g')
    (hel : l.cnrList = some el)
    (hlive : g.list.live el = true) (hgone : g'.list.live el = false) :
    ∃ p, (g.list.node el).pthpara = some p ∧ .signal p false ∈ g'.outputs := by
  cases messageHandler_handled h with
  | ignored | other | continued => cases hlive.symm.trans hgone
  | completed value path _ _ p _ _ _ hel' _ _ _ hp hrel =>
      cases hel.symm.trans hel'
      rcases release_ok hrel with ⟨list, hg', -⟩
      refine ⟨p, hp, ?_⟩
      rw [hg']
      exact List.mem_append_right _ List.mem_cons_self

/-- So a step keeps the account. -/
theorem settled_step {g g' : Gateway} {e : Event} (hg : ∃ ids left, Settled g ids left)
    (h : Steps g e g') : ∃ ids left, Settled g' ids left := by
  rcases hg with ⟨ids, left, hset⟩
  rcases settled_tells hset h with ⟨ids', more, hset', -⟩
  exact ⟨ids', _, hset'⟩

theorem settled_others {g g' : Gateway} {ids : List NodeId} {left : List (NodeId × Bool)}
    (h : Settled g ids left) (hother : OthersDo g g') : Settled g' ids left := by
  cases hother
  exact h.congr rfl rfl

theorem settled_start (tmp : SCoAPNewRequest) (messageId : UInt16) (para : ParaId → SPthreadPara) :
    Settled (initialGateway tmp messageId para) [] [] :=
  ⟨empty_holds, List.Pairwise.nil, List.Perm.refl _, fun _ hx => absurd hx List.not_mem_nil, rfl⟩

/-- A poll is taken over and swept five seconds later. -/
theorem unansweredPoll_path : ∃ g, Path OpenStep (bareGateway .zero)
    [some (.message ⟨true, true⟩ 0 devicePollMessage), some (.sweep 5)] g := by
  have horderly : Along Steps Orderly (bareGateway .zero)
      [.message ⟨true, true⟩ 0 devicePollMessage, .sweep 5] :=
    ⟨fun _ => ⟨nofun, fun _ => rfl, nofun⟩, fun g _ => ⟨trivial, fun _ _ => trivial⟩⟩
  rcases accounted_run rfl rfl horderly with ⟨g, -, -, hp, -⟩
  exact ⟨g, among_path hp⟩

/-- In every run of the thread among the others, whatever the messages, the
    responses and the unassigned locals: every entry appended so far is in the
    list, in the order of arrival, or it has left once, with the requester it
    names signalled once, just before it was freed. -/
theorem settled_run {tmp : SCoAPNewRequest} {messageId : UInt16} {para : ParaId → SPthreadPara}
    {es : List (Option Event)} {g : Gateway}
    (h : Path OpenStep (initialGateway tmp messageId para) es g) :
    ∃ ids left, Settled g ids left := by
  refine among_invariant (I := fun g => ∃ ids left, Settled g ids left)
    (fun s e t hi hstep => settled_step hi hstep) ?_ h ⟨[], [], settled_start tmp messageId para⟩
  rintro s t ⟨ids, left, hset⟩ hother
  exact ⟨ids, left, settled_others hset hother⟩

/-- A poll that nobody answers. -/
theorem settled_unansweredPoll : ∃ g ids left, Path OpenStep (bareGateway .zero)
      [some (.message ⟨true, true⟩ 0 devicePollMessage), some (.sweep 5)] g ∧
    Settled g ids left := by
  rcases unansweredPoll_path with ⟨g, hp⟩
  rcases settled_run hp with ⟨ids, left, hset⟩
  exact ⟨g, ids, left, hp, hset⟩

/-- In every run of the thread among the others: for every entry that has left
    there is an event of the run that says so. Where its requester was told of a
    timeout, there was a sweep at which it was due, and otherwise a response
    that completed it. -/
theorem told_run {tmp : SCoAPNewRequest} {messageId : UInt16} {para : ParaId → SPthreadPara}
    {es : List (Option Event)} {g : Gateway}
    (h : Path OpenStep (initialGateway tmp messageId para) es g) :
    ∃ ids left, Settled g ids left ∧ ∀ x ∈ left, ∃ e, some e ∈ es ∧ Tells g e x := by
  refine path_history (J := fun es g => ∃ ids left, Settled g ids left ∧
    ∀ x ∈ left, ∃ e, some e ∈ es ∧ Tells g e x) ?_ ?_ h
  · exact ⟨[], [], settled_start tmp messageId para, fun x hx => absurd hx List.not_mem_nil⟩
  rintro es g e g' ⟨ids, left, hset, htold⟩ hstep
  -- What has been told before stays true.
  have hbefore : ∀ x ∈ left, (g'.list.node x.1).data = (g.list.node x.1).data →
      (∀ p, IsNamed g p → (g'.para p).timing = (g.para p).timing) →
      ∃ e', some e' ∈ es ++ [e] ∧ Tells g' e' x := by
    intro x hx hdata htiming
    rcases htold x hx with ⟨e', he', htells⟩
    have hbound := hset.bound (List.mem_map_of_mem hx)
    exact ⟨e', List.mem_append_left _ he',
      htells.kept hdata (fun p hp => htiming p ⟨x.1, hbound, hp⟩)⟩
  cases hstep with
  | own _ e hown =>
      rcases settled_tells hset hown with ⟨ids', more, hset', hmore⟩
      refine ⟨ids', _, hset', List.forall_mem_append.mpr ⟨fun x hx => ?_, fun x hx => ?_⟩⟩
      · exact hbefore x hx ((step_data hown).data x.1 (hset.bound (List.mem_map_of_mem hx)))
          (fun p _ => step_timing hown p)
      · exact ⟨e, List.mem_append_right _ (List.mem_singleton_self _), hmore x hx⟩
  | other _ hother =>
      refine ⟨ids, left, settled_others hset hother, fun x hx => ?_⟩
      exact hbefore x hx (by rw [hother.list]) (fun p hp => by rw [hother.para hp])

/-- The same poll: its requester is told of a timeout. -/
theorem told_run_unansweredPoll : ∃ g ids left, Settled g ids left ∧
    ∀ x ∈ left, ∃ e,
      some e ∈ [some (.message ⟨true, true⟩ 0 devicePollMessage), some (.sweep 5)] ∧
      Tells g e x := by
  rcases unansweredPoll_path with ⟨g, hp⟩
  exact ⟨g, told_run hp⟩

end CoapThread
