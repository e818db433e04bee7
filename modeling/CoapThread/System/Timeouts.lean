import CoapThread.Library.Timers
import CoapThread.System.Buffers
import CoapThread.System.Turns

/-!
# The Pending List as Timers

The pending list against what it is for, a list of timers.

A message that is taken over starts a timer. Its deadline is the time the
message was taken plus the time its requester allows, and a message that names
nobody has none. A response stops the timer of the entry it completes, and a
sweep reads the clock. What the thread does besides, and what the other threads
do in between, is no concern of the timers.

The thread keeps its list as these timers are kept, step by step. So which
entries are pending can be told from what has happened alone. An entry is there
if and only if it was taken over and, since then, no response has completed it
and no sweep was made at its deadline or later. It is never dropped for another
reason, never early, and never missed.

## Main definitions

* `deadline`: When an entry is due.
* `completedBy`: The entry a response completes.
* `timerActs`: What a step means for the timers.
* `KeepsTimers`: The list is the pending timers.

## Theorems

* `due_eq`: An entry is due from its deadline on.
* `keepsTimers_step`: Every step keeps the list as the timers are kept.
* `timers_run`: The list of a run is what the timers say.
* `pending_run`: Which entries are pending.
-/

namespace CoapThread

open CBytes DeltaOption Machine

/-- When an entry is due, which is never if it names nobody. -/
def deadline (para : ParaId → SPthreadPara) (m : SCoAPNewRequest) : WithTop Int :=
  match m.pthpara with
  | none => ⊤
  | some p => ((m.time + (para p).timing : Int) : WithTop Int)

/-- An entry is due from its deadline on. -/
theorem due_eq (now : Int) (para : ParaId → SPthreadPara) (m : SCoAPNewRequest) :
    (!due now para m) = decide (Timers.Ahead now (deadline para m)) := by
  unfold due deadline
  rcases m.pthpara with _ | p
  · exact (decide_eq_true (Timers.ahead_top now)).symm
  · simp only []
    rw [← decide_not]
    refine decide_eq_decide.mpr ?_
    rw [Timers.ahead_coe]
    omega

/-- The entry a response completes: the one the pointer of the handler is at,
    if that is a block request and the response says that no block is left. -/
def completedBy (g : Gateway) (l : HandlerLocals) (received : CoapPdu) : Option NodeId :=
  match l.cnrList with
  | none => none
  | some el =>
    if isContent received = true ∧ (g.list.node el).req = .ltuTxBlock ∧
        (getBlock received).map (fun block => coapOptBlockMore block.value) = some false then
      some el
    else none

/-- What a step means for the timers. -/
def timerActs (g : Gateway) : Event → List (Timers.Act Int)
  | .message _ now m =>
    if g.tmp.req = .ltuNoAck then [] else [.start (deadline g.para { m with time := now })]
  | .response _ l received => match completedBy g l received with
    | none => []
    | some el => [.stop el]
  | .sweep now => [.expire now]
  | .check300 _ => []

/-- A run of the thread among the others, and what it means for the timers. -/
abbrev Times : Gateway → List (Option Event) → List (Timers.Act Int) → Gateway → Prop :=
  Reads Steps OthersDo timerActs

/-- The list is the pending timers, in their order. -/
structure KeepsTimers (t : Timers.State Int) (g : Gateway) : Prop where
  started : t.started = g.list.fresh
  pending : ∃ ids, Holds g.list ids ∧
    t.pending = ids.map (fun i => (i, deadline g.para (g.list.node i)))

section Deadlines

variable {g g' : Gateway}

theorem deadline_of_data {m m' : SCoAPNewRequest} (h : m'.data = m.data)
    (para : ParaId → SPthreadPara) : deadline para m' = deadline para m := by
  have htime : m'.time = m.time := congrArg (fun m => m.time) h
  unfold deadline
  rw [pthpara_of_data h, htime]

/-- A deadline stays where the requester allows the time it did. -/
theorem deadline_kept {m m' : SCoAPNewRequest} (hdata : m'.data = m.data)
    (htiming : ∀ p, m.pthpara = some p → (g'.para p).timing = (g.para p).timing) :
    deadline g'.para m' = deadline g.para m := by
  rw [deadline_of_data hdata]
  unfold deadline
  rcases hp : m.pthpara with _ | p
  · rfl
  · simp only []
    rw [htiming p hp]

/-- The same of all entries of a list. -/
theorem deadlines_kept {ids : List NodeId} (hkept : EntriesKept g g')
    (hbounded : ∀ i ∈ ids, i < g.list.fresh)
    (htiming : ∀ p, (g'.para p).timing = (g.para p).timing) :
    ids.map (fun i => (i, deadline g'.para (g'.list.node i))) =
      ids.map (fun i => (i, deadline g.para (g.list.node i))) := by
  refine List.map_congr_left (fun i hi => ?_)
  rw [deadline_kept (hkept.data i (hbounded i hi)) (fun p _ => htiming p)]

end Deadlines

section Steps

variable {g g' : Gateway} {t : Timers.State Int}

/-- A step that leaves the list as it is. -/
theorem KeepsTimers.same (h : KeepsTimers t g) (hlist : g'.list = g.list)
    (htiming : ∀ p, (g'.para p).timing = (g.para p).timing) : KeepsTimers t g' := by
  rcases h.pending with ⟨ids, hholds, hpending⟩
  refine ⟨?_, ids, hlist ▸ hholds, ?_⟩
  · rw [hlist]
    exact h.started
  · rw [hpending]
    exact (deadlines_kept (entriesKept_of_same (by rw [hlist]) (fun i => by rw [hlist]))
      hholds.bounded htiming).symm

/-- A message that is taken over starts a timer. -/
theorem keepsTimers_message {r : LibcoapResult} {now : Int} {m : SCoAPNewRequest}
    (h : KeepsTimers t g) (htmp : g.tmp.req ≠ .ltuNoAck) (hrun : receive r now m g = .ok g') :
    KeepsTimers (t.act (.start (deadline g.para { m with time := now }))) g' := by
  have hkept : EntriesKept g g' := step_data (e := .message r now m) hrun
  rcases receive_taken hrun with ⟨hpara, ⟨hnoack, -⟩ | ⟨-, -, hlist⟩⟩
  · exact absurd hnoack htmp
  rcases h.pending with ⟨ids, hholds, hpending⟩
  have hdata := add_data g.list { m with time := now } g.list.fresh
  rw [if_pos rfl, ← hlist] at hdata
  have hnew : deadline g'.para (g'.list.node g.list.fresh) =
      deadline g.para { m with time := now } := deadline_kept hdata (fun p _ => by rw [hpara])
  rw [Timers.State.act_start]
  refine ⟨?_, ids ++ [g.list.fresh], ?_, ?_⟩
  · rw [hlist, add_fresh, ← h.started]
  · rw [hlist]
    exact add_holds g.list ids { m with time := now } hholds
  · rw [List.map_append, deadlines_kept hkept hholds.bounded (fun p => by rw [hpara]),
      List.map_singleton, hnew, ← hpending, h.started]

/-- A release stops one. -/
theorem keepsTimers_release {timeout : Bool} {el : NodeId} {p : ParaId} (h : KeepsTimers t g)
    (hrel : release timeout el p g = .ok g') : KeepsTimers (t.act (.stop el)) g' := by
  rcases h.pending with ⟨ids, hholds, hpending⟩
  rcases release_erase hholds hrel with ⟨-, hholds'⟩
  have hkept := release_entries hrel
  have hframe := release_sweepFrame hrel
  refine ⟨h.started.trans hframe.fresh.symm, ids.erase el, hholds', ?_⟩
  have hbounded : ∀ i ∈ ids.erase el, i < g.list.fresh :=
    fun i hi => hholds.bounded i (List.mem_of_mem_erase hi)
  rw [Timers.State.act_stop, deadlines_kept hkept hbounded hframe.timing, hpending,
    List.filter_map, hholds.nodup.erase_eq_filter]
  refine congrArg (List.map _) (List.filter_congr (fun i _ => ?_))
  simp only [Function.comp_apply, bne, beq_eq_decide, decide_not]

/-- What a response completes is what it stops. -/
theorem keepsTimers_response {r : LibcoapResult} {l : HandlerLocals} {received : CoapPdu}
    {acts : List (Timers.Act Int)} (h : KeepsTimers (Timers.run acts) g)
    (hrun : messageHandler r l received g = .ok g') :
    KeepsTimers (Timers.run (acts ++ timerActs g (.response r l received))) g' := by
  have htiming := step_timing (e := .response r l received) hrun
  have hnone : completedBy g l received = none → g'.list = g.list →
      KeepsTimers (Timers.run (acts ++ timerActs g (.response r l received))) g' := by
    intro hc hlist
    simp only [timerActs, hc, List.append_nil]
    exact h.same hlist htiming
  cases messageHandler_handled hrun with
  | ignored hno =>
      refine hnone ?_ rfl
      have hcontent : ¬ (isContent received = true) := by
        rw [isContent_eq]
        exact fun ⟨value, hc⟩ => hno value hc
      unfold completedBy
      rcases l.cnrList with _ | el
      · rfl
      · exact if_neg (fun hc => hcontent hc.1)
  | other value path el hc _ hel hreq =>
      refine hnone ?_ rfl
      simp only [completedBy, hel, hreq, false_and, and_false, if_false]
  | continued value path el block hc _ hel hreq hblock hmore =>
      refine hnone ?_ rfl
      simp only [completedBy, hel, hblock, hmore, Option.map_some, Option.some.injEq,
        Bool.true_eq_false, and_false, if_false]
  | completed value path el block p _ hc _ hel hreq hblock hmore _ hrel =>
      have hcontent : isContent received = true := (isContent_eq received).mpr ⟨value, hc⟩
      have hstop : completedBy g l received = some el := by
        simp only [completedBy, hel, hcontent, hreq, hblock, hmore, Option.map_some, and_self,
          if_true]
      have hcopied : KeepsTimers (Timers.run acts) { pathCopied received path g with
          para := appended received (g.list.node el) g.para } := by
        refine h.same rfl (fun q => ?_)
        exact appended_timing received (g.list.node el) g.para q
      simp only [timerActs, hstop, Timers.run_snoc]
      exact keepsTimers_release hcopied hrel

/-- A sweep reads the clock. -/
theorem keepsTimers_sweep {now : Int} (h : KeepsTimers t g) (hrun : sweep now g = .ok g') :
    KeepsTimers (t.act (.expire now)) g' := by
  rcases h.pending with ⟨ids, hholds, hpending⟩
  rcases sweep_holds now g ids hholds (sweep_named hholds hrun) with
    ⟨g'', hrun', hholds', hframe, -⟩
  cases hrun.symm.trans hrun'
  have hkept : EntriesKept g g' := entriesKept_of_same hframe.fresh hframe.data
  refine ⟨h.started.trans hframe.fresh.symm, _, hholds', ?_⟩
  have hbounded : ∀ i ∈ ids.filter (fun i => !due now g.para (g.list.node i)), i < g.list.fresh :=
    fun i hi => hholds.bounded i (List.mem_of_mem_filter hi)
  rw [Timers.State.act_expire, deadlines_kept hkept hbounded hframe.timing, hpending,
    List.filter_map]
  refine congrArg (List.map _) (List.filter_congr (fun i _ => ?_))
  exact (due_eq now g.para (g.list.node i)).symm

/-- Every step keeps the list as the timers are kept. -/
theorem keepsTimers_step {e : Event} {acts : List (Timers.Act Int)}
    (h : KeepsTimers (Timers.run acts) g) (hstep : Steps g e g') :
    KeepsTimers (Timers.run (acts ++ timerActs g e)) g' := by
  cases e with
  | message r now m =>
      by_cases htmp : g.tmp.req = .ltuNoAck
      · rcases receive_taken hstep with ⟨-, ⟨-, hsame⟩ | ⟨hne, -⟩⟩
        · simp only [timerActs, htmp, if_true, List.append_nil, hsame]
          exact h
        · exact absurd htmp hne
      · simp only [timerActs, htmp, if_false, Timers.run_snoc]
        exact keepsTimers_message h htmp hstep
  | response r l received => exact keepsTimers_response h hstep
  | sweep now =>
      simp only [timerActs, Timers.run_snoc]
      exact keepsTimers_sweep h hstep
  | check300 now =>
      simp only [timerActs, List.append_nil]
      refine h.same ?_ (step_timing hstep)
      rw [← Except.ok.inj hstep, check300_eq]

theorem keepsTimers_others (h : KeepsTimers t g) (hother : OthersDo g g') : KeepsTimers t g' := by
  rcases h.pending with ⟨ids, hholds, hpending⟩
  have hlist := hother.list
  refine ⟨?_, ids, hlist ▸ hholds, ?_⟩
  · rw [hlist]
    exact h.started
  · rw [hpending]
    refine List.map_congr_left (fun i hi => ?_)
    -- What an entry names is none of the others' business.
    have hsame : deadline g'.para (g'.list.node i) = deadline g.para (g.list.node i) := by
      rw [hlist]
      refine deadline_kept rfl (fun p hp => ?_)
      rw [hother.para ⟨i, hholds.bounded i hi, hp⟩]
    rw [hsame]

end Steps

section Runs

variable {tmp : SCoAPNewRequest} {messageId : UInt16} {para : ParaId → SPthreadPara}
  {es : List (Option Event)} {acts : List (Timers.Act Int)} {g : Gateway}

theorem timers_run (h : Times (initialGateway tmp messageId para) es acts g) :
    KeepsTimers (Timers.run acts) g :=
  reads_history (J := fun acts g => KeepsTimers (Timers.run acts) g)
    (fun _ _ _ _ hi hstep => keepsTimers_step hi hstep)
    (fun _ _ _ hi hother => keepsTimers_others hi hother) h ⟨rfl, [], empty_holds, rfl⟩

/-- In every run of the thread among the others: an entry is in the list if and
    only if it was taken over, and no response since has completed it, and no
    sweep since was made at its deadline or later. -/
theorem pending_run (h : Times (initialGateway tmp messageId para) es acts g) (i : NodeId) :
    g.list.live i = true ↔ ∃ pre post d, acts = pre ++ .start d :: post ∧
      (Timers.run pre).started = i ∧ ∀ a ∈ post, Timers.Spares (i, d) a := by
  have hkeeps := timers_run h
  rcases hkeeps.pending with ⟨ids, hholds, hpending⟩
  rw [hholds.live]
  constructor
  · intro hi
    have hmem : (i, deadline g.para (g.list.node i)) ∈ (Timers.run acts).pending := by
      rw [hpending]
      exact List.mem_map_of_mem hi
    rcases (Timers.pending_iff acts _).mp hmem with ⟨pre, post, hacts, hstarted, hspared⟩
    exact ⟨pre, post, _, hacts, hstarted, hspared⟩
  · rintro ⟨pre, post, d, hacts, hstarted, hspared⟩
    have hmem : (i, d) ∈ (Timers.run acts).pending :=
      (Timers.pending_iff acts (i, d)).mpr ⟨pre, post, hacts, hstarted, hspared⟩
    rw [hpending] at hmem
    rcases List.mem_map.mp hmem with ⟨j, hj, heq⟩
    exact Prod.mk.inj heq |>.1 ▸ hj

/-- A poll with three seconds to wait, swept after one: it was taken over, and
    has been spared since. -/
theorem pending_run_young : ∃ acts g,
    Times (initialGateway .zero 0 (fun _ => ⟨[], 0, 3, false⟩))
      [some (.message ⟨true, true⟩ 0 devicePollMessage), some (.sweep 1)] acts g ∧
    ∃ pre post d, acts = pre ++ .start d :: post ∧
      (Timers.run pre).started = 0 ∧ ∀ a ∈ post, Timers.Spares (0, d) a := by
  rcases sweep_youngPoll with ⟨g, g', hrun, hsweep, hlive⟩
  have hpath : Path OpenStep (initialGateway .zero 0 (fun _ => ⟨[], 0, 3, false⟩))
      [some (.message ⟨true, true⟩ 0 devicePollMessage), some (.sweep 1)] g' :=
    among_path (Path.cons _ _ _ _ _ hrun (Path.cons _ _ _ _ _ hsweep (Path.nil _)))
  rcases reads_path timerActs hpath with ⟨acts, hread⟩
  exact ⟨acts, g', hread, (pending_run hread 0).mp hlive⟩

end Runs

end CoapThread
