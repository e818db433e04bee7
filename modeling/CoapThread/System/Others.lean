import CoapThread.Library.Environment
import CoapThread.Theory.RequestCleanup

/-!
# The CoAP Thread Among the Others

What the CoAP thread shares with the other threads, and what it does to that.

The poll thread fills the device table and sets the request flag; whoever
wants something allocates a requester and fills it in before the message that
names it is sent. So between two steps of the CoAP thread the table, the flag
and the requesters that no entry names may come to hold anything, and nothing
else changes. `OthersDo` is that, and a run among the others is one for every
schedule and for every program the others might run instead.

The thread in turn does less to what is shared than its source looks like. The
table and the flag are written in the measurement branch alone, which is never
entered, so a step leaves both as they are, saves no measured value, and
signals the round only from the 300-second check.

## Main definitions

* `IsNamed`: An entry names the requester.
* `OthersDo`: What the other threads may do.
* `OpenStep`: The thread among the others.
* `Overdue`: The 300-second check finds the round too old.
* `Permitted`: A call a step may make.

## Theorems

* `sweep_invariant`: What releasing entries that are due keeps, a sweep keeps.
* `receive_taken`: What taking a message over does to the list.
* `step_shared`: A step leaves the table and the flag as they are.
* `step_outputs`: The calls a step makes are all permitted.
* `step_data`, `step_entry`: A step keeps every request that has been stored,
  and stores the message that is taken over.
* `step_timing`: It changes no time a requester allows.
-/

namespace CoapThread

open CBytes DeltaOption Machine

/-- An entry that has been stored names the requester. -/
def IsNamed (g : Gateway) (p : ParaId) : Prop :=
  ∃ i < g.list.fresh, (g.list.node i).pthpara = some p

/-- What the other threads may do: change the device table, the request flag,
    and the requesters no entry names. -/
inductive OthersDo (g : Gateway) : Gateway → Prop where
  | shared (d : SDeviceInfo) (y : Bool) (para : ParaId → SPthreadPara) :
      (∀ p, IsNamed g p → para p = g.para p) →
      OthersDo g { g with deviceInfo := d, ycRequest := y, para := para }

theorem OthersDo.refl (g : Gateway) : OthersDo g g :=
  OthersDo.shared g.deviceInfo g.ycRequest g.para (fun _ _ => rfl)

theorem OthersDo.list {g g' : Gateway} (h : OthersDo g g') : g'.list = g.list := by
  cases h
  rfl

theorem OthersDo.para {g g' : Gateway} (h : OthersDo g g') {p : ParaId} (hp : IsNamed g p) :
    g'.para p = g.para p := by
  cases h with
  | shared d y para hpara => exact hpara p hp

theorem OthersDo.named {g g' : Gateway} (h : OthersDo g g') {p : ParaId} (hp : IsNamed g p) :
    IsNamed g' p := by
  unfold IsNamed
  rw [h.list]
  exact hp

/-- The CoAP thread among the others. -/
abbrev OpenStep : Gateway → Option Event → Gateway → Prop := Among Steps OthersDo

section Sweeps

/-- What every release of an entry that is due keeps, a sweep keeps. -/
theorem sweep_invariant {now : Int} {I : Gateway → Prop}
    (hkeep : ∀ el p g g', I g → (g.list.node el).pthpara = some p →
      (g.para p).timing ≤ now - (g.list.node el).time → release true el p g = .ok g' → I g')
    {g g' : Gateway} (h : sweep now g = .ok g') (hg : I g) : I g' := by
  -- The bound on the steps and the node the walk begins at are any.
  have hfrom : ∀ n cur g, sweepFrom now n cur g = .ok g' → I g → I g' := by
    intro n
    induction n with
    | zero =>
        intro cur g h hg
        exact Except.ok.inj h ▸ hg
    | succ n ih =>
        intro cur g h hg
        rcases cur with _ | pt
        · exact Except.ok.inj h ▸ hg
        simp only [sweepFrom] at h
        rcases hp : (g.list.node pt).pthpara with _ | p
        · rw [hp] at h
          cases h
        rw [hp] at h
        simp only [] at h
        split_ifs at h with hdue
        · rcases hrel : release true pt p g with f | g₁
          · rw [hrel] at h
            cases h
          rw [hrel] at h
          exact ih _ g₁ h (hkeep pt p g g₁ hg hp hdue hrel)
        · exact ih _ g h hg
  exact hfrom g.list.fresh g.list.head g h hg

end Sweeps

section Entries

/-- What taking a message over does to the list: nothing behind an `LTU_NOACK`,
    and otherwise the message with its time is appended. -/
theorem receive_taken {r : LibcoapResult} {now : Int} {m : SCoAPNewRequest} {g g' : Gateway}
    (h : receive r now m g = .ok g') : g'.para = g.para ∧
      ((g.tmp.req = .ltuNoAck ∧ g' = g) ∨
        (g.tmp.req ≠ .ltuNoAck ∧ g'.tmp = { m with time := now } ∧
          g'.list = addPthreadRequestToList g.list { m with time := now })) := by
  cases receive_iff.mp h with
  | dropped hnoack => exact ⟨rfl, Or.inl ⟨hnoack, rfl⟩⟩
  | polled htmp | requested htmp | kept htmp => exact ⟨rfl, Or.inr ⟨htmp, rfl, rfl⟩⟩

/-- Later entries come behind the stored ones, and these keep their requests. -/
structure EntriesKept (g g' : Gateway) : Prop where
  fresh : g.list.fresh ≤ g'.list.fresh
  data : ∀ i < g.list.fresh, (g'.list.node i).data = (g.list.node i).data

theorem EntriesKept.named {g g' : Gateway} (h : EntriesKept g g') {p : ParaId} (hp : IsNamed g p) :
    IsNamed g' p := by
  rcases hp with ⟨i, hi, hsome⟩
  exact ⟨i, Nat.lt_of_lt_of_le hi h.fresh, (pthpara_of_data (h.data i hi)).trans hsome⟩

theorem entriesKept_of_same {g g' : Gateway} (hfresh : g'.list.fresh = g.list.fresh)
    (hdata : ∀ i, (g'.list.node i).data = (g.list.node i).data) : EntriesKept g g' :=
  ⟨Nat.le_of_eq hfresh.symm, fun i _ => hdata i⟩

/-- A release changes what a sweep may change and nothing else. -/
theorem release_sweepFrame {timeout : Bool} {el : NodeId} {p : ParaId} {g g' : Gateway}
    (h : release timeout el p g = .ok g') : SweepFrame g g' := by
  rcases release_ok h with ⟨list, hg', hfresh, hdata⟩
  subst hg'
  exact release_frame p timeout _ hfresh hdata

theorem release_entries {timeout : Bool} {el : NodeId} {p : ParaId} {g g' : Gateway}
    (h : release timeout el p g = .ok g') : EntriesKept g g' :=
  entriesKept_of_same (release_sweepFrame h).fresh (release_sweepFrame h).data

/-- A step keeps every request that has been stored. -/
theorem step_data {g g' : Gateway} {e : Event} (h : Steps g e g') : EntriesKept g g' := by
  cases e with
  | message r now m =>
      rcases (receive_taken h).2 with ⟨-, hsame⟩ | ⟨-, -, hlist⟩
      · rw [hsame]
        exact entriesKept_of_same rfl (fun _ => rfl)
      · refine ⟨?_, fun i hi => ?_⟩
        · rw [hlist, add_fresh]
          exact Nat.le_succ _
        · rw [hlist, add_data, if_neg (Nat.ne_of_lt hi)]
  | response r l received =>
      cases messageHandler_handled h with
      | ignored | other | continued => exact entriesKept_of_same rfl (fun _ => rfl)
      | completed value path el block p _ _ _ _ _ _ _ _ hrel =>
          have hkept := release_entries hrel
          exact ⟨hkept.fresh, hkept.data⟩
  | sweep now =>
      have hframe := sweep_frame h
      exact entriesKept_of_same hframe.fresh hframe.data
  | check300 now =>
      rw [← Except.ok.inj h, check300_eq]
      exact entriesKept_of_same rfl (fun _ => rfl)

/-- An entry was there before the step, or it is the message taken over. -/
theorem step_entry {g g' : Gateway} {e : Event} (h : Steps g e g') (i : NodeId)
    (hi : i < g'.list.fresh) :
    (i < g.list.fresh ∧ (g'.list.node i).data = (g.list.node i).data) ∨
      ∃ r now m, e = .message r now m ∧ i = g.list.fresh ∧
        (g'.list.node i).data = { m with time := now }.data := by
  have hkept := step_data h
  by_cases hold : i < g.list.fresh
  · exact Or.inl ⟨hold, hkept.data i hold⟩
  cases e with
  | message r now m =>
      rcases (receive_taken h).2 with ⟨-, hsame⟩ | ⟨-, -, hlist⟩
      · exact absurd (hsame ▸ hi) hold
      · rw [hlist, add_fresh] at hi
        have hnew : i = g.list.fresh :=
          Nat.le_antisymm (Nat.le_of_lt_succ hi) (Nat.le_of_not_lt hold)
        refine Or.inr ⟨r, now, m, rfl, hnew, ?_⟩
        rw [hlist, add_data, if_pos hnew]
  | response r l received =>
      have hfresh : g'.list.fresh = g.list.fresh := by
        cases messageHandler_handled h with
        | ignored | other | continued => rfl
        | completed value path el block p _ _ _ _ _ _ _ _ hrel =>
            exact (release_sweepFrame hrel).fresh
      exact absurd (hfresh ▸ hi) hold
  | sweep now => exact absurd ((sweep_frame h).fresh ▸ hi) hold
  | check300 now =>
      rw [← Except.ok.inj h, check300_eq] at hi
      exact absurd hi hold

/-- Appending a payload leaves the time a requester allows. -/
theorem appended_timing (received : CoapPdu) (entry : SCoAPNewRequest)
    (para : ParaId → SPthreadPara) (p : ParaId) :
    (appended received entry para p).timing = (para p).timing := by
  unfold appended
  rcases coapGetData received with _ | databuf
  · rfl
  rcases entry.pthpara with _ | q
  · rfl
  by_cases hq : p = q
  · simp only [hq, Function.update_self, SPthreadPara.append]
  · simp only [Function.update_of_ne hq]

/-- No step changes the time a requester allows. -/
theorem step_timing {g g' : Gateway} {e : Event} (h : Steps g e g') (p : ParaId) :
    (g'.para p).timing = (g.para p).timing := by
  cases e with
  | message r now m => rw [(receive_taken h).1]
  | response r l received =>
      cases messageHandler_handled h with
      | ignored | other => rfl
      | continued value path el block => exact appended_timing received _ _ p
      | completed value path el block q _ _ _ _ _ _ _ _ hrel =>
          exact ((release_sweepFrame hrel).timing p).trans (appended_timing received _ _ p)
  | sweep now => exact (sweep_frame h).timing p
  | check300 now => rw [← Except.ok.inj h, check300_eq]

end Entries

section Shared

/-- A step leaves the device table and the request flag as they are. -/
theorem step_shared {g g' : Gateway} {e : Event} (h : Steps g e g') :
    g'.deviceInfo = g.deviceInfo ∧ g'.ycRequest = g.ycRequest := by
  cases e with
  | message r now m =>
      cases receive_iff.mp h with
      | dropped | polled | requested | kept => exact ⟨rfl, rfl⟩
  | response r l received =>
      cases messageHandler_handled h with
      | ignored | other | continued => exact ⟨rfl, rfl⟩
      | completed value path el block p _ _ _ _ _ _ _ _ hrel =>
          exact ⟨(release_sweepFrame hrel).deviceInfo, (release_sweepFrame hrel).ycRequest⟩
  | sweep now =>
      have hframe := sweep_frame h
      exact ⟨hframe.deviceInfo, hframe.ycRequest⟩
  | check300 now =>
      rw [← Except.ok.inj h, check300_eq]
      exact ⟨rfl, rfl⟩

/-- The round is open and older than the check allows. -/
def Overdue (g : Gateway) (now : Int) : Prop :=
  g.ycRequest = true ∧ 300 ≤ now - g.deviceInfo.time

/-- A call a step may make: no measured value is saved, and the round is
    signalled by the check on a round that is overdue. -/
def Permitted (g : Gateway) (e : Event) : Output → Prop
  | .saveDouble _ _ => False
  | .signalYC => ∃ now, e = .check300 now ∧ Overdue g now
  | _ => True

/-- A step has made permitted calls and no others. -/
def MakesPermitted (g : Gateway) (e : Event) (g' : Gateway) : Prop :=
  ∃ os, g'.outputs = g.outputs ++ os ∧ ∀ o ∈ os, Permitted g e o

theorem makesPermitted_of_outputs {g g' : Gateway} {e : Event} {os : List Output}
    (h : g'.outputs = g.outputs ++ os) (hos : ∀ o ∈ os, Permitted g e o) :
    MakesPermitted g e g' := ⟨os, h, hos⟩

theorem permitted_acked (g : Gateway) (e : Event) (received : CoapPdu) :
    MakesPermitted g e (acked received g) := by
  refine makesPermitted_of_outputs rfl (fun o ho => ?_)
  split_ifs at ho
  · rw [List.mem_singleton.mp ho]
    trivial
  · exact absurd ho List.not_mem_nil

theorem permitted_release {g g₁ g' : Gateway} {e : Event} {timeout : Bool} {el : NodeId}
    {p : ParaId} (h : MakesPermitted g e g₁) (hrel : release timeout el p g₁ = .ok g') :
    MakesPermitted g e g' := by
  rcases h with ⟨os, hos, hall⟩
  rcases release_ok hrel with ⟨list, hg', -⟩
  have hout : g'.outputs = g.outputs ++ (os ++ [.signal p timeout, .free el]) := by
    rw [hg', ← List.append_assoc, ← hos]
    rfl
  refine makesPermitted_of_outputs hout ?_
  simp only [List.forall_mem_append, List.forall_mem_cons]
  exact ⟨hall, trivial, trivial, fun _ h => absurd h List.not_mem_nil⟩

theorem permitted_refused (r : LibcoapResult) (g g₁ : Gateway) (e : Event) :
    ∀ o ∈ pollRefused r g₁, Permitted g e o := by
  unfold pollRefused
  split_ifs
  · exact fun _ h => absurd h List.not_mem_nil
  · simp only [List.forall_mem_cons]
    exact ⟨trivial, trivial, fun _ h => absurd h List.not_mem_nil⟩

theorem permitted_nextBlock (r : LibcoapResult) (block : View) (entry : SCoAPNewRequest)
    (g g₁ : Gateway) (e : Event) : ∀ o ∈ nextBlockOutputs r block entry g₁, Permitted g e o := by
  unfold nextBlockOutputs
  split_ifs
  · simp only [List.nil_append, List.forall_mem_cons]
    exact ⟨trivial, trivial, fun _ h => absurd h List.not_mem_nil⟩
  · simp only [List.singleton_append, List.forall_mem_cons]
    exact ⟨trivial, trivial, trivial, fun _ h => absurd h List.not_mem_nil⟩

/-- The calls a step makes are all permitted. -/
theorem step_outputs {g g' : Gateway} {e : Event} (h : Steps g e g') : MakesPermitted g e g' := by
  have hnone : ∀ o ∈ ([] : List Output), Permitted g e o := fun _ h => absurd h List.not_mem_nil
  cases e with
  | message r now m =>
      cases receive_iff.mp h with
      | dropped | kept => exact makesPermitted_of_outputs (List.append_nil _).symm hnone
      | polled =>
          refine makesPermitted_of_outputs rfl (List.forall_mem_cons.mpr ⟨trivial, ?_⟩)
          exact permitted_refused r g _ _
      | requested =>
          refine makesPermitted_of_outputs rfl (List.forall_mem_cons.mpr ⟨trivial, ?_⟩)
          exact List.forall_mem_cons.mpr ⟨trivial, hnone⟩
  | response r l received =>
      have hacked := permitted_acked g (.response r l received) received
      cases messageHandler_handled h with
      | ignored | other => exact hacked
      | continued value path el block =>
          rcases hacked with ⟨os, hos, hall⟩
          refine ⟨os ++ nextBlockOutputs r block (g.list.node el) g, ?_,
            List.forall_mem_append.mpr ⟨hall, permitted_nextBlock r block _ g g _⟩⟩
          rw [← List.append_assoc, ← hos]
      | completed value path el block p _ _ _ _ _ _ _ _ hrel =>
          refine permitted_release ?_ hrel
          exact hacked
  | sweep now =>
      refine sweep_invariant (I := MakesPermitted g (.sweep now)) ?_ h
        (makesPermitted_of_outputs (List.append_nil _).symm hnone)
      exact fun el p g₁ g₂ hg₁ _ _ hrel => permitted_release hg₁ hrel
  | check300 now =>
      rw [← Except.ok.inj h]
      unfold check300
      split_ifs with hopen hold
      · refine makesPermitted_of_outputs rfl (fun o ho => ?_)
        rw [List.mem_singleton.mp ho]
        exact ⟨now, rfl, hopen, hold⟩
      · exact makesPermitted_of_outputs (List.append_nil _).symm hnone
      · exact makesPermitted_of_outputs (List.append_nil _).symm hnone

end Shared

end CoapThread
