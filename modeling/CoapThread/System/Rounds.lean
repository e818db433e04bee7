import CoapThread.System.Messages

/-!
# The One Round

What becomes of the poll thread in the whole program.

It opens a round and comes to its wait. The wait hands it the mutex it had
given up, so the lock behind the wait is one it cannot pass: the statements
that close the round are not reached, and neither is the loop behind them. So
the program is in its first round for good. The registry holds what it held
and nothing is published, and the round stays open.

Of the round's answers there is nothing to be seen either. The branch that
would record them is never entered, so the table of the round is as it was
filled, and no measured value is ever saved. What signals the poll thread, and
what wakes it, is the 300-second check alone.

## Main definitions

* `OneRound`: Where the poll thread can be.
* `FirstRound`: What has not happened yet.
* `Unanswered`: A table without an answer.
* `WokenBy`: A thread that was woken was woken by a check.
* `Wakes`: A step signals or wakes the poll thread.

## Theorems

* `oneRound_step`: Every step keeps the poll thread there.
* `whole_firstRound`: The program does not come behind its first round.
* `whole_unanswered`: No answer is ever recorded.
* `onlyCheck_step`: What signals or wakes the poll thread is a check.
* `whole_wokenBy`: So nothing else ever does.
-/

namespace CoapThread

open CBytes Machine Mutex

variable {ρ : Type}

section Mutex

/-- The poll thread has not waited, or is in its wait, or stands at the lock
    behind it. -/
def OneRound (p : PollState ρ × Bool) : Prop :=
  (BeforeWait p.1 ∧ p.2 = ownsMutex p.1) ∨ (p.1.pc = .blocked ∧ p.2 = false) ∨ Stuck p

variable {R : Registry ρ} {p q : PollState ρ × Bool} {e : PollEvent}

/-- From its wait the thread goes nowhere but to the lock. -/
theorem blocked_step (hpc : p.1.pc = .blocked) (ho : p.2 = false) (h : MutexStep R p e q) :
    (q.1.pc = .blocked ∧ q.2 = false) ∨ Stuck q := by
  cases h with
  | free s t owned _ hop hs =>
      refine Or.inl ⟨?_, ho⟩
      cases hs with
      | receive m q htake => exact hpc
      | answer host d signalled hopen hrun => exact (answer_pc d signalled s).trans hpc
      | check300 now => exact (pollCheck300_pc now s).trans hpc
      | load _ _ hpc' | loadFailed _ _ hpc' | openRound _ hpc' | prepare _ hpc' | send _ _ _ hpc'
      | closeRound hpc' | postProcess _ _ hpc' => cases hpc.symm.trans hpc'
      | lockOpen | unlockOpen | enterWait | leaveWait | lockClose | unlockClose => cases hop
  | lock s t _ hop hs =>
      cases hs with
      | lockOpen hpc' | lockClose hpc' => cases hpc.symm.trans hpc'
      | _ => cases hop
  | perform s t owned _ a hop hne hs =>
      cases hs with
      | leaveWait hpc' =>
          cases hop
          exact Or.inr ⟨rfl, rfl⟩
      | unlockOpen hpc' | enterWait _ hpc' | unlockClose hpc' => cases hpc.symm.trans hpc'
      | lockOpen | lockClose =>
          cases hop
          exact absurd rfl hne
      | _ => cases hop

/-- Into its wait it goes without the mutex. -/
theorem enterWait_step (h : MutexStep R p .enterWait q) : q.1.pc = .blocked ∧ q.2 = false := by
  cases h with
  | free s t owned _ hop _ => cases hop
  | lock s t _ hop _ => cases hop
  | perform s t owned _ a hop _ hs =>
      cases hop
      cases hs
      exact ⟨rfl, rfl⟩

/-- Every step keeps the poll thread in its first round. -/
theorem oneRound_step (hi : OneRound p) (h : MutexStep R p e q) : OneRound q := by
  rcases hi with hbefore | ⟨hpc, ho⟩ | hstuck
  · by_cases he : e = .enterWait
    · subst he
      exact Or.inr (Or.inl (enterWait_step h))
    · -- Up to the wait it is disciplined.
      have hc : SendsLeft p.1 e := by
        cases e with
        | enterWait => exact absurd rfl he
        | _ => trivial
      exact Or.inl ((poll_discipline R).step p e q hbefore hc h)
  · exact Or.inr (blocked_step hpc ho h)
  · exact Or.inr (Or.inr (stuck_step hstuck h))

theorem OneRound.notClosed (h : OneRound p) :
    p.1.pc ≠ .closeRound ∧ p.1.pc ≠ .unlockClose ∧ p.1.pc ≠ .postProcess := by
  rcases h with ⟨⟨-, -, hclose, hunlock, hpost⟩, -⟩ | ⟨hpc, -⟩ | ⟨hpc, -⟩
  · exact ⟨hclose, hunlock, hpost⟩
  · rw [hpc]
    decide
  · rw [hpc]
    decide

end Mutex

section Round

/-- The statements behind the lock have not been reached, the registry holds
    what it held, nothing has been published, and a round that has been opened
    is open. -/
structure FirstRound (db : ρ) (s : PollState ρ) : Prop where
  notClosed : s.pc ≠ .closeRound ∧ s.pc ≠ .unlockClose ∧ s.pc ≠ .postProcess
  registry : s.post.registry = db
  published : s.post.published = []
  stillOpen : s.pc ≠ .load → s.pc ≠ .lockOpen → s.pc ≠ .openRound → s.ycRequest = true

variable {R : Registry ρ} {db : ρ} {s s' : PollState ρ} {e : PollEvent}

theorem signal_post (s : PollState ρ) : (signal s).post = s.post := by
  unfold signal
  split_ifs <;> rfl

/-- A state of the first round that differs in nothing `FirstRound` reads. -/
theorem FirstRound.congr (h : FirstRound db s) (hpc : s'.pc = s.pc) (hpost : s'.post = s.post)
    (hflag : s'.ycRequest = s.ycRequest) : FirstRound db s' := by
  refine ⟨?_, ?_, ?_, ?_⟩
  · rw [hpc]
    exact h.notClosed
  · rw [hpost]
    exact h.registry
  · rw [hpost]
    exact h.published
  · rw [hpc, hflag]
    exact h.stillOpen

theorem firstRound_step (hi : FirstRound db s) (h : PollStep R s e s')
    (hnot : s'.pc ≠ .closeRound ∧ s'.pc ≠ .unlockClose ∧ s'.pc ≠ .postProcess) :
    FirstRound db s' := by
  have hopen : s.ycRequest = true → FirstRound db { s' with
      post := s.post
      ycRequest := s.ycRequest } :=
    fun hflag => ⟨hnot, hi.registry, hi.published, fun _ _ _ => hflag⟩
  cases h with
  | load | lockOpen => exact ⟨hnot, hi.registry, hi.published, fun h1 h2 h3 => by simp at h2 h3⟩
  | loadFailed r d hpc => exact hi.congr rfl rfl rfl
  | openRound now hpc => exact ⟨hnot, hi.registry, hi.published, fun _ _ _ => rfl⟩
  | unlockOpen hpc | prepare junk hpc | send i device tmp hpc | enterWait i hpc | leaveWait hpc
  | lockClose hpc =>
      refine hopen (hi.stillOpen ?_ ?_ ?_) <;> rw [hpc] <;> exact nofun
  | closeRound => exact absurd rfl hnot.2.1
  | unlockClose => exact absurd rfl hnot.2.2
  | postProcess es post hpc => exact absurd hpc hi.notClosed.2.2
  | receive m q => exact hi.congr rfl rfl rfl
  | answer host d signalled =>
      unfold answer
      simp only []
      split_ifs
      · exact hi.congr (signal_pc _) (signal_post _) (signal_shared _).2
      · exact hi.congr rfl rfl rfl
  | check300 now =>
      unfold pollCheck300
      split_ifs
      · exact hi.congr (signal_pc _) (signal_post _) (signal_shared _).2
      · exact hi
      · exact hi

/-- In every run of the poll thread beside the mutex, whatever the CoAP thread
    does: the thread does not come behind its first round. -/
theorem firstRound_run {tmp : SCoAPNewRequest} {queue : Fifo SCoAPNewRequest coapRxMQmaxmsg}
    {es : List PollEvent} {p : PollState ρ × Bool}
    (h : Path (MutexStep R) (pollStart tmp queue db, false) es p) :
    OneRound p ∧ FirstRound db p.1 := by
  refine path_invariant (I := fun p => OneRound p ∧ FirstRound db p.1) ?_ h ?_
  · rintro ⟨s, o⟩ e ⟨s', o'⟩ ⟨hround, hfirst⟩ hstep
    have hround' := oneRound_step hround hstep
    exact ⟨hround', firstRound_step hfirst (mutexStep_pollStep hstep) hround'.notClosed⟩
  · refine ⟨Or.inl ⟨?_, rfl⟩, ?_, rfl, rfl, fun hload _ _ => absurd rfl hload⟩
    · simp [BeforeWait, pollStart]
    · simp [pollStart]

end Round

section Answers

/-- A table in which no answer has been recorded. -/
structure Unanswered (d : SDeviceInfo) : Prop where
  count : d.count = 0
  state : ∀ e ∈ d.pLTUInfo, e.state = 0

/-- The table is filled without answers, where it can be filled. -/
theorem unanswered_registered {r : RegistryReply} {d d' : SDeviceInfo} {ok : Bool}
    (hd : Unanswered d) (h : getRegisteredDeviceInfo r d = .ok (d', ok)) : Unanswered d' := by
  have hcalloc : ∀ (n : Nat), ∀ e ∈ List.replicate n (LTUInfor.ofName []), e.state = 0 := by
    intro n e he
    rw [List.eq_of_mem_replicate he]
    rfl
  unfold getRegisteredDeviceInfo at h
  rcases hcount : r.count with _ | num
  · rw [hcount] at h
    cases h
    exact ⟨hd.count, hd.state⟩
  rw [hcount] at h
  simp only [] at h
  split_ifs at h with halloc
  · rcases hentries : r.entries with _ | entries
    · rw [hentries] at h
      cases h
      exact ⟨hd.count, hcalloc _⟩
    rw [hentries] at h
    simp only [] at h
    split_ifs at h with hfits
    cases h
    refine ⟨rfl, fun e he => ?_⟩
    rcases List.mem_append.mp he with he | he
    · rcases List.mem_map.mp he with ⟨e', -, rfl⟩
      rfl
    · exact hcalloc _ e (List.mem_of_mem_drop he)
  · cases h
    exact ⟨hd.count, fun e he => absurd he List.not_mem_nil⟩

variable {R : Registry ρ} {w w' : Whole ρ}

/-- A statement of the poll thread records no answer. -/
theorem unanswered_statement {s s' : PollState ρ} {e : PollEvent} (he : OwnStatement e)
    (hs : Unanswered s.deviceInfo) (h : PollStep R s e s') : Unanswered s'.deviceInfo := by
  cases h with
  | load r d hpc hload | loadFailed r d hpc hload => exact unanswered_registered hs hload
  | openRound now hpc => exact ⟨hs.count, hs.state⟩
  | postProcess es post hpc hrun => exact ⟨hs.count, fun e he => absurd he List.not_mem_nil⟩
  | receive | answer | check300 => exact absurd he (fun h => h)
  | _ => exact hs

/-- No step of the CoAP thread changes the table. -/
theorem after_deviceInfo {l : LoopState} {e : Option Event} (h : LoopStep w.view e l) :
    (w.after l).poll.deviceInfo = w.poll.deviceInfo := by
  rw [(after_shared w l).1]
  rcases loopStep_steps h with ⟨-, hsame⟩ | ⟨e', -, hstep⟩
  · rw [hsame]
    rfl
  · exact (step_shared hstep).1

theorem unanswered_step {e : WholeEvent} (hi : Unanswered w.poll.deviceInfo)
    (h : WholeStep R w e w') : Unanswered w'.poll.deviceInfo := by
  cases h with
  | poll e s owned he hstep => exact unanswered_statement he hi (mutexStep_pollStep hstep)
  | timedOut l _ hstep | coap e l he hstep =>
      rw [after_deviceInfo hstep]
      exact hi
  | message r now m q l htake hstep =>
      rw [after_deviceInfo (w := { w with
        poll := { w.poll with queue := q, taken := w.poll.taken ++ [m] } }) hstep]
      exact hi
  | keyL | keyA => exact hi

/-- In every run of the CoAP thread among the others no value is saved. -/
theorem noSave_run {tmp : SCoAPNewRequest} {messageId : UInt16} {para : ParaId → SPthreadPara}
    {es : List (Option Event)} {g : Gateway}
    (h : Path OpenStep (initialGateway tmp messageId para) es g) (name value : List UInt8) :
    Output.saveDouble name value ∉ g.outputs := by
  refine among_invariant (I := fun g => Output.saveDouble name value ∉ g.outputs) ?_ ?_ h
    List.not_mem_nil
  · intro s e t hno hstep hmem
    rcases step_outputs hstep with ⟨os, hout, hpermitted⟩
    rw [hout] at hmem
    exact (List.mem_append.mp hmem).elim hno (fun hnew => hpermitted _ hnew)
  · intro s t hno hother
    cases hother
    exact hno

end Answers

section Waking

/-- A poll thread that has been woken, and has not gone on since, was woken by
    a check. -/
structure WokenBy (es : List WholeEvent) (s : PollState ρ) : Prop where
  blocked : s.woken = true → s.pc = .blocked
  check : s.woken = true ∨ s.pc = .lockClose → ∃ now, .coap (.check300 now) ∈ es

variable {R : Registry ρ} {es : List WholeEvent} {s s' : PollState ρ} {w w' : Whole ρ}

theorem WokenBy.later (h : WokenBy es s) (e : WholeEvent) : WokenBy (es ++ [e]) s := by
  refine ⟨h.blocked, fun hwoken => ?_⟩
  rcases h.check hwoken with ⟨now, hmem⟩
  exact ⟨now, List.mem_append_left _ hmem⟩

/-- A thread that has not been woken and is not behind its wait. -/
theorem wokenBy_of_not (hwoken : s.woken = false) (hpc : s.pc ≠ .lockClose) : WokenBy es s := by
  refine ⟨fun hc => ?_, fun hc => ?_⟩
  · rw [hwoken] at hc
    cases hc
  · rcases hc with hc | hc
    · rw [hwoken] at hc
      cases hc
    · exact absurd hc hpc

theorem wokenBy_statement {e : PollEvent} (he : OwnStatement e) (hi : WokenBy es s)
    (h : PollStep R s e s') : WokenBy es s' := by
  -- Anywhere but in its wait the thread has not been woken.
  have hwoken : s.pc ≠ .blocked → s.woken = false := by
    intro hpc
    rw [← Bool.not_eq_true]
    exact fun hc => hpc (hi.blocked hc)
  cases h with
  | load r d hpc | lockOpen hpc | openRound now hpc | unlockOpen hpc | prepare junk hpc
  | send i device tmp hpc | lockClose hpc | closeRound hpc | unlockClose hpc
  | postProcess es post hpc =>
      exact wokenBy_of_not (hwoken (by rw [hpc]; exact nofun)) nofun
  | loadFailed r d hpc =>
      exact wokenBy_of_not (hwoken (by rw [hpc]; exact nofun)) (by rw [hpc]; exact nofun)
  | enterWait i hpc => exact wokenBy_of_not rfl nofun
  | leaveWait hpc hw =>
      refine ⟨fun hc => ?_, fun _ => hi.check (Or.inl hw)⟩
      cases hc
  | receive | answer | check300 => exact absurd he (fun h => h)

theorem wokenBy_check300 (now : Int) (hi : WokenBy es s) :
    WokenBy (es ++ [.coap (.check300 now)]) (pollCheck300 now s) := by
  unfold pollCheck300 signal
  split_ifs with hopen hold hpc
  · exact ⟨fun _ => hpc, fun _ => ⟨now, List.mem_append_right _ (List.mem_singleton_self _)⟩⟩
  · exact hi.later _
  · exact hi.later _
  · exact hi.later _

/-- A step of the program keeps the reason. -/
theorem wokenBy_step {e : WholeEvent} (hi : WokenBy es w.poll) (h : WholeStep R w e w') :
    WokenBy (es ++ [e]) w'.poll := by
  cases h with
  | poll e s owned he hstep =>
      exact (wokenBy_statement he hi (mutexStep_pollStep hstep)).later _
  | timedOut l _ hstep =>
      rw [after_quiet hstep (fun _ => nofun)]
      exact hi.later _
  | message r now m q l htake hstep =>
      have hsame := after_quiet (w := { w with
        poll := { w.poll with queue := q, taken := w.poll.taken ++ [m] } }) hstep (fun _ => nofun)
      rw [hsame]
      exact ⟨hi.blocked, (hi.later _).check⟩
  | coap e l he hstep =>
      cases e with
      | message r now m => exact absurd he (fun h => h)
      | check300 now =>
          rw [after_check300 hstep]
          exact wokenBy_check300 now hi
      | response | sweep =>
          rw [after_quiet hstep (fun _ => nofun)]
          exact hi.later _
  | keyL | keyA => exact ⟨hi.blocked, (hi.later _).check⟩

/-- A step signals the round, or the poll thread stands woken behind it and did
    not before. -/
def Wakes (w w' : Whole ρ) : Prop :=
  Output.signalYC ∈ newOutputs w.loop.gateway w'.loop.gateway ∨
    (w.poll.woken = false ∧ w'.poll.woken = true)

theorem not_wakes_of_same (hout : w'.loop.gateway.outputs = w.loop.gateway.outputs)
    (hwoken : w'.poll.woken = true → w.poll.woken = true) : ¬ Wakes w w' := by
  rintro (hmem | ⟨hno, hyes⟩)
  · have hnew : newOutputs w.loop.gateway w'.loop.gateway = [] :=
      newOutputs_of_append (hout.trans (List.append_nil _).symm)
    rw [hnew] at hmem
    exact List.not_mem_nil hmem
  · exact Bool.false_ne_true (hno.symm.trans (hwoken hyes))

theorem not_wakes_of_quiet {l : LoopState} {e : Option Event} (h : LoopStep w.view e l)
    (he : ∀ now, e ≠ some (.check300 now)) : ¬ Wakes w (w.after l) := by
  rintro (hmem | ⟨hno, hyes⟩)
  · exact quiet_outputs h he hmem
  · rw [after_quiet h he] at hyes
    exact Bool.false_ne_true (hno.symm.trans hyes)

/-- What signals or wakes the poll thread is a check. No response does, with
    whatever it carries. -/
theorem onlyCheck_step {e : WholeEvent} (h : WholeStep R w e w') (hwakes : Wakes w w') :
    ∃ now, e = .coap (.check300 now) := by
  cases h with
  | poll e s owned he hstep =>
      refine absurd hwakes (not_wakes_of_same rfl (fun hwoken => ?_))
      cases mutexStep_pollStep hstep with
      | receive | answer | check300 => exact absurd he (fun h => h)
      | enterWait | leaveWait => cases hwoken
      | _ => exact hwoken
  | timedOut l _ hstep => exact absurd hwakes (not_wakes_of_quiet hstep (fun _ => nofun))
  | message r now m q l htake hstep =>
      exact absurd hwakes (not_wakes_of_quiet (w := { w with
        poll := { w.poll with queue := q, taken := w.poll.taken ++ [m] } }) hstep (fun _ => nofun))
  | coap e l he hstep =>
      cases e with
      | message r now m => exact absurd he (fun h => h)
      | check300 now => exact ⟨now, rfl⟩
      | response | sweep => exact absurd hwakes (not_wakes_of_quiet hstep (fun _ => nofun))
  | keyL | keyA => exact absurd hwakes (not_wakes_of_same rfl id)

end Waking

section Runs

variable {R : Registry ρ} {w : Whole ρ} {tmp tmp' : SCoAPNewRequest} {messageId : UInt16}
  {para : ParaId → SPthreadPara} {db : ρ} {es : List WholeEvent}

/-- In every run of the program: the poll thread does not come behind its first
    round, the registry holds what it held, nothing is published, and the round
    stays open. -/
theorem whole_firstRound
    (h : Path (WholeStep R) (wholeStart tmp tmp' messageId para db) es w) :
    FirstRound db w.poll := by
  rcases whole_mutexStep h with ⟨t, hp, hsame⟩
  have hfirst := (firstRound_run hp).2
  cases hsame with
  | upToQueue => exact hfirst.congr rfl rfl rfl

/-- The round that ends by the check is still the first. -/
theorem whole_firstRound_woken : ∃ w : Whole (List UInt8 → Option LTUInfor),
    w.poll.woken = true ∧ FirstRound (fun _ => none) w.poll := by
  rcases answeredRun_path with ⟨w, m, q, hp, hwoken, -⟩
  exact ⟨w, hwoken, whole_firstRound hp⟩

/-- In every run of the program: no answer is recorded in the device table, and
    no measured value is saved. -/
theorem whole_unanswered
    (h : Path (WholeStep R) (wholeStart tmp tmp' messageId para db) es w) :
    Unanswered w.poll.deviceInfo ∧
      ∀ name value, Output.saveDouble name value ∉ w.loop.gateway.outputs := by
  refine ⟨path_invariant (I := fun w : Whole ρ => Unanswered w.poll.deviceInfo)
    (fun _ _ _ hi hstep => unanswered_step hi hstep) h
    ⟨rfl, fun e he => absurd he List.not_mem_nil⟩, fun name value => ?_⟩
  rcases whole_openStep h with ⟨es', hp⟩
  exact noSave_run hp name value

/-- A response under the device's name has been handled, and told a requester of
    success, but has not been recorded. -/
theorem whole_unanswered_answered : ∃ w : Whole (List UInt8 → Option LTUInfor),
    w.poll.woken = true ∧ .signal 0 false ∈ w.loop.gateway.outputs ∧
      Unanswered w.poll.deviceInfo ∧
      ∀ name value, Output.saveDouble name value ∉ w.loop.gateway.outputs := by
  rcases answeredRun_path with ⟨w, m, q, hp, hwoken, -, -, -, -, -, -, hsignal⟩
  exact ⟨w, hwoken, hsignal, whole_unanswered hp⟩

/-- In every run of the program: if the poll thread has been woken, a 300-second
    check has been made, and in the state reached nothing but such a check
    signals the poll thread or wakes it. -/
theorem whole_wokenBy (h : Path (WholeStep R) (wholeStart tmp tmp' messageId para db) es w) :
    (w.poll.woken = true ∨ w.poll.pc = .lockClose → ∃ now, .coap (.check300 now) ∈ es) ∧
      ∀ e w', WholeStep R w e w' → Wakes w w' → ∃ now, e = .coap (.check300 now) := by
  have hstart : WokenBy [] (wholeStart tmp tmp' messageId para db).poll := wokenBy_of_not rfl nofun
  exact ⟨(path_history (J := fun es w => WokenBy es w.poll) hstart
    (fun _ _ _ _ hi hstep => wokenBy_step hi hstep) h).check, fun _ _ => onlyCheck_step⟩

/-- The round has been woken by its check. -/
theorem whole_wokenBy_woken : ∃ w : Whole (List UInt8 → Option LTUInfor),
    w.poll.woken = true ∧ (∃ now, .coap (.check300 now) ∈ answeredRun) ∧
      ∀ e w', WholeStep mapRegistry w e w' → Wakes w w' → ∃ now, e = .coap (.check300 now) := by
  rcases answeredRun_path with ⟨w, m, q, hp, hwoken, -⟩
  rcases whole_wokenBy hp with ⟨hcheck, honly⟩
  exact ⟨w, hwoken, hcheck (Or.inl hwoken), honly⟩

end Runs

end CoapThread
