import CoapThread.Core.Poll
import CoapThread.Library.Mutex

/-!
# The Mutex of the Poll Thread

Whether the poll thread uses `YCRequestmtx` as a mutex and a wait have to be
used.

Nobody else locks it, so the thread and a flag are the whole picture, and
`MutexStep` puts the two together. The round is opened under the mutex and the
mutex is given up before the sends, so the thread does not own it where it
waits. The wake-up hands it over all the same, and the lock that closes the
round then asks for what the thread has.

Up to its first wait the thread is disciplined: `poll_discipline` names the two
places where it owns the mutex. After its first wait it stands at the closing
lock for good, whatever the CoAP thread does.

## Main definitions

* `mutexOp`: The labels that are an operation on the mutex.
* `WellLocked`: Every operation of a run is legal, the thread never waits for
  itself, and after a wake-up it can go on to the next round.
* `SendsLeft`: The wait is not entered.

## Theorems

* `poll_discipline`: Up to its first wait the thread is disciplined.
* `wellLocked_iff`: The mutex is used well exactly up to the first wait.
* `not_wellLocked_firstRound`: The first round of one device.
* `stuck_path`: A thread that has been woken stays where it is.
-/

namespace CoapThread

open Machine Mutex

variable {ρ : Type}

/-- The labels that are an operation on the mutex. -/
def mutexOp : PollEvent → Option Op
  | .lock => some .lock
  | .unlock => some .unlock
  | .enterWait => some .wait
  | .leaveWait => some .wake
  | _ => none

/-- The poll thread beside its mutex. -/
def MutexStep (R : Registry ρ) : PollState ρ × Bool → PollEvent → PollState ρ × Bool → Prop :=
  Owning (PollStep R) mutexOp

/-- After a wake-up the thread can reach the next round. -/
def Returns (R : Registry ρ) (p : PollState ρ × Bool) (e : PollEvent) : Prop :=
  e = .leaveWait → ∀ q, MutexStep R p e q → ∃ fs r, Path (MutexStep R) q fs r ∧ r.1.pc = .load

/-- A run uses the mutex well. -/
structure WellLocked (R : Registry ρ) (p : PollState ρ × Bool) (es : List PollEvent) : Prop where
  legal : Along (MutexStep R) (LegalAt (PollStep R) mutexOp) p es
  free : Throughout (MutexStep R) (fun q => ¬ SelfBlocked (PollStep R) mutexOp q) p es
  returns : Along (MutexStep R) (Returns R) p es

/-- A step into the wait is tried only with devices left to send to, where it
    is not taken. -/
def SendsLeft (s : PollState ρ) : PollEvent → Prop
  | .enterWait => ∀ i, s.pc = .send i → i < s.deviceInfo.num.toNat
  | _ => True

/-- Where the thread owns the mutex, as long as it has not waited. -/
def ownsMutex (s : PollState ρ) : Bool := s.pc = .openRound ∨ s.pc = .unlockOpen

/-- The thread has not waited yet. -/
def BeforeWait (s : PollState ρ) : Prop :=
  s.pc ≠ .blocked ∧ s.pc ≠ .lockClose ∧ s.pc ≠ .closeRound ∧ s.pc ≠ .unlockClose ∧
    s.pc ≠ .postProcess

theorem signal_pc (s : PollState ρ) : (signal s).pc = s.pc := by
  unfold signal
  split_ifs
  · rfl
  · rfl

theorem answer_pc (d : SDeviceInfo) (signalled : Bool) (s : PollState ρ) :
    (answer d signalled s).pc = s.pc := by
  unfold answer
  simp only []
  split_ifs
  · exact signal_pc _
  · rfl

theorem pollCheck300_pc (now : Int) (s : PollState ρ) : (pollCheck300 now s).pc = s.pc := by
  unfold pollCheck300
  split_ifs
  · exact signal_pc s
  · rfl
  · rfl

theorem BeforeWait.congr {s s' : PollState ρ} (h : BeforeWait s) (hpc : s'.pc = s.pc) :
    BeforeWait s' := by
  unfold BeforeWait
  rw [hpc]
  exact h

/-- A step before the first wait that does not enter it: the thread has still
    not waited, and it owns the mutex where `ownsMutex` says. -/
theorem beforeWait_step {R : Registry ρ} {s s' : PollState ρ} {e : PollEvent} (hi : BeforeWait s)
    (hc : SendsLeft s e) (h : PollStep R s e s') :
    BeforeWait s' ∧ (mutexOp e = none → ownsMutex s' = ownsMutex s) ∧
      ∀ a, mutexOp e = some a → a.Legal (ownsMutex s) ∧ ownsMutex s' = a.owns := by
  rcases hi with ⟨hblocked, hlockClose, hcloseRound, hunlockClose, hpost⟩
  cases h with
  | load r d hpc | loadFailed r d hpc | openRound now hpc | prepare junk hpc
  | send i device tmp hpc hlt hdevice hfill =>
      refine ⟨?_, fun _ => ?_, fun a ha => nomatch ha⟩
      · simp [BeforeWait, mqSend, hpc]
      · simp [ownsMutex, mqSend, hpc]
  -- The two operations in front of the round are a lock and its unlock.
  | lockOpen hpc | unlockOpen hpc =>
      refine ⟨?_, ?_, ?_⟩
      · simp [BeforeWait]
      · intro ha
        cases ha
      · intro a ha
        cases ha
        simp [Op.Legal, Op.owns, ownsMutex, hpc]
  -- The statements behind the wait are not reached.
  | enterWait i hpc hlast => exact absurd (hc i hpc) hlast
  | leaveWait hpc => exact absurd hpc hblocked
  | lockClose hpc => exact absurd hpc hlockClose
  | closeRound hpc => exact absurd hpc hcloseRound
  | unlockClose hpc => exact absurd hpc hunlockClose
  | postProcess es post hpc => exact absurd hpc hpost
  | receive m q htake =>
      exact ⟨⟨hblocked, hlockClose, hcloseRound, hunlockClose, hpost⟩, fun _ => rfl,
        fun a ha => nomatch ha⟩
  | answer host d signalled hopen hrun =>
      have hpc := answer_pc d signalled s
      refine ⟨BeforeWait.congr ⟨hblocked, hlockClose, hcloseRound, hunlockClose, hpost⟩ hpc,
        fun _ => ?_, fun a ha => nomatch ha⟩
      unfold ownsMutex
      rw [hpc]
  | check300 now =>
      have hpc := pollCheck300_pc now s
      refine ⟨BeforeWait.congr ⟨hblocked, hlockClose, hcloseRound, hunlockClose, hpost⟩ hpc,
        fun _ => ?_, fun a ha => nomatch ha⟩
      unfold ownsMutex
      rw [hpc]

/-- Up to its first wait the thread is disciplined. -/
theorem poll_discipline (R : Registry ρ) :
    Discipline (PollStep R) mutexOp BeforeWait SendsLeft ownsMutex where
  keep _ _ _ hi hc h := (beforeWait_step hi hc h).1
  frame _ _ _ hi hc h := (beforeWait_step hi hc h).2.1
  legal _ _ _ a hi hc h hop := ((beforeWait_step hi hc h).2.2 a hop).1
  effect _ _ _ a hi hc h hop := ((beforeWait_step hi hc h).2.2 a hop).2

/-- The thread stands behind its sends without the mutex, so a legal step is
    not the one into the wait. -/
theorem sendsLeft_of_legalAt {R : Registry ρ} {p : PollState ρ × Bool} {e : PollEvent}
    (hi : BeforeWait p.1 ∧ p.2 = ownsMutex p.1) (h : LegalAt (PollStep R) mutexOp p e) :
    SendsLeft p.1 e := by
  cases e with
  | enterWait =>
      intro i hpc
      refine Classical.byContradiction (fun hlast => ?_)
      have hlegal := h _ .wait (PollStep.enterWait p.1 i hpc hlast) rfl
      rw [hi.2] at hlegal
      simp [Op.Legal, ownsMutex, hpc] at hlegal
  | _ => trivial

theorem returns_of_beforeWait {R : Registry ρ} {p : PollState ρ × Bool} (e : PollEvent)
    (hi : BeforeWait p.1) : Returns R p e := by
  intro he q hstep
  subst he
  -- A thread that has not waited does not leave the wait.
  cases hstep with
  | free s t owned _ hop _ => cases hop
  | lock s t _ hop _ => cases hop
  | perform s t owned _ a _ _ hs =>
      cases hs with
      | leaveWait hpc => exact absurd hpc hi.1

/-- In every run of the poll thread beside the CoAP thread and the mutex, the
    mutex is used well if and only if no step of the run enters the wait. -/
theorem wellLocked_iff (R : Registry ρ) (tmp : SCoAPNewRequest)
    (queue : Fifo SCoAPNewRequest coapRxMQmaxmsg) (db : ρ) (es : List PollEvent) :
    WellLocked R (pollStart tmp queue db, false) es ↔
      Along (MutexStep R) (fun p e => SendsLeft p.1 e) (pollStart tmp queue db, false) es := by
  have hd := poll_discipline R
  have hstart : BeforeWait (pollStart tmp queue db) ∧ false = ownsMutex (pollStart tmp queue db) :=
    by simp [BeforeWait, ownsMutex, pollStart]
  constructor
  · intro h
    refine along_of_invariant (I := fun p => BeforeWait p.1 ∧ p.2 = ownsMutex p.1) ?_ ?_ hstart
      h.legal
    · exact fun p e q hi hlegal hstep => hd.step p e q hi (sendsLeft_of_legalAt hi hlegal) hstep
    · exact fun p e hi hlegal => sendsLeft_of_legalAt hi hlegal
  · intro h
    refine ⟨?_, ?_, ?_⟩
    · exact along_of_invariant hd.step (fun p e hi hc => hd.legalAt hi hc) hstart h
    · refine throughout_of_along (fun p hi => hd.not_selfBlocked ?_ hi) hd.step hstart h
      intro s e he
      cases e with
      | enterWait => cases he
      | _ => trivial
    · exact along_of_invariant hd.step (fun p e hi _ => returns_of_beforeWait e hi.1) hstart h

/-- The first round of one device. -/
theorem not_wellLocked_firstRound :
    ¬ WellLocked mapRegistry (pollStart .zero Fifo.empty (fun _ => none), false)
      [.load (lettersReply 1), .lock, .openRound 0, .unlock, .prepare .zero, .send,
        .enterWait] := by
  intro h
  have hp : Path (MutexStep mapRegistry) (pollStart .zero Fifo.empty (fun _ => none), false)
      [.load (lettersReply 1), .lock, .openRound 0, .unlock, .prepare .zero, .send] _ :=
    Path.cons _ _ _ _ _ (.free _ _ _ _ rfl (.load _ (lettersReply 1) _ rfl rfl))
    (Path.cons _ _ _ _ _ (.lock _ _ _ rfl (.lockOpen _ rfl))
    (Path.cons _ _ _ _ _ (.free _ _ _ _ rfl (.openRound _ 0 rfl))
    (Path.cons _ _ _ _ _ (.perform _ _ _ _ _ rfl (by decide) (.unlockOpen _ rfl))
    (Path.cons _ _ _ _ _ (.free _ _ _ _ rfl (.prepare _ .zero rfl))
    (Path.cons _ _ _ _ _ (.free _ _ _ _ rfl (.send _ 0 _ _ rfl (by decide) rfl rfl))
    (Path.nil _))))))
  have hlegal : LegalAt (PollStep mapRegistry) mutexOp _ .enterWait := along_at h.legal hp
  exact absurd (hlegal _ .wait (.enterWait _ 1 rfl (by decide)) rfl) Bool.false_ne_true

/-- A thread that stands at the closing lock and owns the mutex. -/
def Stuck (p : PollState ρ × Bool) : Prop := p.1.pc = .lockClose ∧ p.2 = true

/-- Every wake-up leads there. -/
theorem stuck_of_leaveWait {R : Registry ρ} {p q : PollState ρ × Bool}
    (h : MutexStep R p .leaveWait q) : Stuck q := by
  cases h with
  | free s t owned _ hop _ => cases hop
  | lock s t _ hop _ => cases hop
  | perform s t owned _ a hop _ hs =>
      cases hop
      cases hs with
      | leaveWait hpc => exact ⟨rfl, rfl⟩

theorem stuck_step {R : Registry ρ} {p q : PollState ρ × Bool} {e : PollEvent} (hp : Stuck p)
    (h : MutexStep R p e q) : Stuck q := by
  rcases hp with ⟨hpc, howned⟩
  cases h with
  -- A lock is passed only without the mutex.
  | lock s t _ hop hs => cases howned
  | free s t owned _ hop hs =>
      refine ⟨?_, howned⟩
      -- The poll thread has no step but the lock; the CoAP thread moves it nowhere.
      cases hs with
      | receive m q htake => exact hpc
      | answer host d signalled hopen hrun => exact (answer_pc d signalled s).trans hpc
      | check300 now => exact (pollCheck300_pc now s).trans hpc
      | load _ _ hpc' | loadFailed _ _ hpc' | openRound _ hpc' | prepare _ hpc' | send _ _ _ hpc'
      | closeRound hpc' | postProcess _ _ hpc' => cases hpc.symm.trans hpc'
      | lockOpen | unlockOpen | enterWait | leaveWait | lockClose | unlockClose => cases hop
  | perform s t owned _ a hop hne hs =>
      cases hs with
      | unlockOpen hpc' | enterWait _ hpc' | leaveWait hpc' | unlockClose hpc' =>
          cases hpc.symm.trans hpc'
      | lockOpen | lockClose =>
          cases hop
          exact absurd rfl hne
      | _ => cases hop

/-- A thread that has been woken stays where it is, whatever happens. -/
theorem stuck_path {R : Registry ρ} {p q : PollState ρ × Bool} {es : List PollEvent}
    (hp : Stuck p) (h : Path (MutexStep R) p es q) :
    Stuck q ∧ SelfBlocked (PollStep R) mutexOp q := by
  have hq : Stuck q := path_invariant (I := Stuck) (fun _ _ _ hi hstep => stuck_step hi hstep) h hp
  exact ⟨hq, hq.2, .lock, _, PollStep.lockClose q.1 hq.1, rfl⟩

end CoapThread
