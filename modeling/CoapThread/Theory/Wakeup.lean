import CoapThread.Core.Poll
import CoapThread.Library.Machine

/-!
# The Wake-Up of a Round

Whether the signal of the last answer reaches the poll thread.

The poll thread looks at nothing before it waits, and the CoAP thread holds no
lock while it counts. A signal is kept only for a thread that is already
blocked, so everything depends on the order of two steps: the one that counts
the last answer and the one that enters the wait. Once the thread is blocked
nothing is lost, however the answers come; `Waiting` is that invariant.

## Main definitions

* `LostWakeUp`: The round is complete, the poll thread is blocked, and nobody
  will wake it but the 300-second check.
* `AnswerAhead`: The wait is entered while an answer is still to come.
* `Waiting`: A blocked thread has been woken or is still owed its signal.

## Theorems

* `waiting_step`: Every step but a late wait keeps the invariant.
* `noLostWakeUp_iff`: No wake-up is lost exactly where no wait is late.
* `not_noLostWakeUp_quickAnswer`: A device that answers at once.
-/

namespace CoapThread

open Machine

variable {ρ : Type}

/-- Every answer of a round is in, the poll thread is blocked in its wait, and
    no wake-up is pending for it. -/
def LostWakeUp (s : PollState ρ) : Prop :=
  s.pc = .blocked ∧ s.woken = false ∧ s.deviceInfo.num ≠ 0 ∧ s.deviceInfo.count = s.deviceInfo.num

/-- Where a step enters the wait, the round is not complete yet. -/
def AnswerAhead (s : PollState ρ) : PollEvent → Prop
  | .enterWait => ∀ i, s.pc = .send i → ¬ (i < s.deviceInfo.num.toNat) →
      s.deviceInfo.num = 0 ∨ s.deviceInfo.count ≠ s.deviceInfo.num
  | _ => True

/-- A blocked thread has been woken, or the round is not complete yet. -/
def Waiting (s : PollState ρ) : Prop :=
  s.pc = .blocked →
    s.woken = true ∨ s.deviceInfo.num = 0 ∨ s.deviceInfo.count ≠ s.deviceInfo.num

theorem Waiting.not_lost {s : PollState ρ} (h : Waiting s) : ¬ LostWakeUp s := by
  rintro ⟨hpc, hwoken, hnum, hcount⟩
  rcases h hpc with hw | hn | hc
  · rw [hwoken] at hw
    cases hw
  · exact hnum hn
  · exact hc hcount

theorem signal_waiting (s : PollState ρ) : Waiting (signal s) := by
  intro hpc
  unfold signal at hpc ⊢
  split_ifs with h
  · exact Or.inl rfl
  · rw [if_neg h] at hpc
    exact absurd hpc h

/-- Every step but a late wait keeps the invariant. -/
theorem waiting_step (R : Registry ρ) (s : PollState ρ) (e : PollEvent) (s' : PollState ρ)
    (hi : Waiting s) (hc : AnswerAhead s e) (h : PollStep R s e s') : Waiting s' := by
  cases h with
  | load | lockOpen | openRound | unlockOpen | prepare | send | leaveWait | lockClose | closeRound
  | unlockClose | postProcess => exact fun hpc => nomatch hpc
  | loadFailed r d hpc => exact fun hpc' => nomatch hpc.symm.trans hpc'
  | enterWait i hpc hlast => exact fun _ => Or.inr (hc i hpc hlast)
  | receive m q => exact hi
  | answer host d signalled hopen hrun =>
      rcases respond_count hrun with ⟨hnum, hcount, hsignal⟩
      unfold answer
      simp only []
      split_ifs with hs
      · exact signal_waiting _
      · -- Not signalled: the count has not reached the number of entries.
        intro _
        rw [hsignal, beq_iff_eq, ← hcount, ← hnum] at hs
        exact Or.inr (Or.inr hs)
  | check300 now =>
      unfold pollCheck300
      split_ifs
      · exact signal_waiting s
      · exact hi
      · exact hi

/-- In every run of the poll thread beside the CoAP thread, no wake-up is lost
    in any of its states if and only if no step enters the wait with every
    answer counted. -/
theorem noLostWakeUp_iff (R : Registry ρ) (tmp : SCoAPNewRequest)
    (queue : Fifo SCoAPNewRequest coapRxMQmaxmsg) (db : ρ) (es : List PollEvent) :
    Throughout (PollStep R) (fun s => ¬ LostWakeUp s) (pollStart tmp queue db) es ↔
      Along (PollStep R) AnswerAhead (pollStart tmp queue db) es := by
  refine throughout_iff (I := Waiting) (fun s hs => hs.not_lost) (waiting_step R) ?_
    (fun hpc => nomatch hpc)
  intro s e _ hno
  cases e with
  | enterWait =>
      unfold AnswerAhead at hno
      push Not at hno
      rcases hno with ⟨i, hpc, hlast, hnum, hcount⟩
      refine ⟨_, PollStep.enterWait s i hpc (Nat.not_lt.mpr hlast), fun hgood => hgood ?_⟩
      exact ⟨rfl, rfl, hnum, hcount⟩
  | _ => exact absurd trivial hno

/-- The one device of the table answers before the poll thread waits. -/
theorem not_noLostWakeUp_quickAnswer :
    ¬ Throughout (PollStep mapRegistry) (fun s => ¬ LostWakeUp s)
      (pollStart .zero Fifo.empty (fun _ => none))
      [.load (lettersReply 1), .lock, .openRound 0, .unlock, .prepare .zero, .send, .receive,
        .answer [0x62, 0x62, 0x62, 0x62, 0x62, 0x62], .enterWait] := by
  intro h
  refine throughout_path h (Path.cons _ _ _ _ _ (.load _ (lettersReply 1) _ rfl rfl)
    (Path.cons _ _ _ _ _ (.lockOpen _ rfl) (Path.cons _ _ _ _ _ (.openRound _ 0 rfl)
    (Path.cons _ _ _ _ _ (.unlockOpen _ rfl) (Path.cons _ _ _ _ _ (.prepare _ .zero rfl)
    (Path.cons _ _ _ _ _ (.send _ 0 _ _ rfl (by decide) rfl rfl)
    (Path.cons _ _ _ _ _ (.receive _ _ _ rfl)
    (Path.cons _ _ _ _ _ (.answer _ _ _ _ rfl rfl)
    (Path.cons _ _ _ _ _ (.enterWait _ 1 rfl (by decide)) (Path.nil _)))))))))) ?_
  exact ⟨rfl, rfl, by decide, rfl⟩

end CoapThread
