import CoapThread.Core.TableAccess
import CoapThread.Library.Machine

/-!
# The Life of a Device Table

Whether the handler uses a device table only while its round is open.

The poll thread keeps its side: `YCRequest` is true exactly while a round is
open, and while it is the table is there and as long as its count says. That
holds at every statement of both threads, however the steps fall. The handler
tests `YCRequest` once and then goes through the entries without the mutex the
poll thread closes the round under, so the round it has tested for can be
closed, processed and freed between any two of its steps.

The condition is on two steps. A round must not be closed while the handler
stands behind its loop test, and the loop test must not be passed after the
round has been closed. In a run that keeps to both every use of an entry is
safe, and the first step against one of them leads straight to a use that is
not.

## Main definitions

* `TablePc.isOpen`: The statements of a round that is open.
* `EntryOfOpenRound`: The handler uses an entry of the open round's table.
* `Undisturbed`: The condition.
* `PollSide`: What holds of the flag and the table whatever the handler does.
* `HandlerSide`: What the condition keeps of the handler.

## Theorems

* `pollSide_step`: Every step keeps the poll thread's side.
* `pollSide_path`: It holds in every reachable state.
* `handlerSide_step`: Every step under the condition keeps the handler's.
* `entriesOfOpenRound_iff`: Every use of an entry is safe exactly under the
  condition.
* `not_entriesOfOpenRound_freed`: A table freed under the handler.
-/

namespace CoapThread

open Machine

variable {ρ : Type}

/-- The statements of a round that is open. -/
def TablePc.isOpen : TablePc → Bool
  | .stamp | .send _ | .blocked | .closeRound => true
  | _ => false

/-- The entry the handler has passed its loop test for, or is about to mark. -/
def BranchPc.entry? : BranchPc → Option Nat
  | .pointer _ i | .compare _ i _ | .markPointer i | .mark i _ => some i
  | _ => none

/-- The pointer it has read for that. -/
def BranchPc.pointer? : BranchPc → Option (Option TableId)
  | .compare _ _ p | .mark _ p => some p
  | _ => none

/-- The round is open, the handler goes through the round's pointer, and there
    is a table behind it with that entry. -/
structure EntryOfOpenRound (s : TableState ρ) (i : Nat) : Prop where
  isOpen : s.poll.isOpen = true
  pointer : ∀ p, s.branch.pointer? = some p → p = s.pLTUInfo
  allocated : ∃ t es, s.pLTUInfo = some t ∧ s.tables t = some es ∧ i < es.length

/-- Whenever the handler reads or writes an entry, it is one of the table of a
    round that is open. -/
def EntriesOfOpenRound (s : TableState ρ) : Prop :=
  ∀ i, s.branch.entry? = some i → EntryOfOpenRound s i

/-- A round is not closed while the handler is at an entry, and the handler's
    loop test is not passed while `YCRequest` is false. -/
def Undisturbed (s : TableState ρ) : TableEvent → Prop
  | .closeRound => s.poll = .closeRound → s.branch.entry? = none
  | .coap => ∀ host i, s.branch = .bound host i → i < s.num.toNat → s.ycRequest = true
  | _ => True

/-- The pointer leads to a table with at least as many entries as the count
    says. -/
def TableLoaded (s : TableState ρ) : Prop :=
  ∃ t es, s.pLTUInfo = some t ∧ s.tables t = some es ∧ s.num.toNat ≤ es.length

/-- What is known of the table at a statement of the poll thread. -/
def tableAt (s : TableState ρ) : TablePc → Prop
  | .load | .unload => True
  | .calloc n => s.num = UInt16.ofInt n
  | _ => TableLoaded s

/-- What holds of the flag and the table, whatever the handler does. -/
structure PollSide (s : TableState ρ) : Prop where
  flag : s.ycRequest = s.poll.isOpen
  table : tableAt s s.poll

/-- What holds of the handler: at an entry, the round is open, the entry is
    one of those counted, and a pointer it has read is the round's. -/
def HandlerSide (s : TableState ρ) : Prop :=
  ∀ i, s.branch.entry? = some i →
    s.poll.isOpen = true ∧ i < s.num.toNat ∧ ∀ p, s.branch.pointer? = some p → p = s.pLTUInfo

/-- The table is loaded at every statement of an open round. -/
theorem PollSide.loaded {s : TableState ρ} (h : PollSide s) (hopen : s.poll.isOpen = true) :
    TableLoaded s := by
  have htable := h.table
  cases hpc : s.poll with
  -- The four statements between opening and closing.
  | stamp | send | blocked | closeRound =>
      rw [hpc] at htable
      exact htable
  | _ =>
      rw [hpc] at hopen
      cases hopen

theorem tableLoaded_write {s : TableState ρ} (h : TableLoaded s) (p : Option TableId) (i : Nat)
    (e : LTUInfor) : TableLoaded (s.write p i e) := by
  rcases h with ⟨t, es, hp, htable, hlen⟩
  have hlength := write_tables_length s p i e t
  rw [htable, Option.map_some, Option.map_eq_some_iff] at hlength
  rcases hlength with ⟨es', htable', hlen'⟩
  refine ⟨t, es', ?_, htable', ?_⟩
  · rw [write_pLTUInfo, hp]
  · rw [write_num, hlen']
    exact hlen

/-- A step that leaves the poll thread, the flag, the count and the pointer as
    they are keeps the poll thread's side, if it keeps a loaded table. -/
theorem PollSide.congr {s s' : TableState ρ} (h : PollSide s) (hpoll : s'.poll = s.poll)
    (hflag : s'.ycRequest = s.ycRequest) (hnum : s'.num = s.num)
    (hloaded : TableLoaded s → TableLoaded s') : PollSide s' := by
  rcases h with ⟨hopen, htable⟩
  refine ⟨by rw [hflag, hpoll, hopen], ?_⟩
  rw [hpoll]
  cases hpc : s.poll with
  | load | unload => trivial
  | calloc n =>
      rw [hpc] at htable
      exact hnum.trans htable
  | _ =>
      rw [hpc] at htable
      exact hloaded htable

/-- Every step keeps the poll thread's side. -/
theorem pollSide_step (R : Registry ρ) (s : TableState ρ) (e : TableEvent) (s' : TableState ρ)
    (hi : PollSide s) (h : TableStep R s e s') : PollSide s' := by
  have hflag := hi.flag
  have htable := hi.table
  cases h with
  | noCount hpc =>
      refine ⟨hflag, ?_⟩
      simp only [hpc]
      trivial
  | noMemory n hpc | noEntries n hpc | unload hpc | free t hpc hp =>
      rw [hpc] at hflag
      exact ⟨hflag, trivial⟩
  | load n hpc =>
      rw [hpc] at hflag
      exact ⟨hflag, rfl⟩
  | calloc n t hpc hn hfresh =>
      rw [hpc] at hflag htable
      refine ⟨hflag, t, _, rfl, Function.update_self .., ?_⟩
      -- The count is the allocated number cut to sixteen bits.
      have hnum : s.num.toNat = (n % 2 ^ 16).toNat % 2 ^ 16 := by
        rw [show s.num = UInt16.ofInt n from htable]
        exact UInt16.toNat_ofNat'
      simp only [List.length_replicate]
      omega
  -- No entry is added by filling: what the records do not replace stays.
  | fill n t calloc entries hpc hp hcalloc hlen =>
      rw [hpc] at hflag htable
      rcases htable with ⟨t', es, hp', hes, hnum⟩
      cases hp.symm.trans hp'
      cases hcalloc.symm.trans hes
      refine ⟨hflag, t, _, hp, Function.update_self .., ?_⟩
      simp only [List.length_append, List.length_drop]
      omega
  | openRound hpc =>
      rw [hpc] at htable
      exact ⟨rfl, htable⟩
  | closeRound hpc =>
      rw [hpc] at htable
      exact ⟨rfl, htable⟩
  | resetCount _ hpc | statesCleared _ _ hpc | stamp _ hpc | send _ _ hpc | enterWait _ hpc
  | leaveWait hpc | processSilent _ _ hpc | processAnswered _ _ hpc | processed _ hpc =>
      rw [hpc] at hflag htable
      exact ⟨hflag, htable⟩
  -- Entries are written, and the table is as long as before.
  | clearState i n e hpc | getRecord i state e hpc | setState i state e hpc =>
      rw [hpc] at hflag htable
      refine ⟨?_, tableLoaded_write htable _ i _⟩
      simp only [write_ycRequest]
      exact hflag
  | setRecord i state e hpc hread hterm =>
      rw [hpc] at hflag htable
      by_cases hstate : state = 0
      · simp only [hstate, if_true]
        exact ⟨hflag, htable⟩
      · simp only [hstate, if_false]
        exact ⟨hflag, htable⟩
  | mark i p e hpc hread =>
      refine hi.congr ?_ (write_ycRequest ..) (write_num ..)
        (fun h => tableLoaded_write h p i _)
      rw [write_eq]
  | _ => exact hi.congr rfl rfl rfl (fun h => h)

/-- The poll thread's side holds in every reachable state. -/
theorem pollSide_path {R : Registry ρ} {db : ρ} {s : TableState ρ} {es : List TableEvent}
    (h : Path (TableStep R) (tableStart db) es s) : PollSide s :=
  path_invariant (pollSide_step R) h ⟨rfl, trivial⟩

/-- A step that leaves the handler where it is keeps its side, if it keeps an
    open round with its count and its pointer. -/
theorem HandlerSide.congr {s s' : TableState ρ} (h : HandlerSide s) (hbranch : s'.branch = s.branch)
    (hkeep : s.poll.isOpen = true →
      s'.poll.isOpen = true ∧ s'.num = s.num ∧ s'.pLTUInfo = s.pLTUInfo) : HandlerSide s' := by
  intro i hi
  rw [hbranch] at hi
  rcases h i hi with ⟨hopen, hlt, hpointer⟩
  rcases hkeep hopen with ⟨hopen', hnum, hp⟩
  refine ⟨hopen', by rw [hnum]; exact hlt, fun p hread => ?_⟩
  rw [hbranch] at hread
  rw [hp]
  exact hpointer p hread

theorem handlerSide_of_none {s : TableState ρ} (h : s.branch.entry? = none) : HandlerSide s :=
  fun _ hi => nomatch h.symm.trans hi

/-- Every step under the condition keeps the handler's side. -/
theorem handlerSide_step {R : Registry ρ} {s s' : TableState ρ} {e : TableEvent}
    (hpoll : PollSide s) (hi : HandlerSide s) (hc : Undisturbed s e) (h : TableStep R s e s') :
    HandlerSide s' := by
  cases h with
  -- No round is open, so the handler is at no entry.
  | noCount hpc | load n hpc | noMemory n hpc | calloc n t hpc | noEntries n hpc
  | fill n t calloc entries hpc | unload hpc | resetCount n hpc | clearState i n e hpc
  | statesCleared i n hpc | openRound hpc | processSilent i e hpc | processAnswered i e hpc
  | getRecord i state e hpc | setState i state e hpc | setRecord i state e hpc | processed i hpc
  | free t hpc =>
      refine hi.congr (by simp only [write_branch]) (fun hopen => ?_)
      rw [hpc] at hopen
      cases hopen
  -- Within a round the poll thread leaves count and pointer alone.
  | stamp now hpc | send i e hpc | enterWait i hpc | leaveWait hpc =>
      exact hi.congr rfl (fun _ => ⟨rfl, rfl, rfl⟩)
  -- The condition excludes it while the handler is at an entry.
  | closeRound hpc =>
      intro i hentry
      cases (hc hpc).symm.trans hentry
  -- The test is passed with the flag set, so the round is open; it bounds the index.
  | bound host i hpc =>
      by_cases hlt : i < s.num.toNat
      · simp only [if_pos hlt]
        rintro j hj
        cases hj
        exact ⟨hpoll.flag.symm.trans (hc host i hpc hlt), hlt, nofun⟩
      · simp only [if_neg hlt]
        exact nofun
  -- The pointer read is the round's at this moment, and stays it.
  | pointer host i hpc =>
      rintro j hj
      cases hj
      rcases hi i (by rw [hpc]; rfl) with ⟨hopen, hlt, -⟩
      exact ⟨hopen, hlt, fun p hp => (Option.some.inj hp).symm⟩
  | compare host i p e differs hpc hread hcmp =>
      cases differs with
      | false => exact nofun
      | true =>
          rintro j hj
          cases hj
          rcases hi i (by rw [hpc]; rfl) with ⟨hopen, hlt, -⟩
          exact ⟨hopen, hlt, nofun⟩
  | markPointer i hpc =>
      rintro j hj
      cases hj
      rcases hi i (by rw [hpc]; rfl) with ⟨hopen, hlt, -⟩
      exact ⟨hopen, hlt, fun p hp => (Option.some.inj hp).symm⟩
  -- From here on no entry is used.
  | answer host hpc | check now hpc | completeNum n hpc | checkTime now hpc =>
      refine handlerSide_of_none ?_
      simp only []
      split_ifs
      · rfl
      · rfl
  | mark i p e hpc hread | count hpc | store n hpc | complete hpc | signal hpc => exact nofun

/-- Both sides together make every use of an entry safe. -/
theorem HandlerSide.safe {s : TableState ρ} (h : HandlerSide s) (hpoll : PollSide s) :
    EntriesOfOpenRound s := by
  intro i hi
  rcases h i hi with ⟨hopen, hlt, hpointer⟩
  rcases hpoll.loaded hopen with ⟨t, es, hp, htable, hlen⟩
  exact ⟨hopen, hpointer, t, es, hp, htable, Nat.lt_of_lt_of_le hlt hlen⟩

/-- A step against the condition leads to a use that is not safe. -/
theorem not_entriesOfOpenRound_of_disturbed (R : Registry ρ) {s : TableState ρ} {e : TableEvent}
    (hpoll : PollSide s) (hno : ¬ Undisturbed s e) :
    ∃ s', TableStep R s e s' ∧ ¬ EntriesOfOpenRound s' := by
  cases e with
  -- The handler is left at an entry of a closed round.
  | closeRound =>
      unfold Undisturbed at hno
      push Not at hno
      rcases hno with ⟨hpc, hentry⟩
      rcases Option.ne_none_iff_exists'.mp hentry with ⟨i, hi⟩
      refine ⟨_, .closeRound s hpc, fun hsafe => ?_⟩
      cases (hsafe i hi).isOpen
  -- The test is passed with no round open.
  | coap =>
      unfold Undisturbed at hno
      push Not at hno
      rcases hno with ⟨host, i, hpc, hlt, hflag⟩
      refine ⟨_, .bound s host i hpc, fun hsafe => ?_⟩
      rw [if_pos hlt] at hsafe
      exact hflag (hpoll.flag.trans (hsafe i rfl).isOpen)
  | _ => exact absurd trivial hno

/-- For every run of the two threads from the start, in whatever order their
    steps fall: in each of its states every entry the handler uses is one of
    the table of an open round if and only if no step of the run closes a round
    while the handler is at an entry or passes the handler's loop test while
    `YCRequest` is false. -/
theorem entriesOfOpenRound_iff (R : Registry ρ) (db : ρ) (es : List TableEvent) :
    Throughout (TableStep R) EntriesOfOpenRound (tableStart db) es ↔
      Along (TableStep R) Undisturbed (tableStart db) es := by
  refine throughout_iff (I := fun s => PollSide s ∧ HandlerSide s) ?_ ?_ ?_ ?_
  · exact fun s hi => hi.2.safe hi.1
  · exact fun s e s' hi hc h => ⟨pollSide_step R s e s' hi.1 h, handlerSide_step hi.1 hi.2 hc h⟩
  · exact fun s e hi hno => not_entriesOfOpenRound_of_disturbed R hi.1 hno
  · exact ⟨⟨rfl, trivial⟩, handlerSide_of_none rfl⟩

/-- A device answers when its round has waited for 300 seconds. The poll thread
    is woken, and it closes the round, processes it and gives the table back
    while the handler is in front of the first entry. -/
theorem not_entriesOfOpenRound_freed :
    ¬ Throughout (TableStep mapRegistry) EntriesOfOpenRound (tableStart (fun _ => none))
      ([.load (some 1), .calloc (some 0), .fill (some [LTUInfor.ofName [0x4c, 0x54, 0x55, 0x41]]),
        .poll, .poll, .poll, .poll, .stamp 0, .poll, .poll] ++
        ([.check 300, .coap, .coap, .answer [0x62, 0x62, 0x62, 0x62, 0x62, 0x62], .coap, .coap] ++
        [.poll, .closeRound, .poll, .poll, .poll, .poll, .poll, .poll, .poll, .poll, .poll])) := by
  intro h
  have hwaiting := throughout_rest h
    (Path.cons _ _ _ _ _ (.load _ 1 rfl)
    (Path.cons _ _ _ _ _ (.calloc _ 1 0 rfl (by decide) rfl)
    (Path.cons _ _ _ _ _ (.fill _ 1 0 _ _ rfl rfl rfl (by decide))
    (Path.cons _ _ _ _ _ (.resetCount _ 1 rfl)
    (Path.cons _ _ _ _ _ (.clearState _ 0 1 _ rfl (by decide) rfl)
    (Path.cons _ _ _ _ _ (.statesCleared _ 1 1 rfl (by decide))
    (Path.cons _ _ _ _ _ (.openRound _ rfl) (Path.cons _ _ _ _ _ (.stamp _ 0 rfl)
    (Path.cons _ _ _ _ _ (.send _ 0 _ rfl (by decide) rfl)
    (Path.cons _ _ _ _ _ (.enterWait _ 1 rfl (by decide)) (Path.nil _)))))))))))
  have htested := throughout_rest hwaiting
    (Path.cons _ _ _ _ _ (.check _ 300 rfl)
    (Path.cons _ _ _ _ _ (.checkTime _ 300 rfl) (Path.cons _ _ _ _ _ (.signal _ rfl)
    (Path.cons _ _ _ _ _ (.answer _ _ rfl)
    (Path.cons _ _ _ _ _ (.bound _ _ 0 rfl) (Path.cons _ _ _ _ _ (.pointer _ _ 0 rfl)
    (Path.nil _)))))))
  have hsafe := throughout_path htested
    (Path.cons _ _ _ _ _ (.leaveWait _ rfl rfl) (Path.cons _ _ _ _ _ (.closeRound _ rfl)
    (Path.cons _ _ _ _ _ (.processSilent _ 0 _ rfl (by decide) rfl rfl)
    (Path.cons _ _ _ _ _ (.getRecord _ 0 0 _ rfl rfl (by decide))
    (Path.cons _ _ _ _ _ (.setState _ 0 0 _ rfl rfl)
    (Path.cons _ _ _ _ _ (.setRecord _ 0 0 _ rfl rfl (by decide))
    (Path.cons _ _ _ _ _ (.getRecord _ 0 1 _ rfl rfl (by decide))
    (Path.cons _ _ _ _ _ (.setState _ 0 1 _ rfl rfl)
    (Path.cons _ _ _ _ _ (.setRecord _ 0 1 _ rfl rfl (by decide))
    (Path.cons _ _ _ _ _ (.processed _ 1 rfl (by decide))
    (Path.cons _ _ _ _ _ (.free _ 0 rfl rfl) (Path.nil _))))))))))))
  rcases (hsafe 0 rfl).allocated with ⟨t, es, hp, htable, -⟩
  cases hp
  cases htable

end CoapThread
