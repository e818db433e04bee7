import CoapThread.Core.Handler
import CoapThread.Core.Registry

/-!
# The Device Table, One Access at a Time

`YCPthread` and the measurement branch as the two programs they are, each
access to what they share a step of its own.

`Core/Poll` takes the filling of the table, an answer and the loop after a
round as one step each, which is enough where only their outcome counts. Here
any step of the one thread can fall between two steps of the other. The handler
therefore stands where its loop stands, with the index it has tested and, once
it has read it, the pointer it is about to go through.

A table has an address, and `free` leaves the pointer as it is. An access
through a pointer to no table has no outcome, so nothing is a step there. The
poll thread's own reads of the count and the pointer are part of the step they
belong to, since nobody else writes the two. The mutex does not appear: the
handler does not take it.

## Main definitions

* `TablePc`, `BranchPc`: Where the two threads stand.
* `TableState`: The two threads and what they share.
* `TableEvent`, `TableStep`: The machine.
* `TableState.read`, `TableState.write`: An entry through a pointer.
* `tableStart`: The state at the start.

## Theorems

* `write_tables_length`: Writing an entry leaves every table as long as it was.
-/

namespace CoapThread

open CBytes

/-- Where a table was allocated. -/
abbrev TableId := Nat

/-- The statement of the poll thread that comes next. -/
inductive TablePc where
  | load
  | calloc (num : Int)
  | fill (num : Int)
  /-- `dinfo->num=0` after a failure. -/
  | unload
  | resetCount (num : Nat)
  | clearState (i num : Nat)
  | openRound
  | stamp
  | send (i : Nat)
  | blocked
  | closeRound
  | process (i : Nat)
  | getRecord (i : Nat) (state : Int32)
  | setState (i : Nat) (state : Int32)
  | setRecord (i : Nat) (state : Int32)
  | free
  deriving DecidableEq

/-- The statement of the CoAP thread that comes next: none of this one, one of
    the measurement branch, or one of the 300-second check. -/
inductive BranchPc where
  | away
  /-- The test of the loop against `DeviceInfo.num`. -/
  | bound (host : List UInt8) (deviceCount : Nat)
  /-- The pointer is read for the comparison, and then the entry behind it. -/
  | pointer (host : List UInt8) (deviceCount : Nat)
  | compare (host : List UInt8) (deviceCount : Nat) (pLTUInfo : Option TableId)
  /-- The pointer is read for the mark, and then the entry is written. -/
  | markPointer (deviceCount : Nat)
  | mark (deviceCount : Nat) (pLTUInfo : Option TableId)
  /-- `DeviceInfo.count++` reads the count and then stores the next one. -/
  | count
  | store (count : UInt16)
  /-- The count is read for the last comparison, and then the number. -/
  | complete
  | completeNum (count : UInt16)
  | checkTime (now : Int)
  | signal
  deriving DecidableEq

/-- The two threads and what they share. -/
structure TableState (ρ : Type) where
  poll : TablePc
  branch : BranchPc
  ycRequest : Bool
  num : UInt16
  time : Int
  count : UInt16
  pLTUInfo : Option TableId
  /-- The tables that are allocated. -/
  tables : TableId → Option (List LTUInfor)
  /-- A signal has reached the blocked poll thread. -/
  woken : Bool
  post : PostState ρ

/-- What can happen. What the registry, the allocator and the clock say and
    what a device answers is part of the event. -/
inductive TableEvent where
  | load (num : Option Int)
  | calloc (pLTUInfo : Option TableId)
  | fill (entries : Option (List LTUInfor))
  | stamp (now : Int)
  | closeRound
  /-- Any other statement of the poll thread. -/
  | poll
  /-- The handler tests `YCRequest` for a device's answer. -/
  | answer (host : List UInt8)
  /-- The 300-second check tests `YCRequest`. -/
  | check (now : Int)
  /-- Any other statement of the CoAP thread. -/
  | coap
  deriving DecidableEq

variable {ρ : Type}

/-- The entry behind a pointer. -/
def TableState.read (s : TableState ρ) (p : Option TableId) (i : Nat) : Option LTUInfor :=
  p.bind (fun t => (s.tables t).bind (·[i]?))

/-- Write the entry behind a pointer. -/
def TableState.write (s : TableState ρ) (p : Option TableId) (i : Nat) (e : LTUInfor) :
    TableState ρ :=
  match p with
  | none => s
  | some t => { s with
      tables := Function.update s.tables t ((s.tables t).map (fun es => es.set i e)) }

/-- An event leads from one state to another. -/
inductive TableStep (R : Registry ρ) : TableState ρ → TableEvent → TableState ρ → Prop where
  /-- `GetRegisteredDeviceInfo`, which is tried again when it fails. -/
  | noCount (s : TableState ρ) : s.poll = .load →
      TableStep R s (.load none) { s with num := 0 }
  | load (s : TableState ρ) (n : Int) : s.poll = .load →
      TableStep R s (.load (some n)) { s with poll := .calloc n, num := UInt16.ofInt n }
  | noMemory (s : TableState ρ) (n : Int) : s.poll = .calloc n →
      TableStep R s (.calloc none) { s with poll := .unload, pLTUInfo := none }
  | calloc (s : TableState ρ) (n : Int) (t : TableId) : s.poll = .calloc n → 0 ≤ n →
      s.tables t = none →
      TableStep R s (.calloc (some t)) { s with
        poll := .fill n
        pLTUInfo := some t
        tables := Function.update s.tables t (some (List.replicate n.toNat (LTUInfor.ofName []))) }
  | noEntries (s : TableState ρ) (n : Int) : s.poll = .fill n →
      TableStep R s (.fill none) { s with poll := .unload }
  | fill (s : TableState ρ) (n : Int) (t : TableId) (calloc entries : List LTUInfor) :
      s.poll = .fill n → s.pLTUInfo = some t → s.tables t = some calloc →
      entries.length ≤ n.toNat →
      TableStep R s (.fill (some entries)) { s with
        poll := .resetCount entries.length
        tables := Function.update s.tables t (some (entries ++ calloc.drop entries.length)) }
  | unload (s : TableState ρ) : s.poll = .unload →
      TableStep R s .poll { s with poll := .load, num := 0 }
  | resetCount (s : TableState ρ) (n : Nat) : s.poll = .resetCount n →
      TableStep R s .poll { s with poll := .clearState 0 n, count := 0 }
  | clearState (s : TableState ρ) (i n : Nat) (e : LTUInfor) : s.poll = .clearState i n →
      i < n → s.read s.pLTUInfo i = some e →
      TableStep R s .poll
        { s.write s.pLTUInfo i { e with state := 0 } with poll := .clearState (i + 1) n }
  | statesCleared (s : TableState ρ) (i n : Nat) : s.poll = .clearState i n → ¬ (i < n) →
      TableStep R s .poll { s with poll := .openRound }
  /-- The round. -/
  | openRound (s : TableState ρ) : s.poll = .openRound →
      TableStep R s .poll { s with poll := .stamp, ycRequest := true }
  | stamp (s : TableState ρ) (now : Int) : s.poll = .stamp →
      TableStep R s (.stamp now) { s with poll := .send 0, time := now }
  | send (s : TableState ρ) (i : Nat) (e : LTUInfor) : s.poll = .send i → i < s.num.toNat →
      s.read s.pLTUInfo i = some e →
      TableStep R s .poll { s with poll := .send (i + 1) }
  | enterWait (s : TableState ρ) (i : Nat) : s.poll = .send i → ¬ (i < s.num.toNat) →
      TableStep R s .poll { s with poll := .blocked, woken := false }
  | leaveWait (s : TableState ρ) : s.poll = .blocked → s.woken = true →
      TableStep R s .poll { s with poll := .closeRound, woken := false }
  | closeRound (s : TableState ρ) : s.poll = .closeRound →
      TableStep R s .closeRound { s with poll := .process 0, ycRequest := false }
  /-- The loop after the round. -/
  | processSilent (s : TableState ρ) (i : Nat) (e : LTUInfor) : s.poll = .process i →
      i < s.num.toNat → s.read s.pLTUInfo i = some e → e.state = 0 →
      TableStep R s .poll { s with poll := .getRecord i 0, post := publish e s.post }
  | processAnswered (s : TableState ρ) (i : Nat) (e : LTUInfor) : s.poll = .process i →
      i < s.num.toNat → s.read s.pLTUInfo i = some e → e.state ≠ 0 →
      TableStep R s .poll { s with poll := .getRecord i 1 }
  | getRecord (s : TableState ρ) (i : Nat) (state : Int32) (e : LTUInfor) :
      s.poll = .getRecord i state → s.read s.pLTUInfo i = some e → Terminated e.name.bytes →
      TableStep R s .poll
        { s.write s.pLTUInfo i ((R.getLTUInforByName s.post.registry e.nameOf).getD e) with
          poll := .setState i state }
  | setState (s : TableState ρ) (i : Nat) (state : Int32) (e : LTUInfor) :
      s.poll = .setState i state → s.read s.pLTUInfo i = some e →
      TableStep R s .poll
        { s.write s.pLTUInfo i { e with state := state } with poll := .setRecord i state }
  | setRecord (s : TableState ρ) (i : Nat) (state : Int32) (e : LTUInfor) :
      s.poll = .setRecord i state → s.read s.pLTUInfo i = some e → Terminated e.name.bytes →
      TableStep R s .poll { s with
        poll := if state = 0 then .getRecord i 1 else .process (i + 1)
        post := { s.post with registry := R.setLTUInforByName s.post.registry e.nameOf e } }
  | processed (s : TableState ρ) (i : Nat) : s.poll = .process i → ¬ (i < s.num.toNat) →
      TableStep R s .poll { s with poll := .free }
  | free (s : TableState ρ) (t : TableId) : s.poll = .free → s.pLTUInfo = some t →
      TableStep R s .poll { s with poll := .load, tables := Function.update s.tables t none }
  /-- The measurement branch. -/
  | answer (s : TableState ρ) (host : List UInt8) : s.branch = .away →
      TableStep R s (.answer host)
        { s with branch := if s.ycRequest then .bound host 0 else .away }
  | bound (s : TableState ρ) (host : List UInt8) (i : Nat) : s.branch = .bound host i →
      TableStep R s .coap { s with branch := if i < s.num.toNat then .pointer host i else .count }
  | pointer (s : TableState ρ) (host : List UInt8) (i : Nat) : s.branch = .pointer host i →
      TableStep R s .coap { s with branch := .compare host i s.pLTUInfo }
  | compare (s : TableState ρ) (host : List UInt8) (i : Nat) (p : Option TableId) (e : LTUInfor)
      (differs : Bool) : s.branch = .compare host i p → s.read p i = some e →
      memcmp host (e.name.bytes.drop 3) 6 = some differs →
      TableStep R s .coap
        { s with branch := if differs then .markPointer i else .bound host (i + 1) }
  | markPointer (s : TableState ρ) (i : Nat) : s.branch = .markPointer i →
      TableStep R s .coap { s with branch := .mark i s.pLTUInfo }
  | mark (s : TableState ρ) (i : Nat) (p : Option TableId) (e : LTUInfor) :
      s.branch = .mark i p → s.read p i = some e →
      TableStep R s .coap { s.write p i { e with state := 1 } with branch := .count }
  | count (s : TableState ρ) : s.branch = .count →
      TableStep R s .coap { s with branch := .store (s.count + 1) }
  | store (s : TableState ρ) (count : UInt16) : s.branch = .store count →
      TableStep R s .coap { s with branch := .complete, count := count }
  | complete (s : TableState ρ) : s.branch = .complete →
      TableStep R s .coap { s with branch := .completeNum s.count }
  | completeNum (s : TableState ρ) (count : UInt16) : s.branch = .completeNum count →
      TableStep R s .coap { s with branch := if count = s.num then .signal else .away }
  /-- The 300-second check. -/
  | check (s : TableState ρ) (now : Int) : s.branch = .away →
      TableStep R s (.check now)
        { s with branch := if s.ycRequest then .checkTime now else .away }
  | checkTime (s : TableState ρ) (now : Int) : s.branch = .checkTime now →
      TableStep R s .coap { s with branch := if 300 ≤ now - s.time then .signal else .away }
  /-- A signal is kept only for a thread that is blocked. -/
  | signal (s : TableState ρ) : s.branch = .signal →
      TableStep R s .coap
        { s with branch := .away, woken := if s.poll = .blocked then true else s.woken }

/-- The state at the start, for any registry. -/
def tableStart (db : ρ) : TableState ρ where
  poll := .load
  branch := .away
  ycRequest := false
  num := 0
  time := 0
  count := 0
  pLTUInfo := none
  tables _ := none
  woken := false
  post := ⟨⟨Buf.zero 256, 0, 0⟩, db, []⟩

section Write

variable (s : TableState ρ) (p : Option TableId) (i : Nat) (e : LTUInfor)

/-- Writing an entry changes the tables and nothing else. -/
theorem write_eq : s.write p i e = { s with tables := (s.write p i e).tables } := by
  cases p with
  | none => rfl
  | some t => rfl

@[simp] theorem write_branch : (s.write p i e).branch = s.branch := by rw [write_eq]

@[simp] theorem write_ycRequest : (s.write p i e).ycRequest = s.ycRequest := by rw [write_eq]

@[simp] theorem write_num : (s.write p i e).num = s.num := by rw [write_eq]

@[simp] theorem write_pLTUInfo : (s.write p i e).pLTUInfo = s.pLTUInfo := by rw [write_eq]

/-- Writing an entry leaves every table as long as it was. -/
theorem write_tables_length (t : TableId) :
    ((s.write p i e).tables t).map List.length = (s.tables t).map List.length := by
  cases p with
  | none => rfl
  | some t' =>
      unfold TableState.write
      simp only []
      by_cases h : t = t'
      · subst h
        rw [Function.update_self, Option.map_map]
        congr 1
        -- Replacing an entry keeps the length.
        funext es
        exact List.length_set
      · rw [Function.update_of_ne h]

end Write

end CoapThread
