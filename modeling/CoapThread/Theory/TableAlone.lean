import CoapThread.Core.TableAccess
import Mathlib.Logic.Relation

/-!
# One Thread at a Time

What the single accesses to the device table come to when nothing falls
between them.

Filling the table, handling an answer and the loop after a round are functions
elsewhere in this development, and runs of single accesses in `TableStep`. Here
the two meet: a thread that is left alone makes of the table what the function
makes of it. Each loop goes by induction on the entries it has left, with what
it has done already in front of them.

## Main definitions

* `Alone`: A thread's steps lead from one state to another.
* `tableInfo`: The device table of a state.

## Theorems

* `respond_alone`: The measurement branch is `respond`.
* `getRegisteredDeviceInfo_alone`: Filling the table is
  `getRegisteredDeviceInfo`.
* `postProcess_alone`: The loop after a round is `postProcess`.
-/

namespace CoapThread

open CBytes

/-- The event is the poll thread's. -/
def TableEvent.ofPoll : TableEvent → Bool
  | .answer _ | .check _ | .coap => false
  | _ => true

/-- Steps of one thread lead from one state to another. -/
def Alone {ρ : Type} (R : Registry ρ) (ofPoll : Bool) : TableState ρ → TableState ρ → Prop :=
  Relation.ReflTransGen (fun s s' => ∃ e, e.ofPoll = ofPoll ∧ TableStep R s e s')

variable {ρ : Type} {R : Registry ρ}

/-- The device table of a state. -/
def tableInfo (s : TableState ρ) : SDeviceInfo :=
  ⟨s.num, s.time, s.count, (s.pLTUInfo.bind s.tables).getD []⟩

/-- One step of a thread, and then the rest. -/
theorem Alone.head {b : Bool} {s s' s'' : TableState ρ} (e : TableEvent) (he : e.ofPoll = b)
    (h : TableStep R s e s') (hrest : Alone R b s' s'') : Alone R b s s'' :=
  Relation.ReflTransGen.head ⟨e, he, h⟩ hrest

/-- The last step of a thread. -/
theorem Alone.single {b : Bool} {s s' : TableState ρ} (e : TableEvent) (he : e.ofPoll = b)
    (h : TableStep R s e s') : Alone R b s s' :=
  Relation.ReflTransGen.single ⟨e, he, h⟩

section Table

variable {s : TableState ρ} {p : Option TableId} {t : TableId} {es : List LTUInfor}

theorem tableInfo_pLTUInfo (hp : s.pLTUInfo = some t) (hes : s.tables t = some es) :
    (tableInfo s).pLTUInfo = es := by
  simp only [tableInfo, hp, Option.bind_some, hes, Option.getD_some]

theorem read_of_table (hp : p = some t) (hes : s.tables t = some es) (i : Nat) :
    s.read p i = es[i]? := by
  rw [hp, TableState.read, Option.bind_some, hes, Option.bind_some]

theorem write_of_table (hp : p = some t) (hes : s.tables t = some es) (i : Nat) (e : LTUInfor) :
    s.write p i e = { s with tables := Function.update s.tables t (some (es.set i e)) } := by
  subst hp
  simp only [TableState.write, hes, Option.map_some]

end Table

section Lists

variable {es rest : List LTUInfor} {i : Nat} {e : LTUInfor}

theorem getElem?_of_drop (h : es.drop i = e :: rest) : es[i]? = some e := by
  rw [← List.head?_drop, h]
  rfl

theorem drop_succ_of_drop (h : es.drop i = e :: rest) : es.drop (i + 1) = rest := by
  rw [← List.tail_drop, h]
  rfl

/-- Replacing the first entry of what a loop has left. -/
theorem set_of_drop (x : LTUInfor) (h : es.drop i = e :: rest) :
    es.set i x = es.take i ++ x :: rest := by
  have hlt : i < es.length := (List.getElem?_eq_some_iff.mp (getElem?_of_drop h)).1
  rw [List.set_eq_take_append_cons_drop, if_pos hlt, drop_succ_of_drop h]

theorem take_succ_of_drop (h : es.drop i = e :: rest) : es.take (i + 1) = es.take i ++ [e] := by
  rw [List.take_add_one, getElem?_of_drop h]
  rfl

end Lists

/-- The handler's loop from one of its tests on. -/
theorem markDevice_alone (host : List UInt8) (t : TableId) (es : List LTUInfor) (n i : Nat)
    (s : TableState ρ) (es' : List LTUInfor) (hpc : s.branch = .bound host i)
    (hp : s.pLTUInfo = some t) (hes : s.tables t = some es) (hn : i + n = s.num.toNat)
    (h : markDevice host n (es.drop i) = .ok es') :
    Alone R false s { s with
      branch := .count
      tables := Function.update s.tables t (some (es.take i ++ es')) } := by
  induction n generalizing i s es' with
  | zero =>
      have hlast : ¬ i < s.num.toNat := by omega
      have hsame : es.take i ++ es' = es := by
        rw [← Except.ok.inj h]
        exact List.take_append_drop i es
      have hstep := TableStep.bound (R := R) s host i hpc
      rw [if_neg hlast] at hstep
      rw [hsame, ← hes, Function.update_eq_self]
      exact Alone.single .coap rfl hstep
  | succ n ih =>
      have hlt : i < s.num.toNat := by omega
      rcases markDevice_succ h with ⟨e, rest, hdrop, hturn⟩
      have hbound := TableStep.bound (R := R) s host i hpc
      rw [if_pos hlt] at hbound
      refine Alone.head .coap rfl hbound (Alone.head .coap rfl (.pointer _ host i rfl) ?_)
      have hread : s.read s.pLTUInfo i = some e := by
        rw [read_of_table hp hes, getElem?_of_drop hdrop]
      rcases hturn with ⟨hcmp, hes'⟩ | ⟨hcmp, es'', hrest, hes'⟩
      · refine Alone.head .coap rfl (.compare _ host i s.pLTUInfo e true rfl hread hcmp) ?_
        refine Alone.head .coap rfl (.markPointer _ i rfl) (Alone.single .coap rfl ?_)
        rw [hes', ← set_of_drop _ hdrop]
        have hmark := TableStep.mark (R := R) { s with branch := .mark i s.pLTUInfo } i s.pLTUInfo
          e rfl hread
        rw [write_of_table (s := { s with branch := .mark i s.pLTUInfo }) hp hes] at hmark
        exact hmark
      · refine Alone.head .coap rfl (.compare _ host i s.pLTUInfo e false rfl hread hcmp) ?_
        simp only [Bool.false_eq_true, if_false]
        have htail := ih (i + 1) { s with branch := .bound host (i + 1) } es'' rfl hp hes
          (by simp only []; omega) (by rw [drop_succ_of_drop hdrop]; exact hrest)
        rw [take_succ_of_drop hdrop, List.append_assoc] at htail
        rw [hes']
        exact htail

/-- A handler that is left alone with a table does what `respond` does, and ends
    in front of the signal where the answer completes the round. -/
theorem respond_alone {host : List UInt8} {t : TableId} {es : List LTUInfor} {s : TableState ρ}
    {d : SDeviceInfo} {signalled : Bool} (hpc : s.branch = .away) (hopen : s.ycRequest = true)
    (hp : s.pLTUInfo = some t) (hes : s.tables t = some es)
    (h : respond host (tableInfo s) = .ok (d, signalled)) :
    Alone R false s { s with
      branch := if signalled then .signal else .away
      count := d.count
      tables := Function.update s.tables t (some d.pLTUInfo) } := by
  rcases respond_ok h with ⟨entries, hmark, hd, hsignalled⟩
  rw [tableInfo_pLTUInfo hp hes] at hmark
  subst hd hsignalled
  have hstart := TableStep.answer (R := R) s host hpc
  rw [if_pos hopen] at hstart
  have hscan := markDevice_alone (R := R) host t es s.num.toNat 0
    { s with branch := .bound host 0 } entries rfl hp hes (Nat.zero_add _) hmark
  refine Alone.head (.answer host) rfl hstart (hscan.trans ?_)
  refine Alone.head .coap rfl (.count _ rfl) (Alone.head .coap rfl (.store _ _ rfl) ?_)
  refine Alone.head .coap rfl (.complete _ rfl) (Alone.single .coap rfl ?_)
  have hlast := TableStep.completeNum (R := R) { s with
    branch := .completeNum (s.count + 1)
    count := s.count + 1
    tables := Function.update s.tables t (some entries) } (s.count + 1) rfl
  simp only [beq_iff_eq]
  exact hlast

/-- Clearing the states of the entries that are left. -/
theorem clearState_alone (t : TableId) (todo back front : List LTUInfor) (s : TableState ρ)
    (hpc : s.poll = .clearState front.length (front.length + todo.length))
    (hp : s.pLTUInfo = some t) (hes : s.tables t = some (front ++ todo ++ back)) :
    Alone R true s { s with
      poll := .openRound
      tables := Function.update s.tables t
        (some (front ++ todo.map (fun e => { e with state := 0 }) ++ back)) } := by
  induction todo generalizing front s with
  | nil =>
      rw [List.map_nil, ← hes, Function.update_eq_self]
      exact Alone.single .poll rfl (.statesCleared s _ _ hpc (Nat.lt_irrefl _))
  | cons e todo ih =>
      rw [List.append_assoc, List.cons_append] at hes
      have hdrop : (front ++ e :: (todo ++ back)).drop front.length = e :: (todo ++ back) :=
        List.drop_left
      have hread : s.read s.pLTUInfo front.length = some e := by
        rw [read_of_table hp hes, getElem?_of_drop hdrop]
      have hclear := TableStep.clearState (R := R) s front.length _ e hpc (by simp) hread
      rw [write_of_table hp hes, set_of_drop _ hdrop, List.take_left] at hclear
      refine Alone.head .poll rfl hclear ?_
      have htail := ih (front ++ [{ e with state := 0 }])
        { s with
          poll := .clearState (front.length + 1) (front.length + (todo.length + 1))
          tables := Function.update s.tables t
            (some (front ++ { e with state := 0 } :: (todo ++ back))) }
        (by simp; omega) hp (by simp [Function.update_self])
      simp only [Function.update_idem, List.append_assoc, List.singleton_append] at htail
      simp only [List.map_cons, List.cons_append, List.append_assoc]
      exact htail

/-- The poll thread left alone fills the table as `getRegisteredDeviceInfo`
    does, wherever the allocator puts it, and stands in front of the round or,
    after a failure, in front of the next attempt. -/
theorem getRegisteredDeviceInfo_alone {r : RegistryReply} {t : TableId} {s : TableState ρ}
    {d : SDeviceInfo} {filled : Bool} (hpc : s.poll = .load) (hfresh : s.tables t = none)
    (h : getRegisteredDeviceInfo r (tableInfo s) = .ok (d, filled)) :
    ∃ s', Alone R true s s' ∧ s'.poll = (if filled then .openRound else .load) ∧
      tableInfo s' = d := by
  unfold getRegisteredDeviceInfo at h
  rcases hcount : r.count with _ | n
  · rw [hcount] at h
    cases h
    exact ⟨_, Alone.single (.load none) rfl (.noCount s hpc), hpc, rfl⟩
  rw [hcount] at h
  simp only [] at h
  have hload := TableStep.load (R := R) s n hpc
  by_cases halloc : 0 ≤ n ∧ r.allocated = true
  · rw [if_pos halloc] at h
    have hcalloc := Alone.head (.load (some n)) rfl hload
      (Alone.single (.calloc (some t)) rfl (.calloc _ n t rfl halloc.1 hfresh))
    rcases hentries : r.entries with _ | entries
    · rw [hentries] at h
      cases h
      refine ⟨_, hcalloc.trans (Alone.head (.fill none) rfl (.noEntries _ n rfl)
        (Alone.single .poll rfl (.unload _ rfl))), rfl, ?_⟩
      simp only [tableInfo, Option.bind_some, Function.update_self, Option.getD_some]
    rw [hentries] at h
    simp only [] at h
    by_cases hfits : entries.length ≤ n.toNat
    · rw [if_pos hfits] at h
      cases h
      refine ⟨_, hcalloc.trans (Alone.head (.fill (some entries)) rfl
        (.fill _ n t _ entries rfl rfl (Function.update_self ..) hfits)
        (Alone.head .poll rfl (.resetCount _ entries.length rfl)
        (clearState_alone t entries _ [] _ ?_ rfl (Function.update_self ..)))), rfl, ?_⟩
      · simp only [List.length_nil, Nat.zero_add]
      · simp only [tableInfo, Option.bind_some, Function.update_self, Option.getD_some,
          List.nil_append]
    · rw [if_neg hfits] at h
      cases h
  · rw [if_neg halloc] at h
    cases h
    exact ⟨_, Alone.head (.load (some n)) rfl hload (Alone.head (.calloc none) rfl
      (.noMemory _ n rfl) (Alone.single .poll rfl (.unload _ rfl))), rfl, rfl⟩

/-- Reading a record over an entry, setting its state and writing it back. -/
theorem rewrite_alone {t : TableId} {es : List LTUInfor} {i : Nat} {state : Int32}
    {s : TableState ρ} {e e' : LTUInfor} {db : ρ} (hpc : s.poll = .getRecord i state)
    (hp : s.pLTUInfo = some t) (hes : s.tables t = some es) (he : es[i]? = some e)
    (h : rewrite R state e s.post.registry = .ok (e', db)) :
    Alone R true s { s with
      poll := if state = 0 then .getRecord i 1 else .process (i + 1)
      tables := Function.update s.tables t (some (es.set i e'))
      post := { s.post with registry := db } } := by
  have hlt : i < es.length := (List.getElem?_eq_some_iff.mp he).1
  unfold rewrite at h
  by_cases hread : Terminated e.name.bytes
  · rw [if_pos hread] at h
    simp only [] at h
    generalize hrecord : (R.getLTUInforByName s.post.registry e.nameOf).getD e = record at h
    by_cases hwritten : Terminated record.name.bytes
    · rw [if_pos hwritten] at h
      cases h
      have hget := TableStep.getRecord (R := R) s i state e hpc
        (by rw [read_of_table hp hes, he]) hread
      rw [hrecord, write_of_table hp hes] at hget
      have hset := TableStep.setState (R := R)
        { s with
          poll := .setState i state
          tables := Function.update s.tables t (some (es.set i record)) } i state record rfl
        (by rw [read_of_table hp (Function.update_self ..), List.getElem?_set_self hlt])
      rw [write_of_table (s := { s with
        poll := .setState i state
        tables := Function.update s.tables t (some (es.set i record)) }) hp
        (Function.update_self ..), List.set_set] at hset
      simp only [Function.update_idem] at hset
      refine Alone.head .poll rfl hget (Alone.head .poll rfl hset (Alone.single .poll rfl ?_))
      refine TableStep.setRecord (R := R) { s with
        poll := .setRecord i state
        tables := Function.update s.tables t (some (es.set i { record with state := state })) }
        i state _ rfl ?_ hwritten
      rw [read_of_table hp (Function.update_self ..), List.getElem?_set_self hlt]
    · rw [if_neg hwritten] at h
      cases h
  · rw [if_neg hread] at h
    cases h

/-- One turn of the loop after a round. -/
theorem postEntry_alone {t : TableId} {es : List LTUInfor} {i : Nat} {s : TableState ρ}
    {e e' : LTUInfor} {post : PostState ρ} (hpc : s.poll = .process i) (hlt : i < s.num.toNat)
    (hp : s.pLTUInfo = some t) (hes : s.tables t = some es) (he : es[i]? = some e)
    (h : postEntry R e s.post = .ok (e', post)) :
    Alone R true s { s with
      poll := .process (i + 1)
      tables := Function.update s.tables t (some (es.set i e'))
      post := post } := by
  have hbound : i < es.length := (List.getElem?_eq_some_iff.mp he).1
  have hread : s.read s.pLTUInfo i = some e := by rw [read_of_table hp hes, he]
  unfold postEntry at h
  simp only [] at h
  by_cases hsilent : e.state = 0
  · rw [if_pos hsilent] at h
    rcases hfirst : rewrite R 0 e (publish e s.post).registry with f | ⟨e₁, db₁⟩
    · rw [hfirst] at h
      cases h
    rw [hfirst] at h
    simp only [] at h
    rcases hsecond : rewrite R 1 e₁ db₁ with f | ⟨e₂, db₂⟩
    · rw [hsecond] at h
      cases h
    rw [hsecond] at h
    cases h
    refine Alone.head .poll rfl (.processSilent s i e hpc hlt hread hsilent) ?_
    have hzero := rewrite_alone (s := { s with poll := .getRecord i 0, post := publish e s.post })
      rfl hp hes he hfirst
    have hone := rewrite_alone (s := { s with
      poll := .getRecord i 1
      tables := Function.update s.tables t (some (es.set i e₁))
      post := { publish e s.post with registry := db₁ } }) rfl hp (Function.update_self ..)
      (List.getElem?_set_self hbound) hsecond
    rw [Function.update_idem, List.set_set] at hone
    exact hzero.trans hone
  · rw [if_neg hsilent] at h
    rcases hsecond : rewrite R 1 e s.post.registry with f | ⟨e₂, db₂⟩
    · simp only [] at h
      rw [hsecond] at h
      cases h
    simp only [] at h
    rw [hsecond] at h
    cases h
    refine Alone.head .poll rfl (.processAnswered s i e hpc hlt hread hsilent) ?_
    exact rewrite_alone (s := { s with poll := .getRecord i 1 }) rfl hp hes he hsecond

/-- The loop after a round, from one of its tests on. -/
theorem postLoop_alone (t : TableId) (n i : Nat) (s : TableState ρ) (es es' : List LTUInfor)
    (post : PostState ρ) (hpc : s.poll = .process i) (hp : s.pLTUInfo = some t)
    (hes : s.tables t = some es) (hn : i + n = s.num.toNat)
    (h : postLoop R n (es.drop i) s.post = .ok (es', post)) :
    Alone R true s { s with
      poll := .free
      tables := Function.update s.tables t (some (es.take i ++ es'))
      post := post } := by
  induction n generalizing i s es es' with
  | zero =>
      have hlast : ¬ i < s.num.toNat := by omega
      cases h
      rw [List.take_append_drop, ← hes, Function.update_eq_self]
      exact Alone.single .poll rfl (.processed s i hpc hlast)
  | succ n ih =>
      have hlt : i < s.num.toNat := by omega
      rcases hdrop : es.drop i with _ | ⟨e, rest⟩
      · rw [hdrop] at h
        cases h
      rw [hdrop] at h
      unfold postLoop at h
      rcases hentry : postEntry R e s.post with f | ⟨e₁, post₁⟩
      · rw [hentry] at h
        cases h
      rw [hentry] at h
      simp only [] at h
      rcases hrest : postLoop R n rest post₁ with f | ⟨es₁, post₂⟩
      · rw [hrest] at h
        cases h
      rw [hrest] at h
      cases h
      have hfirst := postEntry_alone hpc hlt hp hes (getElem?_of_drop hdrop) hentry
      have hdrop' : (es.set i e₁).drop i = e₁ :: rest := by
        rw [List.drop_set, if_neg (Nat.lt_irrefl i), Nat.sub_self, hdrop]
        rfl
      have htail := ih (i + 1)
        { s with
          poll := .process (i + 1)
          tables := Function.update s.tables t (some (es.set i e₁))
          post := post₁ } (es.set i e₁) es₁ rfl hp (Function.update_self ..)
        (by simp only []; omega) (by rw [drop_succ_of_drop hdrop']; exact hrest)
      rw [take_succ_of_drop hdrop', List.take_set_of_le (Nat.le_refl i), List.append_assoc,
        Function.update_idem] at htail
      exact hfirst.trans htail

/-- The poll thread left alone with the table of a round it has closed does what
    `postProcess` does, and gives the table back. -/
theorem postProcess_alone {t : TableId} {s : TableState ρ} {es es' : List LTUInfor}
    {post : PostState ρ} (hpc : s.poll = .process 0) (hp : s.pLTUInfo = some t)
    (hes : s.tables t = some es) (h : postProcess R (tableInfo s) s.post = .ok (es', post)) :
    Alone R true s { s with
      poll := .load
      tables := Function.update s.tables t none
      post := post } := by
  unfold postProcess at h
  rw [tableInfo_pLTUInfo hp hes] at h
  have hloop := postLoop_alone t s.num.toNat 0 s es es' post hpc hp hes (Nat.zero_add _) h
  have hfree := TableStep.free (R := R) { s with
    poll := .free
    tables := Function.update s.tables t (some es')
    post := post } t rfl hp
  rw [Function.update_idem] at hfree
  exact hloop.trans (Alone.single .poll rfl hfree)

end CoapThread
