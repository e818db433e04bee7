import CoapThread.Core.Handler

/-!
# Answers to a Poll

What a sequence of measurement responses does to the device table.

The branch searches the table for the device a response came from with
`memcmp(host, name + 3, 6)` as the condition, and `memcmp` is nonzero where
the bytes differ. So the entry that is marked is the first one the response
did not come from, and the answer is counted whether an entry was marked or
not, a second answer like a first.

The exact condition under which the table still records who answered is that
every response marks the entry of its own host after all. `MarksOwn` spells
that out on the names alone. It takes a host shorter than the six bytes
compared, so that the comparison runs on into what stands behind the option
in the message: `marksOwn_short` is that, and with the twelve digits a device
of the gateway is named by there is no such host.

The count carries the argument in the other direction. It goes up by one with
every response, so to stay the number of marked entries it needs a new one
marked each time, and a newly marked entry is accounted for only by the
response at hand.

## Main definitions

* `Answer`: A host option and the bytes behind it in the message.
* `Accurate`: The table records who answered.
* `Tracks`: It does so after every response, and the round is signalled at
  the response that completes it.
* `MarksOwn`: A response marks the entry of its own host.
* `marked`: The table once an answer has marked one entry.

## Theorems

* `markDevice_ok`: What the search loop does.
* `marksOwn_of_accurate`, `accurate_of_marksOwn`: One response keeps the table
  accurate iff it marks its own entry and none has come from that host.
* `tracks_iff`: The condition for a whole round.
* `marksOwn_short`: The condition fails for hosts of six bytes and more.
* `not_tracks_twoDevices`: The first of two devices answers and the second is marked.
-/

namespace CoapThread

open CBytes

/-- A host option and the bytes behind it in the message. -/
structure Answer where
  host : List UInt8
  behind : List UInt8

/-- The host an entry names, its name without the three letters in front. -/
def Names (name : Buf 33) (host : List UInt8) : Prop := cstr (name.bytes.drop 3) = host

instance (name : Buf 33) (host : List UInt8) : Decidable (Names name host) :=
  inferInstanceAs (Decidable (_ = _))

/-- The number of entries with state 1. -/
def answered (es : List LTUInfor) : Nat := es.countP (fun e => e.state = 1)

/-- The table records who answered: an entry's state is 1 exactly when a
    response came from its host, and the count is the number of these. -/
def Accurate (done : List Answer) (d : SDeviceInfo) : Prop :=
  (∀ e ∈ d.pLTUInfo, e.state = 1 ↔ ∃ a ∈ done, Names e.name a.host) ∧
    d.count.toNat = answered d.pLTUInfo

/-- Every entry has answered. -/
def Complete (d : SDeviceInfo) : Prop := ∀ e ∈ d.pLTUInfo, e.state = 1

/-- After every further response the table records who answered, and a
    response signals the round exactly when it is the one to complete it. -/
def Tracks : List Answer → SDeviceInfo → List Answer → Prop
  | _, _, [] => True
  | done, d, a :: as => ∃ d' signalled, respond (a.host ++ a.behind) d = .ok (d', signalled) ∧
      Accurate (done ++ [a]) d' ∧ (signalled = true ↔ Complete d' ∧ ¬ Complete d) ∧
      Tracks (done ++ [a]) d' as

/-- The table as `GetRegisteredDeviceInfo` leaves it. -/
structure Loaded (d : SDeviceInfo) : Prop where
  num : d.num.toNat = d.pLTUInfo.length
  count : d.count = 0
  state : ∀ e ∈ d.pLTUInfo, e.state = 0
  distinct : (d.pLTUInfo.map (fun e => cstr e.name.bytes)).Nodup

/-- A response marks the entry of its own host: that entry is the first whose
    six bytes differ from the response's, and no other is named so. -/
def MarksOwn (names : List (Buf 33)) (a : Answer) : Prop :=
  ∃ before name after, names = before ++ name :: after ∧ Names name a.host ∧
    memcmp (a.host ++ a.behind) (name.bytes.drop 3) 6 = some true ∧
    (∀ n ∈ before, memcmp (a.host ++ a.behind) (n.bytes.drop 3) 6 = some false) ∧
    ∀ n ∈ before ++ after, ¬ Names n a.host

-- Induction along the search; the entries passed over are `before`.
theorem markDevice_ok (host : List UInt8) (es es' : List LTUInfor)
    (h : markDevice host es.length es = .ok es') :
    es' = es ∨ ∃ before e after, es = before ++ e :: after ∧
      es' = before ++ { e with state := 1 } :: after ∧
      memcmp host (e.name.bytes.drop 3) 6 = some true ∧
      ∀ x ∈ before, memcmp host (x.name.bytes.drop 3) 6 = some false := by
  induction es generalizing es' with
  | nil => exact Or.inl (Except.ok.inj h).symm
  | cons e es ih =>
      rcases markDevice_succ h with ⟨_, _, hes, ⟨hcmp, hes'⟩ | ⟨hcmp, es'', hrest, hes'⟩⟩
      · cases hes
        refine Or.inr ⟨[], e, es, rfl, hes', hcmp, ?_⟩
        exact fun x hx => absurd hx List.not_mem_nil
      · cases hes
        rcases ih es'' hrest with hsame | ⟨before, x, after, hsplit, hmark, hx, hbefore⟩
        · exact Or.inl (by rw [hes', hsame])
        · refine Or.inr ⟨e :: before, x, after, ?_, ?_, hx, ?_⟩
          · rw [hsplit, List.cons_append]
          · rw [hes', hmark, List.cons_append]
          · exact List.forall_mem_cons.mpr ⟨hcmp, hbefore⟩

theorem markDevice_split (host : List UInt8) (before after : List LTUInfor) (e : LTUInfor)
    (he : memcmp host (e.name.bytes.drop 3) 6 = some true)
    (hbefore : ∀ x ∈ before, memcmp host (x.name.bytes.drop 3) 6 = some false) :
    markDevice host (before ++ e :: after).length (before ++ e :: after) =
      .ok (before ++ { e with state := 1 } :: after) := by
  induction before with
  | nil => simp only [List.nil_append, List.length_cons, markDevice, he]
  | cons x before ih =>
      rcases List.forall_mem_cons.mp hbefore with ⟨hx, hrest⟩
      simp only [List.cons_append, List.length_cons, markDevice, hx] at ih ⊢
      rw [ih hrest]
      rfl

/-- The entries around one are entries. -/
theorem mem_around {before after : List LTUInfor} {x : LTUInfor} (e : LTUInfor)
    (h : x ∈ before ++ after) : x ∈ before ++ e :: after :=
  ((List.sublist_cons_self e after).append_left before).subset h

theorem answered_mark (before after : List LTUInfor) (e : LTUInfor) :
    answered (before ++ { e with state := 1 } :: after) + (if e.state = 1 then 1 else 0) =
      answered (before ++ e :: after) + 1 := by
  simp only [answered, List.countP_append, List.countP_cons, decide_true, if_true,
    decide_eq_true_eq]
  omega

theorem answered_eq_length (es : List LTUInfor) :
    answered es = es.length ↔ ∀ e ∈ es, e.state = 1 := by
  unfold answered
  rw [List.countP_eq_length]
  simp only [decide_eq_true_eq]

theorem count_succ_ne (c : UInt16) : (c + 1).toNat ≠ c.toNat := by
  rw [UInt16.toNat_add]
  have hlt := UInt16.toNat_lt c
  have hone : (1 : UInt16).toNat = 1 := rfl
  omega

/-- What a round keeps: the names and the number of entries, and the record of
    who answered. -/
structure InRound (names : List (Buf 33)) (done : List Answer) (d : SDeviceInfo) : Prop where
  names_eq : d.pLTUInfo.map (fun e => e.name) = names
  num_eq : d.num.toNat = d.pLTUInfo.length
  accurate : Accurate done d

theorem respond_run {host : List UInt8} {d d' : SDeviceInfo} {signalled : Bool}
    (hnum : d.num.toNat = d.pLTUInfo.length) (h : respond host d = .ok (d', signalled)) :
    ∃ es', markDevice host d.pLTUInfo.length d.pLTUInfo = .ok es' ∧
      d' = { d with pLTUInfo := es', count := d.count + 1 } := by
  rcases respond_ok h with ⟨es', hmark, hd', -⟩
  rw [hnum] at hmark
  exact ⟨es', hmark, hd'⟩

-- An accurate table afterwards: the count went up, so one entry was newly
-- marked, and only this response can account for it.
theorem marksOwn_of_accurate (names : List (Buf 33)) (done : List Answer) (d d' : SDeviceInfo)
    (a : Answer) (signalled : Bool) (hd : InRound names done d)
    (hrun : respond (a.host ++ a.behind) d = .ok (d', signalled))
    (hacc : Accurate (done ++ [a]) d') :
    MarksOwn names a ∧ a.host ∉ done.map (fun x => x.host) := by
  rcases respond_run hd.num_eq hrun with ⟨es', hmark, hd'⟩
  subst hd'
  rcases hacc with ⟨hstate, hcount⟩
  have hsucc := count_succ_ne d.count
  have hbefore := hd.accurate.2
  have hlt := UInt16.toNat_lt d.count
  rcases markDevice_ok _ _ _ hmark with hsame | ⟨before, e, after, hsplit, hes', hcmp, hpassed⟩
  · simp only [hsame] at hcount
    exact absurd (hcount.trans hbefore.symm) hsucc
  · simp only [hes'] at hcount hstate
    rw [hsplit] at hbefore
    have hfresh : ¬ (e.state = 1) := by
      intro hc
      have hmore := answered_mark before after e
      rw [if_pos hc] at hmore
      exact hsucc (by omega)
    have hmem : e ∈ d.pLTUInfo := hsplit ▸ List.mem_append_right _ List.mem_cons_self
    have hnone : ∀ b ∈ done, ¬ Names e.name b.host := fun b hb hn =>
      hfresh ((hd.accurate.1 e hmem).mpr ⟨b, hb, hn⟩)
    have hown : Names e.name a.host := by
      rcases (hstate { e with state := 1 } (List.mem_append_right _ List.mem_cons_self)).mp rfl with
        ⟨b, hb, hn⟩
      rcases List.mem_append.mp hb with hb | hb
      · exact absurd hn (hnone b hb)
      · rw [List.mem_singleton] at hb
        exact hb ▸ hn
    have hnew : ∀ b ∈ done, b.host ≠ a.host := fun b hb hc => hnone b hb (hc ▸ hown)
    refine ⟨⟨before.map (fun x => x.name), e.name, after.map (fun x => x.name), ?_, hown, hcmp, ?_,
      ?_⟩, ?_⟩
    · rw [← hd.names_eq, hsplit, List.map_append, List.map_cons]
    · intro n hn
      rcases List.mem_map.mp hn with ⟨x, hx, hxn⟩
      exact hxn ▸ hpassed x hx
    · -- Another entry of that host would be marked, and by no earlier response.
      intro n hn hname
      rw [← List.map_append] at hn
      rcases List.mem_map.mp hn with ⟨x, hx, hxn⟩
      have hx' := mem_around { e with state := 1 } hx
      have hxd : x ∈ d.pLTUInfo := hsplit ▸ mem_around e hx
      have hone : x.state = 1 :=
        (hstate x hx').mpr ⟨a, List.mem_append_right _ (List.mem_singleton_self a), hxn ▸ hname⟩
      rcases (hd.accurate.1 x hxd).mp hone with ⟨b, hb, hbn⟩
      exact hnew b hb (hbn.symm.trans (hxn ▸ hname))
    · intro hc
      rcases List.mem_map.mp hc with ⟨b, hb, hbh⟩
      exact hnew b hb hbh

/-- The table once an answer has marked the entry in the middle. -/
def marked (d : SDeviceInfo) (before : List LTUInfor) (e : LTUInfor) (after : List LTUInfor) :
    SDeviceInfo :=
  { d with pLTUInfo := before ++ { e with state := 1 } :: after, count := d.count + 1 }

section Marked

variable {names : List (Buf 33)} {done : List Answer} {d : SDeviceInfo} {a : Answer}
  {before after : List LTUInfor} {e : LTUInfor}

theorem length_marked (hsplit : d.pLTUInfo = before ++ e :: after) :
    (marked d before e after).pLTUInfo.length = d.pLTUInfo.length := by
  rw [hsplit, marked, List.length_append, List.length_append, List.length_cons, List.length_cons]

theorem marked_names (hd : InRound names done d) (hsplit : d.pLTUInfo = before ++ e :: after) :
    (marked d before e after).pLTUInfo.map (fun e => e.name) = names := by
  rw [← hd.names_eq, hsplit]
  simp only [marked, List.map_append, List.map_cons]

-- The count cannot wrap: one more entry has answered, and there are no more
-- entries than the sixteen bits of their number count.
theorem marked_count (hd : InRound names done d) (hsplit : d.pLTUInfo = before ++ e :: after)
    (hfresh : ¬ (e.state = 1)) :
    (d.count + 1).toNat = answered (marked d before e after).pLTUInfo := by
  have hmore : answered (marked d before e after).pLTUInfo = answered d.pLTUInfo + 1 := by
    have hmark := answered_mark before after e
    rw [if_neg hfresh, ← hsplit] at hmark
    exact hmark
  have hle : answered (marked d before e after).pLTUInfo ≤ d.pLTUInfo.length := by
    rw [← length_marked hsplit]
    exact List.countP_le_length
  have hbefore := hd.accurate.2
  have hnum := hd.num_eq
  have hlt := UInt16.toNat_lt d.num
  have hone : (1 : UInt16).toNat = 1 := rfl
  rw [UInt16.toNat_add, hone]
  omega

-- The other entries keep their states, and the answer names none of them.
theorem marked_state (hd : InRound names done d) (hsplit : d.pLTUInfo = before ++ e :: after)
    (hname : Names e.name a.host) (hother : ∀ x ∈ before ++ after, ¬ Names x.name a.host) :
    ∀ x ∈ (marked d before e after).pLTUInfo,
      x.state = 1 ↔ ∃ b ∈ done ++ [a], Names x.name b.host := by
  have hsame : ∀ x ∈ before ++ after, x.state = 1 ↔ ∃ b ∈ done ++ [a], Names x.name b.host := by
    intro x hx
    have hxd : x ∈ d.pLTUInfo := hsplit ▸ mem_around e hx
    rw [hd.accurate.1 x hxd]
    simp only [List.mem_append, List.mem_singleton, or_and_right, exists_or, exists_eq_left,
      hother x hx, or_false]
  intro x hx
  rcases List.mem_append.mp hx with hx | hx
  · exact hsame x (List.mem_append_left _ hx)
  · rcases List.mem_cons.mp hx with heq | hx
    · rw [heq]
      exact ⟨fun _ => ⟨a, List.mem_append_right _ (List.mem_singleton_self a), hname⟩, fun _ => rfl⟩
    · exact hsame x (List.mem_append_right _ hx)

theorem marked_complete (hd : InRound names done d) (hsplit : d.pLTUInfo = before ++ e :: after)
    (hfresh : ¬ (e.state = 1)) : d.count + 1 = d.num ↔ Complete (marked d before e after) := by
  unfold Complete
  rw [← answered_eq_length, length_marked hsplit, ← hd.num_eq, ← marked_count hd hsplit hfresh,
    UInt16.toNat_inj]

end Marked

-- The other direction: the marked entry is the one the response names.
theorem accurate_of_marksOwn (names : List (Buf 33)) (done : List Answer) (d : SDeviceInfo)
    (a : Answer) (hd : InRound names done d) (hown : MarksOwn names a)
    (hnew : a.host ∉ done.map (fun x => x.host)) :
    ∃ d' signalled, respond (a.host ++ a.behind) d = .ok (d', signalled) ∧
      InRound names (done ++ [a]) d' ∧ (signalled = true ↔ Complete d' ∧ ¬ Complete d) := by
  rcases hown with ⟨nbefore, name, nafter, hnames, hname, hcmp, hpassed, hother⟩
  have hmap := hd.names_eq
  rw [hnames] at hmap
  rcases List.map_eq_append_iff.mp hmap with ⟨before, rest, hsplit, hmapb, hrest⟩
  rcases List.map_eq_cons_iff.mp hrest with ⟨e, after, hcons, hen, hmapa⟩
  subst hcons
  have hmark := markDevice_split (a.host ++ a.behind) before after e (hen ▸ hcmp)
    (fun x hx => hpassed x.name (hmapb ▸ List.mem_map_of_mem hx))
  rw [← hsplit] at hmark
  have hmem : e ∈ d.pLTUInfo := hsplit ▸ List.mem_append_right _ List.mem_cons_self
  -- No earlier response came from this host, so its entry is not marked yet.
  have hfresh : ¬ (e.state = 1) := by
    intro hc
    rcases (hd.accurate.1 e hmem).mp hc with ⟨b, hb, hbn⟩
    exact hnew (List.mem_map.mpr ⟨b, hb, hbn.symm.trans (hen ▸ hname)⟩)
  have hothers : ∀ x ∈ before ++ after, ¬ Names x.name a.host := by
    intro x hx
    refine hother x.name ?_
    rw [← hmapb, ← hmapa, ← List.map_append]
    exact List.mem_map_of_mem hx
  refine ⟨marked d before e after, d.count + 1 == d.num, ?_, ⟨marked_names hd hsplit, ?_,
    marked_state hd hsplit (hen ▸ hname) hothers, marked_count hd hsplit hfresh⟩, ?_⟩
  · unfold respond
    rw [hd.num_eq, hmark]
    rfl
  · rw [length_marked hsplit]
    exact hd.num_eq
  · rw [beq_iff_eq, marked_complete hd hsplit hfresh]
    exact ⟨fun h => ⟨h, fun hc => hfresh (hc e hmem)⟩, fun h => h.1⟩

-- Induction on the responses still to come, from any point of a round.
theorem tracks_from (names : List (Buf 33)) (done as : List Answer) (d : SDeviceInfo)
    (hd : InRound names done d) :
    Tracks done d as ↔ (∀ a ∈ as, MarksOwn names a) ∧ (as.map (fun x => x.host)).Nodup ∧
      ∀ a ∈ as, a.host ∉ done.map (fun x => x.host) := by
  induction as generalizing done d with
  | nil =>
      simp only [Tracks, List.not_mem_nil, false_implies, implies_true, List.map_nil,
        List.nodup_nil, and_self]
  | cons a as ih =>
      simp only [List.map_cons, List.nodup_cons, List.forall_mem_cons]
      -- The responses behind this one, seen from behind it.
      have hahead : (∀ x ∈ as, x.host ∉ (done ++ [a]).map (fun y => y.host)) ↔
          (∀ x ∈ as, x.host ∉ done.map (fun y => y.host)) ∧ a.host ∉ as.map (fun x => x.host) := by
        simp only [List.map_append, List.map_singleton, List.mem_append, List.mem_singleton, not_or,
          List.mem_map, not_exists, not_and]
        constructor
        · intro h
          exact ⟨fun x hx => (h x hx).1, fun x hx heq => (h x hx).2 heq⟩
        · rintro ⟨hdone, hself⟩ x hx
          exact ⟨hdone x hx, fun heq => hself x hx heq⟩
      constructor
      · rintro ⟨d', signalled, hrun, hacc, -, hrest⟩
        rcases marksOwn_of_accurate names done d d' a signalled hd hrun hacc with ⟨hown, hnew⟩
        rcases accurate_of_marksOwn names done d a hd hown hnew with ⟨d'', s'', hrun'', hd'', -⟩
        cases hrun.symm.trans hrun''
        rcases (ih (done ++ [a]) d' hd'').mp hrest with ⟨howns, hnodup, hnews⟩
        rcases hahead.mp hnews with ⟨hdone, hself⟩
        exact ⟨⟨hown, howns⟩, ⟨hself, hnodup⟩, ⟨hnew, hdone⟩⟩
      · rintro ⟨⟨hown, howns⟩, ⟨hself, hnodup⟩, ⟨hnew, hdone⟩⟩
        rcases accurate_of_marksOwn names done d a hd hown hnew with ⟨d', s', hrun, hd', hsig⟩
        exact ⟨d', s', hrun, hd'.accurate, hsig,
          (ih (done ++ [a]) d' hd').mpr ⟨howns, hnodup, hahead.mpr ⟨hdone, hself⟩⟩⟩

theorem Loaded.inRound {d : SDeviceInfo} (hd : Loaded d) :
    InRound (d.pLTUInfo.map (fun e => e.name)) [] d := by
  have hzero : ∀ e ∈ d.pLTUInfo, ¬ (e.state = 1) := by
    intro e he hc
    exact absurd ((hd.state e he).symm.trans hc) (by decide)
  refine ⟨rfl, hd.num, fun e he => ?_, ?_⟩
  · simp only [hzero e he, List.not_mem_nil, false_and, exists_false]
  · rw [hd.count]
    refine (List.countP_eq_zero.mpr (fun e he => ?_)).symm
    simp only [hzero e he, decide_false, Bool.false_eq_true, not_false_eq_true]

/-- A freshly loaded table keeps a true record of a round if and only if every
    response marks the entry of its own host and no host answers twice. -/
theorem tracks_iff (d : SDeviceInfo) (as : List Answer) (hd : Loaded d) :
    Tracks [] d as ↔ (∀ a ∈ as, MarksOwn (d.pLTUInfo.map (fun e => e.name)) a) ∧
      (as.map (fun a => a.host)).Nodup := by
  rw [tracks_from _ [] as d hd.inRound]
  simp only [List.map_nil, List.not_mem_nil, not_false_eq_true, implies_true, and_true]

/-- The devices `LTUbb` and `LTUb` answer in turn. The response of the first
    carries other bytes behind its host than the entry does, and that of the
    second the bytes of the first entry. -/
theorem tracks_twoLetters : Tracks []
    ⟨2, 0, 0, [.ofName [0x4c, 0x54, 0x55, 0x62, 0x62], .ofName [0x4c, 0x54, 0x55, 0x62]]⟩
    [⟨[0x62, 0x62], [1, 1, 1, 1]⟩, ⟨[0x62], [0x62, 0, 0, 0, 0]⟩] := by
  refine (tracks_iff _ _ ⟨rfl, rfl, by decide, by decide⟩).mpr ⟨fun a ha => ?_, by decide⟩
  simp only [List.mem_cons, List.not_mem_nil, or_false] at ha
  rcases ha with rfl | rfl
  · exact ⟨[], _, [_], rfl, by decide, by decide, nofun, by decide⟩
  · exact ⟨[_], _, [], rfl, by decide, by decide, by decide, by decide⟩

/-- A response marks its own entry only where its host is shorter than the six
    bytes compared. -/
theorem marksOwn_short (names : List (Buf 33)) (a : Answer) (h : MarksOwn names a) :
    a.host.length < 6 := by
  rcases h with ⟨-, name, -, -, hname, hcmp, -⟩
  by_contra hlen
  have hsix : 6 ≤ a.host.length := by omega
  -- Both sides begin with the host's first six bytes.
  have htake : (a.host ++ a.behind).take 6 = (name.bytes.drop 3).take 6 := by
    have hpre : a.host <+: name.bytes.drop 3 := hname ▸ List.takeWhile_prefix _
    rcases hpre with ⟨r, hr⟩
    rw [← hr, List.take_append_of_le_length hsix, List.take_append_of_le_length hsix]
  unfold memcmp at hcmp
  split_ifs at hcmp with hin
  · simp only [htake, ne_eq, not_true_eq_false, decide_false, Option.some.injEq, reduceCtorEq]
      at hcmp

/-- A table of two devices, `LTUFC0000AFBCBD` and `LTUAA0000AFBCBD`. -/
def twoDevices : SDeviceInfo := ⟨2, 0, 0,
  [.ofName [0x4c, 0x54, 0x55, 0x46, 0x43, 0x30, 0x30, 0x30, 0x30, 0x41, 0x46, 0x42, 0x43, 0x42, 0x44],
    .ofName
      [0x4c, 0x54, 0x55, 0x41, 0x41, 0x30, 0x30, 0x30, 0x30, 0x41, 0x46, 0x42, 0x43, 0x42, 0x44]]⟩

/-- The first of two devices answers, and the second is marked for it. -/
theorem not_tracks_twoDevices : Loaded twoDevices ∧ ¬ Tracks [] twoDevices
    [⟨[0x46, 0x43, 0x30, 0x30, 0x30, 0x30, 0x41, 0x46, 0x42, 0x43, 0x42, 0x44], []⟩] := by
  refine ⟨⟨rfl, rfl, by decide, by decide⟩, ?_⟩
  rintro ⟨d', signalled, hrun, ⟨hstate, -⟩, -⟩
  rcases respond_run rfl hrun with ⟨es', hmark, hd'⟩
  have hes' : es' = [twoDevices.pLTUInfo[0], { twoDevices.pLTUInfo[1] with state := 1 }] :=
    Except.ok.inj (hmark.symm.trans rfl)
  subst hd' hes'
  have hfirst := (hstate _ List.mem_cons_self).mpr ⟨_, List.mem_singleton_self _, by decide⟩
  exact absurd hfirst (by decide)

end CoapThread
