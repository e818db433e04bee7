import CoapThread.Core.Config
import Mathlib.Data.List.Basic
import Mathlib.Logic.Function.Basic

/-!
# The Registry and the Device Table

What the poll thread does with the registry: it fills the device table before
a round and writes the outcome back after it.

The registry is a library of another repository, so its two functions by name
are parameters, and `Registry.Lawful` is what they are documented to do: a
record is stored under its own name, reading copies it, and writing replaces
it. A read of a name that is not there leaves the caller's record as it was.

The loop after a round reads each record over the table entry it is about to
decide on, and it writes the registry on two paths one behind the other:
`postEntry` keeps both.

## Main definitions

* `Registry`: The functions by name.
* `Registry.Lawful`: What they do.
* `getRegisteredDeviceInfo`: Fill the device table.
* `rewrite`: Read a record over an entry, set its state, and write it back.
* `postEntry`, `postProcess`: The loop after a round.
* `mapRegistry`: A registry kept as a map.
* `lettersReply`: A reply with a number of devices.

## Theorems

* `mapRegistry_lawful`: A map does what a registry does.
-/

namespace CoapThread

open CBytes

/-- The name of a record as a string. -/
def LTUInfor.nameOf (e : LTUInfor) : List UInt8 := cstr e.name.bytes

/-- The functions of the registry that go by name. -/
structure Registry (ρ : Type) where
  getLTUInforByName : ρ → List UInt8 → Option LTUInfor
  setLTUInforByName : ρ → List UInt8 → LTUInfor → ρ

variable {ρ : Type}

/-- A record is found under its own name, and writing one that is there
    replaces it and no other. -/
structure Registry.Lawful (R : Registry ρ) : Prop where
  name : ∀ db name e, R.getLTUInforByName db name = some e → e.nameOf = name
  replace : ∀ db e, R.getLTUInforByName db e.nameOf ≠ none →
    R.getLTUInforByName (R.setLTUInforByName db e.nameOf e) e.nameOf = some e
  other : ∀ db e name, name ≠ e.nameOf →
    R.getLTUInforByName (R.setLTUInforByName db e.nameOf e) name = R.getLTUInforByName db name

/-- What the registry answers while the table is filled: the number of records,
    whether memory was to be had, and the records themselves. -/
structure RegistryReply where
  count : Option Int
  allocated : Bool
  entries : Option (List LTUInfor)
  deriving DecidableEq

/-- Fill the device table. The count kept in it is the first one, cut to
    sixteen bits; the states are cleared over the second. -/
def getRegisteredDeviceInfo (r : RegistryReply) (dinfo : SDeviceInfo) :
    Except Fault (SDeviceInfo × Bool) :=
  match r.count with
  | none => .ok ({ dinfo with num := 0 }, false)
  | some num =>
    -- No memory is there for a negative count, which `calloc` sees as a huge one.
    if 0 ≤ num ∧ r.allocated then
      let calloc := List.replicate num.toNat (LTUInfor.ofName [])
      match r.entries with
      | none => .ok ({ dinfo with num := 0, pLTUInfo := calloc }, false)
      | some entries =>
        if entries.length ≤ num.toNat then
          .ok ({ dinfo with
            num := UInt16.ofInt num
            count := 0
            pLTUInfo := entries.map (fun e => { e with state := 0 }) ++
              calloc.drop entries.length }, true)
        else .error .overrun
    else .ok ({ dinfo with num := 0, pLTUInfo := [] }, false)

/-- What the poll thread works on after a round: its message, the registry, and
    the messages published so far. -/
structure PostState (ρ : Type) where
  digMsg : DigitalOut
  registry : ρ
  published : List DigitalOut

/-- Read the record of an entry's name over the entry, set its state, and write
    it back under the name it has then. -/
def rewrite (R : Registry ρ) (state : Int32) (e : LTUInfor) (db : ρ) :
    Except Fault (LTUInfor × ρ) :=
  if Terminated e.name.bytes then
    let e := { (R.getLTUInforByName db e.nameOf).getD e with state := state }
    if Terminated e.name.bytes then .ok (e, R.setLTUInforByName db e.nameOf e)
    else .error .overread
  else .error .overread

/-- Publish that a device is offline. -/
def publish (e : LTUInfor) (s : PostState ρ) : PostState ρ :=
  let digMsg := { s.digMsg with strDa := s.digMsg.strDa.write 0 (e.nameOf ++ [0]), bVal := 0 }
  { s with digMsg := digMsg, published := s.published ++ [digMsg] }

/-- One turn of the loop after a round. The branch for a silent device has no
    alternative: what follows it is done for every device. -/
def postEntry (R : Registry ρ) (e : LTUInfor) (s : PostState ρ) :
    Except Fault (LTUInfor × PostState ρ) :=
  let first : Except Fault (LTUInfor × PostState ρ) :=
    if e.state = 0 then
      let s := publish e s
      match rewrite R 0 e s.registry with
      | .error f => .error f
      | .ok (e, db) => .ok (e, { s with registry := db })
    else .ok (e, s)
  match first with
  | .error f => .error f
  | .ok (e, s) => match rewrite R 1 e s.registry with
    | .error f => .error f
    | .ok (e, db) => .ok (e, { s with registry := db })

/-- The loop over the first `n` entries. -/
def postLoop (R : Registry ρ) : Nat → List LTUInfor → PostState ρ →
    Except Fault (List LTUInfor × PostState ρ)
  | 0, es, s => .ok (es, s)
  | _ + 1, [], _ => .error .overread
  | n + 1, e :: es, s => match postEntry R e s with
    | .error f => .error f
    | .ok (e, s) => (postLoop R n es s).map (fun x => (e :: x.1, x.2))

/-- The loop after a round. -/
def postProcess (R : Registry ρ) (d : SDeviceInfo) (s : PostState ρ) :
    Except Fault (List LTUInfor × PostState ρ) := postLoop R d.num.toNat d.pLTUInfo s

/-- A registry kept as a map from names. -/
def mapRegistry : Registry (List UInt8 → Option LTUInfor) where
  getLTUInforByName db name := (db name).filter (fun e => e.nameOf = name)
  setLTUInforByName db name e := Function.update db name (some e)

theorem mapRegistry_lawful : mapRegistry.Lawful where
  name db name e h := by
    have hfilter := Option.filter_eq_some_iff.mp h
    exact of_decide_eq_true hfilter.2
  replace db e _ := by
    simp only [mapRegistry, Function.update_self, Option.filter_some, decide_true, if_true]
  other db e name hne := by
    simp only [mapRegistry, Function.update_of_ne hne]

/-- The registry's reply with a number of devices, `LTUA`, `LTUB` and so on. -/
def lettersReply (n : Nat) : RegistryReply :=
  ⟨some n, true, some ((List.range n).map (fun k =>
    LTUInfor.ofName [0x4c, 0x54, 0x55, 0x41 + UInt8.ofNat k]))⟩

end CoapThread
