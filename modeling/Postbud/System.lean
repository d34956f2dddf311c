import Postbud.Db.Bounce
import Postbud.Db.RelayQueue
import Postbud.Lib.Transition
import Postbud.Relay.Worker

namespace Postbud.System

open Lib Lib.Transition

/-- A message that a worker has claimed and whose outcome it has not recorded.
`seen` is a ghost: the last number drawn for a row of the suppression list
when the claim was made. -/
structure Delivery where
  worker : Text
  claimed : Claimed
  seen : ℕ
  outcome : Option Outcome := none
  deriving DecidableEq

structure State [Platform] where
  now : Time
  db : Db := {}
  accepts : List AcceptCall := []
  ingests : List Bounce.Call := []
  held : List Delivery := []

/-- `accept` and `ingest` move a call by one statement; `handoff` gives a
message to the relay, whose answer is `outcome`; `abandon` is a worker that
dies, or that cannot record. -/
inductive Action
  | tick (dt : ℕ)
  | submit (msg : NewMessage)
  | accept (i : ℕ) (uuid : Uuid)
  | acceptFails (i : ℕ)
  | claim (worker : Text) (batch : ℕ) (locked : List Uuid)
  | handoff (d : Delivery) (outcome : Outcome)
  | record (d : Delivery)
  | abandon (d : Delivery)
  | suppress (tenantId : Option Uuid) (address : Text) (reason : SuppressionReason) (source : Text)
      (detail : Option Text)
  | lift (id : ℤ) (removedBy : Text)
  | bounce (raw : Text)
  | ingest (i : ℕ)
  | ingestFails (i : ℕ)
  | reconcile (entries : List Queued) (graceSecs : ℤ)
  | purge (days : ℤ)
  deriving DecidableEq

variable [Platform]

def State.others (s : State) (i : ℕ) : List Message :=
  (s.accepts.eraseIdx i).filterMap AcceptCall.pending

def State.hold (s : State) (worker : Text) (claimed : List Claimed) : List Delivery :=
  s.held ++ claimed.map fun c ↦ { worker, claimed := c, seen := s.db.suppressionSeq }

def step (s : State) : Action → Option State
  | .tick dt => some { s with now := s.now + dt }
  | .submit msg => some { s with accepts := s.accepts ++ [{ msg, now := s.now }] }
  | .accept i uuid => do
    let c ← s.accepts[i]?
    let (db, c) ← c.step s.db (s.others i) uuid
    some { s with db, accepts := s.accepts.set i c }
  | .acceptFails i => do
    let c ← s.accepts[i]?
    let c ← c.fail
    some { s with accepts := s.accepts.set i c }
  | .claim worker batch locked =>
    let (db, claimed) := claim s.db s.now worker batch locked
    some { s with db, held := s.hold worker claimed }
  | .handoff d outcome =>
    if d ∈ s.held ∧ d.outcome = none then
      some { s with held := s.held.erase d ++ [{ d with outcome := some outcome }] }
    else none
  | .record d => do
    let outcome ← d.outcome
    if d ∈ s.held then
      some { s with
        db := Worker.deliverOne Retry.SCHEDULE s.db s.now d.claimed outcome
        held := s.held.erase d }
    else none
  | .abandon d => if d ∈ s.held then some { s with held := s.held.erase d } else none
  | .suppress tenantId address reason source detail =>
    some { s with db := Suppression.add s.db s.now tenantId address reason source detail }
  | .lift id removedBy => some { s with db := (Suppression.remove s.db s.now id removedBy).1 }
  | .bounce raw => some { s with ingests := s.ingests ++ [Bounce.start raw] }
  | .ingest i => do
    let c ← s.ingests[i]?
    let (db, c) ← c.step s.db s.now
    some { s with db, ingests := s.ingests.set i c }
  | .ingestFails i => do
    let c ← s.ingests[i]?
    let c ← c.fail
    some { s with ingests := s.ingests.set i c }
  | .reconcile entries graceSecs =>
    some { s with db := (RelayQueue.reconcile s.db s.now entries graceSecs).1 }
  | .purge days => (purgeBodies s.db s.now days).map fun db ↦ { s with db }

inductive Step (s : State) : Action → State → Prop
  | tick (dt : ℕ) : Step s (.tick dt) { s with now := s.now + dt }
  | submit (msg : NewMessage) :
    Step s (.submit msg) { s with accepts := s.accepts ++ [{ msg, now := s.now }] }
  | accept (i : ℕ) (uuid : Uuid) (c c' : AcceptCall) (db : Db) (hi : s.accepts[i]? = some c)
      (h : AcceptCall.Step s.db (s.others i) uuid c db c') :
    Step s (.accept i uuid) { s with db, accepts := s.accepts.set i c' }
  | acceptFails (i : ℕ) (c : AcceptCall) (hi : s.accepts[i]? = some c)
      (hc : ∀ accepted, c.stage ≠ .returned accepted) :
    Step s (.acceptFails i) { s with accepts := s.accepts.set i { c with stage := .failed } }
  | claim (worker : Text) (batch : ℕ) (locked : List Uuid) :
    Step s (.claim worker batch locked)
      { s with
        db := (Postbud.claim s.db s.now worker batch locked).1
        held := s.hold worker (Postbud.claim s.db s.now worker batch locked).2 }
  | handoff (d : Delivery) (outcome : Outcome) (hd : d ∈ s.held) (ho : d.outcome = none) :
    Step s (.handoff d outcome)
      { s with held := s.held.erase d ++ [{ d with outcome := some outcome }] }
  | record (d : Delivery) (outcome : Outcome) (hd : d ∈ s.held) (ho : d.outcome = some outcome) :
    Step s (.record d)
      { s with
        db := Worker.deliverOne Retry.SCHEDULE s.db s.now d.claimed outcome
        held := s.held.erase d }
  | abandon (d : Delivery) (hd : d ∈ s.held) :
    Step s (.abandon d) { s with held := s.held.erase d }
  | suppress (tenantId : Option Uuid) (address : Text) (reason : SuppressionReason) (source : Text)
      (detail : Option Text) :
    Step s (.suppress tenantId address reason source detail)
      { s with db := Suppression.add s.db s.now tenantId address reason source detail }
  | lift (id : ℤ) (removedBy : Text) :
    Step s (.lift id removedBy) { s with db := (Suppression.remove s.db s.now id removedBy).1 }
  | bounce (raw : Text) :
    Step s (.bounce raw) { s with ingests := s.ingests ++ [Bounce.start raw] }
  | ingest (i : ℕ) (c c' : Bounce.Call) (db : Db) (hi : s.ingests[i]? = some c)
      (h : Bounce.Call.Step s.db s.now c db c') :
    Step s (.ingest i) { s with db, ingests := s.ingests.set i c' }
  | ingestFails (i : ℕ) (c : Bounce.Call) (hi : s.ingests[i]? = some c)
      (hc : ∀ out, c.stage ≠ .returned out) :
    Step s (.ingestFails i) { s with ingests := s.ingests.set i { c with stage := .failed } }
  | reconcile (entries : List Queued) (graceSecs : ℤ) :
    Step s (.reconcile entries graceSecs)
      { s with db := (RelayQueue.reconcile s.db s.now entries graceSecs).1 }
  | purge (days : ℤ) (db : Db) (h : purgeBodies s.db s.now days = some db) :
    Step s (.purge days) { s with db }

variable {s s' : State} {a : Action}

theorem step_spec (h : step s a = some s') : Step s a s' := by
  cases a with
  | tick dt => exact Option.some.inj h ▸ .tick dt
  | submit msg => exact Option.some.inj h ▸ .submit msg
  | accept i uuid =>
    obtain ⟨c, hi, h⟩ := Option.bind_eq_some_iff.mp h
    obtain ⟨⟨db, c'⟩, hc, h⟩ := Option.bind_eq_some_iff.mp h
    exact Option.some.inj h ▸ .accept i uuid c c' db hi (AcceptCall.step_spec hc)
  | acceptFails i =>
    obtain ⟨c, hi, h⟩ := Option.bind_eq_some_iff.mp h
    obtain ⟨c', hc, h⟩ := Option.bind_eq_some_iff.mp h
    obtain ⟨hf, rfl⟩ := AcceptCall.fail_spec hc
    exact Option.some.inj h ▸ .acceptFails i c hi hf
  | claim worker batch locked => exact Option.some.inj h ▸ .claim worker batch locked
  | handoff d outcome =>
    simp only [step, Option.ite_none_right_eq_some] at h
    obtain ⟨⟨hd, ho⟩, h⟩ := h
    exact Option.some.inj h ▸ .handoff d outcome hd ho
  | record d =>
    obtain ⟨outcome, ho, h⟩ := Option.bind_eq_some_iff.mp h
    rw [Option.ite_none_right_eq_some] at h
    obtain ⟨hd, h⟩ := h
    exact Option.some.inj h ▸ .record d outcome hd ho
  | abandon d =>
    simp only [step, Option.ite_none_right_eq_some] at h
    obtain ⟨hd, h⟩ := h
    exact Option.some.inj h ▸ .abandon d hd
  | suppress tenantId address reason source detail =>
    exact Option.some.inj h ▸ .suppress tenantId address reason source detail
  | lift id removedBy => exact Option.some.inj h ▸ .lift id removedBy
  | bounce raw => exact Option.some.inj h ▸ .bounce raw
  | ingest i =>
    obtain ⟨c, hi, h⟩ := Option.bind_eq_some_iff.mp h
    obtain ⟨⟨db, c'⟩, hc, h⟩ := Option.bind_eq_some_iff.mp h
    exact Option.some.inj h ▸ .ingest i c c' db hi (Bounce.Call.step_spec hc)
  | ingestFails i =>
    obtain ⟨c, hi, h⟩ := Option.bind_eq_some_iff.mp h
    obtain ⟨c', hc, h⟩ := Option.bind_eq_some_iff.mp h
    obtain ⟨hf, rfl⟩ := Bounce.Call.fail_spec hc
    exact Option.some.inj h ▸ .ingestFails i c hi hf
  | reconcile entries graceSecs => exact Option.some.inj h ▸ .reconcile entries graceSecs
  | purge days =>
    obtain ⟨db, hp, rfl⟩ := Option.map_eq_some_iff.mp h
    exact .purge days db hp

end Postbud.System
