import Mathlib.Data.List.Sort
import Postbud.Db.DmarcOnce

namespace Postbud.DmarcPoller

open Lib Lib.Text Dmarc

/-- A part of a message, as the parser of mail gives it. -/
inductive Part
  | binary (data : Bytes)
  | inlineBinary (data : Bytes)
  | text (text : Text)
  | other
  deriving DecidableEq

/-- The parser of mail: the parts of a message, if it is one. -/
class MailParser where
  parse : Bytes → Option (List Part)

def BATCH : ℕ := 200

structure Config where
  archive : Text
  failures : Text
  deriving DecidableEq

structure Mail where
  uid : ℕ
  raw : Bytes
  deleted : Bool := false
  deriving DecidableEq

/-- A mailbox: no two of its messages have one uid. -/
structure Mailbox where
  mails : List Mail
  distinct : (mails.map (·.uid)).Nodup
  deriving DecidableEq

namespace Mailbox

/-- Every message leaves or stays, and keeps its uid. -/
def change (b : Mailbox) (f : Mail → Option Mail) (hf : ∀ m, ∀ m' ∈ f m, m'.uid = m.uid) :
    Mailbox where
  mails := b.mails.filterMap f
  distinct := by
    refine List.pairwise_map.mpr (List.pairwise_filterMap.mpr ?_)
    refine (List.pairwise_map.mp b.distinct).imp fun hne m hm m' hm' he ↦ hne ?_
    rw [← hf _ m hm, ← hf _ m' hm', he]

def remove (b : Mailbox) (uid : ℕ) : Mailbox :=
  b.change (fun m ↦ if m.uid = uid then none else some m) fun m m' h ↦ by
    split at h <;> cases h
    rfl

def flag (b : Mailbox) (uid : ℕ) : Mailbox :=
  b.change (fun m ↦ some (if m.uid = uid then { m with deleted := true } else m)) fun m m' h ↦ by
    cases h
    split <;> rfl

/-- Whatever is flagged leaves, whoever flagged it. -/
def expunge (b : Mailbox) : Mailbox :=
  b.change (fun m ↦ if m.deleted then none else some m) fun m m' h ↦ by
    split at h <;> cases h
    rfl

def find? (b : Mailbox) (uid : ℕ) : Option Mail := b.mails.find? (·.uid = uid)

end Mailbox

/-- How a command to the mail server ends: it is done, it is refused, or it
is done and its answer is lost. -/
inductive Reply
  | done
  | refused
  | lost
  deriving DecidableEq

def Reply.ok (r : Reply) : Bool := r = .done

def Reply.applied (r : Reply) : Bool := r ≠ .refused

/-- How a command ends whose answer is read but not looked at: whether it could
be sent, and whether the server did it. -/
structure Sending where
  sent : Bool
  applied : Bool
  deriving DecidableEq

/-- What the mail server and the database answer during a pass, to the
commands about a uid. The store calls for one message are numbered; none is
an error. -/
structure World where
  select : Bool
  search : Bool
  fetch : ℕ → Bool
  store : ℕ → ℕ → Option Bool
  move : ℕ → Reply
  copy : ℕ → Reply
  flag : ℕ → Sending
  expunge : ℕ → Sending

/-- What one pass did. -/
structure Outcome where
  examined : ℕ := 0
  stored : ℕ := 0
  duplicates : ℕ := 0
  ignored : ℕ := 0
  unreadable : ℕ := 0
  deriving DecidableEq

/-- A pass under way: the mailbox, the identities of the reports that the
database holds, and what was filed in which folder. -/
structure Pass where
  mailbox : Mailbox
  held : List (Text × Text)
  filed : List (Text × Bytes) := []
  outcome : Outcome := {}
  deriving DecidableEq

inductive Handled
  | stored
  | duplicate
  | notAReport
  deriving DecidableEq

inductive Fault
  | fetching
  | storing
  | unreadable (reason : Text)
  deriving DecidableEq

/-- What the loop over the documents of a message keeps. -/
structure Tally where
  stored : Bool := false
  seenReport : Bool := false
  failures : List Text := []
  deriving DecidableEq

namespace Pass

def file (p : Pass) (uid : ℕ) (folder : Text) : Pass :=
  { p with filed := p.filed ++ ((p.mailbox.find? uid).map fun m ↦ (folder, m.raw)).toList }

def move (p : Pass) (w : World) (uid : ℕ) (folder : Text) : Pass :=
  if (w.move uid).applied then { p.file uid folder with mailbox := p.mailbox.remove uid } else p

def copy (p : Pass) (w : World) (uid : ℕ) (folder : Text) : Pass :=
  if (w.copy uid).applied then p.file uid folder else p

def flag (p : Pass) (w : World) (uid : ℕ) : Pass :=
  if (w.flag uid).applied then { p with mailbox := p.mailbox.flag uid } else p

def expunge (p : Pass) (w : World) (uid : ℕ) : Pass :=
  if (w.expunge uid).applied then { p with mailbox := p.mailbox.expunge } else p

end Pass

/-- Move a processed message out of the way, in one command or in three. -/
def archive (w : World) (p : Pass) (uid : ℕ) (folder : Text) : Pass × Bool :=
  let p := p.move w uid folder
  if (w.move uid).ok then (p, true)
  else
    let p := p.copy w uid folder
    if !(w.copy uid).ok then (p, false)
    else
      let p := p.flag w uid
      if !(w.flag uid).sent then (p, false) else (p.expunge w uid, (w.expunge uid).sent)

/-- The messages that a search lists, lowest uid first, as many as a pass takes. -/
def uids (b : Mailbox) : List ℕ := ((b.mails.map (·.uid)).insertionSort (· ≤ ·)).take BATCH

section Handle

variable [MailParser]

/-- Every part of the message that might be a report. -/
def candidates (raw : Bytes) : List Bytes :=
  match MailParser.parse raw with
  | none => []
  | some parts => parts.filterMap fun part ↦
    match part with
    | .binary data | .inlineBinary data => some data
    | .text text =>
      if "<?xml".toList <+: trimStart text || "<feedback".toList <+: trimStart text then
        some (utf8 text)
      else none
    | .other => none

variable [Formats]

/-- What the loops over the candidates and their documents meet, in order: a
report, or why there is none. -/
def readings (raw : Bytes) : List (Except Text Report) :=
  (candidates raw).flatMap fun candidate ↦
    match extract candidate with
    | .error err => [.error err.message]
    | .ok documents => documents.map fun document ↦
      match Dmarc.parse document with
      | .error err => .error err.message
      | .ok report => .ok report

/-- Store one report after another. An error of the database ends the message. -/
def storeAll (w : World) (uid : ℕ) : ℕ → List (Text × Text) → Tally → List (Except Text Report) →
    List (Text × Text) × Except Fault Tally
  | _, held, t, [] => (held, .ok t)
  | k, held, t, .error failure :: rest =>
    storeAll w uid k held { t with failures := t.failures ++ [failure] } rest
  | k, held, t, .ok report :: rest =>
    match w.store uid k with
    | none => (held, .error .storing)
    | some stored =>
      storeAll w uid (k + 1) (report.identity :: held)
        { t with seenReport := true, stored := t.stored || stored } rest

def verdict (t : Tally) : Except Fault Handled :=
  match t.seenReport, t.failures with
  | false, reason :: _ => .error (.unreadable reason)
  | seenReport, _ =>
    if t.stored then .ok .stored else if seenReport then .ok .duplicate else .ok .notAReport

/-- Fetch one message and store whatever reports it carries. -/
def handleOne (w : World) (p : Pass) (uid : ℕ) : List (Text × Text) × Except Fault Handled :=
  match if w.fetch uid then p.mailbox.find? uid else none with
  | none => (p.held, .error .fetching)
  | some m =>
    if candidates m.raw = [] then (p.held, .ok .notAReport)
    else
      let (held, result) := storeAll w uid 0 p.held {} (readings m.raw)
      (held, result.bind verdict)

def Outcome.count (outcome : Outcome) : Except Fault Handled → Outcome
  | .ok .stored => { outcome with stored := outcome.stored + 1 }
  | .ok .duplicate => { outcome with duplicates := outcome.duplicates + 1 }
  | .ok .notAReport => { outcome with ignored := outcome.ignored + 1 }
  | .error _ => { outcome with unreadable := outcome.unreadable + 1 }

/-- One message of a pass: it is handled, and moved whatever its fate. -/
def visit (w : World) (config : Config) (p : Pass) (uid : ℕ) : Pass :=
  let (held, result) := handleOne w p uid
  let examined := { p.outcome with examined := p.outcome.examined + 1 }
  let p := { p with held, outcome := examined.count result }
  match result with
  | .ok _ => (archive w p uid config.archive).1
  | .error _ => (archive w p uid config.failures).1

/-- A pass, and what it returns if it does not fail at once. -/
def drainMailbox (w : World) (config : Config) (mailbox : Mailbox) (held : List (Text × Text)) :
    Pass × Option Outcome :=
  if !w.select || !w.search then ({ mailbox, held }, none)
  else
    let p := (uids mailbox).foldl (visit w config) { mailbox, held }
    (p, some p.outcome)

end Handle

end Postbud.DmarcPoller
