import Postbud.Lib.Text

namespace Postbud

open Lib Lib.Text

inductive Classification
  | accepted
  | transient
  | permanent
  | unknown
  deriving DecidableEq, Repr

def Classification.fromStatus (status : Text) : Classification :=
  match ((trim status).splitOn '.').head? with
  | some ['2'] => accepted
  | some ['4'] => transient
  | some ['5'] => permanent
  | _ => unknown

namespace Dsn

structure Report where
  relayQueueId : Option Text
  finalRecipient : Option Text
  status : Option Text
  diagnostic : Option Text
  classification : Classification
  deriving DecidableEq

def recipientIsTheProblem (status : Text) : Bool :=
  match splitOnce '.' (trim status) with
  | none => false
  | some (_, subjectAndDetail) =>
    subjectAndDetail ∈ ["1.1".toList, "1.2".toList, "1.3".toList, "1.6".toList, "1.10".toList,
      "2.1".toList]

def missingMailbox : List Text :=
  ["no such user".toList, "user unknown".toList, "recipient not found".toList,
    "mailbox not found".toList, "no mailbox here".toList]

def namesAMissingMailbox (diagnostic : Text) : Bool :=
  let flat := [' '].intercalate (splitWhitespace (toAsciiLowercase diagnostic))
  missingMailbox.any fun phrase ↦ phrase <:+: flat

/-- Only a permanent failure about this recipient may suppress an address. -/
def Report.shouldSuppress (r : Report) : Bool :=
  if r.classification ≠ .permanent then false
  else r.status.any recipientIsTheProblem || r.diagnostic.any namesAMissingMailbox

def isContinuation (line : Text) : Bool := line.head? = some ' ' || line.head? = some '\t'

def unfoldLine (out : List Text) (line : Text) : List Text :=
  match isContinuation line, out.getLast? with
  | true, some last => out.dropLast ++ [last ++ ' ' :: trim line]
  | _, _ => out ++ [line]

def unfold (raw : Text) : List Text := (lines raw).foldl unfoldLine []

def stripTypePrefix (value : Text) : Text :=
  match splitOnce ';' value with
  | some (_, rest) => trim rest
  | none => trim value

/-- The local variables of `parse`. -/
structure Parser where
  reports : List Report := []
  queueId : Option Text := none
  current : Option Report := none

def Parser.close (p : Parser) : List Report := p.reports ++ p.current.toList

def Parser.field (p : Parser) (name value : Text) : Parser :=
  if name = "x-postfix-queue-id".toList then { p with queueId := some value }
  else if name = "final-recipient".toList then
    { p with
      reports := p.close
      current := some ⟨p.queueId, some (stripTypePrefix value), none, none, .unknown⟩ }
  else if name = "status".toList then
    { p with current := p.current.map fun r ↦
        { r with classification := .fromStatus value, status := some value } }
  else if name = "diagnostic-code".toList then
    { p with current := p.current.map fun r ↦ { r with diagnostic := some (stripTypePrefix value) } }
  else p

def Parser.line (p : Parser) (line : Text) : Parser :=
  match splitOnce ':' line with
  | none => p
  | some (name, value) =>
    if trim value = [] then p else p.field (toAsciiLowercase (trim name)) (trim value)

/-- `get_or_insert` of a queue id, which never replaces one a report has. -/
def Report.fill (queueId : Option Text) (r : Report) : Report :=
  { r with relayQueueId := r.relayQueueId.or queueId }

/-- Parse a raw DSN: one report for each recipient block. The queue id may
come after the first recipient, so it is filled in where it is missing. -/
def parse (raw : Text) : List Report :=
  let p := (unfold raw).foldl Parser.line {}
  p.close.map (Report.fill p.queueId)

end Dsn

end Postbud
