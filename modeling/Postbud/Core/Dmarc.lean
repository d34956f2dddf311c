import Mathlib.Algebra.Ring.Int.Defs
import Mathlib.Data.List.Infix
import Postbud.Lib.ByteSlice
import Postbud.Lib.Utf8

namespace Postbud.Dmarc

open Lib Lib.Text Lib.ByteSlice

def MAX_UNCOMPRESSED : ℕ := 32 * 1024 * 1024

def MAX_ARCHIVE_MEMBERS : ℕ := 16

inductive Error
  | tooLarge
  | tooManyMembers
  | doctype
  | empty
  | archive (message : Text)
  | xml (message : Text)
  | notAReport (missing : Text)
  deriving DecidableEq

def Error.message : Error → Text
  | tooLarge => "report is larger than ".toList ++ decimal MAX_UNCOMPRESSED ++
      " bytes uncompressed".toList
  | tooManyMembers => "archive carries more than ".toList ++ decimal MAX_ARCHIVE_MEMBERS ++
      " members".toList
  | doctype => "document declares a DOCTYPE or ENTITY".toList
  | empty => "no XML document in the attachment".toList
  | archive message => "unreadable archive: ".toList ++ message
  | xml message => "unreadable XML: ".toList ++ message
  | notAReport missing => "not a DMARC aggregate report: ".toList ++ missing

structure DkimAuth where
  domain : Text
  result : Text
  selector : Option Text
  deriving DecidableEq

structure SpfAuth where
  domain : Text
  result : Text
  deriving DecidableEq

structure AuthResults where
  dkim : List DkimAuth := []
  spf : List SpfAuth := []
  deriving DecidableEq

structure Reason where
  type : Text
  comment : Option Text
  deriving DecidableEq

/-- One source's traffic within a report. -/
structure Record where
  sourceIp : Text
  count : ℤ
  disposition : Text
  dkimAligned : Text
  spfAligned : Text
  headerFrom : Text
  auth : AuthResults := {}
  reasons : List Reason := []
  deriving DecidableEq

def Record.passed (r : Record) : Bool := r.dkimAligned = "pass".toList || r.spfAligned = "pass".toList

structure Report where
  orgName : Text
  email : Option Text
  reportId : Text
  begin_ : ℤ
  end_ : ℤ
  domain : Text
  p : Option Text
  sp : Option Text
  pct : Option ℤ
  adkim : Option Text
  aspf : Option Text
  records : List Record
  deriving DecidableEq

/-- The messages that a report counts. -/
def Report.messages (report : Report) : ℤ := (report.records.map (·.count)).sum

def Report.passed (report : Report) : ℤ :=
  ((report.records.filter (·.passed)).map (·.count)).sum

def Report.failed (report : Report) : ℤ :=
  ((report.records.filter (!·.passed)).map (·.count)).sum

namespace Raw

/-! The wire shapes: every field is optional. -/

structure DateRange where
  begin_ : Option Text := none
  end_ : Option Text := none
  deriving DecidableEq

structure ReportMetadata where
  orgName : Option Text := none
  email : Option Text := none
  reportId : Option Text := none
  dateRange : Option DateRange := none
  deriving DecidableEq

structure PolicyPublished where
  domain : Option Text := none
  adkim : Option Text := none
  aspf : Option Text := none
  p : Option Text := none
  sp : Option Text := none
  pct : Option Text := none
  deriving DecidableEq

structure Reason where
  type : Option Text := none
  comment : Option Text := none
  deriving DecidableEq

structure PolicyEvaluated where
  disposition : Option Text := none
  dkim : Option Text := none
  spf : Option Text := none
  reason : List Reason := []
  deriving DecidableEq

structure Row where
  sourceIp : Option Text := none
  count : Option Text := none
  policyEvaluated : Option PolicyEvaluated := none
  deriving DecidableEq

structure Identifiers where
  headerFrom : Option Text := none
  deriving DecidableEq

structure DkimAuth where
  domain : Option Text := none
  result : Option Text := none
  selector : Option Text := none
  deriving DecidableEq

structure SpfAuth where
  domain : Option Text := none
  result : Option Text := none
  deriving DecidableEq

structure AuthResults where
  dkim : List DkimAuth := []
  spf : List SpfAuth := []
  deriving DecidableEq

structure Record where
  row : Option Row := none
  identifiers : Option Identifiers := none
  authResults : Option AuthResults := none
  deriving DecidableEq

structure Feedback where
  reportMetadata : Option ReportMetadata := none
  policyPublished : Option PolicyPublished := none
  records : List Record := []
  deriving DecidableEq

end Raw

/-- A member of a zip archive, whose text is read up to a limit. -/
structure ZipEntry where
  isFile : Bool
  size : ℕ
  read : ℕ → Except Text Bytes

/-- The readers of formats that a report comes in. -/
class Formats where
  gunzip : Bytes → ℕ → Except Text Bytes
  unzip : Bytes → Except Text (List (Except Text ZipEntry))
  xml : Text → Except Text Raw.Feedback

def isControl (c : Char) : Bool := c.toNat < 32 || (127 ≤ c.toNat && c.toNat ≤ 159)

/-- What an error of a reader may say: one line of it, of bounded length. -/
def clipped (message : Text) : Text :=
  let flat := [' '].intercalate
    (splitWhitespace (message.map fun c ↦ if isControl c then ' ' else c))
  if 160 < flat.length then flat.take 160 ++ "...".toList else flat

section Extract

variable [Formats]

def archiveError {α : Type} : Except Text α → Except Error α
  | .ok a => .ok a
  | .error message => .error (.archive (clipped message))

def inflateGzip (blob : Bytes) : Except Error Bytes := do
  let out ← archiveError (Formats.gunzip blob (MAX_UNCOMPRESSED + 1))
  if MAX_UNCOMPRESSED < out.length then throw .tooLarge
  return out

def unzip (blob : Bytes) : Except Error (List Bytes) := do
  let zip ← archiveError (Formats.unzip blob)
  if MAX_ARCHIVE_MEMBERS < zip.length then throw .tooManyMembers
  let out ← zip.filterMapM fun entry ↦ do
    let entry ← archiveError entry
    if !entry.isFile then return none
    if MAX_UNCOMPRESSED < entry.size then throw .tooLarge
    let buf ← archiveError (entry.read (MAX_UNCOMPRESSED + 1))
    if MAX_UNCOMPRESSED < buf.length then throw .tooLarge
    return some buf
  if out = [] then throw .empty
  return out

/-- The XML documents that an attachment carries. -/
def extract (blob : Bytes) : Except Error (List Bytes) := do
  if [0x1F, 0x8B] <+: blob then return [← inflateGzip blob]
  if utf8 "PK\x03\x04".toList <+: blob then return ← unzip blob
  if MAX_UNCOMPRESSED < blob.length then throw .tooLarge
  return [blob]

end Extract

section Parse

def trimmedOpt (value : Text) : Option Text := if trim value = [] then none else some (trim value)

def trimmed (value : Option Text) : Option Text := value.bind trimmedOpt

def lowered (value : Option Text) : Text :=
  ((trimmed value).map toAsciiLowercase).getD "unknown".toList

def digit? (c : Char) : Option ℕ := if '0' ≤ c ∧ c ≤ '9' then some (c.toNat - 48) else none

def inI64 (n : ℤ) : Bool := -9223372036854775808 ≤ n && n ≤ 9223372036854775807

theorem inI64_iff {n : ℤ} : inI64 n ↔ -9223372036854775808 ≤ n ∧ n ≤ 9223372036854775807 := by
  simp only [inI64, Bool.and_eq_true, decide_eq_true_eq]

/-- `str::parse::<i64>`: digits after a sign or none. -/
def parseI64 (t : Text) : Option ℤ := do
  let (negative, digits) := match t with
    | '-' :: digits => (true, digits)
    | '+' :: digits => (false, digits)
    | digits => (false, digits)
  if digits = [] then none
  let values ← digits.mapM digit?
  let magnitude : ℤ := values.foldl (fun n d ↦ n * 10 + d) 0
  let n := if negative then -magnitude else magnitude
  if inI64 n then some n else none

def number (value : Option Text) : Option ℤ := (trimmed value).bind parseI64

def record (rec : Raw.Record) : Record :=
  let row := rec.row.getD {}
  let evaluated := row.policyEvaluated.getD {}
  let auth := rec.authResults.getD {}
  { sourceIp := (trimmed row.sourceIp).getD []
    count := (number row.count).getD 0
    disposition := lowered evaluated.disposition
    dkimAligned := lowered evaluated.dkim
    spfAligned := lowered evaluated.spf
    headerFrom := ((trimmed (rec.identifiers.getD {}).headerFrom).map toAsciiLowercase).getD []
    auth :=
      { dkim := auth.dkim.map fun d ↦
          ⟨toAsciiLowercase ((trimmed d.domain).getD []), lowered d.result, trimmed d.selector⟩
        spf := auth.spf.map fun s ↦
          ⟨toAsciiLowercase ((trimmed s.domain).getD []), lowered s.result⟩ }
    reasons := evaluated.reason.map fun r ↦ ⟨lowered r.type, trimmed r.comment⟩ }

def orNotAReport {α : Type} (missing : Text) : Option α → Except Error α
  | some a => .ok a
  | none => .error (.notAReport missing)

/-- A document that declares a DOCTYPE or an ENTITY in its first 4096 bytes,
or anywhere if these end inside a character. -/
def declares (text : Text) : Bool :=
  let head := toAsciiLowercase (((splitAtByte 4096 text).map (·.1)).getD text)
  "<!doctype".toList <:+: head || "<!entity".toList <:+: head

variable [Formats]

/-- One aggregate report document. -/
def parse (xml : Bytes) : Except Error Report := do
  let text := trim ((Utf8.fromUtf8Lossy xml).dropWhile (· = '\uFEFF'))
  if declares text then throw .doctype
  let feedback ← match Formats.xml text with
    | .ok feedback => pure feedback
    | .error message => throw (.xml (clipped message))
  let meta_ ← orNotAReport "no report_metadata".toList feedback.reportMetadata
  let policy ← orNotAReport "no policy_published".toList feedback.policyPublished
  let range := meta_.dateRange.getD {}
  let reportId ← orNotAReport "no report_id".toList (trimmed meta_.reportId)
  let domain ← orNotAReport "no policy domain".toList (trimmed policy.domain)
  return {
    orgName := (trimmed meta_.orgName).getD "unknown".toList
    email := trimmed meta_.email
    reportId
    begin_ := (number range.begin_).getD 0
    end_ := (number range.end_).getD 0
    domain := toAsciiLowercase domain
    p := trimmed policy.p
    sp := trimmed policy.sp
    pct := (number policy.pct).map fun n ↦ n.bmod 4294967296
    adkim := trimmed policy.adkim
    aspf := trimmed policy.aspf
    records := feedback.records.map record }

end Parse

section Alignment

inductive Alignment
  | passing (detail : Text)
  | inconclusive (detail : Text)
  | failing (detail : Text)
  deriving DecidableEq

def Alignment.isFailing : Alignment → Bool
  | failing _ => true
  | _ => false

def MIN_FAILURES : ℤ := 10

def MIN_FOR_HEALTH : ℤ := 50

def FAIL_RATE_FLOOR : Float.Model := .ofInt 5

def integer (n : ℤ) : Text := (toString n).toList

/-- The integer nearest to `n / d`, the even one of two. -/
def nearest (n d : ℕ) : ℕ :=
  let q := n / d
  if 2 * (n % d) < d ∨ 2 * (n % d) = d ∧ q % 2 = 0 then q else q + 1

def minus : Float.Model.UnpackedFloat.Sign → Text
  | .positive => []
  | .negative => ['-']

/-- `{:.1}` of an `f64`, which rounds its exact value. -/
def oneDecimal (x : Float.Model) : Text :=
  match x.unpack with
  | .notANumber => "NaN".toList
  | .infinity s => minus s ++ "inf".toList
  | .zero s => minus s ++ "0.0".toList
  | .finite s m e _ =>
    let tenths := nearest (10 * m * 2 ^ e.toNat) (2 ^ (-e).toNat)
    minus s ++ decimal (tenths / 10) ++ '.' :: decimal (tenths % 10)

/-- The subtraction wraps where an `i64` cannot hold the difference. -/
def alignment (messages passed : ℤ) : Alignment :=
  let failed := max ((messages - passed).bmod 18446744073709551616) 0
  let rate : Float.Model :=
    if 0 < messages then .ofInt 100 * .ofInt failed / .ofInt messages else .ofInt 0
  if MIN_FAILURES ≤ failed ∧ FAIL_RATE_FLOOR ≤ rate then
    .failing (integer failed ++ " of ".toList ++ integer messages ++
      " messages did not authenticate (".toList ++ oneDecimal rate ++
      "%). Check WHICH source is failing before treating this as a fault: ".toList ++
      "mail forwarded by a list fails alignment normally, and mail forged ".toList ++
      "by a stranger fails exactly as it should".toList)
  else if messages < MIN_FOR_HEALTH then
    .inconclusive (integer messages ++
      " message(s) reported; too few to call the domain healthy either way".toList)
  else .passing <|
    if failed = 0 then "all ".toList ++ integer messages ++ " reported messages authenticated".toList
    else integer failed ++ " of ".toList ++ integer messages ++ " did not authenticate (".toList ++
      oneDecimal rate ++ "%), within normal forwarding loss".toList

end Alignment

end Postbud.Dmarc
