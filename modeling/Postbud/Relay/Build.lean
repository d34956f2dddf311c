import Postbud.Api.Tenant
import Postbud.Db.Message
import Postbud.Lib.Result

namespace Postbud.Relay

open Lib Lib.Text Lib.Result

/-- An error and its causes, the outermost first. -/
abbrev Anyhow := List Text

def context {α : Type} (context : Text) : Except Text α → Except Anyhow α
  | .ok a => .ok a
  | .error cause => .error [context, cause]

inductive Body
  | alternative (plain html : Text)
  | html (html : Text)
  | plain (text : Text)
  deriving DecidableEq

structure Email (Mailbox ContentType : Type) where
  sender : Mailbox
  recipient : Mailbox
  messageId : Text
  subject : Text
  replyTo : Option Mailbox
  body : Body
  attachments : List (Text × ContentType × Bytes)

/-- What `build` has of the mail library: the parsers of addresses and of
content types, and the assembly of a message. -/
structure Lettre (Mailbox ContentType Mime : Type) where
  parseMailbox : Text → Except Text Mailbox
  parseContentType : Text → Option ContentType
  textPlain : ContentType
  multipart : Email Mailbox ContentType → Except Text Mime

def messageIdDomain (claimed : Claimed) : Text :=
  ((rsplitOnce '@' claimed.mailFrom).map (·.2)).getD "postbud.invalid".toList

def sender (claimed : Claimed) : Text :=
  match claimed.fromName with
  | some name => name ++ " <".toList ++ claimed.mailFrom ++ ">".toList
  | none => claimed.mailFrom

def NO_BODY : Text := "message has neither a text nor an html body".toList

def body (claimed : Claimed) : Except Anyhow Body :=
  match claimed.bodyText, claimed.bodyHtml with
  | some text, some html => .ok (.alternative text html)
  | none, some html => .ok (.html html)
  | some text, none => .ok (.plain text)
  | none, none => .error [NO_BODY]

variable {Mailbox ContentType Mime : Type}

def build (lettre : Lettre Mailbox ContentType Mime) (claimed : Claimed) : Except Anyhow Mime := do
  let sender ← context "parsing From address".toList (lettre.parseMailbox (sender claimed))
  let recipient ← context "parsing To address".toList (lettre.parseMailbox claimed.rcptTo)
  let messageId := "<".toList ++ Api.uuidText claimed.id ++ "@".toList ++ messageIdDomain claimed ++
    ">".toList
  let replyTo ← claimed.replyTo.mapM fun replyTo ↦
    context "parsing Reply-To address".toList (lettre.parseMailbox replyTo)
  let body ← body claimed
  let attachments := claimed.attachments.map fun a ↦
    (a.filename, (lettre.parseContentType a.contentType).getD lettre.textPlain, a.content)
  context "assembling MIME message".toList
    (lettre.multipart ⟨sender, recipient, messageId, claimed.subject, replyTo, body, attachments⟩)

theorem context_ne {α : Type} (outer : Text) (r : Except Text α) (err : Text) :
    context outer r ≠ .error [err] := by
  cases r with
  | ok a => exact nofun
  | error cause =>
    intro h
    cases Except.error.inj h

theorem body_eq_error {claimed : Claimed} {err : Anyhow} (h : body claimed = .error err) :
    claimed.bodyText = none ∧ claimed.bodyHtml = none := by
  unfold body at h
  cases ht : claimed.bodyText <;> cases hh : claimed.bodyHtml <;> simp_all

/-- The library's errors come with a context, so `NO_BODY` is the body's. -/
theorem body_of_build {lettre : Lettre Mailbox ContentType Mime} {claimed : Claimed}
    (h : build lettre claimed = .error [NO_BODY]) :
    claimed.bodyText = none ∧ claimed.bodyHtml = none := by
  obtain ⟨sender, h⟩ := (error_of_bind h).resolve_left (context_ne _ _ _)
  obtain ⟨recipient, h⟩ := (error_of_bind h).resolve_left (context_ne _ _ _)
  rcases error_of_bind h with h | ⟨replyTo, h⟩
  · cases hr : claimed.replyTo with
    | none =>
      rw [hr] at h
      cases h
    | some replyTo =>
      rw [hr] at h
      rcases error_of_bind h with h | ⟨a, h⟩
      · exact absurd h (context_ne _ _ _)
      · cases h
  · rcases error_of_bind h with h | ⟨body, h⟩
    · exact body_eq_error h
    · exact absurd h (context_ne _ _ _)

end Postbud.Relay
