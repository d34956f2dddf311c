import Postbud.Relay.Build
import Postbud.Relay.Worker

namespace Postbud.Relay

open Lib Lib.Text Lib.Result

structure Envelope (Addr : Type) where
  sender : Option Addr
  recipients : List Addr
  deriving DecidableEq

/-- What the relay has of the mail library besides the assembly of a message:
addresses, and what a message says of itself. -/
structure Mail (Mailbox Addr Mime : Type) where
  parseAddress : Text → Except Text Addr
  text : Addr → Text
  email : Mailbox → Addr
  envelope : Mime → Envelope Addr
  messageId : Mime → Text

/-- What is relied on of the library: an address that it accepts is kept as it
was written, alone and after a name, and a message keeps its Message-ID and
takes its envelope from its headers. -/
structure Mail.Lawful {Mailbox Addr ContentType Mime : Type} (mail : Mail Mailbox Addr Mime)
    (lettre : Lettre Mailbox ContentType Mime) : Prop where
  parseAddress : ∀ t a, mail.parseAddress t = .ok a → mail.text a = t
  bare : ∀ address, (∀ c ∈ address, ¬ isWhitespace c) →
    ∀ m, lettre.parseMailbox address = .ok m → mail.text (mail.email m) = address
  named : ∀ name address, (∀ c ∈ address, ¬ isWhitespace c) →
    ∀ m, lettre.parseMailbox (name ++ " <".toList ++ address ++ ">".toList) = .ok m →
      mail.text (mail.email m) = address
  envelope : ∀ e mime, lettre.multipart e = .ok mime →
    mail.envelope mime = ⟨some (mail.email e.sender), [mail.email e.recipient]⟩
  messageId : ∀ e mime, lettre.multipart e = .ok mime → mail.messageId mime = e.messageId

/-- `{err:#}` -/
def chain (err : Anyhow) : Text := ": ".toList.intercalate err

variable {Mailbox Addr ContentType Mime : Type}

/-- The envelope to hand the relay, or none to let it follow `From:`. -/
def envelopeFor (mail : Mail Mailbox Addr Mime) (bounceMailbox : Option Text)
    (claimed : Claimed) : Except Anyhow (Option (Envelope Addr)) :=
  match bounceMailbox with
  | none => .ok none
  | some mailbox =>
    match Address.bounceSender claimed.mailFrom mailbox with
    | none => .error ["no bounce sender for '".toList ++ claimed.mailFrom ++ "' with mailbox '".toList ++
        mailbox ++ "'".toList]
    | some sender => do
      let sender ← context ("parsing bounce sender ".toList ++ sender) (mail.parseAddress sender)
      let recipient ← context ("parsing recipient ".toList ++ claimed.rcptTo)
        (mail.parseAddress claimed.rcptTo)
      return some ⟨some sender, [recipient]⟩

/-- What `send` gives the transport: an envelope and a message, or what the
worker is told instead. -/
def outgoing (lettre : Lettre Mailbox ContentType Mime) (mail : Mail Mailbox Addr Mime)
    (bounceMailbox : Option Text) (claimed : Claimed) : Except Outcome (Envelope Addr × Mime) :=
  match build lettre claimed with
  | .error err => .error (.permanent none ("could not build message: ".toList ++ chain err))
  | .ok message =>
    match envelopeFor mail bounceMailbox claimed with
    | .ok (some envelope) => .ok (envelope, message)
    | .ok none => .ok (mail.envelope message, message)
    | .error err => .error (.permanent none ("could not build envelope: ".toList ++ chain err))

variable {lettre : Lettre Mailbox ContentType Mime} {mail : Mail Mailbox Addr Mime}
  {bounceMailbox : Option Text} {claimed : Claimed} {envelope : Envelope Addr} {mime : Mime}
  {localPart domain : Text}

theorem ok_of_context {α : Type} {outer : Text} {r : Except Text α} {a : α}
    (h : context outer r = .ok a) : r = .ok a := by
  cases r with
  | ok b => exact congrArg Except.ok (Except.ok.inj h)
  | error cause => cases h

theorem outgoing_ok (h : outgoing lettre mail bounceMailbox claimed = .ok (envelope, mime)) :
    build lettre claimed = .ok mime ∧
      (envelopeFor mail bounceMailbox claimed = .ok (some envelope) ∨
        envelopeFor mail bounceMailbox claimed = .ok none ∧ envelope = mail.envelope mime) := by
  unfold outgoing at h
  split at h
  · cases h
  · rename_i message hbuild
    split at h
    · rename_i e he
      obtain ⟨rfl, rfl⟩ := Prod.mk.inj (Except.ok.inj h)
      exact ⟨hbuild, .inl he⟩
    · rename_i he
      obtain ⟨rfl, rfl⟩ := Prod.mk.inj (Except.ok.inj h)
      exact ⟨hbuild, .inr ⟨he, rfl⟩⟩
    · cases h

/-- The headers of a message that has been built. -/
theorem build_ok (h : build lettre claimed = .ok mime) : ∃ e : Email Mailbox ContentType,
    lettre.multipart e = .ok mime ∧ lettre.parseMailbox (sender claimed) = .ok e.sender ∧
      e.messageId = "<".toList ++ Api.uuidText claimed.id ++ "@".toList ++ messageIdDomain claimed ++
        ">".toList := by
  unfold build at h
  obtain ⟨sender, hsender, h⟩ := ok_of_bind h
  obtain ⟨recipient, -, h⟩ := ok_of_bind h
  obtain ⟨replyTo, -, h⟩ := ok_of_bind h
  obtain ⟨body, -, h⟩ := ok_of_bind h
  exact ⟨_, ok_of_context h, ok_of_context hsender, rfl⟩

theorem envelopeFor_some (h : envelopeFor mail bounceMailbox claimed = .ok (some envelope)) :
    ∃ mailbox sender address, Address.bounceSender claimed.mailFrom mailbox = some sender ∧
      mail.parseAddress sender = .ok address ∧ envelope.sender = some address := by
  unfold envelopeFor at h
  split at h
  · cases Except.ok.inj h
  · rename_i mailbox
    split at h
    · cases h
    · rename_i sender hsender
      obtain ⟨address, haddress, h⟩ := ok_of_bind h
      obtain ⟨recipient, -, h⟩ := ok_of_bind h
      obtain rfl := Option.some.inj (Except.ok.inj h)
      exact ⟨mailbox, sender, address, hsender, ok_of_context haddress, rfl⟩

theorem text_of_parseMailbox (hl : mail.Lawful lettre) {m : Mailbox}
    (hn : ∀ c ∈ claimed.mailFrom, ¬ isWhitespace c)
    (h : lettre.parseMailbox (sender claimed) = .ok m) :
    mail.text (mail.email m) = claimed.mailFrom := by
  unfold sender at h
  split at h
  · exact hl.named _ _ hn m h
  · exact hl.bare _ hn m h

/-- The three places where a message that goes out names its sender's domain. -/
theorem outgoing_domain (hl : mail.Lawful lettre)
    (hn : Address.Normal claimed.mailFrom localPart domain)
    (h : outgoing lettre mail bounceMailbox claimed = .ok (envelope, mime)) :
    mail.messageId mime = "<".toList ++ Api.uuidText claimed.id ++ "@".toList ++ domain ++ ">".toList ∧
      ∃ address l, envelope.sender = some address ∧
        rsplitOnce '@' (mail.text address) = some (l, domain) := by
  obtain ⟨hbuild, henvelope⟩ := outgoing_ok h
  obtain ⟨e, hmime, hsender, hid⟩ := build_ok hbuild
  have hrhs : messageIdDomain claimed = domain := by
    simp only [messageIdDomain, hn.split, Option.map_some, Option.getD_some]
  refine ⟨by rw [hl.messageId e mime hmime, hid, hrhs], ?_⟩
  rcases henvelope with hsome | ⟨-, rfl⟩
  · obtain ⟨mailbox, bounce, address, hbounce, haddress, he⟩ := envelopeFor_some hsome
    refine ⟨address, trim mailbox, he, ?_⟩
    simp only [Address.bounceSender, hn.domain_eq, Option.map_some] at hbounce
    split_ifs at hbounce
    obtain rfl := Option.some.inj hbounce
    rw [hl.parseAddress _ _ haddress]
    exact rsplitOnce_of_notMem (rsplitOnce_spec hn.split).2 _
  · refine ⟨mail.email e.sender, localPart, ?_, ?_⟩
    · rw [hl.envelope e mime hmime]
    · rw [text_of_parseMailbox hl hn.unspaced hsender]
      exact hn.split

section Plain

/-! A mail library that takes an address for any text with an `@` in it and
no angle bracket, and knows of a mailbox `address` and `name <address>`. -/

def plainAddress (t : Text) : Except Text Text :=
  if '@' ∈ t ∧ '<' ∉ t then .ok t else .error "Invalid input".toList

def plainMailbox (t : Text) : Except Text Text :=
  match rsplitOnce '<' t with
  | none => plainAddress t
  | some (name, rest) =>
    if name.getLast? = some ' ' ∧ '<' ∉ name then plainAddress rest.dropLast
    else .error "Invalid input".toList

@[reducible] def plainLettre : Lettre Text Text (Email Text Text) where
  parseMailbox := plainMailbox
  parseContentType t := some t
  textPlain := "text/plain".toList
  multipart e := .ok e

@[reducible] def plainMail : Mail Text Text (Email Text Text) where
  parseAddress := plainAddress
  text t := t
  email t := t
  envelope e := ⟨some e.sender, [e.recipient]⟩
  messageId e := e.messageId

theorem plainAddress_ok {t a : Text} (h : plainAddress t = .ok a) : a = t ∧ '<' ∉ t := by
  unfold plainAddress at h
  split_ifs at h with hc
  exact ⟨(Except.ok.inj h).symm, hc.2⟩

theorem plainMailbox_bare {address a : Text} (hs : ∀ c ∈ address, ¬ isWhitespace c)
    (h : plainMailbox address = .ok a) : a = address := by
  unfold plainMailbox at h
  split at h
  · exact (plainAddress_ok h).1
  · rename_i name rest hsplit
    split_ifs at h with hc
    obtain ⟨n, rfl⟩ := List.getLast?_eq_some_iff.mp hc.1
    refine absurd ?_ (hs ' ' ?_)
    · decide
    · rw [(rsplitOnce_spec hsplit).1]
      simp

theorem plainMailbox_named {name address a : Text}
    (h : plainMailbox (name ++ " <".toList ++ address ++ ">".toList) = .ok a) : a = address := by
  have ht : name ++ " <".toList ++ address ++ ">".toList =
      (name ++ [' ']) ++ '<' :: (address ++ ['>']) := by simp
  rw [ht] at h
  unfold plainMailbox at h
  split at h
  · rename_i hsplit
    obtain ⟨l, r, hsome⟩ := exists_rsplitOnce
      (c := '<') (t := (name ++ [' ']) ++ '<' :: (address ++ ['>'])) (by simp)
    rw [hsplit] at hsome
    cases hsome
  · rename_i n rest hsplit
    split_ifs at h with hc
    obtain ⟨he, hrest⟩ := rsplitOnce_spec hsplit
    -- There is one bracket, so it is the one after the name.
    have hone : ((name ++ [' ']) ++ '<' :: (address ++ ['>'])).count '<' = 1 := by
      rw [he, List.count_append, List.count_cons_self, List.count_eq_zero.mpr hc.2,
        List.count_eq_zero.mpr hrest]
    have hno : '<' ∉ address ++ ['>'] := by
      rw [List.count_append, List.count_cons_self] at hone
      exact List.count_eq_zero.mp (by omega)
    rw [rsplitOnce_of_notMem hno] at hsplit
    obtain ⟨-, rfl⟩ := Prod.mk.inj (Option.some.inj hsplit)
    rw [List.dropLast_concat] at h
    exact (plainAddress_ok h).1

theorem plainMail_lawful : plainMail.Lawful plainLettre where
  parseAddress t a h := (plainAddress_ok h).1
  bare _ hs _ h := plainMailbox_bare hs h
  named _ _ _ _ h := plainMailbox_named h
  envelope e mime h := by
    obtain rfl := Except.ok.inj h
    rfl
  messageId e mime h := by
    obtain rfl := Except.ok.inj h
    rfl

end Plain

end Postbud.Relay
