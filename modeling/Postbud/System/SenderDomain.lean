import Postbud.Relay.Envelope
import Postbud.System.AttachmentBatch

namespace Postbud.System

open Lib Lib.Result Lib.Text Lib.Transition

section Runs

variable [Platform] {s : State}

theorem mailFrom_of_newMessage {tenant : Api.Tenant} {key : Text} {req : Api.SubmitRequest}
    {msg : NewMessage} (h : Api.Messages.newMessage tenant key req = .ok msg) :
    Address.normalize req.mailFrom = .ok msg.mailFrom ∧
      Authz.maySendAs msg.mailFrom tenant.fromDomains := by
  simp only [Api.Messages.newMessage] at h
  obtain ⟨mailFrom, hfrom, h⟩ := ok_of_bind h
  obtain ⟨rcptTo, -, h⟩ := ok_of_bind h
  obtain ⟨replyTo, -, h⟩ := ok_of_bind h
  obtain ⟨hmay, h⟩ := ok_of_unless h
  obtain ⟨-, h⟩ := ok_of_unless h
  obtain ⟨-, h⟩ := ok_of_unless h
  obtain ⟨attachments, -, h⟩ := ok_of_bind h
  obtain rfl := Except.ok.inj h
  refine ⟨?_, by simpa using hmay⟩
  unfold Api.Messages.normalize at hfrom
  split at hfrom
  · rename_i address haddress
    exact Except.ok.inj hfrom ▸ haddress
  · cases hfrom

/-- Whom a message that a worker has claimed is sent as. -/
structure SentAs (s : State) (c : Claimed) (tenant : Api.Tenant) (req : Api.SubmitRequest)
    (domain : Text) : Prop where
  submitted : ∃ key, ∃ call ∈ s.accepts, call.stage = .returned ⟨c.id, .queued, false⟩ ∧
    Api.Messages.newMessage tenant key req = .ok call.msg
  stored : Address.normalize req.mailFrom = .ok c.mailFrom
  idempotent : Address.normalize c.mailFrom = .ok c.mailFrom
  afterAt : ∃ localPart, rsplitOnce '@' c.mailFrom = some (localPart, domain)
  lower : toAsciiLowercase domain = domain
  allowed : ∃ allowed ∈ tenant.fromDomains, toAsciiLowercase (trim allowed) = domain
  outgoing : ∀ {Mailbox Addr ContentType Mime : Type} (lettre : Relay.Lettre Mailbox ContentType Mime)
    (mail : Relay.Mail Mailbox Addr Mime), mail.Lawful lettre →
      ∀ (bounceMailbox : Option Text) (envelope : Relay.Envelope Addr) (mime : Mime),
        Relay.outgoing lettre mail bounceMailbox c = .ok (envelope, mime) →
          mail.messageId mime = "<".toList ++ Api.uuidText c.id ++ "@".toList ++ domain ++ ">".toList ∧
            ∃ sender localPart, envelope.sender = some sender ∧
              rsplitOnce '@' (mail.text sender) = some (localPart, domain)

theorem sentAs_of_claim (hi : Inv s) (hfrom : ∀ c ∈ s.accepts, FromApi c.msg) {worker : Text}
    {batch : ℕ} {locked : List Uuid} {c : Claimed}
    (hc : c ∈ (claim s.db s.now worker batch locked).2) :
    ∃ tenant req domain, SentAs s c tenant req domain := by
  obtain ⟨m, hm, rfl⟩ := List.mem_map.mp hc
  obtain ⟨hm, hid⟩ := List.mem_filter.mp hm
  obtain ⟨m', hm', hmid, hdue, -⟩ := mem_claimIds (of_decide_eq_true hid)
  obtain rfl : m' = m := s.db.message_eq_of_id hm' hm hmid
  obtain ⟨call, hcall, hst⟩ := owned_of_due hi hm' hdue
  obtain ⟨-, -, m₁, hm₁, hmail, -⟩ := sound_first (hi.sound call hcall) hst
  obtain rfl : m₁ = m' := s.db.message_eq_of_id hm₁ hm' hmail.id
  have hmailFrom : m₁.mailFrom = call.msg.mailFrom := hmail.mailFrom
  obtain ⟨tenant, key, req, hnew⟩ := hfrom call hcall
  obtain ⟨hnormalize, hmay⟩ := mailFrom_of_newMessage hnew
  obtain ⟨localPart, domain, hn⟩ := Address.normal_of_normalize hnormalize
  rw [Authz.maySendAs_iff hn] at hmay
  rw [← hmailFrom] at hnormalize hn
  exact ⟨tenant, req, domain, ⟨key, call, hcall, hst, hnew⟩, hnormalize, hn.normalize,
    ⟨localPart, hn.split⟩, hn.lower, hmay, fun lettre mail hl bounceMailbox envelope mime hout ↦
      Relay.outgoing_domain hl hn hout⟩

/-- Of every message that is submitted through the API and claimed, the
address as stored, the Message-ID and the envelope name one domain, which is
an entry of the list of the tenant that submitted it. -/
theorem sender_domain (now : Time) (l : List Action) (h : ∀ msg, .submit msg ∈ l → FromApi msg) :
    Always step (fun s ↦ ∀ worker batch locked, ∀ c ∈ (claim s.db s.now worker batch locked).2,
      ∃ tenant req domain, SentAs s c tenant req domain) { now } l := by
  have hsub : Along step (fun _ a ↦ ∀ msg, a = .submit msg → FromApi msg) { now } l :=
    along_of_forall fun s a ha msg hmsg ↦ h msg (hmsg ▸ ha)
  have hinv := always_of_along (I := fun s ↦ Inv s ∧ ∀ c ∈ s.accepts, FromApi c.msg)
    (fun s a s' hi ha hs ↦ ⟨hi.1.step hs, (step_spec hs).forall_msg hi.2 ha⟩) hsub
    ⟨inv_init now, fun _ hc ↦ absurd hc List.not_mem_nil⟩
  intro l' s hl hs worker batch locked c hc
  obtain ⟨hi, hfrom⟩ := hinv l' s hl hs
  exact sentAs_of_claim hi hfrom hc

end Runs

def acceptInvoice : List Action :=
  [.submit invoice, .accept 0 7, .accept 0 7, .accept 0 7, .accept 0 7]

attribute [local instance] Platform.ascii

theorem sender_domain_invoice : (∀ msg, .submit msg ∈ acceptInvoice → FromApi msg) ∧
    ∃ s, ∃ c ∈ (claim s.db s.now "w1".toList 20 []).2, ∃ tenant req domain envelope mime,
      Run step { now := 0 } acceptInvoice s ∧ SentAs s c tenant req domain ∧
        Relay.outgoing Relay.plainLettre Relay.plainMail (some " bounces".toList) c =
          .ok (envelope, mime) ∧
        ∃ sender localPart, envelope.sender = some sender ∧
          rsplitOnce '@' sender = some (localPart, domain) := by
  have hsubmit : Api.Messages.newMessage ⟨1, "acme".toList, [" Example.COM".toList]⟩ []
      submitInvoice = .ok invoice := by decide +kernel
  have h : ∀ msg, .submit msg ∈ acceptInvoice → FromApi msg := by
    intro msg hmsg
    simp only [acceptInvoice, List.mem_cons, Action.submit.injEq, reduceCtorEq, or_false,
      List.not_mem_nil] at hmsg
    exact ⟨_, _, _, hmsg ▸ hsubmit⟩
  have hrun : (exec step { now := 0 } acceptInvoice).any fun s ↦
      (claim s.db s.now "w1".toList 20 []).2.any fun c ↦
        (Relay.outgoing Relay.plainLettre Relay.plainMail (some " bounces".toList) c).isOk := by
    decide +kernel
  obtain ⟨s, hs, hany⟩ := run_of_any hrun
  obtain ⟨c, hc, hok⟩ := List.any_eq_true.mp hany
  obtain ⟨tenant, req, domain, hsent⟩ :=
    sender_domain 0 acceptInvoice h acceptInvoice s (List.prefix_refl _) hs _ _ _ c hc
  obtain ⟨⟨envelope, mime⟩, hout⟩ : ∃ e, Relay.outgoing Relay.plainLettre Relay.plainMail
      (some " bounces".toList) c = .ok e := by
    cases he : Relay.outgoing Relay.plainLettre Relay.plainMail (some " bounces".toList) c with
    | ok e => exact ⟨e, rfl⟩
    | error err =>
      rw [he] at hok
      cases hok
  exact ⟨h, s, c, hc, tenant, req, domain, envelope, mime, hs, hsent, hout,
    (hsent.outgoing _ _ Relay.plainMail_lawful _ _ _ hout).2⟩

end Postbud.System
