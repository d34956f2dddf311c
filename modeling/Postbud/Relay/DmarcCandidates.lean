import Postbud.Core.DmarcProlog
import Postbud.Relay.Dmarc

namespace Postbud.DmarcPoller

open Lib Lib.Text Lib.Utf8 Dmarc

/-! The poller takes a text part for a report by its first characters, and the
parser removes more than white space before it reads one. -/

def LooksLikeXml (text : Text) : Prop :=
  "<?xml".toList <+: trimStart text ∨ "<feedback".toList <+: trimStart text

instance (text : Text) : Decidable (LooksLikeXml text) :=
  inferInstanceAs (Decidable ("<?xml".toList <+: trimStart text ∨ "<feedback".toList <+: trimStart text))

section Shape

variable {p : Char → Bool} {word t text : Text} {c : Char}

theorem prefix_rdropWhile (hc : p c = false) :
    word ++ [c] <+: t.rdropWhile p ↔ word ++ [c] <+: t := by
  constructor
  · exact fun h ↦ h.trans (List.rdropWhile_prefix _ _)
  · rintro ⟨rest, rfl⟩
    induction rest using List.reverseRecOn with
    | nil => rw [List.append_nil, List.rdropWhile_concat_neg _ _ _ (by simp [hc])]
    | append_singleton rest d ih =>
      rw [← List.append_assoc]
      by_cases hd : p d
      · rwa [List.rdropWhile_concat_pos _ _ _ hd]
      · rw [List.rdropWhile_concat_neg _ _ _ hd, List.append_assoc]
        exact List.prefix_append _ _

/-- White space after a text does not hide how it begins. -/
theorem looksLikeXml_trim : LooksLikeXml (trim text) ↔ LooksLikeXml text := by
  have hword (word : Text) (c : Char) (hc : isWhitespace c = false) :
      word ++ [c] <+: trimStart (trim text) ↔ word ++ [c] <+: trimStart text := by
    rw [trimStart_trim]
    exact prefix_rdropWhile hc
  exact or_congr (hword "<?xm".toList 'l' rfl) (hword "<feedbac".toList 'k' rfl)

theorem looksLikeXml_iff : LooksLikeXml text ↔
    text.head? ≠ some '\uFEFF' ∧ LooksLikeXml (documentText (utf8 text)) := by
  rw [documentText, fromUtf8Lossy_utf8, looksLikeXml_trim]
  cases text with
  | nil => exact iff_of_false (by decide) (fun h ↦ absurd h.2 (by decide))
  | cons c t =>
    by_cases hc : c = '\uFEFF'
    · subst hc
      refine iff_of_false (fun h ↦ ?_) fun h ↦ h.1 rfl
      rw [LooksLikeXml, trimStart, List.dropWhile_cons_of_neg (by decide)] at h
      rcases h with h | h <;> exact absurd (List.cons_prefix_cons.mp h).1 (by decide)
    · rw [List.dropWhile_cons_of_neg (by simp [isBom, hc])]
      simp [hc]

end Shape

section Offers

variable [MailParser] [Formats] {raw : Bytes} {parts : List Part} {text : Text}

def Readable (text : Text) : Prop := ∃ report, Dmarc.parse (utf8 text) = .ok report

/-- Every text part of the message that is a report is offered to the parser. -/
def OffersReports (raw : Bytes) : Prop := ∀ parts, MailParser.parse raw = some parts →
  ∀ text, Part.text text ∈ parts → Readable text → utf8 text ∈ candidates raw

omit [Formats] in
theorem utf8_mem_candidates (h : MailParser.parse raw = some parts) :
    utf8 text ∈ candidates raw ↔ Part.binary (utf8 text) ∈ parts ∨
      Part.inlineBinary (utf8 text) ∈ parts ∨ Part.text text ∈ parts ∧ LooksLikeXml text := by
  simp only [candidates, h, List.mem_filterMap]
  constructor
  · rintro ⟨part, hpart, hdata⟩
    cases part with
    | binary data =>
      obtain rfl := Option.some.inj hdata
      exact .inl hpart
    | inlineBinary data =>
      obtain rfl := Option.some.inj hdata
      exact .inr (.inl hpart)
    | text other =>
      dsimp only at hdata
      split_ifs at hdata with hlooks
      obtain rfl := utf8_injective (Option.some.inj hdata)
      rw [Bool.or_eq_true, decide_eq_true_iff, decide_eq_true_iff] at hlooks
      exact .inr (.inr ⟨hpart, hlooks⟩)
    | other => cases hdata
  · rintro (hpart | hpart | ⟨hpart, hlooks⟩)
    · exact ⟨_, hpart, rfl⟩
    · exact ⟨_, hpart, rfl⟩
    · refine ⟨_, hpart, if_pos ?_⟩
      rwa [Bool.or_eq_true, decide_eq_true_iff, decide_eq_true_iff]

/-- Just those reports are offered that begin, for the parser, as a document or
its root does, and have no mark before that. -/
theorem offersReports_iff (raw : Bytes) : OffersReports raw ↔
    ∀ parts, MailParser.parse raw = some parts → ∀ text, Part.text text ∈ parts → Readable text →
      Part.binary (utf8 text) ∉ parts → Part.inlineBinary (utf8 text) ∉ parts →
        text.head? ≠ some '\uFEFF' ∧ LooksLikeXml (documentText (utf8 text)) := by
  constructor
  · intro h parts hparts text htext hreadable hbinary hinline
    rw [← looksLikeXml_iff]
    obtain hin | hin | hin := (utf8_mem_candidates hparts).mp (h parts hparts text htext hreadable)
    · exact absurd hin hbinary
    · exact absurd hin hinline
    · exact hin.2
  · intro h parts hparts text htext hreadable
    rw [utf8_mem_candidates hparts]
    by_cases hbinary : Part.binary (utf8 text) ∈ parts
    · exact .inl hbinary
    by_cases hinline : Part.inlineBinary (utf8 text) ∈ parts
    · exact .inr (.inl hinline)
    · exact .inr (.inr ⟨htext, looksLikeXml_iff.mpr (h parts hparts text htext hreadable hbinary hinline)⟩)

end Offers

/-- A report with a byte order mark, as some programs save a text. -/
def marked : Text := "\uFEFF<feedback><report_metadata><report_id>1</report_id>".toList ++
  "</report_metadata><policy_published><domain>example.com</domain>".toList ++
  "</policy_published></feedback>".toList

/-- A deserialiser that reads that report, and a message of which it is the text. -/
@[reducible] def readsMarked : Formats where
  __ := Formats.none
  xml text := if text = marked.tail then .ok
      { reportMetadata := some { reportId := some ['1'] }
        policyPublished := some { domain := some "example.com".toList } }
    else .error "unexpected end".toList

@[reducible] def textOnly : MailParser where
  parse _ := some [.text marked]

/-- It is read as a report, and is not offered for that: the message is archived
as one that carries none. -/
theorem marked_is_ignored : ¬ (∀ (_ : MailParser) (_ : Formats) (raw : Bytes), OffersReports raw) ∧
    @Readable readsMarked marked ∧
    ∀ (w : World) (p : Pass) (uid : ℕ) (m : Mail), w.fetch uid → p.mailbox.find? uid = some m →
      @handleOne textOnly readsMarked w p uid = (p.held, .ok .notAReport) := by
  have hreadable : @Readable readsMarked marked := by
    have htext : documentText (utf8 marked) = marked.tail := by
      rw [documentText, fromUtf8Lossy_utf8]
      decide +kernel
    let _ := readsMarked
    refine parse_ok ?_ ((congrArg Formats.xml htext).trans (if_pos rfl)) rfl rfl rfl rfl
    rw [htext]
    exact not_declares_of_notMem (by decide +kernel)
  have hnone : ∀ raw, @candidates textOnly raw = [] := fun _ ↦ rfl
  refine ⟨fun h ↦ ?_, hreadable, fun w p uid m hfetch hm ↦ ?_⟩
  · have hoffered := h textOnly readsMarked [] [.text marked] rfl marked List.mem_cons_self hreadable
    rw [hnone] at hoffered
    cases hoffered
  · unfold handleOne
    rw [if_pos hfetch, hm]
    exact if_pos (hnone m.raw)

end Postbud.DmarcPoller
