import Postbud.Core.Dmarc
import Postbud.Lib.Result

namespace Postbud.Dmarc

open Lib Lib.Text Lib.ByteSlice Lib.Utf8 Lib.Result

/-! What may stand before a document type declaration, and the part of a
document that is searched for one. -/

def isBom (c : Char) : Bool := c = '\uFEFF'

/-- `text` as `parse` goes on with it. -/
def documentText (xml : Bytes) : Text := trim ((fromUtf8Lossy xml).dropWhile isBom)

/-- White space, comments and processing instructions, the XML declaration
among these. -/
inductive Prolog : Text → Prop
  | nil : Prolog []
  | space {c : Char} {t : Text} (hc : c ∈ [' ', '\t', '\r', '\n']) (h : Prolog t) : Prolog (c :: t)
  | comment {body t : Text} (hbody : ¬ "-->".toList <:+: body) (h : Prolog t) :
      Prolog ("<!--".toList ++ body ++ "-->".toList ++ t)
  | instruction {body t : Text} (hbody : ¬ "?>".toList <:+: body) (h : Prolog t) :
      Prolog ("<?".toList ++ body ++ "?>".toList ++ t)

def Opens (keyword : Text) : Prop :=
  toAsciiLowercase keyword = "<!doctype".toList ∨ toAsciiLowercase keyword = "<!entity".toList

/-- The prolog of the document, after a byte order mark if any, declares a
DOCTYPE or an ENTITY. -/
def DeclaredIn (xml : Bytes) : Prop := ∃ marks before keyword after,
  fromUtf8Lossy xml = marks ++ before ++ keyword ++ after ∧ (∀ c ∈ marks, isBom c) ∧
    Prolog before ∧ Opens keyword

/-- A declaration is opened within the first so many bytes. -/
def OpensWithin (n : ℕ) (text : Text) : Prop := ∃ before keyword after,
  text = before ++ keyword ++ after ∧ Opens keyword ∧ byteLength (before ++ keyword) ≤ n

section Search

variable {n : ℕ} {text : Text}

theorem infix_toAsciiLowercase {word : Text} : word <:+: toAsciiLowercase text ↔
    ∃ before keyword after, text = before ++ keyword ++ after ∧ toAsciiLowercase keyword = word := by
  constructor
  · rintro ⟨before, after, h⟩
    obtain ⟨whole, after', rfl, hwhole, -⟩ := List.map_eq_append_iff.mp h.symm
    obtain ⟨before', keyword, rfl, -, hkeyword⟩ := List.map_eq_append_iff.mp hwhole
    exact ⟨before', keyword, after', rfl, hkeyword⟩
  · rintro ⟨before, keyword, after, rfl, rfl⟩
    refine ⟨toAsciiLowercase before, toAsciiLowercase after, ?_⟩
    simp only [toAsciiLowercase, List.map_append]

theorem opens_infix : ("<!doctype".toList <:+: toAsciiLowercase text ∨
    "<!entity".toList <:+: toAsciiLowercase text) ↔
    ∃ before keyword after, text = before ++ keyword ++ after ∧ Opens keyword := by
  simp only [infix_toAsciiLowercase, Opens, and_or_left, exists_or]

theorem declares_iff_head : declares text ↔ ∃ before keyword after,
    ((splitAtByte 4096 text).map (·.1)).getD text = before ++ keyword ++ after ∧ Opens keyword := by
  rw [← opens_infix, ← decide_eq_true_iff (p := "<!doctype".toList <:+: _),
    ← decide_eq_true_iff (p := "<!entity".toList <:+: _), ← Bool.or_eq_true]
  rfl

/-- Nothing is declared without an exclamation mark. -/
theorem not_declares_of_notMem (h : '!' ∉ text) : ¬ declares text := by
  intro hdeclares
  obtain ⟨before, keyword, after, hhead, hopens⟩ := declares_iff_head.mp hdeclares
  have hlower : '!' ∈ toAsciiLowercase keyword := by
    obtain hopens | hopens := hopens <;> rw [hopens] <;> decide
  have hkeyword : '!' ∈ keyword := (mem_toAsciiLowercase (by decide) (by decide)).mp hlower
  have hin : '!' ∈ ((splitAtByte 4096 text).map (·.1)).getD text := by
    rw [hhead]
    exact List.mem_append_left _ (List.mem_append_right _ hkeyword)
  apply h
  cases hcut : splitAtByte 4096 text with
  | none =>
    rw [hcut] at hin
    exact hin
  | some p =>
    obtain ⟨head, rest⟩ := p
    rw [hcut] at hin
    obtain ⟨rfl, -⟩ := splitAtByte_eq_some.mp hcut
    exact List.mem_append_left _ hin

/-- A cut of a text has what ends before it. -/
theorem opensWithin_iff {head rest : Text} (h : splitAtByte n text = some (head, rest)) :
    OpensWithin n text ↔ ∃ before keyword after, head = before ++ keyword ++ after ∧
      Opens keyword := by
  obtain ⟨rfl, hn⟩ := splitAtByte_eq_some.mp h
  constructor
  · rintro ⟨before, keyword, after, htext, hopens, hlen⟩
    obtain ⟨more, rfl, -⟩ | ⟨more, hmore, hrest⟩ := List.append_eq_append_iff.mp htext.symm
    · exact ⟨before, keyword, more, rfl, hopens⟩
    · have hzero : byteLength more = 0 := by
        have := congrArg byteLength hmore
        simp only [byteLength_append] at this hlen
        omega
      obtain rfl := eq_nil_of_byteLength hzero
      rw [List.append_nil] at hmore
      exact ⟨before, keyword, [], by rw [hmore, List.append_nil], hopens⟩
  · rintro ⟨before, keyword, after, rfl, hopens⟩
    refine ⟨before, keyword, after ++ rest, (List.append_assoc _ _ _), hopens, ?_⟩
    rw [byteLength_append] at hn
    omega

theorem declares_iff (h : ∃ before keyword after, text = before ++ keyword ++ after ∧
    Opens keyword) : declares text ↔ (IsBoundary 4096 text → OpensWithin 4096 text) := by
  cases hcut : splitAtByte 4096 text with
  | none =>
    rw [declares_iff_head, hcut]
    refine iff_of_true h fun hb ↦ ?_
    have hsome := isSome_splitAtByte.mpr hb
    rw [hcut] at hsome
    cases hsome
  | some p =>
    have hb : IsBoundary 4096 text := by
      rw [← isSome_splitAtByte, hcut]
      rfl
    rw [declares_iff_head, opensWithin_iff hcut, hcut]
    exact ⟨fun h _ ↦ h, fun h ↦ h hb⟩

end Search

section Text

variable {keyword : Text} {p : Char → Bool}

theorem ends_of_lowercase (inner : Text) {e : Char}
    (h : toAsciiLowercase keyword = '<' :: (inner ++ [e])) :
    ∃ middle d, keyword = '<' :: (middle ++ [d]) ∧ asciiLower d = e := by
  obtain ⟨c, rest, rfl, hc, hrest⟩ := List.map_eq_cons_iff.mp h
  obtain ⟨middle, last, rfl, -, hlast⟩ := List.map_eq_append_iff.mp hrest
  obtain ⟨d, rfl, hd⟩ := List.map_eq_singleton_iff.mp hlast
  obtain rfl := (asciiLower_eq_iff (by decide) (by decide)).mp hc
  exact ⟨middle, d, rfl, hd⟩

theorem opens_ends (h : Opens keyword) : ∃ middle d, keyword = '<' :: (middle ++ [d]) ∧
    isWhitespace d = false := by
  obtain h | h := h
  · obtain ⟨middle, d, hkeyword, hd⟩ := ends_of_lowercase "!doctyp".toList h
    exact ⟨middle, d, hkeyword, by rw [← isWhitespace_asciiLower, hd]; rfl⟩
  · obtain ⟨middle, d, hkeyword, hd⟩ := ends_of_lowercase "!entit".toList h
    exact ⟨middle, d, hkeyword, by rw [← isWhitespace_asciiLower, hd]; rfl⟩

theorem infix_dropWhile {t : Text} {c : Char} (hc : p c = false) (h : c :: keyword <:+: t) :
    c :: keyword <:+: t.dropWhile p := by
  obtain ⟨before, after, rfl⟩ := h
  rw [List.append_assoc, List.dropWhile_append]
  split
  · rw [List.cons_append, List.dropWhile_cons_of_neg (by simp [hc])]
    exact ⟨[], after, rfl⟩
  · exact ⟨before.dropWhile p, after, by rw [List.append_assoc]⟩

theorem infix_rdropWhile {t : Text} {c : Char} (hc : p c = false) (h : keyword ++ [c] <:+: t) :
    keyword ++ [c] <:+: t.rdropWhile p := by
  rw [← List.reverse_infix, List.reverse_append, List.reverse_singleton] at h ⊢
  rw [List.rdropWhile, List.reverse_reverse]
  exact infix_dropWhile hc h

theorem infix_documentText {xml : Bytes} (h : DeclaredIn xml) :
    ∃ before keyword after, documentText xml = before ++ keyword ++ after ∧ Opens keyword := by
  obtain ⟨marks, before, keyword, after, htext, -, -, hopens⟩ := h
  obtain ⟨middle, d, rfl, hd⟩ := opens_ends hopens
  have hin : '<' :: (middle ++ [d]) <:+: fromUtf8Lossy xml := ⟨marks ++ before, after, htext.symm⟩
  have hout : ('<' :: middle) ++ [d] <:+: documentText xml :=
    infix_rdropWhile hd (infix_dropWhile rfl (infix_dropWhile rfl hin))
  obtain ⟨before', after', hout⟩ := hout
  exact ⟨before', _, after', hout.symm, hopens⟩

end Text

section Parse

theorem orNotAReport_ne_doctype {α : Type} {missing : Text} {a : Option α} :
    orNotAReport missing a ≠ .error .doctype := by
  cases a <;> exact nofun

variable [Formats] {xml : Bytes}

theorem parse_eq_doctype : parse xml = .error .doctype ↔ declares (documentText xml) := by
  unfold parse
  change (if declares (documentText xml) then _ else _) = _ ↔ _
  split_ifs with h
  · exact iff_of_true rfl h
  · refine iff_of_false (fun he ↦ ?_) h
    dsimp only at he
    split at he
    · rename_i feedback _
      change (orNotAReport _ feedback.reportMetadata >>= _) = _ at he
      obtain he | ⟨meta_, he⟩ := error_of_bind he
      · exact orNotAReport_ne_doctype he
      obtain he | ⟨policy, he⟩ := error_of_bind he
      · exact orNotAReport_ne_doctype he
      obtain he | ⟨reportId, he⟩ := error_of_bind he
      · exact orNotAReport_ne_doctype he
      obtain he | ⟨domain, he⟩ := error_of_bind he
      · exact orNotAReport_ne_doctype he
      cases he
    · cases he

theorem parse_ok {feedback : Raw.Feedback} {meta_ : Raw.ReportMetadata}
    {policy : Raw.PolicyPublished} {reportId domain : Text} (hsearch : ¬ declares (documentText xml))
    (hxml : Formats.xml (documentText xml) = .ok feedback)
    (hmeta : feedback.reportMetadata = some meta_) (hpolicy : feedback.policyPublished = some policy)
    (hid : trimmed meta_.reportId = some reportId) (hdomain : trimmed policy.domain = some domain) :
    ∃ report, parse xml = .ok report := by
  unfold parse
  change ∃ report, (if declares (documentText xml) then _ else _) = _
  rw [if_neg hsearch]
  dsimp only
  split
  · rename_i read hread
    obtain rfl : read = feedback := Except.ok.inj (hread.symm.trans hxml)
    change ∃ report, (orNotAReport _ read.reportMetadata >>= _) = _
    rw [hmeta, hpolicy]
    change ∃ report, (orNotAReport _ (trimmed meta_.reportId) >>= _) = _
    rw [hid, hdomain]
    exact ⟨_, rfl⟩
  · rename_i message hread
    cases hread.symm.trans hxml

/-- A declaration is refused unless the text can be cut at 4096 bytes and it is
opened beyond these. -/
theorem parse_declared (h : DeclaredIn xml) : parse xml = .error .doctype ↔
    (IsBoundary 4096 (documentText xml) → OpensWithin 4096 (documentText xml)) :=
  parse_eq_doctype.trans (declares_iff (infix_documentText h))

end Parse

/-- Readers that make nothing of anything. -/
@[reducible] def Formats.none : Formats where
  gunzip _ _ := .error "invalid gzip header".toList
  unzip _ := .error "invalid Zip archive".toList
  xml _ := .error "unexpected end".toList

theorem parse_declared_short :
    @parse Formats.none (utf8 "<!DocType a>".toList) = .error .doctype := by
  have htext : documentText (utf8 "<!DocType a>".toList) = "<!DocType a>".toList := by decide
  have hdeclared : DeclaredIn (utf8 "<!DocType a>".toList) :=
    ⟨[], [], "<!DocType".toList, " a>".toList, by decide, by decide, .nil, .inl (by decide)⟩
  rw [@parse_declared Formats.none _ hdeclared, htext]
  exact fun _ ↦ ⟨[], "<!DocType".toList, " a>".toList, by decide, .inl (by decide), by decide⟩

/-! A comment as long as the searched part keeps a declaration out of it. -/

def declaration : Text := " feedback [<!ENTITY boom \"A\">]>".toList ++
  "<feedback><report_metadata><report_id>".toList ++ "1</report_id></report_metadata>".toList ++
  "<policy_published><domain>".toList ++ "example.com</domain></policy_published>".toList ++
  "</feedback".toList

def behind (body : Text) : Text := "<!--".toList ++ body ++ "-->".toList ++
  ("<!DOCTYPE".toList ++ (declaration ++ ['>']))

def commented : Text := behind (List.replicate 4096 'x')

/-- A deserialiser that skips the declaration of that document. -/
@[reducible] def skipping : Formats where
  __ := Formats.none
  xml text := if text = commented then .ok
      { reportMetadata := some { reportId := some ['1'] }
        policyPublished := some { domain := some "example.com".toList } }
    else .error "unexpected end".toList

section Behind

variable {body : Text}

theorem documentText_behind (body : Text) : documentText (utf8 (behind body)) = behind body := by
  have hends : behind body = '<' :: ("!--".toList ++ body ++ "-->".toList ++
      ("<!DOCTYPE".toList ++ declaration) ++ ['>']) := by
    rw [List.append_assoc _ _ ['>'], List.append_assoc _ declaration]
    rfl
  rw [documentText, fromUtf8Lossy_utf8, hends, List.dropWhile_cons_of_neg (by decide)]
  exact trim_of_ends rfl rfl

theorem behind_declaredIn (hbody : ¬ "-->".toList <:+: body) :
    DeclaredIn (utf8 (behind body)) := by
  refine ⟨[], "<!--".toList ++ body ++ "-->".toList ++ [], "<!DOCTYPE".toList,
    declaration ++ ['>'], (fromUtf8Lossy_utf8 _).trans ?_, fun _ h ↦ absurd h List.not_mem_nil,
    .comment hbody .nil, .inl (by decide)⟩
  rw [List.nil_append, List.append_nil, List.append_assoc _ "<!DOCTYPE".toList]
  rfl

theorem behind_cut (n : ℕ) (more : Text) : splitAtByte (4 + n)
    (behind (List.replicate n 'x' ++ more)) = some ("<!--".toList ++ List.replicate n 'x',
      more ++ "-->".toList ++ ("<!DOCTYPE".toList ++ (declaration ++ ['>']))) := by
  rw [splitAtByte_eq_some]
  constructor
  · change "<!--".toList ++ (List.replicate n 'x' ++ more) ++ "-->".toList ++ _ = _
    simp only [List.append_assoc]
  · have hx : byteLength (List.replicate n 'x') = n := by
      rw [byteLength, List.map_replicate, List.sum_replicate_nat]
      exact Nat.mul_one n
    rw [byteLength_append, hx]
    rfl

/-- Nothing is found in a comment that fills the searched part with one letter. -/
theorem behind_not_declares (more : Text) :
    ¬ declares (behind (List.replicate 4092 'x' ++ more)) := by
  have hcut := behind_cut 4092 more
  rw [show 4 + 4092 = 4096 from rfl] at hcut
  rw [declares_iff_head, hcut]
  rintro ⟨before, keyword, after, h, hopens⟩
  have ht : 't' ∈ toAsciiLowercase keyword := by
    obtain hopens | hopens := hopens <;> rw [hopens] <;> decide
  obtain ⟨c, hc, hlower⟩ := List.mem_map.mp ht
  have hin : c ∈ "<!--".toList ++ List.replicate 4092 'x' := by
    rw [show "<!--".toList ++ List.replicate 4092 'x' = before ++ keyword ++ after from h]
    exact List.mem_append_left _ (List.mem_append_right _ hc)
  obtain hin | hin := List.mem_append.mp hin
  · have hall : ∀ c ∈ "<!--".toList, asciiLower c ≠ 't' := by decide
    exact hall c hin hlower
  · rw [List.eq_of_mem_replicate hin] at hlower
    exact absurd hlower (by decide)

end Behind

/-- It passes, though the claimed declaration is in its prolog. -/
theorem commented_passes : DeclaredIn (utf8 commented) ∧
    ∃ report, @parse skipping (utf8 commented) = .ok report := by
  have hbody : ¬ "-->".toList <:+: List.replicate 4096 'x' := by
    intro h
    have hdash : '-' ∈ List.replicate 4096 'x' := h.subset List.mem_cons_self
    exact absurd (List.eq_of_mem_replicate hdash) (by decide)
  have hfill := List.replicate_append_replicate (n := 4092) (m := 4) (a := 'x')
  have hsearch : ¬ declares commented := by
    rw [commented, ← hfill]
    exact behind_not_declares _
  have htext : documentText (utf8 commented) = commented := documentText_behind _
  refine ⟨behind_declaredIn hbody, ?_⟩
  let _ := skipping
  apply parse_ok
  · rw [htext]
    exact hsearch
  · rw [htext]
    exact if_pos rfl
  · rfl
  · rfl
  · rfl
  · rfl

end Postbud.Dmarc
