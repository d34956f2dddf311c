import Postbud.Core.RelayQueue
import Postbud.Lib.Json

namespace Postbud.QueueJson

open Lib Lib.Text Lib.Json

def recipientText (r : RawRecipient) : Text :=
  match r.delayReason with
  | some reason => "\x7b\"delay_reason\":".toList ++ quote reason ++ ['}']
  | none => "\x7b\x7d".toList

def recipientsText : List RawRecipient → Text
  | [] => "]\x7d".toList
  | [r] => recipientText r ++ "]\x7d".toList
  | r :: rs => recipientText r ++ ',' :: recipientsText rs

def queueIdKey : Text := "\x7b\"queue_id\":".toList

def queueNameKey : Text := ",\"queue_name\":".toList

def recipientsKey : Text := ",\"recipients\":[".toList

/-- The object of an entry, its keys in order and without a space. -/
def entryText (e : RawEntry) : Text :=
  queueIdKey ++ (quote e.queueId ++ (queueNameKey ++ (quote e.queueName ++
    (recipientsKey ++ recipientsText e.recipients))))

def readQuoted (t : Text) : Option (Text × Text) := do readString (← stripPrefix ['"'] t)

def readRecipient (t : Text) : Option (RawRecipient × Text) :=
  match stripPrefix "\x7b\x7d".toList t with
  | some t => some (⟨none⟩, t)
  | none => do
    let (reason, t) ← readQuoted (← stripPrefix "\x7b\"delay_reason\":".toList t)
    some (⟨some reason⟩, ← stripPrefix ['}'] t)

def readRecipients : ℕ → Text → Option (List RawRecipient)
  | 0, _ => none
  | n + 1, t =>
    if t = "]\x7d".toList then some []
    else do
      let (r, t) ← readRecipient t
      if t = "]\x7d".toList then some [r]
      else some (r :: (← readRecipients n (← stripPrefix [','] t)))

def readEntry (t : Text) : Option RawEntry := do
  let (queueId, t) ← readQuoted (← stripPrefix queueIdKey t)
  let (queueName, t) ← readQuoted (← stripPrefix queueNameKey t)
  let t ← stripPrefix recipientsKey t
  let recipients ← readRecipients t.length t
  some { queueId, queueName, recipients }

theorem readQuoted_quote (t rest : Text) : readQuoted (quote t ++ rest) = some (t, rest) := by
  have hq : quote t ++ rest = ['"'] ++ (t.flatMap escape ++ '"' :: rest) := by
    simp [quote]
  rw [hq, readQuoted, stripPrefix_append]
  exact readString_flatMap t rest

theorem readRecipient_recipientText (r : RawRecipient) (rest : Text) :
    readRecipient (recipientText r ++ rest) = some (r, rest) := by
  obtain ⟨reason⟩ := r
  cases reason with
  | none =>
    simp only [recipientText, readRecipient, stripPrefix_append]
  | some reason =>
    have hno : stripPrefix "\x7b\x7d".toList (recipientText ⟨some reason⟩ ++ rest) = none := by
      simp [recipientText, stripPrefix]
    simp only [readRecipient, hno]
    simp only [recipientText, List.append_assoc, stripPrefix_append, readQuoted_quote,
      Option.bind_eq_bind, Option.bind_some]

theorem recipientText_append_ne (r : RawRecipient) (rest : Text) :
    recipientText r ++ rest ≠ "]\x7d".toList := by
  obtain ⟨reason⟩ := r
  cases reason <;> simp [recipientText]

theorem readRecipients_recipientsText {n : ℕ} (rs : List RawRecipient) (hn : rs.length < n) :
    readRecipients n (recipientsText rs) = some rs := by
  induction rs using recipientsText.induct generalizing n with
  | case1 =>
    cases n with
    | zero => cases hn
    | succ n => rfl
  | case2 r =>
    cases n with
    | zero => cases hn
    | succ n =>
      simp only [recipientsText, readRecipients, recipientText_append_ne, if_false,
        readRecipient_recipientText, Option.bind_eq_bind, Option.bind_some, if_true]
  | case3 r rs hne ih =>
    cases n with
    | zero => cases hn
    | succ n =>
      have hcomma : ',' :: recipientsText rs ≠ "]\x7d".toList := by simp
      have hstrip : stripPrefix [','] (',' :: recipientsText rs) = some (recipientsText rs) :=
        stripPrefix_append [','] _
      rw [List.length_cons] at hn
      simp only [recipientsText, readRecipients, recipientText_append_ne, if_false,
        readRecipient_recipientText, Option.bind_eq_bind, Option.bind_some, hcomma, hstrip,
        ih (by omega : rs.length < n)]

theorem length_lt_recipientsText (rs : List RawRecipient) :
    rs.length < (recipientsText rs).length := by
  induction rs using recipientsText.induct with
  | case1 => decide
  | case2 r => simp [recipientsText]
  | case3 r rs hne ih =>
    simp only [recipientsText, List.length_append, List.length_cons]
    omega

theorem readEntry_entryText (e : RawEntry) : readEntry (entryText e) = some e := by
  have hrs := readRecipients_recipientsText e.recipients (length_lt_recipientsText e.recipients)
  simp only [readEntry, entryText, stripPrefix_append, readQuoted_quote, hrs,
    Option.bind_eq_bind, Option.bind_some]

theorem newline_not_mem_recipientsText (rs : List RawRecipient) : '\n' ∉ recipientsText rs := by
  have hone (r : RawRecipient) : '\n' ∉ recipientText r := by
    obtain ⟨reason⟩ := r
    cases reason <;> simp [recipientText, newline_not_mem_quote]
  induction rs using recipientsText.induct with
  | case1 => decide
  | case2 r => simp [recipientsText, hone]
  | case3 r rs hne ih => simp [recipientsText, hone, ih]

theorem recipientsText_ends (rs : List RawRecipient) : ∃ t, recipientsText rs = t ++ ['}'] := by
  induction rs using recipientsText.induct with
  | case1 => exact ⟨[']'], rfl⟩
  | case2 r => exact ⟨recipientText r ++ [']'], by simp [recipientsText]⟩
  | case3 r rs hne ih =>
    obtain ⟨t, ht⟩ := ih
    exact ⟨recipientText r ++ ',' :: t, by simp [recipientsText, ht]⟩

/-- The objects of a queue report, written compactly and read in that form. -/
@[reducible] def compact : SerdeJson where
  fromStr := readEntry
  toText := entryText

theorem newline_not_mem_entryText (e : RawEntry) : '\n' ∉ entryText e := by
  have hkeys : '\n' ∉ queueIdKey ∧ '\n' ∉ queueNameKey ∧ '\n' ∉ recipientsKey := by decide
  simp only [entryText, List.mem_append, newline_not_mem_quote, newline_not_mem_recipientsText,
    hkeys, or_self, not_false_iff]

theorem compact_lawful : @LawfulSerdeJson compact := by
  let _ := compact
  refine ⟨readEntry_entryText, newline_not_mem_entryText, fun e ↦ ?_⟩
  obtain ⟨t, ht⟩ := recipientsText_ends e.recipients
  have hopen : queueIdKey = '{' :: "\"queue_id\":".toList := by decide
  refine ⟨"\"queue_id\":".toList ++ (quote e.queueId ++ (queueNameKey ++ (quote e.queueName ++
    (recipientsKey ++ t)))), ?_⟩
  change entryText e = _
  rw [entryText, ht, hopen]
  simp only [List.cons_append, List.append_assoc]

end Postbud.QueueJson
