import Postbud.Core.Dsn
import Postbud.Lib.Words

namespace Postbud.Dsn

open Lib Lib.Text Lib.Words

/-- A field the parser reads, its value trimmed. -/
inductive Field
  | queueId (value : Text)
  | finalRecipient (value : Text)
  | status (value : Text)
  | diagnostic (value : Text)
  deriving DecidableEq

namespace Field

def queueId? : Field → Option Text
  | .queueId value => some value
  | _ => none

def status? : Field → Option Text
  | .status value => some value
  | _ => none

def diagnostic? : Field → Option Text
  | .diagnostic value => some value
  | _ => none

def startsGroup : Field → Bool
  | .finalRecipient _ => true
  | _ => false

def of (name value : Text) : Option Field :=
  if name = "x-postfix-queue-id".toList then some (.queueId value)
  else if name = "final-recipient".toList then some (.finalRecipient value)
  else if name = "status".toList then some (.status value)
  else if name = "diagnostic-code".toList then some (.diagnostic value)
  else none

end Field

def fieldOf (line : Text) : Option Field :=
  match splitOnce ':' line with
  | none => none
  | some (name, value) =>
    if trim value = [] then none else Field.of (toAsciiLowercase (trim name)) (trim value)

def fields (raw : Text) : List Field := (unfold raw).filterMap fieldOf

def Parser.take (p : Parser) : Field → Parser
  | .queueId value => { p with queueId := some value }
  | .finalRecipient value =>
    { p with
      reports := p.close
      current := some ⟨p.queueId, some (stripTypePrefix value), none, none, .unknown⟩ }
  | .status value =>
    { p with current := p.current.map fun r ↦
        { r with classification := .fromStatus value, status := some value } }
  | .diagnostic value =>
    { p with current := p.current.map fun r ↦ { r with diagnostic := some (stripTypePrefix value) } }

theorem line_eq_take (p : Parser) (line : Text) : p.line line = ((fieldOf line).map p.take).getD p := by
  unfold Parser.line fieldOf
  cases splitOnce ':' line with
  | none => rfl
  | some f =>
    obtain ⟨name, value⟩ := f
    dsimp only
    split
    · rfl
    · unfold Parser.field Field.of
      split_ifs <;> rfl

theorem foldl_line (p : Parser) (l : List Text) :
    l.foldl Parser.line p = (l.filterMap fieldOf).foldl Parser.take p := by
  induction l generalizing p with
  | nil => rfl
  | cons line l ih =>
    rw [List.foldl_cons, line_eq_take, ih]
    cases h : fieldOf line with
    | none => simp [h]
    | some f => simp [h]

def run (l : List Field) : Parser := l.foldl Parser.take {}

theorem run_append (l m : List Field) : run (l ++ m) = m.foldl Parser.take (run l) :=
  List.foldl_append

/-- The parser reads nothing of a DSN but its fields. -/
theorem parse_eq_run (raw : Text) :
    parse raw = (run (fields raw)).close.map (Report.fill (run (fields raw)).queueId) := by
  simp only [parse, foldl_line, run, fields]

def last (f : Field → Option Text) (l : List Field) : Option Text := (l.filterMap f).getLast?

theorem last_nil (f : Field → Option Text) : last f [] = none := rfl

theorem last_cons (f : Field → Option Text) (e : Field) (l : List Field) :
    last f (e :: l) = (last f l).or (f e) := by
  unfold last
  cases he : f e with
  | none => simp [he]
  | some v => simp [he, List.getLast?_cons]

def Report.amend (l : List Field) (r : Report) : Report :=
  { r with
    status := (last Field.status? l).or r.status
    classification := ((last Field.status? l).map .fromStatus).getD r.classification
    diagnostic := ((last Field.diagnostic? l).map stripTypePrefix).or r.diagnostic }

/-- Fields that start no group change the queue id and the current report only. -/
theorem foldl_take_of_group {l : List Field} (hl : ∀ e ∈ l, e.startsGroup = false) (p : Parser) :
    l.foldl Parser.take p =
      ⟨p.reports, (last Field.queueId? l).or p.queueId, p.current.map (Report.amend l)⟩ := by
  induction l generalizing p with
  | nil =>
    have h : Report.amend [] = id := funext fun r ↦ by simp [Report.amend, last_nil]
    simp [last_nil, h]
  | cons e l ih =>
    rw [List.foldl_cons, ih fun x hx ↦ hl x (List.mem_cons_of_mem _ hx)]
    have he := hl e List.mem_cons_self
    cases e with
    | finalRecipient v => simp [Field.startsGroup] at he
    | queueId v =>
      have h : Report.amend (.queueId v :: l) = Report.amend l := funext fun r ↦ by
        simp [Report.amend, last_cons, Field.status?, Field.diagnostic?]
      simp [Parser.take, last_cons, Field.queueId?, h]
    | status v =>
      have h : ∀ r, Report.amend l { r with classification := .fromStatus v, status := some v } =
          Report.amend (.status v :: l) r := fun r ↦ by
        cases hs : last Field.status? l <;>
          simp [Report.amend, last_cons, Field.status?, Field.diagnostic?, hs]
      simp [Parser.take, last_cons, Field.queueId?, Function.comp_def, h]
    | diagnostic v =>
      have h : ∀ r, Report.amend l { r with diagnostic := some (stripTypePrefix v) } =
          Report.amend (.diagnostic v :: l) r := fun r ↦ by
        cases hd : last Field.diagnostic? l <;>
          simp [Report.amend, last_cons, Field.status?, Field.diagnostic?, hd]
      simp [Parser.take, last_cons, Field.queueId?, Function.comp_def, h]

def messageGroup (l : List Field) : List Field := l.takeWhile fun e ↦ !e.startsGroup

def lastGroup (l : List Field) : List Field := l.rtakeWhile fun e ↦ !e.startsGroup

theorem messageGroup_split {l : List Field} (h : ∃ e ∈ l, e.startsGroup) :
    ∃ v m, l = messageGroup l ++ .finalRecipient v :: m := by
  have hne : l.dropWhile (fun e ↦ !e.startsGroup) ≠ [] := by
    obtain ⟨e, he, hs⟩ := h
    intro hn
    simpa [hs] using List.dropWhile_eq_nil_iff.mp hn e he
  obtain ⟨e, m, hm⟩ := List.exists_cons_of_ne_nil hne
  have he : e.startsGroup := by
    have := List.head_dropWhile_not (fun e : Field ↦ !e.startsGroup) (l := l) hne
    simpa [hm] using this
  have hl : messageGroup l ++ l.dropWhile (fun e ↦ !e.startsGroup) = l := List.takeWhile_append_dropWhile
  cases e with
  | finalRecipient v => exact ⟨v, m, by rw [← hm, hl]⟩
  | queueId v | status v | diagnostic v => simp [Field.startsGroup] at he

theorem lastGroup_split {l : List Field} (h : ∃ e ∈ l, e.startsGroup) :
    ∃ v m, l = m ++ .finalRecipient v :: lastGroup l := by
  have hne : l.rdropWhile (fun e ↦ !e.startsGroup) ≠ [] := by
    obtain ⟨e, he, hs⟩ := h
    intro hn
    simpa [hs] using List.rdropWhile_eq_nil_iff.mp hn e he
  have he := List.rdropWhile_last_not (fun e : Field ↦ !e.startsGroup) l hne
  have hl : l.rdropWhile (fun e ↦ !e.startsGroup) ++ lastGroup l = l :=
    List.rdropWhile_append_rtakeWhile
  have hd := List.dropLast_append_getLast hne
  cases hg : (l.rdropWhile fun e ↦ !e.startsGroup).getLast hne with
  | finalRecipient v =>
    refine ⟨v, (l.rdropWhile fun e ↦ !e.startsGroup).dropLast, ?_⟩
    rw [hg] at hd
    rw [List.append_cons, hd, hl]
  | queueId v | status v | diagnostic v =>
    rw [hg] at he
    simp [Field.startsGroup] at he

theorem startsGroup_of_messageGroup {l : List Field} : ∀ e ∈ messageGroup l, e.startsGroup = false :=
  fun e he ↦ by simpa using List.mem_takeWhile_imp he

theorem startsGroup_of_lastGroup {l : List Field} : ∀ e ∈ lastGroup l, e.startsGroup = false :=
  fun e he ↦ by simpa using List.mem_rtakeWhile_imp he

theorem mem_close {p : Parser} {r : Report} :
    r ∈ p.close ↔ r ∈ p.reports ∨ p.current = some r := by
  simp [Parser.close, Option.mem_toList]

/-- What holds of the queue id and of every report, through a field that sets
the one and amends the others. -/
theorem Parser.take_invariant {P : Option Text → Prop} {R : Report → Prop} {p : Parser} {e : Field}
    (hq : P p.queueId) (hr : ∀ r ∈ p.close, R r) (hid : ∀ v, e = .queueId v → P (some v))
    (hnew : ∀ v, e = .finalRecipient v →
      R ⟨p.queueId, some (stripTypePrefix v), none, none, .unknown⟩)
    (hstatus : ∀ v r, e = .status v → R r →
      R { r with classification := .fromStatus v, status := some v })
    (hdiagnostic : ∀ v r, e = .diagnostic v → R r →
      R { r with diagnostic := some (stripTypePrefix v) }) :
    P (p.take e).queueId ∧ ∀ r ∈ (p.take e).close, R r := by
  have hamend : ∀ f : Report → Report, (∀ r, R r → R (f r)) →
      ∀ r ∈ Parser.close { p with current := p.current.map f }, R r := by
    intro f hf r hmem
    rcases mem_close.mp hmem with hmem | hmem
    · exact hr r (mem_close.mpr (.inl hmem))
    · obtain ⟨r', hcur, rfl⟩ := Option.map_eq_some_iff.mp hmem
      exact hf r' (hr r' (mem_close.mpr (.inr hcur)))
  cases e with
  | queueId v => exact ⟨hid v rfl, hr⟩
  | finalRecipient v =>
    refine ⟨hq, fun r hmem ↦ ?_⟩
    rcases mem_close.mp hmem with hmem | hmem
    · exact hr r hmem
    · exact Option.some.inj hmem ▸ hnew v rfl
  | status v => exact ⟨hq, hamend _ fun r h ↦ hstatus v r rfl h⟩
  | diagnostic v => exact ⟨hq, hamend _ fun r h ↦ hdiagnostic v r rfl h⟩

/-! ### Characters of what is read -/

def Field.value : Field → Text
  | .queueId v | .finalRecipient v | .status v | .diagnostic v => v

variable {c : Char}

theorem mem_of_mem_stripTypePrefix {t : Text} (h : c ∈ stripTypePrefix t) : c ∈ t := by
  unfold stripTypePrefix at h
  split at h
  · rename_i a b hsplit
    obtain ⟨rfl, -⟩ := splitOnce_spec hsplit
    exact List.mem_append_right _ (List.mem_cons_of_mem _ (mem_of_mem_trim h))
  · exact mem_of_mem_trim h

theorem notMem_unfoldLine (hc : c ≠ ' ') {out : List Text} {line : Text} (hout : ∀ l ∈ out, c ∉ l)
    (hline : c ∉ line) : ∀ l ∈ unfoldLine out line, c ∉ l := by
  intro l hl
  unfold unfoldLine at hl
  split at hl
  · rename_i last _ hlast
    rcases List.mem_append.mp hl with hl | hl
    · exact hout l (List.mem_of_mem_dropLast hl)
    · obtain rfl := List.mem_singleton.mp hl
      have hlast := hout last (List.mem_of_getLast? hlast)
      simp [hlast, hc, mt mem_of_mem_trim hline]
  · rcases List.mem_append.mp hl with hl | hl
    · exact hout l hl
    · obtain rfl := List.mem_singleton.mp hl
      exact hline

theorem notMem_foldl_unfoldLine (hc : c ≠ ' ') {l : List Text} (h : ∀ line ∈ l, c ∉ line) :
    ∀ line ∈ l.foldl unfoldLine [], c ∉ line := by
  have hstart : ∀ line ∈ ([] : List Text), c ∉ line := by simp
  exact List.foldlRecOn (motive := fun out ↦ ∀ line ∈ out, c ∉ line) l unfoldLine hstart
    fun _ hout line hl ↦ notMem_unfoldLine hc hout (h line hl)

theorem notMem_unfold (hc : c ≠ ' ') {raw : Text} (h : c ∉ raw) : ∀ line ∈ unfold raw, c ∉ line :=
  notMem_foldl_unfoldLine hc fun _ hl hmem ↦ h (mem_of_mem_lines hl hmem).1

theorem value_of_fieldOf {line : Text} {e : Field} (h : fieldOf line = some e) (hc : c ∈ e.value) :
    c ∈ line := by
  unfold fieldOf at h
  split at h
  · cases h
  · rename_i name value hsplit
    obtain ⟨rfl, -⟩ := splitOnce_spec hsplit
    have hvalue : e.value = trim value := by
      unfold Field.of at h
      split_ifs at h <;> cases h <;> rfl
    rw [hvalue] at hc
    exact List.mem_append_right _ (List.mem_cons_of_mem _ (mem_of_mem_trim hc))

/-- A report none of whose texts has the character. -/
structure Report.Free (c : Char) (r : Report) : Prop where
  relayQueueId : ∀ t ∈ r.relayQueueId, c ∉ t
  finalRecipient : ∀ t ∈ r.finalRecipient, c ∉ t
  status : ∀ t ∈ r.status, c ∉ t
  diagnostic : ∀ t ∈ r.diagnostic, c ∉ t

def Parser.Free (c : Char) (p : Parser) : Prop :=
  (∀ q ∈ p.queueId, c ∉ q) ∧ ∀ r ∈ p.close, r.Free c

theorem notMem_of_mem_some {v : Text} (h : c ∉ v) : ∀ t ∈ some v, c ∉ t :=
  fun _ ht ↦ Option.some.inj ht ▸ h

theorem Parser.Free.take {p : Parser} (h : p.Free c) {e : Field} (he : c ∉ e.value) :
    (p.take e).Free c := by
  have hstrip : c ∉ stripTypePrefix e.value := mt mem_of_mem_stripTypePrefix he
  refine Parser.take_invariant (P := fun o ↦ ∀ q ∈ o, c ∉ q) h.1 h.2 ?_ ?_ ?_ ?_
  · rintro v rfl
    exact notMem_of_mem_some he
  · rintro v rfl
    exact ⟨h.1, notMem_of_mem_some hstrip, by simp, by simp⟩
  · rintro v r rfl ⟨hid, hrecipient, -, hdiagnostic⟩
    exact ⟨hid, hrecipient, notMem_of_mem_some he, hdiagnostic⟩
  · rintro v r rfl ⟨hid, hrecipient, hstatus, -⟩
    exact ⟨hid, hrecipient, hstatus, notMem_of_mem_some hstrip⟩

/-- What is read of a DSN is written in it, but for the spaces of unfolded lines. -/
theorem free_of_mem_parse (hc : c ≠ ' ') {raw : Text} (h : c ∉ raw) : ∀ r ∈ parse raw, r.Free c := by
  have hfields : ∀ e ∈ fields raw, c ∉ e.value := by
    intro e he hmem
    obtain ⟨line, hline, hfield⟩ := List.mem_filterMap.mp he
    exact notMem_unfold hc h line hline (value_of_fieldOf hfield hmem)
  have hstart : Parser.Free c {} := ⟨by simp, by simp [Parser.close]⟩
  obtain ⟨hq, hr⟩ : (run (fields raw)).Free c :=
    List.foldlRecOn (fields raw) Parser.take hstart fun _ hp e he ↦ hp.take (hfields e he)
  intro r hmem
  rw [parse_eq_run] at hmem
  obtain ⟨r', hr', rfl⟩ := List.mem_map.mp hmem
  obtain ⟨hid, hrecipient, hstatus, hdiagnostic⟩ := hr r' hr'
  refine ⟨fun t ht ↦ ?_, hrecipient, hstatus, hdiagnostic⟩
  rcases Option.or_eq_some_iff.mp ht with ht | ⟨-, ht⟩
  · exact hid t ht
  · exact hq t ht

end Postbud.Dsn
