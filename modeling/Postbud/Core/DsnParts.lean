import Postbud.Core.DsnFields

namespace Postbud.Dsn

open Lib Lib.Text

/-! ### Fields of a text cut at a boundary line -/

def fieldsOf (l : List Text) : List Field := (l.foldl unfoldLine []).filterMap fieldOf

theorem unfoldLine_append (out : List Text) (x line : Text) :
    unfoldLine (out ++ [x]) line = out ++ unfoldLine [x] line := by
  unfold unfoldLine
  cases isContinuation line <;> simp

theorem foldl_unfoldLine_append (l : List Text) (out : List Text) (x : Text) :
    l.foldl unfoldLine (out ++ [x]) = out ++ l.foldl unfoldLine [x] := by
  induction l generalizing out x with
  | nil => rfl
  | cons line l ih =>
    rw [List.foldl_cons, List.foldl_cons, unfoldLine_append]
    cases h : isContinuation line with
    | true => simp only [unfoldLine, h, List.getLast?_singleton, List.dropLast_singleton,
        List.nil_append, ih]
    | false =>
      simp only [unfoldLine, h, List.getLast?_singleton]
      rw [← List.append_assoc, ih, ih [x], List.append_assoc]

theorem unfoldLine_of_not_continuation {line : Text} (h : isContinuation line = false)
    (out : List Text) : unfoldLine out line = out ++ [line] := by
  simp only [unfoldLine, h]

theorem fieldsOf_append {line : Text} (h : isContinuation line = false) (l m : List Text) :
    fieldsOf (l ++ line :: m) = fieldsOf l ++ fieldsOf (line :: m) := by
  unfold fieldsOf
  rw [List.foldl_append, List.foldl_cons, List.foldl_cons, unfoldLine_of_not_continuation h,
    unfoldLine_of_not_continuation h, foldl_unfoldLine_append, List.filterMap_append,
    List.nil_append]

theorem foldl_unfoldLine_cons (l : List Text) :
    ∃ tail rest, ∀ x, l.foldl unfoldLine [x] = (x ++ tail) :: rest := by
  induction l with
  | nil => exact ⟨[], [], fun x ↦ by simp⟩
  | cons line l ih =>
    obtain ⟨tail, rest, ih⟩ := ih
    cases h : isContinuation line with
    | true =>
      refine ⟨' ' :: trim line ++ tail, rest, fun x ↦ ?_⟩
      simp only [List.foldl_cons, unfoldLine, h, List.getLast?_singleton, List.dropLast_singleton,
        List.nil_append, ih, List.append_assoc, List.cons_append]
    | false =>
      refine ⟨[], l.foldl unfoldLine [line], fun x ↦ ?_⟩
      rw [List.foldl_cons, unfoldLine_of_not_continuation h, foldl_unfoldLine_append,
        List.append_nil, List.singleton_append]

theorem dropWhile_dash (t : Text) : ('-' :: t).dropWhile isWhitespace = '-' :: t := by
  rw [List.dropWhile_cons_of_neg]
  decide

theorem trim_dash (t : Text) : ∃ t', trim ('-' :: t) = '-' :: t' := by
  unfold trim
  rw [dropWhile_dash]
  obtain ⟨s, hs⟩ := List.rdropWhile_prefix isWhitespace ('-' :: t)
  cases hr : List.rdropWhile isWhitespace ('-' :: t) with
  | nil =>
    have := List.rdropWhile_eq_nil_iff.mp hr '-' List.mem_cons_self
    exact absurd this (by decide)
  | cons c t' =>
    rw [hr, List.cons_append, List.cons.injEq] at hs
    exact ⟨t', by rw [hs.1]⟩

/-- A boundary line is no field, whatever continues it. -/
theorem fieldOf_dash (t : Text) : fieldOf ('-' :: t) = none := by
  unfold fieldOf
  cases h : splitOnce ':' ('-' :: t) with
  | none => rfl
  | some f =>
    obtain ⟨name, value⟩ := f
    obtain ⟨ht, -⟩ := splitOnce_spec h
    cases name with
    | nil => simp at ht
    | cons c name =>
      rw [List.cons_append, List.cons.injEq] at ht
      obtain ⟨rfl, -⟩ := ht
      obtain ⟨name', hn⟩ := trim_dash name
      have hl : toAsciiLowercase ('-' :: name') = '-' :: toAsciiLowercase name' := rfl
      dsimp only
      split
      · rfl
      · simp [hn, hl, Field.of]

theorem fieldsOf_boundary (b : Text) (l : List Text) :
    fieldsOf (('-' :: b) :: l) = fieldsOf (['-'] :: l) := by
  obtain ⟨tail, rest, h⟩ := foldl_unfoldLine_cons l
  have hd (t : Text) : unfoldLine [] ('-' :: t) = ['-' :: t] := rfl
  simp only [fieldsOf, List.foldl_cons, hd, h, List.cons_append, List.filterMap_cons,
    fieldOf_dash]

theorem fieldOf_append_whitespace {c : Char} (hc : isWhitespace c) (line : Text) :
    fieldOf (line ++ [c]) = fieldOf line := by
  have hcolon : c ≠ ':' := by
    rintro rfl
    exact absurd hc (by decide)
  unfold fieldOf
  rw [splitOnce_append ':' c hcolon]
  cases splitOnce ':' line with
  | none => rfl
  | some f => simp only [Option.map_some, trim_append_whitespace hc]

theorem fieldsOf_dropCr (l : List Text) (line : Text) :
    fieldsOf (l ++ [line ++ ['\r']]) = fieldsOf (l ++ [line]) := by
  have hc : isContinuation (line ++ ['\r']) = isContinuation line := by
    cases line <;> simp [isContinuation]
  simp only [fieldsOf, List.foldl_append, List.foldl_cons, List.foldl_nil, unfoldLine, hc,
    trim_append_whitespace (c := '\r') (by decide)]
  split
  · rfl
  · simp only [List.filterMap_append, List.filterMap_cons, List.filterMap_nil,
      fieldOf_append_whitespace (c := '\r') (by decide)]

theorem fieldsOf_splitOn (t : Text) : fieldsOf ((t.splitOn '\n').map dropCr) = fields t := by
  have hne : t.splitOn '\n' ≠ [] := List.splitOn_ne_nil _ _
  have hs := List.dropLast_append_getLast hne
  set line := (t.splitOn '\n').getLast hne with hline
  have hl : (t.splitOn '\n').getLast? = some line := List.getLast?_eq_some_getLast hne
  rw [← hs, List.map_append, List.map_singleton]
  have hf : fields t = fieldsOf ((t.splitOn '\n').dropLast.map dropCr ++
      ((some line).filter (· ≠ [])).toList) := by
    simp only [fields, fieldsOf, unfold, lines, hl]
  rw [hf]
  by_cases h : line = []
  · have hn : fieldsOf [dropCr []] = [] := rfl
    have ho : (Option.filter (fun x : Text ↦ decide (x ≠ [])) (some [])).toList = [] := rfl
    rw [h, ho, List.append_nil, fieldsOf_append rfl, hn, List.append_nil]
  · simp only [ne_eq, h, not_false_eq_true, decide_true, Option.filter_some_pos, Option.toList_some]
    rcases dropCr_cases line with hd | hd
    · rw [hd]
    · conv_rhs => rw [hd]
      rw [fieldsOf_dropCr]

/-- A boundary line of a multipart text, with the line ending before it. -/
def boundary (b : Text) : Text := '\n' :: '-' :: '-' :: b ++ ['\n']

/-- The fields of a text that follows a boundary line. -/
def partFields (t : Text) : List Field := fields ('-' :: '\n' :: t)

theorem partFields_eq (t : Text) : partFields t = fieldsOf (['-'] :: lines t) := by
  have h : lines (['-'] ++ '\n' :: t) = ['-'] :: lines t := by rw [lines_append]; rfl
  simp only [partFields, fields, unfold, fieldsOf, ← h, List.singleton_append]

theorem lines_boundary {b : Text} (hb : '\n' ∉ b) (t u : Text) :
    lines (t ++ boundary b ++ u) =
      (t.splitOn '\n').map dropCr ++ dropCr ('-' :: '-' :: b) :: lines u := by
  have hs : ('-' :: '-' :: b).splitOn '\n' = ['-' :: '-' :: b] :=
    splitOn_of_notMem (by simp [hb])
  have hu : t ++ boundary b ++ u = t ++ '\n' :: (('-' :: '-' :: b) ++ '\n' :: u) := by
    simp [boundary]
  rw [hu, lines_append, lines_append, hs, List.map_singleton, List.singleton_append]

theorem dropCr_dash (b : Text) : ∃ b', dropCr ('-' :: '-' :: b) = '-' :: b' := by
  unfold dropCr
  split
  · exact ⟨('-' :: b).dropLast, rfl⟩
  · exact ⟨'-' :: b, rfl⟩

/-- The fields of a multipart text are those of its parts. -/
theorem fields_boundary {b : Text} (hb : '\n' ∉ b) (t u : Text) :
    fields (t ++ boundary b ++ u) = fields t ++ partFields u := by
  obtain ⟨b', hd⟩ := dropCr_dash b
  have hf : fields (t ++ boundary b ++ u) = fieldsOf (lines (t ++ boundary b ++ u)) := rfl
  rw [hf, lines_boundary hb, hd, fieldsOf_append rfl, fieldsOf_boundary, fieldsOf_splitOn,
    partFields_eq]

theorem partFields_boundary {b : Text} (hb : '\n' ∉ b) (t u : Text) :
    partFields (t ++ boundary b ++ u) = partFields t ++ partFields u :=
  fields_boundary hb ('-' :: '\n' :: t) u

theorem isContinuation_dropCr {line : Text} (h : isContinuation line = false) :
    isContinuation (dropCr line) = false := by
  cases line with
  | nil => rfl
  | cons c line =>
    unfold dropCr
    split
    · cases line with
      | nil => rfl
      | cons d line => exact h
    · exact h

theorem isContinuation_lines {t : Text} (h : isContinuation t = false) :
    ∀ line ∈ (lines t).head?, isContinuation line = false := by
  cases t with
  | nil => simp [lines]
  | cons c t =>
    obtain ⟨s, l, hs⟩ := List.exists_cons_of_ne_nil (List.splitOn_ne_nil '\n' t)
    have hc : isContinuation (c :: s) = false := h
    have hparts : (c :: t).splitOn '\n' = if c == '\n' then [] :: s :: l else (c :: s) :: l := by
      rw [List.splitOn_cons_eq_if_modifyHead, hs]
      rfl
    intro line hline
    simp only [lines, hparts] at hline
    split at hline
    · obtain rfl : dropCr [] = line := by simpa using hline
      rfl
    · cases l with
      | nil =>
        obtain rfl : c :: s = line := (by simpa using hline : c :: s = line ∧ line ≠ []).1
        exact hc
      | cons x l =>
        obtain rfl : dropCr (c :: s) = line := by simpa using hline
        exact isContinuation_dropCr hc

theorem partFields_of_not_continuation {t : Text} (h : isContinuation t = false) :
    partFields t = fields t := by
  have hl := isContinuation_lines h
  rw [partFields_eq]
  show _ = fieldsOf (lines t)
  cases ht : lines t with
  | nil => rfl
  | cons line l =>
    rw [ht] at hl
    exact fieldsOf_append (hl line rfl) [['-']] l

/-! ### When the surrounding parts do not matter -/

theorem fill_or (p q : Option Text) (r : Report) : (r.fill p).fill q = r.fill (p.or q) := by
  simp [Report.fill, Option.or_assoc]

def Parser.fill (q : Option Text) (p : Parser) : Parser :=
  ⟨p.reports.map (Report.fill q), p.queueId.or q, p.current.map (Report.fill q)⟩

theorem close_fill (q : Option Text) (p : Parser) :
    (p.fill q).close = p.close.map (Report.fill q) := by
  cases h : p.current <;> simp [Parser.close, Parser.fill, h]

theorem take_fill (q : Option Text) (p : Parser) (e : Field) :
    (p.fill q).take e = (p.take e).fill q := by
  cases e with
  | queueId v => simp [Parser.take, Parser.fill]
  | finalRecipient v =>
    simp only [Parser.take, close_fill]
    simp [Parser.fill, Report.fill]
  | status v => cases h : p.current <;> simp [Parser.take, Parser.fill, Report.fill, h]
  | diagnostic v => cases h : p.current <;> simp [Parser.take, Parser.fill, Report.fill, h]

theorem foldl_take_fill (q : Option Text) (l : List Field) (p : Parser) :
    l.foldl Parser.take (p.fill q) = (l.foldl Parser.take p).fill q := by
  induction l generalizing p with
  | nil => rfl
  | cons e l ih => rw [List.foldl_cons, take_fill, ih, List.foldl_cons]

theorem fill_eq_fill_iff (p q : Option Text) (r : Report) :
    r.fill p = r.fill q ↔ (r.relayQueueId = none → p = q) := by
  cases h : r.relayQueueId <;> simp [Report.fill, h]

theorem amend_fill (l : List Field) (q : Option Text) (r : Report) :
    (r.fill q).amend l = (r.amend l).fill q := rfl

theorem run_of_group {l : List Field} (hl : ∀ e ∈ l, e.startsGroup = false) :
    run l = Parser.fill (last Field.queueId? l) {} := by
  simp [run, foldl_take_of_group hl, Parser.fill]

/-- Every report of the parser has its queue id, and so will every later one. -/
def Named (p : Parser) : Prop := p.queueId.isSome ∧ ∀ r ∈ p.close, r.relayQueueId.isSome

theorem Named.take {p : Parser} (h : Named p) (e : Field) : Named (p.take e) :=
  Parser.take_invariant (P := fun o ↦ o.isSome) h.1 h.2 (fun _ _ ↦ rfl) (fun _ _ ↦ h.1)
    (fun _ _ _ hr ↦ hr) fun _ _ _ hr ↦ hr

def Unnamed (p : Parser) : Prop := ∃ r ∈ p.close, r.relayQueueId = none

theorem Unnamed.take {p : Parser} (h : Unnamed p) (e : Field) : Unnamed (p.take e) := by
  obtain ⟨r, hr, hn⟩ := h
  cases e with
  | queueId v => exact ⟨r, hr, hn⟩
  | finalRecipient v => exact ⟨r, mem_close.mpr (.inl hr), hn⟩
  | status v | diagnostic v =>
    rcases mem_close.mp hr with h | h
    · exact ⟨r, mem_close.mpr (.inl h), hn⟩
    · exact ⟨_, mem_close.mpr (.inr (Option.map_eq_some_iff.mpr ⟨r, h, rfl⟩)), hn⟩

theorem unnamed_run_iff {l : List Field} (h : ∃ e ∈ l, e.startsGroup) :
    Unnamed (run l) ↔ last Field.queueId? (messageGroup l) = none := by
  obtain ⟨v, m, hl⟩ := messageGroup_split h
  set q := last Field.queueId? (messageGroup l) with hq
  have hrun : run l = m.foldl Parser.take ⟨[], q, some ⟨q, some (stripTypePrefix v), none, none, .unknown⟩⟩ := by
    rw [hl, run_append, run_of_group startsGroup_of_messageGroup, List.foldl_cons, ← hq]
    simp [Parser.fill, Parser.take, Parser.close]
  rw [hrun]
  cases hv : q with
  | none =>
    refine ⟨fun _ ↦ rfl, fun _ ↦ ?_⟩
    have hb : Unnamed ⟨[], none, some ⟨none, some (stripTypePrefix v), none, none, .unknown⟩⟩ :=
      ⟨_, mem_close.mpr (.inr rfl), rfl⟩
    exact List.foldlRecOn m Parser.take hb fun p hp e _ ↦ hp.take e
  | some i =>
    refine ⟨fun hu ↦ ?_, fun hn ↦ by simp at hn⟩
    have hb : Named ⟨[], some i, some ⟨some i, some (stripTypePrefix v), none, none, .unknown⟩⟩ := by
      refine ⟨rfl, fun r hr ↦ ?_⟩
      rcases mem_close.mp hr with h | h
      · exact absurd h List.not_mem_nil
      · exact Option.some.inj h ▸ rfl
    have hn : Named (m.foldl Parser.take _) := List.foldlRecOn m Parser.take hb fun p hp e _ ↦ hp.take e
    obtain ⟨r, hr, hnone⟩ := hu
    have := hn.2 r hr
    simp [hnone] at this

/-- The state after the last group: its report is what that group made of it. -/
theorem run_current {l : List Field} (h : ∃ e ∈ l, e.startsGroup) :
    ∃ r, (run l).current = some r ∧ r.status = last Field.status? (lastGroup l) ∧
      r.classification = (r.status.map .fromStatus).getD .unknown ∧
      r.diagnostic = (last Field.diagnostic? (lastGroup l)).map stripTypePrefix := by
  obtain ⟨v, m, hl⟩ := lastGroup_split h
  have hrun : run l = (lastGroup l).foldl Parser.take ((run m).take (.finalRecipient v)) := by
    conv_lhs => rw [hl, run_append]
    rfl
  rw [hrun, foldl_take_of_group startsGroup_of_lastGroup]
  refine ⟨_, rfl, ?_, ?_, ?_⟩ <;> simp [Report.amend]

theorem length_close (l : List Field) (p : Parser) :
    (l.foldl Parser.take p).close.length = p.close.length + l.countP Field.startsGroup := by
  induction l generalizing p with
  | nil => simp
  | cons e l ih =>
    rw [List.foldl_cons, ih]
    cases e with
    | finalRecipient v =>
      simp only [Parser.take, Parser.close, List.countP_cons, Field.startsGroup, List.length_append,
        Option.toList_some, List.length_singleton, if_true]
      omega
    | queueId v => simp [Parser.take, Parser.close, Field.startsGroup]
    | status v | diagnostic v =>
      cases h : p.current <;> simp [Parser.take, Parser.close, Field.startsGroup, h]

def reports (l : List Field) : List Report := (run l).close.map (Report.fill (run l).queueId)

theorem parse_eq_reports (raw : Text) : parse raw = reports (fields raw) := parse_eq_run raw

theorem length_reports (l : List Field) : (reports l).length = l.countP Field.startsGroup := by
  rw [reports, List.length_map, run, length_close]
  exact Nat.zero_add _

theorem run_queueId (l : List Field) (p : Parser) :
    (l.foldl Parser.take p).queueId = (last Field.queueId? l).or p.queueId := by
  induction l generalizing p with
  | nil => rfl
  | cons e l ih => cases e <;> simp [ih, last_cons, Parser.take, Field.queueId?]

/-- Fields around a report change nothing in what is parsed: they start no
recipient group; the last status and the last diagnostic after it say what its
last group says; and the queue id they carry, if any, is the one the report
ends with, unless the report names one before its first recipient. -/
structure Harmless (before report after : List Field) : Prop where
  noRecipient : ∀ e ∈ before ++ after, e.startsGroup = false
  status : ∀ v ∈ last Field.status? after, last Field.status? (lastGroup report) = some v
  diagnostic : ∀ v ∈ last Field.diagnostic? after,
    (last Field.diagnostic? (lastGroup report)).map stripTypePrefix = some (stripTypePrefix v)
  queueId : ∀ i ∈ (last Field.queueId? before).or (last Field.queueId? after),
    (last Field.queueId? (messageGroup report)).isSome ∨ last Field.queueId? report = some i

theorem or_eq_right_iff (i q : Option Text) : i.or q = q ↔ ∀ v ∈ i, q = some v := by
  cases i <;> simp [eq_comm]

theorem fill_close_iff {report : List Field} (hr : ∃ e ∈ report, e.startsGroup) (i q : Option Text) :
    (∀ x ∈ (run report).close, x.fill (i.or q) = x.fill q) ↔
      ∀ v ∈ i, (last Field.queueId? (messageGroup report)).isSome ∨ q = some v := by
  have hu := unnamed_run_iff hr
  simp only [fill_eq_fill_iff]
  constructor
  · intro h v hv
    by_cases hg : last Field.queueId? (messageGroup report) = none
    · obtain ⟨x, hx, hnone⟩ := hu.mpr hg
      exact .inr ((or_eq_right_iff i q).mp (h x hx hnone) v hv)
    · exact .inl (Option.isSome_iff_ne_none.mpr hg)
  · intro h x hx hnone
    have hg : last Field.queueId? (messageGroup report) = none := hu.mp ⟨x, hx, hnone⟩
    refine (or_eq_right_iff i q).mpr fun v hv ↦ (h v hv).resolve_left ?_
    simp [hg]

theorem amend_eq_self_iff {r : Report} (l : List Field)
    (hc : r.classification = (r.status.map .fromStatus).getD .unknown) :
    r.amend l = r ↔ (∀ v ∈ last Field.status? l, r.status = some v) ∧
      ∀ v ∈ last Field.diagnostic? l, r.diagnostic = some (stripTypePrefix v) := by
  obtain ⟨i, x, s, d, c⟩ := r
  dsimp only at hc
  simp only [Report.amend, Report.mk.injEq, true_and]
  cases last Field.status? l with
  | none => cases last Field.diagnostic? l <;> simp [eq_comm]
  | some v =>
    cases last Field.diagnostic? l with
    | none => simp only [hc]; constructor <;> intro h <;> simp_all
    | some w => simp only [hc]; constructor <;> intro h <;> simp_all

/-- The parser's run over the report is shifted by the queue id around it,
and the fields after it amend its last group only. -/
theorem reports_surrounded {before report after : List Field}
    (hb : ∀ e ∈ before, e.startsGroup = false) (ha : ∀ e ∈ after, e.startsGroup = false)
    {r : Report} (hcur : (run report).current = some r) :
    reports (before ++ report ++ after) = ((run report).reports ++ [r.amend after]).map
      (Report.fill (((last Field.queueId? before).or (last Field.queueId? after)).or
        (last Field.queueId? report))) := by
  have hfill : (fun x : Report ↦ (x.fill (last Field.queueId? before)).fill
      ((last Field.queueId? after).or
        ((last Field.queueId? report).or (last Field.queueId? before)))) =
      Report.fill (((last Field.queueId? before).or (last Field.queueId? after)).or
        (last Field.queueId? report)) := funext fun x ↦ by
    rw [fill_or]
    cases last Field.queueId? before <;> simp
  have hrep : run (before ++ report) = (run report).fill (last Field.queueId? before) := by
    rw [run_append, run_of_group hb, foldl_take_fill]
    rfl
  have hqr : (run report).queueId = last Field.queueId? report := by simp [run, run_queueId]
  rw [← hfill]
  simp only [reports, run_append _ after, hrep, foldl_take_of_group ha, Parser.fill, hcur, hqr,
    Parser.close, Option.map_some, Option.toList_some, List.map_append, List.map_map,
    List.map_singleton, Function.comp_def, amend_fill]

theorem reports_surrounded_iff_of_noRecipient {before report after : List Field}
    (hr : ∃ e ∈ report, e.startsGroup) (hn : ∀ e ∈ before ++ after, e.startsGroup = false) :
    reports (before ++ report ++ after) = reports report ↔ Harmless before report after := by
  have hb : ∀ e ∈ before, e.startsGroup = false := fun e he ↦ hn e (List.mem_append_left _ he)
  have ha : ∀ e ∈ after, e.startsGroup = false := fun e he ↦ hn e (List.mem_append_right _ he)
  obtain ⟨r, hcur, hst, hcl, hdi⟩ := run_current hr
  have hwhole := reports_surrounded hb ha hcur
  have hqr : (run report).queueId = last Field.queueId? report := by simp [run, run_queueId]
  have hclose : (run report).close = (run report).reports ++ [r] := by simp [Parser.close, hcur]
  set i := (last Field.queueId? before).or (last Field.queueId? after)
  set q := last Field.queueId? report
  have hamend := amend_eq_self_iff after hcl
  have hfill := fill_close_iff hr i q
  rw [hst, hdi] at hamend
  have hreport : reports report = ((run report).reports ++ [r]).map (Report.fill q) := by
    rw [reports, hclose, hqr]
  rw [hwhole, hreport, List.map_append, List.map_append]
  constructor
  · intro h
    obtain ⟨hinit, hlast⟩ := List.append_inj' h rfl
    have hlast : (r.amend after).fill (i.or q) = r.fill q := by simpa using hlast
    have hr : r.amend after = r :=
      congrArg (fun x : Report ↦ { x with relayQueueId := r.relayQueueId }) hlast
    rw [hr] at hlast
    have hall : ∀ x ∈ (run report).close, x.fill (i.or q) = x.fill q := by
      intro x hx
      rw [hclose] at hx
      rcases List.mem_append.mp hx with hx | hx
      · exact List.map_inj_left.mp hinit x hx
      · exact List.mem_singleton.mp hx ▸ hlast
    exact ⟨hn, (hamend.mp hr).1, (hamend.mp hr).2, hfill.mp hall⟩
  · intro h
    have hall := hfill.mpr h.queueId
    rw [hclose] at hall
    have hr : r.amend after = r := hamend.mpr ⟨h.status, h.diagnostic⟩
    rw [hr, ← List.map_append, ← List.map_append]
    exact List.map_congr_left hall

theorem reports_surrounded_iff {before report after : List Field}
    (hr : ∃ e ∈ report, e.startsGroup) :
    reports (before ++ report ++ after) = reports report ↔ Harmless before report after := by
  constructor
  · intro h
    have hlen := congrArg List.length h
    simp only [length_reports, List.countP_append] at hlen
    refine (reports_surrounded_iff_of_noRecipient hr fun e he ↦ ?_).mp h
    have hz : (before ++ after).countP Field.startsGroup = 0 := by
      rw [List.countP_append]
      omega
    simpa using List.countP_eq_zero.mp hz e he
  · intro h
    exact (reports_surrounded_iff_of_noRecipient hr h.noRecipient).mpr h

/-- Only the delivery-status part of a DSN decides its reports exactly when
the fields of the parts around it are harmless. -/
theorem parse_parts_iff {before report after b₁ b₂ : Text} (hb₁ : '\n' ∉ b₁) (hb₂ : '\n' ∉ b₂)
    (hs : isContinuation report = false) (hr : ∃ e ∈ fields report, e.startsGroup) :
    parse (before ++ boundary b₁ ++ report ++ boundary b₂ ++ after) = parse report ↔
      Harmless (fields before) (fields report) (partFields after) := by
  have hf : fields (before ++ boundary b₁ ++ report ++ boundary b₂ ++ after) =
      fields before ++ fields report ++ partFields after := by
    rw [List.append_assoc (before ++ boundary b₁), List.append_assoc (before ++ boundary b₁),
      fields_boundary hb₁, partFields_boundary hb₂,
      partFields_of_not_continuation hs, List.append_assoc]
  rw [parse_eq_reports, parse_eq_reports, hf]
  exact reports_surrounded_iff hr

def hardBounce : Text :=
  "X-Postfix-Queue-ID: 08785F9FED\n\nFinal-Recipient: rfc822; nosuch@example.com\nStatus: 5.1.1\n".toList

theorem fields_hardBounce : fields hardBounce = [.queueId "08785F9FED".toList,
    .finalRecipient "rfc822; nosuch@example.com".toList, .status "5.1.1".toList] := by
  decide +kernel

theorem recipient_hardBounce : ∃ e ∈ fields hardBounce, e.startsGroup := by
  rw [fields_hardBounce]
  exact ⟨_, List.mem_cons_of_mem _ List.mem_cons_self, rfl⟩

theorem parse_parts_hardBounce :
    parse ("This is the mail system.".toList ++ boundary "a".toList ++ hardBounce ++
      boundary "a--".toList ++ "Subject: Invoice\n\nStatus: 5.1.1".toList) = parse hardBounce := by
  refine (parse_parts_iff (by decide) (by decide) (by decide +kernel) recipient_hardBounce).mpr ?_
  rw [fields_hardBounce]
  exact ⟨by decide +kernel, by decide +kernel, by decide +kernel, by decide +kernel⟩

/-- A line `Status: paid` of the returned message replaces the status of the
bounce, and the dead address is no longer suppressed. -/
theorem returned_message_decides_reports :
    ¬ ∀ before report after b₁ b₂ : Text, '\n' ∉ b₁ → '\n' ∉ b₂ → isContinuation report = false →
      (∃ e ∈ fields report, e.startsGroup) →
      parse (before ++ boundary b₁ ++ report ++ boundary b₂ ++ after) = parse report := by
  intro h
  have h := congrArg (List.map Report.shouldSuppress) (h [] hardBounce
    "Subject: Invoice\n\nStatus: paid".toList "a".toList "a--".toList (by decide) (by decide)
    (by decide +kernel) recipient_hardBounce)
  revert h
  decide +kernel

end Postbud.Dsn
