import Mathlib.Data.List.Forall2
import Postbud.Core.DsnRender

namespace Postbud.Dsn

open Lib Lib.Text Lib.Words

/-! ### Fields of the lines that are seen -/

theorem foldl_continuations {rest : List Text} (h : ∀ line ∈ rest, isContinuation line) (line : Text) :
    rest.foldl unfoldLine [line] = [joined line rest] := by
  induction rest generalizing line with
  | nil => simp [joined]
  | cons next rest ih =>
    obtain ⟨hnext, hrest⟩ := List.forall_mem_cons.mp h
    have hstep : unfoldLine [line] next = [line ++ ' ' :: trim next] := by
      simp [unfoldLine, hnext]
    rw [List.foldl_cons, hstep, ih hrest]
    simp [joined]

theorem continuation_of_seen {rest' rest : List Text} (h : List.Forall₂ Seen rest' rest)
    (hrest : ∀ line ∈ rest, isContinuation line) : ∀ line ∈ rest', isContinuation line := by
  induction h with
  | nil => exact hrest
  | cons hline _ ih =>
    obtain ⟨hnext, hrest⟩ := List.forall_mem_cons.mp hrest
    obtain ⟨c, t, t', -, rfl, -, hc⟩ := hline.continuation hnext
    refine List.forall_mem_cons.mpr ⟨?_, ih hrest⟩
    rcases hc with rfl | rfl <;> rfl

/-- What lines add to the fields, wherever they come. -/
def Adds (lines : List Text) (m : List Field) : Prop :=
  ∀ l, fieldsOf (l ++ lines) = fieldsOf l ++ m

theorem Adds.append {l₁ l₂ : List Text} {m₁ m₂ : List Field} (h₁ : Adds l₁ m₁) (h₂ : Adds l₂ m₂) :
    Adds (l₁ ++ l₂) (m₁ ++ m₂) := by
  intro l
  rw [← List.append_assoc, h₂, h₁, List.append_assoc]

theorem adds_nil : Adds [] [] := fun l ↦ by simp

theorem adds_field {written first : Text} {rest : List Text}
    (hstart : isContinuation (written ++ ':' :: first) = false) (hcolon : ':' ∉ written)
    (hrest : ∀ line ∈ rest, isContinuation line) :
    Adds ((written ++ ':' :: first) :: rest)
      (if trim (joined first rest) = [] then none
        else Field.of (toAsciiLowercase (trim written)) (trim (joined first rest))).toList := by
  intro l
  have hline : joined (written ++ ':' :: first) rest = written ++ ':' :: joined first rest := by
    simp [joined]
  rw [fieldsOf_append hstart]
  refine congrArg _ ?_
  rw [fieldsOf, List.foldl_cons, unfoldLine_of_not_continuation hstart, List.nil_append,
    foldl_continuations hrest, hline, List.filterMap_cons, List.filterMap_nil, fieldOf,
    splitOnce_of_notMem hcolon]
  dsimp only
  split <;> rename_i h <;> rw [h] <;> rfl

theorem fieldOf_of_blank {line : Text} (h : Blank line) : fieldOf line = none := by
  rw [fieldOf, splitOnce_of_no_separator (notMem_of_blank (by decide) h)]

theorem adds_blank {line : Text} (h : Blank line) : Adds [line] [] := by
  intro l
  have htrim : trim line = [] := trim_append_blank h []
  have hnone : [line].filterMap fieldOf = [] := by
    rw [List.filterMap_cons, fieldOf_of_blank h, List.filterMap_nil]
  unfold fieldsOf
  rw [List.foldl_append, List.foldl_cons, List.foldl_nil, List.append_nil]
  generalize l.foldl unfoldLine [] = out
  rcases List.eq_nil_or_concat out with rfl | ⟨out, last, rfl⟩
  · have hout : unfoldLine [] line = [line] := by
      simp [unfoldLine]
    rw [hout, hnone, List.filterMap_nil]
  · rw [List.concat_eq_append, unfoldLine_append]
    -- A line of spaces continues the one before it, and is trimmed away there.
    cases hc : isContinuation line with
    | true =>
      have hlast : unfoldLine [last] line = [last ++ [' ']] := by simp [unfoldLine, hc, htrim]
      rw [hlast, List.filterMap_append, List.filterMap_append, List.filterMap_cons,
        List.filterMap_cons, fieldOf_append_whitespace (by decide)]
    | false =>
      rw [unfoldLine_of_not_continuation hc, List.filterMap_append, List.filterMap_append,
        List.filterMap_append, hnone, List.append_nil]

theorem Kind.of_name (k : Kind) (value : Text) : Field.of k.name value = some (k.field value) := by
  cases k <;> rfl

theorem Field.of_unread {name : Text} (h : ∀ k : Kind, name ≠ k.name) (value : Text) :
    Field.of name value = none := by
  have hq : name ≠ "x-postfix-queue-id".toList := h .queueId
  have hr : name ≠ "final-recipient".toList := h .finalRecipient
  have hs : name ≠ "status".toList := h .status
  have hd : name ≠ "diagnostic-code".toList := h .diagnostic
  rw [Field.of, if_neg hq, if_neg hr, if_neg hs, if_neg hd]

namespace Header

variable {k : Kind} (h : Header k)

/-- A value read of a header: its words, and its very text where it is folded
at single spaces. -/
structure Reads (v : Text) : Prop where
  words : SameWords v h.text
  exact : (h.first :: h.rest).IsChain SingleSpaced → v = trim h.text

theorem noColon : ':' ∉ h.written := by
  intro hc
  apply k.name_solid.2
  rw [← h.named]
  exact (mem_toAsciiLowercase (by decide) (by decide)).mpr hc

theorem starts (t : Text) : isContinuation (h.written ++ ':' :: t) = false := by
  have hsolid := h.written_solid
  cases hw : h.written with
  | nil => rfl
  | cons c w =>
    have hc := hsolid c (by simp [hw])
    have hspace : c ≠ ' ' := by
      rintro rfl
      exact absurd hc (by decide)
    have htab : c ≠ '\t' := by
      rintro rfl
      exact absurd hc (by decide)
    simp [isContinuation, hspace, htab]

/-- The lines of a header add its value to the fields. -/
theorem adds {seen : List Text} (hs : List.Forall₂ Seen seen h.lines) :
    ∃ v, h.Reads v ∧ Adds seen [k.field v] := by
  obtain ⟨line, rest, hline, hrest, rfl⟩ := List.forall₂_cons_right_iff.mp hs
  obtain ⟨first, rfl, hfirst⟩ := Seen.of_append (by decide) hline
  have hwords : SameWords (joined first rest) h.text := by
    rw [SameWords, splitWhitespace_joined, text, splitWhitespace_append_flatten _ h.continues,
      flatMap_splitWhitespace_of_seen hrest, hfirst.sameWords]
  have hfilled : trim (joined first rest) ≠ [] := by
    intro hnil
    have hspaced := hwords.spaced
    rw [hnil] at hspaced
    exact h.filled (hspaced.symm.eq_of_solid (by decide))
  refine ⟨trim (joined first rest), ⟨?_, fun hc ↦ ?_⟩, ?_⟩
  · rw [SameWords, splitWhitespace_trim]
    exact hwords
  · obtain ⟨u, htext, hu⟩ := joined_eq_of_singleSpaced hfirst hrest hc
    rw [text, ← htext, trim_append_blank hu]
  · have hadds := adds_field (h.starts first) h.noColon (continuation_of_seen hrest h.continues)
    rw [if_neg hfilled, trim_solid h.written_solid, h.named, k.of_name] at hadds
    exact hadds

end Header

theorem Other.adds (o : Other) {seen : List Text} (hs : List.Forall₂ Seen seen o.lines) :
    Adds seen [] := by
  obtain ⟨line, rest, hline, hrest, rfl⟩ := List.forall₂_cons_right_iff.mp hs
  obtain ⟨first, rfl, -⟩ := Seen.of_append (by decide) hline
  have hstart : isContinuation (o.written ++ ':' :: first) = false := by
    have hw := o.starts
    cases h : o.written with
    | nil => rfl
    | cons c w => simpa [isContinuation, h] using hw
  have hadds := adds_field hstart o.noColon (continuation_of_seen hrest o.continues)
  rw [Field.of_unread o.unread, ite_self] at hadds
  exact hadds

theorem Filler.adds (f : Filler) {seen : List Text} (hs : List.Forall₂ Seen seen f.lines) :
    Adds seen [] := by
  cases f with
  | other o => exact o.adds hs
  | blank line hline _ =>
    obtain ⟨line', rest, hseen, hrest, rfl⟩ := List.forall₂_cons_right_iff.mp hs
    obtain rfl := List.forall₂_nil_right_iff.mp hrest
    exact adds_blank (hseen.blank hline)

theorem seen_append {seen l₁ l₂ : List Text} (hs : List.Forall₂ Seen seen (l₁ ++ l₂)) :
    ∃ s₁ s₂, seen = s₁ ++ s₂ ∧ List.Forall₂ Seen s₁ l₁ ∧ List.Forall₂ Seen s₂ l₂ :=
  ⟨seen.take l₁.length, seen.drop l₁.length, (List.take_append_drop _ _).symm,
    List.forall₂_take_append _ _ _ hs, List.forall₂_drop_append _ _ _ hs⟩

theorem Filler.adds_all {fs : List Filler} {seen : List Text}
    (hs : List.Forall₂ Seen seen (fs.flatMap Filler.lines)) : Adds seen [] := by
  induction fs generalizing seen with
  | nil =>
    obtain rfl := List.forall₂_nil_right_iff.mp hs
    exact adds_nil
  | cons f fs ih =>
    rw [List.flatMap_cons] at hs
    obtain ⟨s₁, s₂, rfl, hf, hfs⟩ := seen_append hs
    exact (f.adds hf).append (ih hfs)

/-- Fields that say of a recipient what the items of its group do. -/
structure ReadAs (items : List Item) (m : List Field) : Prop where
  noRecipient : ∀ e ∈ m, e.startsGroup = false
  noQueueId : ∀ e ∈ m, e.queueId? = none
  status : List.Forall₂ (fun v h ↦ h.Reads v) (m.filterMap Field.status?)
    (items.filterMap Item.status?)
  diagnostic : List.Forall₂ (fun v h ↦ h.Reads v) (m.filterMap Field.diagnostic?)
    (items.filterMap Item.diagnostic?)

theorem adds_items {items : List Item} {seen : List Text}
    (hs : List.Forall₂ Seen seen (items.flatMap Item.lines)) :
    ∃ m, Adds seen m ∧ ReadAs items m := by
  induction items generalizing seen with
  | nil =>
    obtain rfl := List.forall₂_nil_right_iff.mp hs
    exact ⟨[], adds_nil, by simp, by simp, .nil, .nil⟩
  | cons i items ih =>
    rw [List.flatMap_cons] at hs
    obtain ⟨s₁, s₂, rfl, hi, hs⟩ := seen_append hs
    obtain ⟨m, hm, hr, hq, hstatus, hdiagnostic⟩ := ih hs
    cases i with
    | status h =>
      obtain ⟨v, hv, hadds⟩ := h.adds hi
      exact ⟨.status v :: m, hadds.append hm, List.forall_mem_cons.mpr ⟨rfl, hr⟩,
        List.forall_mem_cons.mpr ⟨rfl, hq⟩, .cons hv hstatus, hdiagnostic⟩
    | diagnostic h =>
      obtain ⟨v, hv, hadds⟩ := h.adds hi
      exact ⟨.diagnostic v :: m, hadds.append hm, List.forall_mem_cons.mpr ⟨rfl, hr⟩,
        List.forall_mem_cons.mpr ⟨rfl, hq⟩, hstatus, .cons hv hdiagnostic⟩
    | filler f => exact ⟨m, (f.adds hi).append hm, hr, hq, hstatus, hdiagnostic⟩

def Group.Reads (g : Group) (b : Text × List Field) : Prop :=
  g.recipient.Reads b.1 ∧ ReadAs g.items b.2

def blockFields (b : Text × List Field) : List Field := .finalRecipient b.1 :: b.2

theorem adds_groups {gs : List Group} {seen : List Text}
    (hs : List.Forall₂ Seen seen (gs.flatMap Group.lines)) :
    ∃ bs, Adds seen (bs.flatMap blockFields) ∧ List.Forall₂ Group.Reads gs bs := by
  induction gs generalizing seen with
  | nil =>
    obtain rfl := List.forall₂_nil_right_iff.mp hs
    exact ⟨[], adds_nil, .nil⟩
  | cons g gs ih =>
    rw [List.flatMap_cons] at hs
    obtain ⟨s₁, s₂, rfl, hg, hgs⟩ := seen_append hs
    obtain ⟨s₃, s₄, rfl, hrecipient, hitems⟩ := seen_append hg
    obtain ⟨v, hv, hadds⟩ := g.recipient.adds hrecipient
    obtain ⟨m, hm, hread⟩ := adds_items hitems
    obtain ⟨bs, hbs, hreads⟩ := ih hgs
    exact ⟨(v, m) :: bs, (hadds.append hm).append hbs, .cons ⟨hv, hread⟩ hreads⟩

/-- The fields of a rendered DSN: those of its groups, and its queue id before
or after them. -/
theorem fields_rendering {d : Rendering} {raw : Text} (h : List.Forall₂ Seen (lines raw) d.lines) :
    ∃ i bs, d.queueId.Reads i ∧ List.Forall₂ Group.Reads d.groups bs ∧
      (fields raw = .queueId i :: bs.flatMap blockFields ∨
        fields raw = bs.flatMap blockFields ++ [.queueId i]) := by
  have hfields : ∀ m, Adds (lines raw) m → fields raw = m := fun m hm ↦ hm []
  obtain ⟨s₁, s₂, hlines, hbefore, hs⟩ := seen_append h
  have hfirst := Filler.adds_all hbefore
  cases hlate : d.late with
  | true =>
    simp only [hlate, if_true] at hs
    obtain ⟨s₃, s₄, rfl, hgroups, hs⟩ := seen_append hs
    obtain ⟨s₅, s₆, rfl, hqueue, hafter⟩ := seen_append hs
    obtain ⟨bs, hbs, hreads⟩ := adds_groups hgroups
    obtain ⟨i, hi, (hadds : Adds s₅ [.queueId i])⟩ := d.queueId.adds hqueue
    refine ⟨i, bs, hi, hreads, .inr (hfields _ ?_)⟩
    have hall := hfirst.append (hbs.append (hadds.append (Filler.adds_all hafter)))
    rw [hlines]
    simpa using hall
  | false =>
    simp only [hlate, Bool.false_eq_true, if_false] at hs
    obtain ⟨s₃, s₄, rfl, hs, hgroups⟩ := seen_append hs
    obtain ⟨s₅, s₆, rfl, hqueue, hafter⟩ := seen_append hs
    obtain ⟨bs, hbs, hreads⟩ := adds_groups hgroups
    obtain ⟨i, hi, (hadds : Adds s₅ [.queueId i])⟩ := d.queueId.adds hqueue
    refine ⟨i, bs, hi, hreads, .inl (hfields _ ?_)⟩
    have hall := hfirst.append ((hadds.append (Filler.adds_all hafter)).append hbs)
    rw [hlines]
    simpa using hall

/-! ### The reports -/

theorem amend_queueIds {l : List Field} (h : ∀ e ∈ l, ∃ i, e = .queueId i) (r : Report) :
    r.amend l = r :=
  amend_silent (fun e he ↦ by
    obtain ⟨i, rfl⟩ := h e he
    rfl) r

theorem messageGroup_queueIds {l : List Field} (h : ∀ e ∈ l, ∃ i, e = .queueId i) :
    messageGroup l = l :=
  List.takeWhile_eq_self_iff.mpr fun e he ↦ by
    obtain ⟨i, rfl⟩ := h e he
    rfl

/-- Queue ids after the groups are no recipient's fields. -/
theorem blocks_blockFields {bs : List (Text × List Field)}
    (h : ∀ b ∈ bs, ∀ e ∈ b.2, e.startsGroup = false) {l : List Field}
    (hl : ∀ e ∈ l, ∃ i, e = .queueId i) :
    (blocks (bs.flatMap blockFields ++ l)).map Report.ofBlock = bs.map Report.ofBlock := by
  induction bs with
  | nil =>
    have hnone : ∀ e ∈ l, e.startsGroup = false := by
      intro e he
      obtain ⟨i, rfl⟩ := hl e he
      rfl
    rw [List.flatMap_nil, List.nil_append, blocks_of_noRecipient hnone]
  | cons b bs ih =>
    obtain ⟨hb, hbs⟩ := List.forall_mem_cons.mp h
    have hrest : messageGroup (bs.flatMap blockFields ++ l) = [] ∨
        messageGroup (bs.flatMap blockFields ++ l) = l := by
      cases bs with
      | nil => exact .inr (messageGroup_queueIds hl)
      | cons b bs => exact .inl rfl
    rw [List.flatMap_cons, List.append_assoc, blockFields, List.cons_append, blocks,
      messageGroup_append hb, blocks_append hb, List.map_cons, List.map_cons, ih hbs]
    rcases hrest with hm | hm
    · rw [hm, List.append_nil]
    · rw [hm, ofBlock_append, amend_queueIds hl]

/-- A parser that has met no queue id but `i`. -/
def Only (i : Text) (p : Parser) : Prop :=
  (∀ v ∈ p.queueId, v = i) ∧ ∀ r ∈ p.close, ∀ v ∈ r.relayQueueId, v = i

theorem Only.take {i : Text} {p : Parser} (h : Only i p) {e : Field} (he : ∀ v ∈ e.queueId?, v = i) :
    Only i (p.take e) := by
  refine Parser.take_invariant (P := fun o ↦ ∀ v ∈ o, v = i) h.1 h.2 ?_ (fun _ _ ↦ h.1)
    (fun _ _ _ hr ↦ hr) fun _ _ _ hr ↦ hr
  rintro v rfl
  exact he

/-- Wherever a DSN names its queue id, every report has it. -/
theorem relayQueueId_reports {l : List Field} {i : Text} (h : ∀ e ∈ l, ∀ v ∈ e.queueId?, v = i)
    (hi : .queueId i ∈ l) : ∀ r ∈ reports l, r.relayQueueId = some i := by
  have hstart : Only i {} := ⟨by simp, by simp [Parser.close]⟩
  obtain ⟨hq, hr⟩ : Only i (run l) :=
    List.foldlRecOn l Parser.take hstart fun p hp e he ↦ hp.take (h e he)
  have hlast : (run l).queueId = some i := by
    cases hv : (run l).queueId with
    | none =>
      rw [run, run_queueId, Option.or_none, last, List.getLast?_eq_none_iff,
        List.filterMap_eq_nil_iff] at hv
      exact absurd (hv _ hi) (by simp [Field.queueId?])
    | some v => exact congrArg some (hq v hv)
  intro r hmem
  obtain ⟨r', hr', rfl⟩ := List.mem_map.mp hmem
  rw [Report.fill, hlast]
  cases hv : r'.relayQueueId with
  | none => rfl
  | some v => exact congrArg some (hr r' hr' v hv)

/-- What is read of a group: each value up to its runs of white space, and the
verdict on its recipient. -/
structure Restores (queueId : Header .queueId) (g : Group) (r : Report) : Prop where
  relayQueueId : ∃ i, r.relayQueueId = some i ∧ queueId.Reads i
  finalRecipient : Option.Rel SameWords r.finalRecipient (g.report queueId).finalRecipient
  status : Option.Rel (fun v h ↦ h.Reads v) r.status g.status
  diagnostic : Option.Rel SameWords r.diagnostic (g.report queueId).diagnostic
  classification : r.classification = (g.report queueId).classification
  shouldSuppress : r.shouldSuppress = (g.report queueId).shouldSuppress

theorem getLast?_rel {α β : Type} {r : α → β → Prop} {l : List α} {m : List β}
    (h : List.Forall₂ r l m) : Option.Rel r l.getLast? m.getLast? := by
  induction h with
  | nil => exact .none
  | @cons a b l m hab _ ih =>
    rw [List.getLast?_cons, List.getLast?_cons]
    refine .some ?_
    generalize l.getLast? = x at ih ⊢
    generalize m.getLast? = y at ih ⊢
    cases ih with
    | none => exact hab
    | some h => exact h

theorem rel_map {α β γ δ : Type} {r : α → β → Prop} {q : γ → δ → Prop} {f : α → γ} {g : β → δ}
    (hfg : ∀ a b, r a b → q (f a) (g b)) {x : Option α} {y : Option β} (h : Option.Rel r x y) :
    Option.Rel q (x.map f) (y.map g) := by
  cases h with
  | none => exact .none
  | some h => exact .some (hfg _ _ h)

theorem ofBlock_eq (b : Text × List Field) :
    Report.ofBlock b = ⟨none, some (stripTypePrefix b.1), last Field.status? b.2,
      (last Field.diagnostic? b.2).map stripTypePrefix,
      ((last Field.status? b.2).map .fromStatus).getD .unknown⟩ := by
  simp [Report.ofBlock, Report.amend]

theorem Header.Reads.trim {k : Kind} {h : Header k} {v : Text} (hv : h.Reads v) :
    SameWords v (trim h.text) := by
  rw [SameWords, splitWhitespace_trim]
  exact hv.words

theorem restores {queueId : Header .queueId} {g : Group} {b : Text × List Field} {r : Report} {i : Text}
    (hi : queueId.Reads i) (hg : g.Reads b) (hr : r.anonymous = Report.ofBlock b)
    (hq : r.relayQueueId = some i) : Restores queueId g r := by
  obtain ⟨hrecipient, hitems⟩ := hg
  have hstatus : Option.Rel (fun v h ↦ h.Reads v) (last Field.status? b.2) g.status :=
    getLast?_rel hitems.status
  have hdiagnostic : Option.Rel (fun v h ↦ h.Reads v) (last Field.diagnostic? b.2) g.diagnostic :=
    getLast?_rel hitems.diagnostic
  have hd : Option.Rel SameWords ((last Field.diagnostic? b.2).map stripTypePrefix)
      (g.report queueId).diagnostic :=
    rel_map (fun _ _ h ↦ stripTypePrefix_of_words h.words) hdiagnostic
  have hs : Option.Rel SameWords (last Field.status? b.2) (g.report queueId).status := by
    have h := rel_map (f := id) (fun _ _ h ↦ Header.Reads.trim h) hstatus
    rw [Option.map_id] at h
    exact h
  have hc : ((last Field.status? b.2).map .fromStatus).getD .unknown =
      (g.report queueId).classification := by
    rw [Group.report]
    generalize last Field.status? b.2 = x at hstatus ⊢
    generalize g.status = y at hstatus ⊢
    cases hstatus with
    | none => rfl
    | some h => exact Classification.fromStatus_of_words h.words
  obtain rfl : r = { Report.ofBlock b with relayQueueId := some i } := by
    rw [← hr, ← hq]
    rfl
  rw [ofBlock_eq]
  exact ⟨⟨i, rfl, hi⟩, .some (stripTypePrefix_of_words hrecipient.words), hstatus, hd, hc,
    shouldSuppress_of_words hc hs hd⟩

theorem restores_all {queueId : Header .queueId} {gs : List Group} {bs : List (Text × List Field)}
    {rs : List Report} {i : Text} (hi : queueId.Reads i) (hgs : List.Forall₂ Group.Reads gs bs)
    (hrs : rs.map Report.anonymous = bs.map Report.ofBlock)
    (hq : ∀ r ∈ rs, r.relayQueueId = some i) : List.Forall₂ (Restores queueId) gs rs := by
  induction hgs generalizing rs with
  | nil =>
    obtain rfl := List.map_eq_nil_iff.mp hrs
    exact .nil
  | cons hg _ ih =>
    cases rs with
    | nil => simp at hrs
    | cons r rs =>
      obtain ⟨hr, hrs⟩ := List.cons.inj hrs
      obtain ⟨hqr, hq⟩ := List.forall_mem_cons.mp hq
      exact .cons (restores hi hg hr hqr) (ih hrs hq)

theorem noQueueId_of_mem_blockFields {bs : List (Text × List Field)}
    (h : ∀ b ∈ bs, ∀ e ∈ b.2, e.queueId? = none) : ∀ e ∈ bs.flatMap blockFields, e.queueId? = none := by
  refine List.forall_mem_flatMap.mpr fun b hb ↦ ?_
  exact List.forall_mem_cons.mpr ⟨rfl, h b hb⟩

theorem reports_groups {queueId : Header .queueId} {gs : List Group} {bs : List (Text × List Field)}
    {l : List Field} {i : Text} (hi : queueId.Reads i) (hgs : List.Forall₂ Group.Reads gs bs)
    (hl : l = .queueId i :: bs.flatMap blockFields ∨ l = bs.flatMap blockFields ++ [.queueId i]) :
    List.Forall₂ (Restores queueId) gs (reports l) := by
  have hplain : ∀ b ∈ bs, (∀ e ∈ b.2, e.startsGroup = false) ∧ ∀ e ∈ b.2, e.queueId? = none := by
    clear hl
    induction hgs with
    | nil => simp
    | cons hg _ ih => exact List.forall_mem_cons.mpr ⟨⟨hg.2.noRecipient, hg.2.noQueueId⟩, ih⟩
  have hrecipients : ∀ b ∈ bs, ∀ e ∈ b.2, e.startsGroup = false := fun b hb ↦ (hplain b hb).1
  have hnone := noQueueId_of_mem_blockFields fun b hb ↦ (hplain b hb).2
  have hone : ∀ v ∈ (Field.queueId i).queueId?, v = i := by simp [Field.queueId?]
  have hids : ∀ e ∈ bs.flatMap blockFields, ∀ v ∈ e.queueId?, v = i := by
    intro e he v hv
    rw [hnone e he] at hv
    cases hv
  refine restores_all hi hgs ?_ ?_
  · rw [reports_anonymous]
    rcases hl with rfl | rfl
    · rw [blocks_cons rfl]
      simpa using blocks_blockFields hrecipients (l := []) (by simp)
    · exact blocks_blockFields hrecipients (by simp)
  · rcases hl with rfl | rfl
    · exact relayQueueId_reports (List.forall_mem_cons.mpr ⟨hone, hids⟩) (by simp)
    · exact relayQueueId_reports
        (List.forall_mem_append.mpr ⟨hids, List.forall_mem_singleton.mpr hone⟩) (by simp)

/-- A bounce whose status is folded at a tab. -/
def foldedStatus : Rendering where
  queueId := ⟨"X-Postfix-Queue-ID".toList, " 08785F9FED".toList, [], by decide, by decide, by decide,
    by decide⟩
  late := true
  before := []
  after := []
  groups := [{
    recipient := ⟨"Final-Recipient".toList, " rfc822; a@example.com".toList, [], by decide, by decide,
      by decide, by decide⟩
    items := [.status ⟨"Status".toList, " 5.1.1".toList, ["\t(bad)".toList], by decide, by decide,
      by decide, by decide⟩] }]

/-- Parsing undoes formatting: there is one report for each group, in order,
and it restores the group whatever the case of the names, the line endings and
the folding of the values. -/
theorem parse_rendering {d : Rendering} {raw : Text} (h : Ends d.lines raw) :
    List.Forall₂ (Restores d.queueId) d.groups (parse raw) := by
  obtain ⟨i, bs, hi, hgs, hfields⟩ := fields_rendering (lines_of_ends h d.noNewline)
  rw [parse_eq_reports]
  exact reports_groups hi hgs hfields

theorem parse_foldedStatus :
    List.Forall₂ (Restores foldedStatus.queueId) foldedStatus.groups
      (parse (foldedStatus.lines.flatMap fun line ↦ line ++ ['\n'])) :=
  parse_rendering (ends_lf foldedStatus.lines)

/-- The tab the status is folded at comes back as a space. -/
theorem folded_status_is_respaced :
    ¬ ∀ (d : Rendering) (raw : Text), Ends d.lines raw →
      (parse raw).map Report.status = d.groups.map fun g ↦ g.status.map fun h ↦ trim h.text := by
  intro h
  have h := h foldedStatus _ (ends_lf foldedStatus.lines)
  revert h
  decide +kernel

end Postbud.Dsn
