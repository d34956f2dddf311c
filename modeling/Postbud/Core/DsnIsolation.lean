import Mathlib.Data.List.Forall2
import Mathlib.Data.List.SplitBy
import Postbud.Core.DsnRender

namespace Postbud.Dsn

open Lib Lib.Text

/-! ### Groups parted by blank lines -/

/-- What a report tells of its recipient. -/
def Report.verdict (r : Report) : Option Text × Option Text × Bool :=
  (r.status, r.diagnostic, r.shouldSuppress)

def verdicts (raw : Text) : List (Option Text × Option Text × Bool) :=
  (parse raw).map Report.verdict

/-- The lines of a DSN, a new group from each blank line on. -/
def groups (raw : Text) : List (List Text) := (lines raw).splitBy fun _ line ↦ decide (line ≠ [])

def groupText (g : List Text) : Text := g.flatMap fun line ↦ line ++ ['\r', '\n']

def groupFields (raw : Text) : List (List Field) := (groups raw).map fieldsOf

def recipients (l : List Field) : ℕ := l.countP Field.startsGroup

/-- The verdicts on the recipients that a group names: there is one report for
each `Final-Recipient`, in the order of the text. -/
def verdictsOf (raw : Text) (i : ℕ) : List (Option Text × Option Text × Bool) :=
  ((verdicts raw).drop (recipients ((groupFields raw).take i).flatten)).take
    (recipients ((groupFields raw).getD i []))

/-- Of the fields of a group nothing but its statuses and diagnostics is
changed: any of these has another value or another place, or is gone. -/
structure Edited (g g' : List Field) : Prop where
  others : g'.filter (!·.speaks) = g.filter (!·.speaks)
  status : g'.countP (·.status?.isSome) ≤ g.countP (·.status?.isSome)
  diagnostic : g'.countP (·.diagnostic?.isSome) ≤ g.countP (·.diagnostic?.isSome)

/-- Two DSNs that have a group in common, and differ in what the other groups say. -/
def Edits (raw : Text) (i : ℕ) (raw' : Text) : Prop :=
  ∃ before group after before' after', before.length = i ∧
    groupFields raw = before ++ group :: after ∧ groupFields raw' = before' ++ group :: after' ∧
    List.Forall₂ Edited before before' ∧ List.Forall₂ Edited after after'

/-- Of the recipients of a group the DSN says what it would say if the group
stood alone, and no edit of the other groups changes that. -/
structure Isolated (raw : Text) (i : ℕ) : Prop where
  alone : ∀ g, (groups raw)[i]? = some g → verdictsOf raw i = verdicts (groupText g)
  edits : ∀ raw', Edits raw i raw' → verdictsOf raw' i = verdictsOf raw i

/-- The groups that follow, up to one with a recipient, and that one. -/
def following : List (List Field) → List Field
  | [] => []
  | g :: gs => if g.any Field.startsGroup then g else g ++ following gs

/-- The group names no recipient, or nothing is said of a delivery until after
the group that names the next one. -/
def Quiet (raw : Text) (i : ℕ) : Prop :=
  ∀ g after, (groupFields raw).drop i = g :: after → (∃ e ∈ g, e.startsGroup) →
    ∀ e ∈ following after, e.speaks = false

/-! ### What the parser makes of the groups -/

def judge (l : List Field) : List (Option Text × Option Text × Bool) :=
  (blocks l).map fun b ↦ (Report.ofBlock b).verdict

theorem verdicts_eq (raw : Text) : verdicts raw = judge (fields raw) := by
  have h := congrArg (List.map Report.verdict) (reports_anonymous (fields raw))
  rw [List.map_map, List.map_map] at h
  rw [verdicts, parse_eq_reports, judge]
  exact h

theorem length_judge (l : List Field) : (judge l).length = recipients l := by
  rw [judge, List.length_map]
  induction l with
  | nil => rfl
  | cons e l ih =>
    rw [recipients, List.countP_cons]
    cases e with
    | finalRecipient v => exact congrArg Nat.succ ih
    | queueId v | status v | diagnostic v => exact ih

theorem messageGroup_messageGroup (l m : List Field) :
    messageGroup (l ++ messageGroup m) = messageGroup (l ++ m) := by
  induction l with
  | nil => exact List.takeWhile_idem
  | cons e l ih =>
    cases he : e.startsGroup with
    | true => simp [messageGroup, he]
    | false => rw [List.cons_append, List.cons_append, messageGroup_cons he, messageGroup_cons he, ih]

/-- What is said of a recipient ends where the next one is named. -/
theorem judge_append (l m : List Field) :
    judge (l ++ m) = judge (l ++ messageGroup m) ++ judge m := by
  have hblocks : blocks (l ++ m) = blocks (l ++ messageGroup m) ++ blocks m := by
    induction l with
    | nil =>
      rw [List.nil_append, List.nil_append, blocks_of_noRecipient startsGroup_of_messageGroup,
        List.nil_append]
    | cons e l ih =>
      cases e with
      | finalRecipient v =>
        rw [List.cons_append, List.cons_append, blocks, blocks, messageGroup_messageGroup, ih,
          List.cons_append]
      | queueId v | status v | diagnostic v => exact ih
  rw [judge, hblocks, List.map_append]
  rfl

theorem judge_of_noRecipient {l : List Field} (hl : ∀ e ∈ l, e.startsGroup = false) :
    judge l = [] := by rw [judge, blocks_of_noRecipient hl, List.map_nil]

/-- Fields that say nothing of a delivery change no verdict. -/
theorem judge_append_silent (l : List Field) {m : List Field}
    (hm : ∀ e ∈ m, e.startsGroup = false) (hsilent : ∀ e ∈ m, e.speaks = false) :
    judge (l ++ m) = judge l := by
  induction l with
  | nil => exact judge_of_noRecipient hm
  | cons e l ih =>
    cases e with
    | finalRecipient v =>
      have hhead : (Report.ofBlock (v, messageGroup (l ++ m))).verdict =
          (Report.ofBlock (v, messageGroup l)).verdict := by
        by_cases hl : ∀ e ∈ l, e.startsGroup = false
        · have hall : messageGroup m = m := by
            simpa [messageGroup] using messageGroup_append hm []
          have hend : messageGroup l = l := by
            simpa [messageGroup] using messageGroup_append hl []
          rw [messageGroup_append hl, hall, hend, ofBlock_append, amend_silent hsilent]
        · obtain ⟨w, l', hsplit⟩ := messageGroup_split (l := l) (by simpa using hl)
          rw [hsplit, List.append_assoc, List.cons_append, messageGroup_append_recipient,
            messageGroup_append_recipient]
      exact congrArg₂ List.cons hhead ih
    | queueId v | status v | diagnostic v => exact ih

/-- The last verdict is that of the last recipient, with all that follows it. -/
theorem getLast?_judge {g l : List Field} (hg : ∃ e ∈ g, e.startsGroup)
    (hl : ∀ e ∈ l, e.startsGroup = false) : ∃ v own,
      (judge (g ++ l)).getLast? = some (Report.ofBlock (v, own ++ l)).verdict := by
  obtain ⟨v, m, hsplit⟩ := lastGroup_split hg
  have hown := startsGroup_of_lastGroup (l := g)
  refine ⟨v, lastGroup g, ?_⟩
  have htail : ∀ e ∈ lastGroup g ++ l, e.startsGroup = false := List.forall_mem_append.mpr ⟨hown, hl⟩
  have hend : messageGroup (lastGroup g ++ l) = lastGroup g ++ l := by
    simpa [messageGroup] using messageGroup_append htail []
  conv_lhs => rw [hsplit, List.append_assoc, List.cons_append, judge, blocks_append_recipient, hend,
    blocks_of_noRecipient htail, List.map_append]
  exact List.getLast?_concat

/-! ### The groups of a text -/

theorem lines_groupText {g : List Text} (hg : ∀ line ∈ g, '\n' ∉ line) :
    lines (groupText g) = g := by
  induction g with
  | nil => rfl
  | cons line g ih =>
    obtain ⟨hline, hg⟩ := List.forall_mem_cons.mp hg
    have hcr : '\n' ∉ line ++ ['\r'] := by simp [hline]
    have htext : groupText (line :: g) = (line ++ ['\r']) ++ '\n' :: groupText g := by
      simp [groupText]
    rw [htext, lines_append, splitOn_of_notMem hcr, List.map_singleton, dropCr_append, ih hg]
    rfl

theorem fields_groupText {g : List Text} (hg : ∀ line ∈ g, '\n' ∉ line) :
    fields (groupText g) = fieldsOf g := by
  rw [← lines_groupText hg]
  simp only [fields, unfold, fieldsOf, lines_groupText hg]

/-- A blank line ends what the line before it may be continued with. -/
theorem fieldsOf_flatten {gs : List (List Text)}
    (h : gs.IsChain fun _ g ↦ g.head? = some []) :
    fieldsOf gs.flatten = (gs.map fieldsOf).flatten := by
  induction gs with
  | nil => rfl
  | cons g gs ih =>
    cases gs with
    | nil => simp
    | cons next gs =>
      obtain ⟨hnext, htail⟩ := List.isChain_cons_cons.mp h
      obtain ⟨m, rfl⟩ : ∃ m, next = [] :: m := by
        cases next with
        | nil => simp at hnext
        | cons line m => exact ⟨m, by simpa using hnext⟩
      rw [List.flatten_cons, List.flatten_cons, List.cons_append, fieldsOf_append rfl,
        ← List.cons_append, ← List.flatten_cons, ih htail]
      rfl

/-- Every group but the first starts with its blank line. -/
theorem isChain_groups (raw : Text) : (groups raw).IsChain fun _ g ↦ g.head? = some [] :=
  (List.isChain_getLast_head_splitBy _ (lines raw)).imp fun a b hab ↦ by
    obtain ⟨ha, hb, h⟩ := hab
    rw [List.head?_eq_some_head hb]
    simpa using h

theorem fields_groups (raw : Text) : fields raw = (groupFields raw).flatten := by
  rw [groupFields, ← fieldsOf_flatten (isChain_groups raw), groups, List.flatten_splitBy]
  rfl

theorem newline_notMem_of_mem_groups {raw : Text} {g : List Text} (hg : g ∈ groups raw) :
    ∀ line ∈ g, '\n' ∉ line := by
  intro line hline
  have hmem : line ∈ (groups raw).flatten := List.mem_flatten.mpr ⟨g, hg, hline⟩
  rw [groups, List.flatten_splitBy] at hmem
  exact fun hn ↦ (mem_of_mem_lines hmem hn).2 rfl

/-- Into the verdicts on a group goes what it says, and what follows it up to
the next recipient. -/
theorem verdictsOf_split {raw : Text} {before after : List (List Field)} {g : List Field}
    (h : groupFields raw = before ++ g :: after) :
    verdictsOf raw before.length = judge (g ++ messageGroup after.flatten) := by
  have hbefore : (groupFields raw).take before.length = before := by rw [h, List.take_left]
  have hg : (groupFields raw).getD before.length [] = g := by
    rw [h, List.getD_eq_getElem?_getD, List.getElem?_append_right (le_refl _), Nat.sub_self,
      List.getElem?_cons_zero, Option.getD_some]
  have hraw : verdicts raw = judge (before.flatten ++ messageGroup (g ++ after.flatten)) ++
      (judge (g ++ messageGroup after.flatten) ++ judge after.flatten) := by
    rw [verdicts_eq, fields_groups, h, List.flatten_append, List.flatten_cons, judge_append,
      judge_append g]
  have hlength (l m : List Field) : (judge (l ++ messageGroup m)).length = recipients l := by
    have hnone : recipients (messageGroup m) = 0 :=
      List.countP_eq_zero.mpr fun e he ↦ by simp [startsGroup_of_messageGroup e he]
    rw [length_judge, recipients, List.countP_append]
    exact congrArg _ hnone
  rw [verdictsOf, hbefore, hg, hraw, ← hlength before.flatten (g ++ after.flatten), List.drop_left,
    ← hlength g after.flatten, List.take_left]

/-! ### What follows a group -/

theorem mem_following {e : Field} {gs : List (List Field)} (h : e ∈ following gs) :
    ∃ pre b post, gs = pre ++ b :: post ∧ e ∈ b ∧ ∀ g ∈ pre, ∀ x ∈ g, x.startsGroup = false := by
  induction gs with
  | nil => exact absurd h List.not_mem_nil
  | cons g gs ih =>
    rw [following] at h
    split_ifs at h with hg
    · exact ⟨[], g, gs, rfl, h, nofun⟩
    · rcases List.mem_append.mp h with h | h
      · exact ⟨[], g, gs, rfl, h, nofun⟩
      · obtain ⟨pre, b, post, rfl, hb, hpre⟩ := ih h
        have hnone : ∀ x ∈ g, x.startsGroup = false := by simpa using hg
        exact ⟨g :: pre, b, post, rfl, hb, List.forall_mem_cons.mpr ⟨hnone, hpre⟩⟩

theorem messageGroup_subset_following (gs : List (List Field)) :
    ∀ e ∈ messageGroup gs.flatten, e ∈ following gs := by
  induction gs with
  | nil => exact nofun
  | cons g gs ih =>
    intro e he
    rw [following]
    split_ifs with hg
    · obtain ⟨v, m, hsplit⟩ := messageGroup_split (l := g) (by simpa using hg)
      rw [List.flatten_cons, hsplit, List.append_assoc, List.cons_append,
        messageGroup_append_recipient] at he
      exact (List.takeWhile_sublist _).subset ((List.takeWhile_sublist _).subset he)
    · rw [List.flatten_cons, messageGroup_append (by simpa using hg)] at he
      exact (List.mem_append.mp he).elim (List.mem_append_left _) fun he ↦
        List.mem_append_right _ (ih e he)

theorem Edited.silent {g g' : List Field} (h : Edited g g') (hg : ∀ e ∈ g, e.speaks = false) :
    ∀ e ∈ g', e.speaks = false := by
  have hnone : ∀ e ∈ g, e.status? = none ∧ e.diagnostic? = none := fun e he ↦ by
    simpa [Field.speaks] using hg e he
  have hstatus : g'.countP (·.status?.isSome) = 0 := Nat.le_zero.mp (h.status.trans_eq
    (List.countP_eq_zero.mpr fun e he ↦ by simp [(hnone e he).1]))
  have hdiagnostic : g'.countP (·.diagnostic?.isSome) = 0 := Nat.le_zero.mp (h.diagnostic.trans_eq
    (List.countP_eq_zero.mpr fun e he ↦ by simp [(hnone e he).2]))
  intro e he
  rw [Field.speaks, Bool.or_eq_false_iff]
  exact ⟨Bool.eq_false_iff.mpr (List.countP_eq_zero.mp hstatus e he),
    Bool.eq_false_iff.mpr (List.countP_eq_zero.mp hdiagnostic e he)⟩

theorem startsGroup_of_speaks {e : Field} (h : e.speaks) : e.startsGroup = false := by
  cases e with
  | finalRecipient v => cases h
  | queueId v | status v | diagnostic v => rfl

theorem Edited.any_startsGroup {g g' : List Field} (h : Edited g g') :
    g'.any Field.startsGroup = g.any Field.startsGroup := by
  have hkept : ∀ l : List Field, l.any Field.startsGroup =
      (l.filter (!·.speaks)).any Field.startsGroup := by
    intro l
    rw [Bool.eq_iff_iff, List.any_eq_true, List.any_eq_true]
    constructor
    · rintro ⟨e, he, hs⟩
      have hsilent : ¬ e.speaks := fun hspeaks ↦ by
        rw [startsGroup_of_speaks hspeaks] at hs
        cases hs
      exact ⟨e, List.mem_filter.mpr ⟨he, by simp [hsilent]⟩, hs⟩
    · rintro ⟨e, he, hs⟩
      exact ⟨e, (List.mem_filter.mp he).1, hs⟩
  rw [hkept g, hkept g', h.others]

/-- No edit makes groups speak that did not. -/
theorem silent_following {gs gs' : List (List Field)} (h : List.Forall₂ Edited gs gs')
    (hgs : ∀ e ∈ following gs, e.speaks = false) : ∀ e ∈ following gs', e.speaks = false := by
  induction h with
  | nil => exact hgs
  | cons hg _ ih =>
    rw [following] at hgs ⊢
    rw [hg.any_startsGroup]
    split_ifs at hgs ⊢
    · exact hg.silent hgs
    · obtain ⟨hfirst, hrest⟩ := List.forall_mem_append.mp hgs
      exact List.forall_mem_append.mpr ⟨hg.silent hfirst, ih hrest⟩

theorem verdictsOf_silent {raw : Text} {before after : List (List Field)} {g : List Field}
    (h : groupFields raw = before ++ g :: after)
    (hquiet : (∃ e ∈ g, e.startsGroup) → ∀ e ∈ following after, e.speaks = false) :
    verdictsOf raw before.length = judge g := by
  rw [verdictsOf_split h]
  by_cases hg : ∃ e ∈ g, e.startsGroup
  · exact judge_append_silent g startsGroup_of_messageGroup fun e he ↦
      hquiet hg e (messageGroup_subset_following after e he)
  · have hnone : ∀ e ∈ g, e.startsGroup = false := by simpa using hg
    rw [judge_of_noRecipient hnone, judge_of_noRecipient
      (List.forall_mem_append.mpr ⟨hnone, startsGroup_of_messageGroup⟩)]

theorem Quiet.isolated {raw : Text} {i : ℕ} (h : Quiet raw i) : Isolated raw i where
  alone g hg := by
    obtain ⟨hi, he⟩ := List.getElem?_eq_some_iff.mp hg
    obtain ⟨before, after, hsplit, rfl⟩ : ∃ before after, groups raw = before ++ g :: after ∧
        before.length = i :=
      ⟨(groups raw).take i, (groups raw).drop (i + 1),
        by rw [← he, ← List.drop_eq_getElem_cons hi, List.take_append_drop],
        List.length_take_of_le hi.le⟩
    have hfields : groupFields raw = before.map fieldsOf ++ fieldsOf g :: after.map fieldsOf := by
      rw [groupFields, hsplit, List.map_append, List.map_cons]
    have hmem : g ∈ groups raw := List.mem_of_getElem? hg
    rw [verdicts_eq, fields_groupText (newline_notMem_of_mem_groups hmem), ← List.length_map fieldsOf]
    refine verdictsOf_silent hfields fun hrecipient ↦ h _ _ ?_ hrecipient
    rw [hfields, ← List.length_map fieldsOf, List.drop_left]
  edits raw' hedits := by
    obtain ⟨before, g, after, before', after', rfl, hraw, hraw', hbefore, hafter⟩ := hedits
    have hquiet : (∃ e ∈ g, e.startsGroup) → ∀ e ∈ following after, e.speaks = false :=
      h g after (by rw [hraw, List.drop_left])
    rw [verdictsOf_silent hraw hquiet, hbefore.length_eq,
      verdictsOf_silent hraw' fun hg ↦ silent_following hafter (hquiet hg)]

/-! ### Edits that are heard -/

/-- A value that a line can hold. -/
structure Field.Plain (e : Field) : Prop where
  trimmed : trim e.value = e.value
  filled : e.value ≠ []
  oneLine : '\n' ∉ e.value

def Field.kind : Field → Kind
  | .queueId _ => .queueId
  | .finalRecipient _ => .finalRecipient
  | .status _ => .status
  | .diagnostic _ => .diagnostic

/-- A field of the same kind speaks where this one does. -/
theorem Field.speaks_field (e : Field) (v : Text) : (e.kind.field v).speaks = e.speaks := by
  cases e <;> rfl

def Field.line (e : Field) : Text := e.kind.name ++ ':' :: e.value

/-- A group of these fields, after its blank line. -/
def render (l : List Field) : List Text := [] :: l.map Field.line

theorem Field.line_starts (e : Field) : e.line ≠ [] ∧ isContinuation e.line = false := by
  cases e <;> exact ⟨List.cons_ne_nil _ _, rfl⟩

theorem Kind.name_spec (k : Kind) : '\n' ∉ k.name ∧ toAsciiLowercase (trim k.name) = k.name := by
  cases k <;> decide

theorem fieldOf_line {e : Field} (h : e.Plain) : fieldOf e.line = some e := by
  have hcolon := e.kind.name_solid.2
  rw [fieldOf, Field.line, splitOnce_of_notMem hcolon]
  dsimp only
  rw [h.trimmed, if_neg h.filled, e.kind.name_spec.2]
  cases e <;> rfl

theorem plain_of_fieldOf {line : Text} {e : Field} (h : fieldOf line = some e) (hline : '\n' ∉ line) :
    e.Plain := by
  have hvalue : '\n' ∉ e.value := fun hc ↦ hline (value_of_fieldOf h hc)
  unfold fieldOf at h
  split at h
  · cases h
  · rename_i name value _
    obtain ⟨hne, h⟩ := Option.ite_none_left_eq_some.mp h
    have he : e.value = trim value := by
      unfold Field.of at h
      split_ifs at h <;> cases h <;> rfl
    exact ⟨by rw [he, trim_trim], he ▸ hne, hvalue⟩

theorem plain_groupFields {raw : Text} {g : List Field} (hg : g ∈ groupFields raw) :
    ∀ e ∈ g, e.Plain := by
  obtain ⟨lines, hlines, rfl⟩ := List.mem_map.mp hg
  intro e he
  obtain ⟨line, hline, hfield⟩ := List.mem_filterMap.mp he
  exact plain_of_fieldOf hfield
    (notMem_foldl_unfoldLine (by decide) (newline_notMem_of_mem_groups hlines) line hline)

theorem fieldsOf_render {l : List Field} (hl : ∀ e ∈ l, e.Plain) : fieldsOf (render l) = l := by
  rw [render]
  induction l using List.reverseRecOn with
  | nil => rfl
  | append_singleton l e ih =>
    obtain ⟨hl, he⟩ := List.forall_mem_append.mp hl
    have hline : fieldsOf [e.line] = [e] := by
      have hfield := fieldOf_line (he e (List.mem_singleton_self e))
      rw [fieldsOf, List.foldl_cons, List.foldl_nil, unfoldLine_of_not_continuation e.line_starts.2,
        List.nil_append, List.filterMap_cons, hfield, List.filterMap_nil]
    rw [List.map_append, List.map_singleton, ← List.cons_append,
      fieldsOf_append e.line_starts.2, ih hl, hline]

theorem newline_notMem_render {ls : List (List Field)} (hls : ∀ l ∈ ls, ∀ e ∈ l, e.Plain) :
    ∀ line ∈ (ls.map render).flatten, '\n' ∉ line := by
  intro line hline
  obtain ⟨_, hrendered, hline⟩ := List.mem_flatten.mp hline
  obtain ⟨l, hl, rfl⟩ := List.mem_map.mp hrendered
  rcases List.mem_cons.mp hline with rfl | hline
  · exact List.not_mem_nil
  · obtain ⟨e, he, rfl⟩ := List.mem_map.mp hline
    simp [Field.line, e.kind.name_spec.1, (hls l hl e he).oneLine]

theorem map_fieldsOf_render {ls : List (List Field)} (hls : ∀ l ∈ ls, ∀ e ∈ l, e.Plain) :
    (ls.map render).map fieldsOf = ls := by
  rw [List.map_map]
  exact (List.map_congr_left fun l hl ↦ fieldsOf_render (hls l hl)).trans (List.map_id ls)

theorem isChain_render (l : List Field) :
    (render l).IsChain fun _ line ↦ decide (line ≠ []) := by
  suffices h : ∀ first : Text, (first :: l.map Field.line).IsChain fun _ line ↦ decide (line ≠ []) from
    h []
  induction l with
  | nil => exact List.isChain_singleton
  | cons e l ih =>
    exact fun first ↦ List.isChain_cons_cons.mpr ⟨decide_eq_true e.line_starts.1, ih e.line⟩

theorem head?_render (ls : List (List Field)) : ∀ y ∈ (ls.map render).flatten.head?, y = [] := by
  cases ls with
  | nil => exact nofun
  | cons l ls => exact fun y hy ↦ (Option.some.inj hy).symm

/-- Groups that are rendered are read back as they are. -/
theorem splitBy_render (ls : List (List Field)) :
    ((ls.map render).flatten.splitBy fun _ line ↦ decide (line ≠ [])) = ls.map render := by
  induction ls with
  | nil => rfl
  | cons l ls ih =>
    have hblank : ∀ x ∈ (render l).getLast?, ∀ y ∈ (ls.map render).flatten.head?,
        decide (y ≠ []) = false := fun _ _ y hy ↦ by simp [head?_render ls y hy]
    rw [List.map_cons, List.flatten_cons, List.splitBy_append hblank, ih,
      List.splitBy_of_isChain (l := render l) (List.cons_ne_nil _ _) (isChain_render l)]
    rfl

/-- Around a group of a text any other groups may stand. -/
theorem exists_groupFields {raw : Text} {before after : List (List Field)} {g : List Field}
    (h : groupFields raw = before ++ g :: after) {before' after' : List (List Field)}
    (hlength : before'.length = before.length) (hbefore : ∀ l ∈ before', ∀ e ∈ l, e.Plain)
    (hafter : ∀ l ∈ after', ∀ e ∈ l, e.Plain) :
    ∃ raw', groupFields raw' = before' ++ g :: after' := by
  obtain ⟨linesBefore, rest, hgroups, rfl, hrest⟩ := List.map_eq_append_iff.mp h
  obtain ⟨own, linesAfter, rfl, rfl, rfl⟩ := List.map_eq_cons_iff.mp hrest
  have hmem : own ∈ groups raw := hgroups ▸ List.mem_append_right _ List.mem_cons_self
  -- Unless the group comes first, its own blank line parts it from what stands before it.
  have hstart : ∀ x ∈ (before'.map render).flatten.getLast?, own.head? = some [] := by
    intro x hx
    have hne : linesBefore ≠ [] := by
      rintro rfl
      rw [List.map_nil, List.length_nil, List.length_eq_zero_iff] at hlength
      rw [hlength] at hx
      cases hx
    have hchain := isChain_groups raw
    rw [hgroups] at hchain
    exact (List.isChain_append.mp hchain).2.2 _ (List.getLast?_eq_some_getLast hne) own rfl
  have hown : own ≠ [] := List.ne_nil_of_mem_splitBy hmem
  set whole := (before'.map render).flatten ++ (own ++ (after'.map render).flatten) with hwhole
  have hlines : lines (groupText whole) = whole := lines_groupText <|
    List.forall_mem_append.mpr ⟨newline_notMem_render hbefore, List.forall_mem_append.mpr
      ⟨newline_notMem_of_mem_groups hmem, newline_notMem_render hafter⟩⟩
  refine ⟨groupText whole, ?_⟩
  rw [groupFields, groups, hlines, hwhole, List.splitBy_append, splitBy_render, List.splitBy_append,
    splitBy_render, List.splitBy_of_isChain hown (List.isChain_of_mem_splitBy hmem),
    List.map_append, List.map_append, map_fieldsOf_render hbefore, map_fieldsOf_render hafter]
  · rfl
  · exact fun _ _ y hy ↦ by simp [head?_render after' y hy]
  · intro x hx y hy
    rw [List.head?_append_of_ne_nil _ hown, hstart x hx] at hy
    simp [← Option.some.inj hy]

/-- A group of which no status and no diagnostic is left. -/
def hushed (g : List Field) : List Field := g.filter (!·.speaks)

theorem silent_hushed (g : List Field) : ∀ e ∈ hushed g, e.speaks = false :=
  fun e he ↦ by simpa using (List.mem_filter.mp he).2

theorem hushed_flatten (gs : List (List Field)) : (gs.map hushed).flatten = hushed gs.flatten :=
  List.filter_flatten.symm

theorem edited_refl (g : List Field) : Edited g g := ⟨rfl, le_refl _, le_refl _⟩

theorem edited_hushed (g : List Field) : Edited g (hushed g) where
  others := by simp [hushed, List.filter_filter]
  status := List.filter_sublist.countP_le
  diagnostic := List.filter_sublist.countP_le

/-- What a field says is said before anything else in its group, with another value. -/
theorem edited_cons {g : List Field} {e : Field} (he : e ∈ g) (hspeaks : e.speaks) (v : Text) :
    Edited g (e.kind.field v :: hushed g) := by
  have hcount (p : Field → Bool) (hp : ∀ x, p x → x.speaks) (hkind : p (e.kind.field v) = p e) :
      (e.kind.field v :: hushed g).countP p ≤ g.countP p := by
    have hnone : (hushed g).countP p = 0 := List.countP_eq_zero.mpr fun x hx hpx ↦ by
      have hsays := hp x hpx
      rw [silent_hushed g x hx] at hsays
      cases hsays
    rw [List.countP_cons, hnone, hkind, Nat.zero_add]
    split_ifs with hpe
    · exact List.countP_pos_iff.mpr ⟨e, he, hpe⟩
    · exact Nat.zero_le _
  refine ⟨?_, hcount _ (fun x hx ↦ ?_) ?_, hcount _ (fun x hx ↦ ?_) ?_⟩
  · rw [List.filter_cons_of_neg (by simp [e.speaks_field, hspeaks])]
    exact (edited_hushed g).others
  · rw [Field.speaks, hx, Bool.true_or]
  · cases e <;> rfl
  · rw [Field.speaks, hx, Bool.or_true]
  · cases e <;> rfl

theorem verdict_ne {e : Field} (he : e.speaks) (v v' : Text) (own own' : List Field) :
    (Report.ofBlock (v, own ++ [e.kind.field ['1']])).verdict ≠
      (Report.ofBlock (v', own' ++ [e.kind.field ['2']])).verdict := by
  intro h
  simp only [ofBlock_append, Report.verdict, Prod.mk.injEq] at h
  cases e with
  | queueId w | finalRecipient w => cases he
  | status w => exact absurd h.1 (by simp [Report.amend, last, Kind.field, Field.kind, Field.status?])
  | diagnostic w =>
    refine absurd h.2.1 ?_
    simp [Report.amend, last, Kind.field, Field.kind, Field.diagnostic?]
    decide

/-- A voice that comes first in a later group is heard in the last verdict. -/
theorem getLast?_verdictsOf {raw : Text} {before pre post : List (List Field)} {g b : List Field}
    {e : Field} (h : groupFields raw =
      before ++ g :: (pre.map hushed ++ (e :: hushed b) :: post.map hushed))
    (hg : ∃ e ∈ g, e.startsGroup) (hpre : ∀ x ∈ pre, ∀ e ∈ x, e.startsGroup = false)
    (he : e.startsGroup = false) : ∃ v own,
      (verdictsOf raw before.length).getLast? = some (Report.ofBlock (v, own ++ [e])).verdict := by
  have hvoices : ∀ x ∈ hushed pre.flatten ++ [e], x.startsGroup = false := by
    refine List.forall_mem_append.mpr ⟨fun x hx ↦ ?_, List.forall_mem_singleton.mpr he⟩
    obtain ⟨l, hl, hx⟩ := List.mem_flatten.mp (List.mem_filter.mp hx).1
    exact hpre l hl x hx
  have hafter : (pre.map hushed ++ (e :: hushed b) :: post.map hushed).flatten =
      (hushed pre.flatten ++ [e]) ++ hushed (b ++ post.flatten) := by
    rw [List.flatten_append, List.flatten_cons, hushed_flatten, hushed_flatten, hushed, hushed, hushed,
      hushed, List.filter_append]
    simp
  rw [verdictsOf_split h, hafter, messageGroup_append hvoices, ← List.append_assoc,
    judge_append_silent _ startsGroup_of_messageGroup fun x hx ↦
      silent_hushed _ x ((List.takeWhile_sublist _).subset hx)]
  obtain ⟨v, own, hlast⟩ := getLast?_judge hg hvoices
  exact ⟨v, own ++ hushed pre.flatten, by rw [hlast, List.append_assoc]⟩

/-- The edit in which the group speaks first, and no other group but `g`. -/
theorem exists_edit {raw : Text} {before pre post : List (List Field)} {g b : List Field}
    {e : Field} (h : groupFields raw = before ++ g :: (pre ++ b :: post)) (heb : e ∈ b)
    (he : e.speaks) {v : Text} (hv : (e.kind.field v).Plain) : ∃ raw',
      groupFields raw' =
        before ++ g :: (pre.map hushed ++ (e.kind.field v :: hushed b) :: post.map hushed) ∧
      Edits raw before.length raw' := by
  have hplain : ∀ l ∈ groupFields raw, ∀ x ∈ l, x.Plain := fun _ ↦ plain_groupFields
  rw [h, List.forall_mem_append, List.forall_mem_cons, List.forall_mem_append,
    List.forall_mem_cons] at hplain
  obtain ⟨hbefore, -, hpre, hb, hpost⟩ := hplain
  have hhushed (gs : List (List Field)) (hgs : ∀ l ∈ gs, ∀ x ∈ l, x.Plain) :
      ∀ l ∈ gs.map hushed, ∀ x ∈ l, x.Plain := by
    intro _ hmem x hx
    obtain ⟨l, hl, rfl⟩ := List.mem_map.mp hmem
    exact hgs l hl x (List.mem_filter.mp hx).1
  have hspeaking : ∀ x ∈ e.kind.field v :: hushed b, x.Plain :=
    List.forall_mem_cons.mpr ⟨hv, fun x hx ↦ hb x (List.mem_filter.mp hx).1⟩
  obtain ⟨raw', hraw'⟩ := exists_groupFields h rfl hbefore (List.forall_mem_append.mpr
    ⟨hhushed pre hpre, List.forall_mem_cons.mpr ⟨hspeaking, hhushed post hpost⟩⟩)
  have hmap (gs : List (List Field)) : List.Forall₂ Edited gs (gs.map hushed) :=
    List.forall₂_map_right_iff.mpr (List.forall₂_same.mpr fun l _ ↦ edited_hushed l)
  refine ⟨raw', hraw', before, g, _, before, _, rfl, h, hraw',
    List.forall₂_same.mpr fun l _ ↦ edited_refl l, ?_⟩
  exact List.rel_append (hmap pre) (.cons (edited_cons heb he v) (hmap post))

theorem Isolated.quiet {raw : Text} {i : ℕ} (h : Isolated raw i) : Quiet raw i := by
  intro g after hdrop hg e he
  by_contra hspeaks
  rw [Bool.not_eq_false] at hspeaks
  obtain ⟨pre, b, post, rfl, heb, hpre⟩ := mem_following he
  have hsplit : groupFields raw = (groupFields raw).take i ++ g :: (pre ++ b :: post) := by
    rw [← hdrop, List.take_append_drop]
  have hi : ((groupFields raw).take i).length = i := by
    refine List.length_take_of_le (Nat.le_of_lt (Nat.lt_of_sub_pos ?_))
    rw [← List.length_drop, hdrop]
    exact Nat.succ_pos _
  generalize (groupFields raw).take i = before at hsplit hi
  subst hi
  -- Two edits that differ in what the group says first.
  have hheard (v : Text) (hv : (e.kind.field v).Plain) : ∃ w own,
      (verdictsOf raw before.length).getLast? =
        some (Report.ofBlock (w, own ++ [e.kind.field v])).verdict := by
    obtain ⟨raw', hraw', hedits⟩ := exists_edit hsplit heb hspeaks hv
    have hstarts : (e.kind.field v).startsGroup = false :=
      startsGroup_of_speaks ((e.speaks_field v).trans hspeaks)
    rw [← h.edits raw' hedits]
    exact getLast?_verdictsOf hraw' hg hpre hstarts
  have hplain (v : Text) (hv : trim v = v ∧ v ≠ [] ∧ '\n' ∉ v) : (e.kind.field v).Plain := by
    obtain ⟨htrim, hne, hline⟩ := hv
    cases e <;> exact ⟨htrim, hne, hline⟩
  obtain ⟨w, own, h₁⟩ := hheard ['1'] (hplain _ (by decide))
  obtain ⟨w', own', h₂⟩ := hheard ['2'] (hplain _ (by decide))
  exact verdict_ne hspeaks w w' own own' (Option.some.inj (h₁.symm.trans h₂))

/-- No edit of the other groups is heard in the verdicts on a group's recipients
exactly when nothing is said of a delivery from the group up to and including
the one that names the next recipient. -/
theorem isolated_iff_quiet (raw : Text) (i : ℕ) : Isolated raw i ↔ Quiet raw i :=
  ⟨Isolated.quiet, Quiet.isolated⟩

/-- The same DSN with the second status before the name of its recipient, and after it. -/
def twoRecipients (statusFirst : Bool) : Text :=
  "Final-Recipient: rfc822; a@example.com\nStatus: 4.2.2\n\n".toList ++
    if statusFirst then "Status: 5.1.1\nFinal-Recipient: rfc822; b@example.com\n".toList
    else "Final-Recipient: rfc822; b@example.com\nStatus: 5.1.1\n".toList

/-- The status that has moved is taken for that of the first recipient, whose
full mailbox is then suppressed. -/
theorem moved_status_is_heard : ¬ ∀ raw i, Isolated raw i := by
  intro h
  have hafter : groupFields (twoRecipients false) =
      [[.finalRecipient "rfc822; a@example.com".toList, .status "4.2.2".toList],
        [.finalRecipient "rfc822; b@example.com".toList, .status "5.1.1".toList]] := by
    decide +kernel
  have hbefore : groupFields (twoRecipients true) =
      [[.finalRecipient "rfc822; a@example.com".toList, .status "4.2.2".toList],
        [.status "5.1.1".toList, .finalRecipient "rfc822; b@example.com".toList]] := by
    decide +kernel
  have hedits : Edits (twoRecipients false) 0 (twoRecipients true) :=
    ⟨[], _, _, [], _, rfl, hafter, hbefore, .nil, .cons ⟨rfl, le_refl _, le_refl _⟩ .nil⟩
  have hsame := (h (twoRecipients false) 0).edits _ hedits
  have hfalse : verdictsOf (twoRecipients false) 0 = [(some "4.2.2".toList, none, false)] := by
    decide +kernel
  have htrue : verdictsOf (twoRecipients true) 0 = [(some "5.1.1".toList, none, true)] := by
    decide +kernel
  rw [hfalse, htrue] at hsame
  cases hsame

end Postbud.Dsn
