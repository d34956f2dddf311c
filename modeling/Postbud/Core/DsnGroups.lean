import Postbud.Core.DsnParts

namespace Postbud.Dsn

open Lib Lib.Text

/-! ### What a recipient's fields say -/

/-- Each recipient with the fields up to the next one. -/
def blocks : List Field → List (Text × List Field)
  | [] => []
  | .finalRecipient v :: l => (v, messageGroup l) :: blocks l
  | _ :: l => blocks l

theorem blocks_cons {e : Field} (he : e.startsGroup = false) (l : List Field) :
    blocks (e :: l) = blocks l := by
  cases e with
  | finalRecipient v => simp [Field.startsGroup] at he
  | queueId v | status v | diagnostic v => rfl

theorem messageGroup_cons {e : Field} (he : e.startsGroup = false) (l : List Field) :
    messageGroup (e :: l) = e :: messageGroup l := by simp [messageGroup, he]

theorem messageGroup_append {l : List Field} (hl : ∀ e ∈ l, e.startsGroup = false)
    (m : List Field) : messageGroup (l ++ m) = l ++ messageGroup m :=
  List.takeWhile_append_of_pos fun e he ↦ by simp [hl e he]

theorem messageGroup_append_recipient (l m : List Field) (v : Text) :
    messageGroup (l ++ .finalRecipient v :: m) = messageGroup l := by
  induction l with
  | nil => rfl
  | cons e l ih =>
    cases he : e.startsGroup with
    | true => simp [messageGroup, he]
    | false => rw [List.cons_append, messageGroup_cons he, ih, messageGroup_cons he]

theorem blocks_append {l : List Field} (hl : ∀ e ∈ l, e.startsGroup = false) (m : List Field) :
    blocks (l ++ m) = blocks m := by
  induction l with
  | nil => rfl
  | cons e l ih =>
    obtain ⟨he, hl⟩ := List.forall_mem_cons.mp hl
    rw [List.cons_append, blocks_cons he, ih hl]

theorem blocks_of_noRecipient {l : List Field} (hl : ∀ e ∈ l, e.startsGroup = false) :
    blocks l = [] := by rw [← List.append_nil l, blocks_append hl, blocks]

theorem blocks_append_recipient (l m : List Field) (v : Text) :
    blocks (l ++ .finalRecipient v :: m) = blocks l ++ (v, messageGroup m) :: blocks m := by
  induction l with
  | nil => rfl
  | cons e l ih =>
    cases e with
    | finalRecipient w =>
      rw [List.cons_append, blocks, ih, messageGroup_append_recipient, blocks, List.cons_append]
    | queueId w | status w | diagnostic w => exact ih

def Report.ofBlock (b : Text × List Field) : Report :=
  Report.amend b.2 ⟨none, some (stripTypePrefix b.1), none, none, .unknown⟩

def Report.anonymous (r : Report) : Report := { r with relayQueueId := none }

theorem last_append (f : Field → Option Text) (l m : List Field) :
    last f (l ++ m) = (last f m).or (last f l) := by
  simp [last, List.getLast?_append]

theorem amend_nil (r : Report) : r.amend [] = r := by simp [Report.amend, last_nil]

/-- A field that says how a delivery went. -/
def Field.speaks (e : Field) : Bool := e.status?.isSome || e.diagnostic?.isSome

theorem amend_silent {l : List Field} (hl : ∀ e ∈ l, e.speaks = false) (r : Report) :
    r.amend l = r := by
  have hnone : ∀ e ∈ l, e.status? = none ∧ e.diagnostic? = none := fun e he ↦ by
    simpa [Field.speaks] using hl e he
  have hstatus : l.filterMap Field.status? = [] :=
    List.filterMap_eq_nil_iff.mpr fun e he ↦ (hnone e he).1
  have hdiagnostic : l.filterMap Field.diagnostic? = [] :=
    List.filterMap_eq_nil_iff.mpr fun e he ↦ (hnone e he).2
  simp [Report.amend, last, hstatus, hdiagnostic]

theorem amend_append (l m : List Field) (r : Report) :
    r.amend (l ++ m) = (r.amend l).amend m := by
  simp only [Report.amend, last_append, Option.map_or, Option.or_assoc, Report.mk.injEq, true_and]
  cases last Field.status? m <;> simp

theorem ofBlock_append (v : Text) (l m : List Field) :
    Report.ofBlock (v, l ++ m) = (Report.ofBlock (v, l)).amend m := amend_append l m _

theorem anonymous_amend (l : List Field) (r : Report) :
    (r.amend l).anonymous = r.anonymous.amend l := rfl

/-- The reports of a parser's run: those it had, the current one with what the
fields before the next recipient say, and one for each recipient. -/
theorem close_foldl (l : List Field) (p : Parser) :
    (l.foldl Parser.take p).close.map Report.anonymous =
      p.reports.map Report.anonymous ++
        (p.current.map fun r ↦ r.anonymous.amend (messageGroup l)).toList ++
        (blocks l).map Report.ofBlock := by
  induction l generalizing p with
  | nil =>
    simp only [List.foldl_nil, Parser.close, messageGroup, List.takeWhile_nil, amend_nil, blocks]
    cases p.current <;> simp
  | cons e l ih =>
    rw [List.foldl_cons, ih]
    cases he : e.startsGroup with
    | true =>
      cases e with
      | queueId v | status v | diagnostic v => simp [Field.startsGroup] at he
      | finalRecipient v =>
        have hstop : messageGroup (.finalRecipient v :: l) = [] := rfl
        rw [hstop]
        simp only [Parser.take, Parser.close, blocks, amend_nil]
        cases p.current <;> simp [Report.anonymous, Report.ofBlock]
    | false =>
      have htake : p.take e = ⟨p.reports, _, p.current.map (Report.amend [e])⟩ :=
        foldl_take_of_group (List.forall_mem_singleton.mpr he) p
      have hcons : ∀ r, Report.amend (e :: messageGroup l) r =
          (r.amend [e]).amend (messageGroup l) := amend_append [e] (messageGroup l)
      rw [htake, blocks_cons he, messageGroup_cons he]
      simp only [hcons, Option.map_map, Function.comp_def, anonymous_amend]

theorem reports_anonymous (l : List Field) :
    (reports l).map Report.anonymous = (blocks l).map Report.ofBlock := by
  have h := close_foldl l {}
  simp only [List.map_nil, Option.map_none, Option.toList_none, List.nil_append] at h
  rw [← h, reports, List.map_map]
  rfl

end Postbud.Dsn
