import Postbud.Lib.Transition
import Postbud.Core.DsnParts
import Postbud.Db.Bounce

namespace Postbud.Bounce

open Lib Lib.Transition Dsn

section Attempts

variable [Platform]

def alone (x : Db × Call) (now : Time) : Option (Db × Call) := x.2.step x.1 now

/-- A call of `ingest` that returns an error: `times` are those of the
statements that ran, and the one after them failed. -/
def attempt (raw : Text) (db : Db) (times : List Time) : Option Db :=
  (exec alone (db, start raw) times).bind fun x ↦ x.2.fail.map fun _ ↦ x.1

def Stage.result : Stage → Option Ingested
  | .returned out => some out
  | _ => none

omit [Platform] in
theorem Stage.result_eq_some {stage : Stage} {out : Ingested} :
    stage.result = some out ↔ stage = .returned out := by
  cases stage <;> simp only [Stage.result, Option.some.injEq, Stage.returned.injEq, reduceCtorEq]

def ingest (raw : Text) (db : Db) (times : List Time) : Option (Db × Ingested) :=
  (exec alone (db, start raw) times).bind fun x ↦ x.2.stage.result.map fun out ↦ (x.1, out)

def SameVerdicts (db db' : Db) : Prop :=
  db'.bounceReport = db.bounceReport ∧ db'.suppression = db.suppression

/-- What a DSN is to leave a row for: each of its reports, or itself. -/
def wanted (raw : Text) : List (Option Report) :=
  match parse raw with
  | [] => [none]
  | reports => reports.map some

def IsRow (raw : Text) : Option Report → BounceReport → Prop
  | none, row => ∃ now, row = { receivedAt := now, raw }
  | some report, row => ∃ now messageId, row = bounceRow now raw messageId report

def OneRowEach (raw : Text) (db db' : Db) : Prop :=
  ∃ new, db'.bounceReport = db.bounceReport ++ new ∧ List.Forall₂ (IsRow raw) (wanted raw) new

/-- No failed attempt at a DSN leaves a trace, and however many there were,
the one that succeeds leaves one row for each recipient. -/
structure AllOrNothing (raw : Text) (db : Db) (attempts : List (List Time)) : Prop where
  unchanged : Throughout (attempt raw) SameVerdicts db attempts
  oneRowEach : ∀ db₁ times db₂ out, Run (attempt raw) db attempts db₁ →
    ingest raw db₁ times = some (db₂, out) → OneRowEach raw db db₂

def beforeInsert (raw : Text) : ℕ := if ((parse raw).head?.bind (·.relayQueueId)).isSome then 1 else 0

def Call.unstored (c : Call) : List (Option Report) :=
  match c.stage with
  | .storeRaw => [none]
  | .lookup _ report rest _ | .store _ report rest _ => some report :: rest.map some
  | .suppress _ _ rest _ => rest.map some
  | .returned _ | .failed => []

variable {raw : Text} {db db' : Db} {now : Time} {times : List Time} {out : Ingested} {c c' : Call}

theorem attempt_eq_some : attempt raw db times = some db' ↔
    ∃ c, Run alone (db, start raw) times (db', c) ∧ c.fail.isSome := by
  simp only [attempt, Option.bind_eq_some_iff, Option.map_eq_some_iff, Prod.exists, run_iff_exec,
    Option.isSome_iff_exists]
  constructor
  · intro h
    obtain ⟨_, c, h, c', hc, rfl⟩ := h
    exact ⟨c, h, c', hc⟩
  · intro h
    obtain ⟨c, h, c', hc⟩ := h
    exact ⟨db', c, h, c', hc, rfl⟩

theorem ingest_eq_some : ingest raw db times = some (db', out) ↔
    ∃ c, Run alone (db, start raw) times (db', c) ∧ c.stage = .returned out := by
  simp only [ingest, Option.bind_eq_some_iff, Option.map_eq_some_iff, Prod.exists, run_iff_exec,
    Prod.mk.injEq]
  constructor
  · intro h
    obtain ⟨_, c, h, _, hc, rfl, rfl⟩ := h
    exact ⟨c, h, Stage.result_eq_some.mp hc⟩
  · intro h
    obtain ⟨c, h, hc⟩ := h
    exact ⟨db', c, h, out, Stage.result_eq_some.mpr hc, rfl, rfl⟩

section Stored

omit [Platform] in
@[simp] theorem unstored_next (raw : Text) (out : Ingested) (reports : List Report) :
    Call.unstored ⟨raw, next out reports⟩ = reports.map some := by
  cases reports with
  | nil => rfl
  | cons report rest =>
    simp only [next]
    cases report.relayQueueId <;> rfl

omit [Platform] in
theorem unstored_start (raw : Text) : (start raw).unstored = wanted raw := by
  unfold start wanted
  cases parse raw with
  | nil => rfl
  | cons report rest => exact unstored_next raw {} (report :: rest)

omit [Platform] in
theorem unstored_afterStore (raw : Text) (report : Report) (rest : List Report) (out : Ingested) :
    Call.unstored ⟨raw, afterStore report rest out⟩ = rest.map some := by
  unfold afterStore
  split
  · rfl
  · exact unstored_next raw out rest

/-- A statement of a call only adds to the bounces, and what it adds is the
row of what it takes off the work that is left. -/
theorem Call.Step.stores (h : Call.Step db now c db' c') :
    ∃ done new, db'.bounceReport = db.bounceReport ++ new ∧
      List.Forall₂ (IsRow c.raw) done new ∧ c.unstored = done ++ c'.unstored := by
  obtain ⟨raw, stage⟩ := c
  cases h with
  | storedRaw hc =>
    cases hc
    exact ⟨[none], _, rfl, .cons ⟨now, rfl⟩ .nil, rfl⟩
  | lookedUp queueId messageId report rest out out' hc =>
    cases hc
    exact ⟨[], [], (List.append_nil _).symm, .nil, rfl⟩
  | stored messageId report rest out hc =>
    cases hc
    refine ⟨[some report], _, rfl, .cons ⟨now, messageId, rfl⟩ .nil, ?_⟩
    rw [unstored_afterStore]
    rfl
  | suppressed address report rest out hc =>
    cases hc
    refine ⟨[], [], (List.append_nil _).symm, .nil, ?_⟩
    rw [unstored_next]
    rfl

theorem run_stores {x y : Db × Call} (h : Run alone x times y) :
    y.2.raw = x.2.raw ∧ ∃ done new, y.1.bounceReport = x.1.bounceReport ++ new ∧
      List.Forall₂ (IsRow x.2.raw) done new ∧ x.2.unstored = done ++ y.2.unstored := by
  induction h with
  | nil x => exact ⟨rfl, [], [], (List.append_nil _).symm, .nil, rfl⟩
  | cons hs _ ih =>
    have hs := Call.step_spec hs
    obtain ⟨done, new, hb, hrows, hleft⟩ := hs.stores
    obtain ⟨hraw, done', new', hb', hrows', hleft'⟩ := ih
    rw [hs.raw] at hraw hrows'
    refine ⟨hraw, done ++ done', new ++ new', ?_, List.rel_append hrows hrows', ?_⟩
    · rw [hb', hb, List.append_assoc]
    · rw [hleft, hleft', List.append_assoc]

theorem oneRowEach_of_ingest (h : ingest raw db times = some (db', out)) :
    OneRowEach raw db db' := by
  obtain ⟨c, hrun, hc⟩ := ingest_eq_some.mp h
  obtain ⟨-, done, new, hb, hrows, hleft⟩ := run_stores hrun
  have hdone : wanted raw = done := by
    have hnil : c.unstored = [] := by rw [Call.unstored, hc]
    rw [← unstored_start, hleft, hnil, List.append_nil]
  exact ⟨new, hb, hdone ▸ hrows⟩

end Stored

section Returns

theorem alone_lookup (raw : Text) (db : Db) (queueId : Text) (report : Report)
    (rest : List Report) (out : Ingested) : ∃ messageId out', ∀ now,
      alone (db, ⟨raw, .lookup queueId report rest out⟩) now =
        some (db, ⟨raw, .store messageId report rest out'⟩) := by
  simp only [alone, Call.step]
  split
  · exact ⟨_, _, fun _ ↦ rfl⟩
  · exact ⟨_, _, fun _ ↦ rfl⟩

theorem returns_store {report : Report} {rest : List Report}
    (hrest : ∀ db out, ∃ times db' out', Run alone (db, ⟨raw, next out rest⟩) times
      (db', ⟨raw, .returned out'⟩)) (messageId : Option Uuid) (db : Db) (out : Ingested) :
    ∃ times db' out', Run alone (db, ⟨raw, .store messageId report rest out⟩) times
      (db', ⟨raw, .returned out'⟩) := by
  set db₁ : Db := { db with bounceReport := db.bounceReport ++ [bounceRow 0 raw messageId report] }
  have hstore : alone (db, ⟨raw, .store messageId report rest out⟩) 0 =
      some (db₁, ⟨raw, afterStore report rest out⟩) := rfl
  rcases left_afterStore raw report rest out with ⟨-, -, address, -, he⟩ | ⟨-, -, he⟩
  · rw [he] at hstore
    obtain ⟨times, db', out', hrun⟩ := hrest
      (Suppression.add db₁ 0 none address .hardBounce "dsn".toList report.diagnostic)
      { out with suppressed := out.suppressed + 1 }
    exact ⟨0 :: 0 :: times, db', out', .cons hstore (.cons rfl hrun)⟩
  · rw [he] at hstore
    obtain ⟨times, db', out', hrun⟩ := hrest db₁ out
    exact ⟨0 :: times, db', out', .cons hstore hrun⟩

theorem returns_next (raw : Text) (reports : List Report) (db : Db) (out : Ingested) :
    ∃ times db' out', Run alone (db, ⟨raw, next out reports⟩) times
      (db', ⟨raw, .returned out'⟩) := by
  induction reports generalizing db out with
  | nil => exact ⟨[], db, out, .nil _⟩
  | cons report rest ih =>
    simp only [next]
    cases report.relayQueueId with
    | none => exact returns_store ih none db _
    | some queueId =>
      obtain ⟨messageId, out₁, hlookup⟩ :=
        alone_lookup raw db queueId report rest { out with reports := out.reports + 1 }
      obtain ⟨times, db', out', hrun⟩ := returns_store ih messageId db out₁
      exact ⟨0 :: times, db', out', .cons (hlookup 0) hrun⟩

/-- When no statement fails, `ingest` returns. -/
theorem ingest_returns (raw : Text) (db : Db) :
    ∃ times db' out, ingest raw db times = some (db', out) := by
  have hrun : ∃ times db' out', Run alone (db, start raw) times (db', ⟨raw, .returned out'⟩) := by
    unfold start
    split
    · exact ⟨[0], _, _, .one rfl⟩
    · exact returns_next raw _ db {}
  obtain ⟨times, db', out, hrun⟩ := hrun
  exact ⟨times, db', out, ingest_eq_some.mpr ⟨_, hrun, rfl⟩⟩

end Returns

theorem sameVerdicts_store {messageId : Option Uuid} {report : Report} {rest : List Report}
    (h : Run alone (db, ⟨raw, .store messageId report rest out⟩) times (db', c)) :
    SameVerdicts db db' ↔ times = [] := by
  cases h with
  | nil => exact iff_of_true ⟨rfl, rfl⟩ rfl
  | cons hs hrest =>
    cases hs
    -- no statement after the insert takes the row away again
    obtain ⟨-, -, new, hb, -, -⟩ := run_stores hrest
    refine iff_of_false (fun hsame ↦ ?_) (List.cons_ne_nil _ _)
    have hlength := congrArg List.length (hsame.1.symm.trans hb)
    simp only [List.length_append, List.length_singleton] at hlength
    omega

theorem sameVerdicts_iff (h : attempt raw db times = some db') :
    SameVerdicts db db' ↔ times.length ≤ beforeInsert raw := by
  obtain ⟨c, hrun, hfail⟩ := attempt_eq_some.mp h
  unfold start at hrun
  cases hp : parse raw with
  | nil =>
    rw [hp] at hrun
    cases hrun with
    | nil => exact iff_of_true ⟨rfl, rfl⟩ (Nat.zero_le _)
    | cons hs hrun =>
      cases hs
      cases hrun with
      | nil => cases hfail
      | cons hs hrun => cases hs
  | cons report rest =>
    rw [hp] at hrun
    simp only [next] at hrun
    cases hq : report.relayQueueId with
    | none =>
      have hzero : beforeInsert raw = 0 := by simp [beforeInsert, hp, hq]
      rw [hq] at hrun
      rw [sameVerdicts_store hrun, hzero, Nat.le_zero, List.length_eq_zero_iff]
    | some queueId =>
      have hone : beforeInsert raw = 1 := by simp [beforeInsert, hp, hq]
      rw [hq] at hrun
      cases hrun with
      | nil => exact iff_of_true ⟨rfl, rfl⟩ (Nat.zero_le _)
      | cons hs hrun =>
        obtain ⟨messageId, out', hlookup⟩ :=
          alone_lookup raw db queueId report rest { ({} : Ingested) with reports := 1 }
        obtain rfl := Option.some.inj ((hlookup _).symm.trans hs)
        rw [sameVerdicts_store hrun, hone, List.length_cons, ← List.length_eq_zero_iff]
        omega

/-- Ingestion is all or nothing exactly when every attempt that fails does so
at the first insert or before it. -/
theorem allOrNothing_iff (raw : Text) (db : Db) (attempts : List (List Time)) :
    AllOrNothing raw db attempts ↔
      Along (attempt raw) (fun _ times ↦ times.length ≤ beforeInsert raw) db attempts := by
  have hsame : Throughout (attempt raw) SameVerdicts db attempts ↔
      Along (attempt raw) (fun _ times ↦ times.length ≤ beforeInsert raw) db attempts :=
    throughout_iff (fun _ ↦ ⟨rfl, rfl⟩)
      (fun _ _ _ h h' ↦ ⟨h'.1.trans h.1, h'.2.trans h.2⟩) (fun _ _ _ (_ : True) _ ↦ trivial)
      (fun _ _ _ _ h ↦ sameVerdicts_iff h) trivial
  refine ⟨fun h ↦ hsame.mp h.unchanged, fun h ↦ ⟨hsame.mpr h, ?_⟩⟩
  intro db₁ times db₂ out hrun hingest
  obtain ⟨hb, -⟩ := hsame.mpr h [] attempts db db₁ (List.prefix_refl _) (.nil db) hrun
  obtain ⟨new, hnew, hrows⟩ := oneRowEach_of_ingest hingest
  exact ⟨new, hb ▸ hnew, hrows⟩

end Attempts

attribute [local instance] Platform.ascii

/-- The statement that suppresses the address fails, the relay requeues, and
the second attempt stores the bounce again. -/
theorem retry_stores_twice : ¬ ∀ (_ : Platform) (raw : Text) (db : Db)
    (attempts : List (List Time)), AllOrNothing raw db attempts := by
  intro h
  have hfirst : (exec (attempt hardBounce) {} [[0, 0]]).any fun db₁ ↦
      (ingest hardBounce db₁ [5, 5, 5]).any fun x ↦ x.1.bounceReport.length = 2 := by
    decide +kernel
  obtain ⟨db₁, hrun, hsecond⟩ := run_of_any hfirst
  obtain ⟨⟨db₂, out⟩, hingest, htwo⟩ := (Option.any_eq_true _ _).mp hsecond
  obtain ⟨new, hnew, hrows⟩ :=
    (h Platform.ascii hardBounce {} [[0, 0]]).oneRowEach _ _ _ _ hrun hingest
  have hone : (wanted hardBounce).length = 1 := by decide +kernel
  have htwo : db₂.bounceReport.length = 2 := of_decide_eq_true htwo
  rw [hnew, List.length_append, ← hrows.length_eq, hone] at htwo
  cases htwo

end Postbud.Bounce
