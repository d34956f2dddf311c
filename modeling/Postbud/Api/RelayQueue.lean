import Postbud.Api.Auth
import Postbud.Core.QueueJson
import Postbud.Db.RelayQueue

namespace Postbud.RelayQueue

open Lib Lib.Text Api

/-- Seconds of slack between `postqueue` running on the relay and the request landing. -/
def graceSecs : ℤ := 15

section Ingest

variable [Platform] [SerdeJson]

/-- `POST /v1/relay/queue`. -/
def ingest (bounceToken authorization : Option Text) (db : Db) (now : Time) (body : Text) :
    Db × Except ApiError Reconciled :=
  match authorizeRelay bounceToken authorization with
  | .error err => (db, .error err)
  | .ok () =>
    let (db, result) := reconcile db now (parse body) graceSecs
    (db, .ok result)

omit [Platform] in
/-- A line that says something and cannot be read as an entry. -/
def Unreadable (body : Text) : Prop := ∃ l ∈ lines body, trim l ≠ [] ∧ SerdeJson.fromStr l = none

omit [Platform] in
def Named (body : Text) (queueId : Text) : Prop :=
  ∃ l ∈ lines body, trim l ≠ [] ∧ ∃ e, SerdeJson.fromStr l = some e ∧ e.queueId = queueId

omit [SerdeJson] in
/-- No message of the first database is delivered in the second and not in the first. -/
def MarksNothing (db db' : Db) : Prop :=
  ∀ m ∈ db.message, ∀ m' ∈ db'.message, m'.id = m.id → m'.relayState = some .delivered →
    m.relayState = some .delivered

omit [SerdeJson] in
/-- The relay took the message before the grace, under this queue id, which
nothing has said the end of. -/
structure Outstanding (db : Db) (now : Time) (queueId : Text) (m : Message) : Prop where
  known : m.relayQueueId = some queueId
  sent : m.status = .sent
  relayState : m.relayState ≠ some .delivered
  completed : ∃ t ∈ m.completedAt, t < now - seconds graceSecs
  noBounce : ∀ b ∈ db.bounceReport, b.relayQueueId ≠ some queueId

variable {db : Db} {now : Time} {entries : List Queued} {body : Text} {m : Message}

omit [Platform] in
theorem mem_parse {queueId : Text} :
    queueId ∈ (parse body).map (·.queueId) ↔ Named body queueId := by
  simp only [parse, List.mem_map, List.mem_filterMap, List.mem_filter, decide_eq_true_eq,
    Option.map_eq_some_iff]
  constructor
  · intro h
    obtain ⟨_, ⟨l, ⟨hl, hne⟩, e, he, rfl⟩, hid⟩ := h
    exact ⟨l, hl, hne, e, he, hid⟩
  · intro h
    obtain ⟨l, hl, hne, e, he, hid⟩ := h
    exact ⟨Queued.ofRaw e, ⟨l, ⟨hl, hne⟩, e, he, rfl⟩, hid⟩

omit [SerdeJson] in
theorem absent_iff {ids : List Text} :
    absent db now ids graceSecs m ↔ ∃ queueId, Outstanding db now queueId m ∧ queueId ∉ ids := by
  unfold absent
  cases hq : m.relayQueueId with
  | none =>
    apply iff_of_false Bool.false_ne_true
    intro h
    obtain ⟨queueId, ho, -⟩ := h
    cases hq.symm.trans ho.known
  | some queueId =>
    simp only [Bool.and_eq_true, decide_eq_true_eq, ne_eq, List.all_eq_true, Option.any_eq_true]
    constructor
    · intro h
      obtain ⟨⟨⟨⟨hs, hr⟩, hc⟩, hn⟩, hb⟩ := h
      exact ⟨queueId, ⟨hq, hs, hr, hc, hb⟩, hn⟩
    · intro h
      obtain ⟨queueId', ho, hn⟩ := h
      obtain rfl := Option.some.inj (hq.symm.trans ho.known)
      exact ⟨⟨⟨⟨ho.sent, ho.relayState⟩, ho.completed⟩, hn⟩, ho.noBounce⟩

omit [SerdeJson] in
theorem relayState_of_absent {ids : List Text} {grace : ℤ} (h : absent db now ids grace m) :
    m.relayState ≠ some .delivered := by
  unfold absent at h
  cases hq : m.relayQueueId with
  | none => simp only [hq, Bool.false_eq_true] at h
  | some queueId =>
    simp only [hq, Bool.and_eq_true, decide_eq_true_eq] at h
    exact h.1.1.1.2

omit [SerdeJson] in
theorem mem_reconcile {grace : ℤ} {m' : Message} :
    m' ∈ (reconcile db now entries grace).1.message ↔
      ∃ m ∈ db.message, (if absent db now (entries.map (·.queueId)) grace m then
        deliver now m else observed now entries m) = m' := by
  rw [Table.mem_def, rows_reconcile, List.mem_map]
  rfl

omit [SerdeJson] in
theorem marksNothing_reconcile_iff {grace : ℤ} :
    MarksNothing db (reconcile db now entries grace).1 ↔
      ∀ m ∈ db.message, ¬ absent db now (entries.map (·.queueId)) grace m := by
  constructor
  · intro h m hm habs
    exact relayState_of_absent habs (h m hm _ (mem_reconcile.mpr ⟨m, hm, if_pos habs⟩) rfl rfl)
  · intro h m hm m' hm' hid hd
    obtain ⟨m₀, hm₀, rfl⟩ := mem_reconcile.mp hm'
    rw [if_neg (h m₀ hm₀)] at hid hd
    rcases observed_spec now entries m₀ with he | ⟨-, -, -, state, detail, hne, he⟩
    · rw [he] at hid hd
      exact db.message_eq_of_id hm₀ hm hid ▸ hd
    · rw [he] at hd
      exact absurd (Option.some.inj hd) hne

/-- A report with an unreadable line concludes nothing exactly when the lines
that can be read name every outstanding message. -/
theorem unreadable_marksNothing_iff (bounceToken authorization : Option Text) (db : Db)
    (now : Time) (body : Text) :
    (Unreadable body → MarksNothing db (ingest bounceToken authorization db now body).1) ↔
      (Unreadable body → authorizeRelay bounceToken authorization = .ok () →
        ∀ m ∈ db.message, ∀ queueId, Outstanding db now queueId m → Named body queueId) := by
  apply forall_congr'
  intro _
  cases hauth : authorizeRelay bounceToken authorization with
  | error err =>
    have hkeep : (ingest bounceToken authorization db now body).1 = db := by
      simp only [ingest, hauth]
    rw [hkeep]
    refine iff_of_true (fun m hm m' hm' hid hd ↦ ?_) nofun
    exact db.message_eq_of_id hm' hm hid ▸ hd
  | ok =>
    have hrec : (ingest bounceToken authorization db now body).1 =
        (reconcile db now (parse body) graceSecs).1 := by
      simp only [ingest, hauth]
    rw [hrec, marksNothing_reconcile_iff]
    simp only [absent_iff, mem_parse, not_exists, not_and, not_not, true_imp_iff]

end Ingest

attribute [local instance] Platform.ascii QueueJson.compact

def handedOver : Message where
  id := 7
  tenantId := 1
  idempotencyKey := "inv-1041".toList
  mailFrom := "invoice@example.com".toList
  fromName := none
  rcptTo := "ola@example.net".toList
  replyTo := none
  subject := "Invoice".toList
  bodyText := some "Please pay.".toList
  bodyHtml := none
  status := .sent
  attempts := 1
  nextAttemptAt := 0
  relayQueueId := some "4bXlNq2Qh8z1Yk".toList
  createdAt := 0
  completedAt := some 0

/-- A proxy's error page is posted in place of the queue, and the message is
marked as delivered. -/
theorem error_page_marks_delivered : ¬ ∀ (_ : Platform) (_ : SerdeJson)
    (bounceToken authorization : Option Text) (db : Db) (now : Time) (body : Text),
    Unreadable body → MarksNothing db (ingest bounceToken authorization db now body).1 := by
  intro h
  set db : Db := { message := Table.empty.insertOrIgnore handedOver }
  set body : Text := "<html>\n<body>502 Bad Gateway</body>\n</html>\n".toList
  have hpage : Unreadable body := ⟨"<html>".toList, by decide +kernel⟩
  have hold : handedOver ∈ db.message.rows := by decide +kernel
  have hnew : { handedOver with
      relayState := some .delivered
      relayStateAt := some (minutes 60) } ∈ (ingest (some "s3cret".toList)
        (some "Bearer s3cret".toList) db (minutes 60) body).1.message.rows := by decide +kernel
  have hd := h Platform.ascii QueueJson.compact (some "s3cret".toList)
    (some "Bearer s3cret".toList) db (minutes 60) body hpage _ hold _ hnew rfl rfl
  cases hd

end Postbud.RelayQueue
