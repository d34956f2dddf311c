import Postbud.Api.RelayQueue
import Postbud.Core.Showq

namespace Postbud.QueueReport

open Lib Lib.Text Api RelayQueue Showq

/-- How reading the socket ended: the far end hung up after these bytes, or
the connection, the read or the timeout failed. -/
inductive Read
  | eof (bytes : Bytes)
  | failed

structure Post where
  authorization : Text
  body : Text
  deriving DecidableEq

section Report

variable [SerdeJson]

def asNdjson (entries : List Queued) : Text :=
  entries.flatMap fun e ↦ SerdeJson.toText ⟨e.queueId, e.queueName, [⟨e.reason⟩]⟩ ++ ['\n']

/-- One round of the reporter: what it posts after a read, if anything. -/
def report (token : Text) : Read → Option Post
  | .eof bytes => some ⟨"Bearer ".toList ++ token, asNdjson (Showq.parse bytes)⟩
  | .failed => none

theorem parse_asNdjson_map [LawfulSerdeJson] (entries : List Queued) :
    RelayQueue.parse (asNdjson entries) =
      entries.map fun e ↦ Queued.ofRaw ⟨e.queueId, e.queueName, [⟨e.reason⟩]⟩ := by
  have hlines := parse_lines (entries.map fun e ↦ ⟨e.queueId, e.queueName, [⟨e.reason⟩]⟩)
  rw [List.flatMap_map, List.map_map] at hlines
  exact hlines

theorem queueIds_asNdjson [LawfulSerdeJson] (entries : List Queued) :
    (RelayQueue.parse (asNdjson entries)).map (·.queueId) = entries.map (·.queueId) := by
  rw [parse_asNdjson_map, List.map_map]
  rfl

def Lists (records : List Record) (queueId : Text) : Prop :=
  ∃ r ∈ records, ∃ e ∈ r.entry, e.queueId = queueId

variable [Platform]

/-- After a read of these bytes no message that the queue lists and the read
does not is concluded delivered, whatever the database holds. -/
def Spares (records : List Record) (bytes : Bytes) : Prop :=
  ∀ (token : Text) (bounceToken : Option Text) (db : Db) (now : Time),
    ∀ post ∈ report token (.eof bytes), ∀ m ∈ db.message,
      ∀ m' ∈ (ingest bounceToken (some post.authorization) db now post.body).1.message,
        m'.id = m.id → ∀ queueId, m.relayQueueId = some queueId → Lists records queueId →
          queueId ∉ (Showq.parse bytes).map (·.queueId) → m'.relayState = some .delivered →
            m.relayState = some .delivered

variable {records : List Record} {bytes : Bytes} {queueId : Text}

omit [SerdeJson] [Platform] in
theorem mem_queueIds_filterMap (records : List Record) (queueId : Text) :
    queueId ∈ (records.filterMap Record.entry).map (·.queueId) ↔ Lists records queueId := by
  simp only [Lists, List.mem_map, List.mem_filterMap, Option.mem_def]
  constructor
  · intro h
    obtain ⟨e, ⟨r, hr, he⟩, hid⟩ := h
    exact ⟨r, hr, e, he, hid⟩
  · intro h
    obtain ⟨r, hr, e, he, hid⟩ := h
    exact ⟨e, ⟨r, hr, he⟩, hid⟩

omit [SerdeJson] in
theorem authorizeRelay_bearer (token : Text) :
    authorizeRelay (some token) (some ("Bearer ".toList ++ token)) = .ok () := by
  simp only [authorizeRelay, Option.bind_some, stripPrefix_append, Option.map_some,
    Option.getD_some, Api.hash, trim_trim, ne_eq, not_true_eq_false, if_false]

theorem not_spares [LawfulSerdeJson] (hl : Lists records queueId)
    (hlost : queueId ∉ (Showq.parse bytes).map (·.queueId)) : ¬ Spares records bytes := by
  intro hs
  set m : Message := { handedOver with relayQueueId := some queueId }
  set db : Db := { message := Table.empty.insertOrIgnore m }
  have hm : m ∈ db.message := by
    rw [Table.mem_def, Table.insertOrIgnore_of_free fun x hx ↦ absurd hx (Table.not_mem_empty x)]
    exact List.mem_singleton.mpr rfl
  have habs : absent db (minutes 60) ((RelayQueue.parse (asNdjson (Showq.parse bytes))).map
      (·.queueId)) graceSecs m := by
    refine absent_iff.mpr ⟨queueId, ⟨rfl, rfl, nofun, ⟨0, rfl, by decide⟩, nofun⟩, ?_⟩
    rwa [queueIds_asNdjson]
  have hnew : deliver (minutes 60) m ∈ (ingest (some []) (some ("Bearer ".toList ++ [])) db
      (minutes 60) (asNdjson (Showq.parse bytes))).1.message := by
    simp only [ingest, authorizeRelay_bearer]
    exact mem_reconcile.mpr ⟨m, hm, if_pos habs⟩
  cases hs [] (some []) db (minutes 60) _ rfl m hm _ hnew rfl queueId rfl hl hlost rfl

/-- A read that is cut off spares the messages it has lost exactly when it
has lost none: every queue id that the queue lists is listed by the records
that the read holds whole or up to the end of a pair. -/
theorem spares_iff [LawfulSerdeJson] (records : List Record) (bytes : Bytes)
    (h : bytes <+: response records) (hne : bytes ≠ response records) :
    Spares records bytes ↔
      ∀ queueId, Lists records queueId → Lists (received (protocol :: records) bytes.length) queueId := by
  have hread (queueId : Text) : queueId ∈ (Showq.parse bytes).map (·.queueId) ↔
      Lists (received (protocol :: records) bytes.length) queueId := by
    rw [parse_cut h hne, mem_queueIds_filterMap]
  constructor
  · intro hs queueId hl
    by_contra hlost
    exact not_spares hl (mt (hread queueId).mp hlost) hs
  · intro hl token bounceToken db now post hpost m hm m' hm' hid queueId hq hlisted hlost
    exact absurd ((hread queueId).mpr (hl queueId hlisted)) hlost

end Report

attribute [local instance] Platform.ascii QueueJson.compact

def deferredQueue : List Record :=
  [[⟨utf8 "queue_name".toList, utf8 "deferred".toList, by decide, by decide, by decide⟩,
    ⟨utf8 "queue_id".toList, utf8 "3F373F5418".toList, by decide, by decide, by decide⟩]]

theorem spares_unterminated :
    Spares deferredQueue ((protocol :: deferredQueue).flatMap Record.bytes) :=
  let _ := QueueJson.compact_lawful
  (spares_iff deferredQueue _ (List.prefix_append _ _)
    (fun h ↦ absurd (congrArg List.length h) (by decide +kernel))).mpr fun queueId hl ↦ by
      rw [received_length]
      obtain ⟨r, hr, hl⟩ := hl
      exact ⟨r, List.mem_cons_of_mem _ hr, hl⟩

/-- The socket hangs up before a byte is read, and the queue is posted as empty. -/
theorem empty_read_loses_queue : ¬ ∀ (_ : Platform) (_ : SerdeJson) (_ : LawfulSerdeJson)
    (records : List Record) (bytes : Bytes), bytes <+: response records →
      bytes ≠ response records → Spares records bytes := by
  intro h
  let _ := QueueJson.compact_lawful
  have hlisted : Lists deferredQueue "3F373F5418".toList :=
    (mem_queueIds_filterMap _ _).mp (by decide +kernel)
  exact not_spares hlisted (by decide +kernel) (h Platform.ascii QueueJson.compact
    QueueJson.compact_lawful deferredQueue [] List.nil_prefix (by decide +kernel))

end Postbud.QueueReport
