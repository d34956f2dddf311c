import Postbud.System.BounceOrder
import Postbud.System.Invariant

namespace Postbud.System

open Lib Lib.Transition

/-- The system and the relay it hands messages to. `queue` are the queue ids
of what the relay holds; `handed` is a ghost: which message was given which
queue id, in the order they were handed over. -/
structure Relayed [Platform] where
  state : State
  queue : List Text := []
  handed : List (Text × Uuid) := []

inductive RelayAction
  | system (a : Action)
  | leaves (queueId : Text)
  deriving DecidableEq

/-- The queue id that the relay gives to a message it takes. -/
def Action.gives : Action → Option (Text × Uuid)
  | .handoff d (.accepted (some queueId)) => some (queueId, d.claimed.id)
  | _ => none

/-- The message that was given a queue id last. -/
def lastGiven (handed : List (Text × Uuid)) (queueId : Text) : Option Uuid :=
  (handed.reverse.find? (·.1 = queueId)).map (·.2)

theorem lastGiven_concat (handed : List (Text × Uuid)) (queueId : Text) (id : Uuid) (q : Text) :
    lastGiven (handed ++ [(queueId, id)]) q =
      if queueId = q then some id else lastGiven handed q := by
  simp only [lastGiven, List.reverse_append, List.reverse_singleton, List.singleton_append,
    List.find?_cons]
  by_cases hq : queueId = q
  · simp [hq]
  · simp [hq]

section Runs

variable [Platform]

/-- Queue ids are unique among the messages that the relay holds at one time. -/
def Relayed.step (w : Relayed) : RelayAction → Option Relayed
  | .system a =>
    match a.gives with
    | none => (System.step w.state a).map fun s ↦ { w with state := s }
    | some (queueId, id) =>
      if queueId ∈ w.queue then none
      else (System.step w.state a).map fun s ↦
        { state := s, queue := w.queue ++ [queueId], handed := w.handed ++ [(queueId, id)] }
  | .leaves queueId => some { w with queue := w.queue.erase queueId }

/-- Reports reach only the message that was given their queue id last,
whichever reports come in: a snapshot of the relay's queue changes no other
row, and a DSN is joined to no other message. -/
structure OnlyLatest (w : Relayed) : Prop where
  reconcile : ∀ entries graceSecs queueId, queueId ∈ entries.map Queued.queueId →
    ∀ m ∈ w.state.db.message, m.relayQueueId = some queueId → lastGiven w.handed queueId ≠ some m.id →
      ∀ m' ∈ (RelayQueue.reconcile w.state.db w.state.now entries graceSecs).1.message,
        m'.id = m.id → m' = m
  ingest : ∀ raw times db out, Bounce.ingest raw w.state.db times = some (db, out) →
    ∃ new, db.bounceReport = w.state.db.bounceReport ++ new ∧
      ∀ b ∈ new, ∀ queueId id, b.relayQueueId = some queueId → b.messageId = some id →
        lastGiven w.handed queueId = some id

/-- Every message that has a queue id is the last one that was given it. -/
def CarriersLatest (w : Relayed) : Prop :=
  ∀ m ∈ w.state.db.message, ∀ queueId, m.relayQueueId = some queueId →
    lastGiven w.handed queueId = some m.id

/-- The relay gives out no queue id that another message has, and no message
records one that has been given out since. -/
def NotReused (w : Relayed) : RelayAction → Prop
  | .system (.handoff d (.accepted (some queueId))) =>
    ∀ m ∈ w.state.db.message, m.relayQueueId = some queueId → m.id = d.claimed.id
  | .system (.record d) =>
    ∀ queueId, d.outcome = some (.accepted (some queueId)) → lastGiven w.handed queueId = some d.claimed.id
  | _ => True

variable {w w' : Relayed} {s s' : State} {a : Action} {b : RelayAction}

/-- A queue id in a snapshot says its name and reason to every row that has it. -/
theorem observed_by_reconcile {db : Db} {m : Message} (now : Time) (entry : Queued) (graceSecs : ℤ)
    (hm : m ∈ db.message) (hq : m.relayQueueId = some entry.queueId)
    (hne : m.relayState ≠ some (RelayQueue.stateOf entry.queueName)) :
    RelayQueue.observe now entry m ∈ (RelayQueue.reconcile db now [entry] graceSecs).1.message := by
  rw [Table.mem_def, RelayQueue.rows_reconcile]
  refine List.mem_map.mpr ⟨m, hm, ?_⟩
  have habs : RelayQueue.absent db now ([entry].map (·.queueId)) graceSecs m = false := by
    simp [RelayQueue.absent, hq]
  have hchanges : RelayQueue.changes entry m = true := by simp [RelayQueue.changes, hq, hne]
  rw [habs, if_neg Bool.false_ne_true]
  simp only [RelayQueue.observed, List.foldl_cons, List.foldl_nil, hchanges, if_true]

theorem onlyLatest_iff : OnlyLatest w ↔ CarriersLatest w := by
  constructor
  · intro h m hm queueId hq
    by_contra hlast
    obtain ⟨queueName, hname⟩ : ∃ queueName, m.relayState ≠ some (RelayQueue.stateOf queueName) := by
      by_cases hs : m.relayState = some .active
      · exact ⟨"deferred".toList, by rw [hs]; decide⟩
      · exact ⟨"active".toList, hs⟩
    have hmem := observed_by_reconcile w.state.now ⟨queueId, queueName, none⟩ 0 hm hq hname
    have hself := h.reconcile [⟨queueId, queueName, none⟩] 0 queueId List.mem_cons_self m hm hq hlast
      _ hmem rfl
    exact hname (congrArg Message.relayState hself).symm
  · intro h
    constructor
    · intro entries graceSecs queueId _ m hm hq hlast
      exact absurd (h m hm queueId hq) hlast
    · intro raw times db out hingest
      refine ⟨_, Bounce.rows_of_ingest hingest, fun b hb queueId id hq hid ↦ ?_⟩
      obtain ⟨m, hm, hmid, hmq⟩ := Bounce.joined_of_mem_newRows hb hq hid
      rw [← hmid]
      exact h m hm queueId hmq

theorem Relayed.step_cases (h : w.step b = some w') :
    (∃ queueId, b = .leaves queueId ∧ w'.state = w.state ∧ w'.handed = w.handed) ∨
    (∃ a, b = .system a ∧ System.step w.state a = some w'.state ∧ a.gives = none ∧
      w'.handed = w.handed) ∨
    ∃ a queueId id, b = .system a ∧ System.step w.state a = some w'.state ∧
      a.gives = some (queueId, id) ∧ w'.handed = w.handed ++ [(queueId, id)] := by
  cases b with
  | leaves queueId =>
    obtain rfl := Option.some.inj h
    exact .inl ⟨queueId, rfl, rfl, rfl⟩
  | system a =>
    simp only [Relayed.step] at h
    split at h
    · rename_i hg
      obtain ⟨s, hs, rfl⟩ := Option.map_eq_some_iff.mp h
      exact .inr (.inl ⟨a, rfl, hs, hg, rfl⟩)
    · rename_i queueId id hg
      split at h
      · cases h
      · obtain ⟨s, hs, rfl⟩ := Option.map_eq_some_iff.mp h
        exact .inr (.inr ⟨a, queueId, id, rfl, hs, hg, rfl⟩)

omit [Platform] in
theorem gives_eq_some {queueId : Text} {id : Uuid} (h : a.gives = some (queueId, id)) :
    ∃ d, a = .handoff d (.accepted (some queueId)) ∧ d.claimed.id = id := by
  unfold Action.gives at h
  split at h
  · rename_i d q
    obtain ⟨rfl, rfl⟩ := Prod.mk.inj (Option.some.inj h)
    exact ⟨d, rfl, rfl⟩
  · cases h

theorem Relayed.inv_step (hi : Inv w.state) (h : w.step b = some w') : Inv w'.state := by
  rcases Relayed.step_cases h with ⟨q, -, hs, -⟩ | ⟨a, -, hs, -⟩ | ⟨a, q, id, -, hs, -⟩
  · rwa [hs]
  · exact hi.step hs
  · exact hi.step hs

/-- Only a record gives a row another queue id. -/
theorem Step.relayQueueId (h : Step s a s') (ha : ∀ d, a ≠ .record d) {m' : Message}
    (hm' : m' ∈ s'.db.message) : m'.relayQueueId = none ∨
      ∃ m ∈ s.db.message, m.id = m'.id ∧ m.relayQueueId = m'.relayQueueId := by
  rcases h.added_or_touched hm' with ⟨c, id, suppressed, rfl, -⟩ | ⟨m, hm, htouched⟩
  · exact .inl rfl
  · obtain ⟨hmail, hout | ⟨d, -, hd, -⟩⟩ := htouched.mail
    · exact .inr ⟨m, hm, hmail.id.symm, hout.relayQueueId.symm⟩
    · exact absurd hd (ha d)

theorem carriers_record_iff {d : Delivery} {outcome : Outcome} (hi : Inv s) (hd : d ∈ s.held)
    (ho : d.outcome = some outcome) {given : Text → Option Uuid}
    (hc : ∀ m ∈ s.db.message, ∀ q, m.relayQueueId = some q → given q = some m.id) :
    (∀ m ∈ (Worker.deliverOne Retry.SCHEDULE s.db s.now d.claimed outcome).message,
      ∀ q, m.relayQueueId = some q → given q = some m.id) ↔
    ∀ q, d.outcome = some (.accepted (some q)) → given q = some d.claimed.id := by
  constructor
  · intro h q hq
    obtain rfl := Option.some.inj (ho.symm.trans hq)
    obtain ⟨m, hm, hid, -⟩ := hi.held d hd
    have hset := Worker.settle_mem_deliverOne Retry.SCHEDULE s.now (.accepted (some q)) hm hid
    have hgiven := h _ hset q rfl
    rwa [(Message.SameMail.settle _ _ _ _ m).id, hid] at hgiven
  · intro h m' hm' q hq
    rw [Table.mem_def, Worker.rows_deliverOne] at hm'
    obtain ⟨m, hm, rfl⟩ := List.mem_map.mp hm'
    split_ifs at hq ⊢ with hid
    · rw [(Message.SameMail.settle _ _ _ _ m).id]
      rcases Worker.settle_cases Retry.SCHEDULE s.now d.claimed outcome with
        ⟨queueId, rfl, he⟩ | ⟨detail, he, -⟩ | ⟨next, detail, he, -⟩
      · rw [he] at hq
        obtain rfl : queueId = some q := hq
        rw [hid]
        exact h q ho
      · rw [he] at hq
        exact hc m hm q hq
      · rw [he] at hq
        exact hc m hm q hq
    · exact hc m hm q hq

theorem carriersLatest_step_iff (hi : Inv w.state) (hc : CarriersLatest w)
    (h : w.step b = some w') : CarriersLatest w' ↔ NotReused w b := by
  rcases Relayed.step_cases h with
    ⟨q, rfl, hs, hh⟩ | ⟨a, rfl, hs, hg, hh⟩ | ⟨a, q, id, rfl, hs, hg, hh⟩
  · refine iff_of_true ?_ trivial
    rwa [CarriersLatest, hs, hh]
  · have hstep := step_spec hs
    by_cases ha : ∃ d, a = .record d
    · obtain ⟨d, rfl⟩ := ha
      obtain ⟨s', queue', handed'⟩ := w'
      obtain rfl : handed' = w.handed := hh
      cases hstep with
      | record _ outcome hd ho => exact carriers_record_iff hi hd ho hc
    · refine iff_of_true ?_ ?_
      · intro m' hm' q hq
        rcases hstep.relayQueueId (fun d hd ↦ ha ⟨d, hd⟩) hm' with hnone | ⟨m, hm, hid, hmq⟩
        · rw [hnone] at hq
          cases hq
        · rw [hh, ← hid]
          exact hc m hm q (hmq.trans hq)
      · unfold NotReused
        split
        · rename_i d q he
          rw [RelayAction.system.inj he] at hg
          cases hg
        · rename_i d hd
          exact absurd ⟨d, RelayAction.system.inj hd⟩ ha
        · trivial
  · obtain ⟨d, rfl, rfl⟩ := gives_eq_some hg
    obtain ⟨s', queue', handed'⟩ := w'
    obtain rfl : handed' = w.handed ++ [(q, d.claimed.id)] := hh
    cases step_spec hs with
    | handoff _ _ hd ho =>
      constructor
      · intro h' m hm hq
        have hlast := h' m hm q hq
        rw [lastGiven_concat, if_pos rfl] at hlast
        exact (Option.some.inj hlast).symm
      · intro hnew m hm q' hq'
        rw [lastGiven_concat]
        split
        · rename_i he
          subst he
          rw [hnew m hm hq']
        · exact hc m hm q' hq'

/-- Reports reach only the message that was last given their queue id, in
every state of a run, exactly when the run gives out no queue id that another
message has and records none that has been given out again. -/
theorem only_latest_iff (now : Time) (l : List RelayAction) :
    Always Relayed.step OnlyLatest ⟨{ now }, [], []⟩ l ↔
      Along Relayed.step NotReused ⟨{ now }, [], []⟩ l := by
  have hiff : Always Relayed.step OnlyLatest ⟨{ now }, [], []⟩ l ↔
      Always Relayed.step CarriersLatest ⟨{ now }, [], []⟩ l :=
    forall₄_congr fun _ _ _ _ ↦ onlyLatest_iff
  rw [hiff]
  exact always_iff (J := fun w ↦ Inv w.state) (fun _ _ _ hi hs ↦ Relayed.inv_step hi hs)
    (fun _ _ _ hi hc hs ↦ carriersLatest_step_iff hi hc hs) (inv_init now)
    fun _ hm ↦ absurd hm (Table.not_mem_empty _)

end Runs

def reminder : NewMessage := { invoice with idempotencyKey := "reminder-1".toList }

/-- The relay delivers the invoice, and gives its queue id to the reminder. -/
def reusedId : List RelayAction :=
  let q := some "08785F9FED".toList
  let first : Delivery := ⟨"w1".toList, claimedInvoice, 0, none⟩
  let second : Delivery := ⟨"w1".toList, { claimedInvoice with id := 8 }, 0, none⟩
  [.submit invoice, .accept 0 7, .accept 0 7, .accept 0 7, .accept 0 7, .claim "w1".toList 20 [],
    .handoff first (.accepted q), .record { first with outcome := some (.accepted q) }].map .system ++
  [.leaves "08785F9FED".toList] ++
  [.tick 86400000000, .submit reminder, .accept 1 8, .accept 1 8, .accept 1 8, .accept 1 8,
    .claim "w1".toList 20 [], .handoff second (.accepted q),
    .record { second with outcome := some (.accepted q) }].map .system

attribute [local instance] Platform.ascii

/-- The next report that the reminder is deferred says so of the invoice too. -/
theorem report_reaches_earlier_message : ¬ ∀ (_ : Platform) (now : Time) (l : List RelayAction),
    Always Relayed.step OnlyLatest ⟨{ now }, [], []⟩ l := by
  intro h
  have hrun : (exec Relayed.step ⟨{ now := 0 }, [], []⟩ reusedId).any fun w ↦
      lastGiven w.handed "08785F9FED".toList = some 8 &&
        w.state.db.message.rows.any fun m ↦ m.id = 7 &&
          m.relayQueueId = some "08785F9FED".toList && m.relayState = none := by decide +kernel
  obtain ⟨w, hw, hp⟩ := run_of_any hrun
  obtain ⟨hlast, hp⟩ := Bool.and_eq_true_iff.mp hp
  obtain ⟨m, hm, hp⟩ := List.any_eq_true.mp hp
  simp only [Bool.and_eq_true, decide_eq_true_eq] at hlast hp
  obtain ⟨⟨hid, hq⟩, hstate⟩ := hp
  have hmem := observed_by_reconcile w.state.now
    ⟨"08785F9FED".toList, "deferred".toList, some "mailbox full".toList⟩ 15 hm hq (by rw [hstate]; exact nofun)
  have hself := (h Platform.ascii 0 reusedId reusedId w (List.prefix_refl _) hw).reconcile _ 15 _
    List.mem_cons_self m hm hq (by rw [hlast, hid]; decide) _ hmem rfl
  have hlabel : some RelayState.deferred = m.relayState := congrArg Message.relayState hself
  rw [hstate] at hlabel
  cases hlabel

end Postbud.System
