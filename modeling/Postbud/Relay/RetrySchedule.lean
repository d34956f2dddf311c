import Mathlib.Algebra.BigOperators.Group.List.Basic
import Mathlib.Algebra.GroupWithZero.Nat
import Postbud.Relay.Worker

namespace Postbud

open Lib

/-- The time a message may spend trying. -/
def Retry.totalWindow (schedule : List ℕ) : ℕ := schedule.sum

theorem Retry.backoff_eq (schedule : List ℕ) (n : ℕ) :
    backoff schedule n = (schedule.drop n).head? := List.head?_drop.symm

namespace Worker

section Rounds

variable [Platform]

/-- What happens to a database while nobody delivers the message: where it
stands in its retries stays. -/
def Elsewhere (id : Uuid) (db db' : Db) : Prop :=
  ∀ m ∈ db.message, m.id = id →
    ∃ m' ∈ db'.message, m'.id = id ∧ m'.status = m.status ∧ m'.attempts = m.attempts

/-- The message is to be tried again after so many seconds, or is given up. -/
def Scheduled (db : Db) (id : Uuid) (now : Time) (wait : Option ℕ) : Prop :=
  ∃ m ∈ db.message, m.id = id ∧ match wait with
    | some secs => m.status = .queued ∧ m.nextAttemptAt = now + seconds secs
    | none => m.status = .failed

/-- The message is claimed, handed to the relay, which fails for now, and what
comes of it is recorded. -/
inductive Round (schedule : List ℕ) (id : Uuid) (db : Db) (wait : Option ℕ) : Db → Prop
  | mk (db₁ db₂ : Db) (claimedAt now : Time) (worker : Text) (batch : ℕ) (locked : List Uuid)
      (msg : Claimed) (code : Option ℤ) (detail : Text) (before : Elsewhere id db db₁)
      (claimed : msg ∈ (claim db₁ claimedAt worker batch locked).2) (hid : msg.id = id)
      (during : Elsewhere id (claim db₁ claimedAt worker batch locked).1 db₂)
      (scheduled : Scheduled (deliverOne schedule db₂ now msg (.transient code detail)) id now wait) :
    Round schedule id db wait (deliverOne schedule db₂ now msg (.transient code detail))

/-- The rounds of a message until it is given up, and the waits between them. -/
inductive Rounds (schedule : List ℕ) (id : Uuid) : Db → List ℕ → Db → Prop
  | givenUp {db db' : Db} (h : Round schedule id db none db') : Rounds schedule id db [] db'
  | retry {db db' db'' : Db} {secs : ℕ} {waits : List ℕ}
      (h : Round schedule id db (some secs) db') (rest : Rounds schedule id db' waits db'') :
    Rounds schedule id db (secs :: waits) db''

/-- Where a message stands between two rounds. -/
def After (db : Db) (id : Uuid) (attempts : ℕ) : Prop :=
  ∃ m ∈ db.message, m.id = id ∧ m.status = .queued ∧ m.attempts = attempts

variable {schedule : List ℕ} {id : Uuid} {db db' : Db} {n : ℕ} {wait : Option ℕ} {waits : List ℕ}

theorem Elsewhere.refl (id : Uuid) (db : Db) : Elsewhere id db db :=
  fun m hm hid ↦ ⟨m, hm, hid, rfl, rfl⟩

theorem After.elsewhere (h : After db id n) (he : Elsewhere id db db') : After db' id n := by
  obtain ⟨m, hm, hid, hs, ha⟩ := h
  obtain ⟨m', hm', hid', hs', ha'⟩ := he m hm hid
  exact ⟨m', hm', hid', hs'.trans hs, ha'.trans ha⟩

theorem After.claim (h : After db id n) (now : Time) (worker : Text) (batch : ℕ)
    (locked : List Uuid) : After (claim db now worker batch locked).1 id n := by
  obtain ⟨m, hm, hid, hs, ha⟩ := h
  refine ⟨if m.id ∈ claimIds db now batch locked then m.claimBy worker now else m, ?_, ?_⟩
  · rw [Table.mem_def, rows_claim]
    exact List.mem_map_of_mem hm
  · split_ifs
    · exact ⟨hid, hs, ha⟩
    · exact ⟨hid, hs, ha⟩

omit [Platform] in
theorem seconds_inj {x y : ℕ} {now : Time} (h : now + seconds x = now + seconds y) : x = y :=
  Int.ofNat.inj (Int.eq_of_mul_eq_mul_right (by decide) (Int.add_left_cancel h))

/-- A round waits as the schedule says of one attempt more than were made. -/
theorem Round.wait_eq (h : Round schedule id db wait db') (hn : After db id n) :
    wait = Retry.backoff schedule (n + 1) ∧ (wait.isSome → After db' id (n + 1)) := by
  cases h with
  | mk db₁ db₂ claimedAt now worker batch locked msg code detail before claimed hid during scheduled =>
    have h₁ := hn.elsewhere before
    obtain ⟨m₁, hm₁, hid₁, -, hn₁⟩ := h₁
    obtain ⟨m, hm, -, hmid, hattempts, -⟩ := mem_claim claimed
    obtain rfl : m = m₁ := db₁.message_eq_of_id hm hm₁ ((hmid.trans hid).trans hid₁.symm)
    have hmade : msg.attempts = n := hattempts.symm.trans hn₁
    obtain ⟨m₂, hm₂, hid₂, hs₂, hn₂⟩ := ((hn.elsewhere before).claim claimedAt worker batch
      locked).elsewhere during
    have hmem := settle_mem_deliverOne schedule now (.transient code detail) hm₂
      (hid₂.trans hid.symm)
    obtain ⟨m', hm', hid', hw⟩ := scheduled
    have hsid : (settle schedule now msg (.transient code detail) m₂).id = id := by
      rcases settle_cases schedule now msg (.transient code detail) with
        ⟨queueId, -, h⟩ | ⟨detail', h, -⟩ | ⟨next, detail', h, -⟩ <;> rw [h] <;> exact hid₂
    obtain rfl := Db.message_eq_of_id hm' hmem (hid'.trans hsid.symm)
    cases hb : Retry.backoff schedule (n + 1) with
    | none =>
      simp only [settle, hmade, hb] at hw
      cases wait with
      | none => exact ⟨rfl, fun h ↦ by cases h⟩
      | some secs => cases hw.1
    | some delay =>
      simp only [settle, hmade, hb] at hw hmem
      cases wait with
      | none => exact absurd (hs₂.symm.trans hw) fun h ↦ by cases h
      | some secs =>
        obtain rfl := seconds_inj hw.2
        exact ⟨rfl, fun _ ↦ ⟨_, hmem, hid₂, hs₂, rfl⟩⟩

theorem Rounds.waits_eq (h : Rounds schedule id db waits db') (hn : After db id n) :
    waits = schedule.drop (n + 1) := by
  induction h generalizing n with
  | givenUp h =>
    have hnone := (h.wait_eq hn).1
    rw [Retry.backoff_eq] at hnone
    exact (List.head?_eq_none_iff.mp hnone.symm).symm
  | @retry db db' db'' secs waits h rest ih =>
    obtain ⟨hsome, hnext⟩ := h.wait_eq hn
    have hrest := ih (hnext rfl)
    obtain ⟨hlt, hget⟩ := List.getElem?_eq_some_iff.mp hsome.symm
    rw [List.drop_eq_getElem_cons hlt, hget, hrest]

omit [Platform] in
/-- A queued message is due some day. -/
theorem exists_due {m : Message} (hs : m.status = .queued) : ∃ now, m.due now := by
  cases hc : m.claimedAt with
  | none => exact ⟨m.nextAttemptAt, by simp [Message.due, hs, hc]⟩
  | some t =>
    refine ⟨max m.nextAttemptAt (t + minutes Message.CLAIM_TIMEOUT_MINUTES + 1), ?_⟩
    have hlt : t + minutes Message.CLAIM_TIMEOUT_MINUTES <
        max m.nextAttemptAt (t + minutes Message.CLAIM_TIMEOUT_MINUTES + 1) :=
      lt_of_lt_of_le (Int.lt_add_one_of_le le_rfl) (le_max_right _ _)
    simp only [Message.due, hs, hc, Option.all_some, decide_true, Bool.true_and, Bool.and_eq_true,
      decide_eq_true_eq]
    exact ⟨le_max_left _ _, Int.lt_sub_right_of_add_lt hlt⟩

theorem mem_claim_of_due {m : Message} (hm : m ∈ db.message) {now : Time} (hdue : m.due now)
    (worker : Text) : ∃ msg ∈ (claim db now worker db.message.rows.length []).2,
      msg.id = m.id ∧ msg.attempts = m.attempts := by
  have hids : m.id ∈ claimIds db now db.message.rows.length [] := by
    refine List.mem_map_of_mem ?_
    rw [List.take_of_length_le ((List.length_insertionSort _ _).trans_le (List.length_filter_le _ _)),
      List.mem_insertionSort, List.mem_filter]
    exact ⟨hm, by simpa using hdue⟩
  refine ⟨_, List.mem_map_of_mem (List.mem_filter.mpr ⟨hm, decide_eq_true hids⟩), rfl, rfl⟩

theorem exists_round (h : After db id n) (schedule : List ℕ) :
    ∃ db', Round schedule id db (Retry.backoff schedule (n + 1)) db' := by
  obtain ⟨m, hm, hid, hs, hn⟩ := h
  obtain ⟨now, hdue⟩ := exists_due hs
  obtain ⟨msg, hmsg, hmid, hattempts⟩ := mem_claim_of_due hm hdue []
  have hmade : msg.attempts = n := hattempts.trans hn
  obtain ⟨m₂, hm₂, hid₂, hs₂, hn₂⟩ :=
    After.claim ⟨m, hm, hid, hs, hn⟩ now [] db.message.rows.length []
  refine ⟨_, .mk db _ now now [] _ [] msg none [] (.refl id db) hmsg (hmid.trans hid)
    (.refl id _) ⟨_, settle_mem_deliverOne schedule now (.transient none []) hm₂
      (hid₂.trans (hmid.trans hid).symm), ?_⟩⟩
  cases hb : Retry.backoff schedule (n + 1) with
  | none =>
    simp only [settle, hmade, hb]
    exact ⟨hid₂, rfl⟩
  | some delay =>
    simp only [settle, hmade, hb]
    exact ⟨hid₂, hs₂, rfl⟩

theorem exists_rounds (h : After db id n) (schedule : List ℕ) :
    ∃ db', Rounds schedule id db (schedule.drop (n + 1)) db' := by
  obtain ⟨k, hk⟩ : ∃ k, schedule.length ≤ n + 1 + k := ⟨schedule.length, Nat.le_add_left _ _⟩
  induction k generalizing db n with
  | zero =>
    obtain ⟨db', hround⟩ := exists_round h schedule
    have hnone : Retry.backoff schedule (n + 1) = none := List.getElem?_eq_none hk
    rw [hnone] at hround
    rw [List.drop_eq_nil_of_le hk]
    exact ⟨db', .givenUp hround⟩
  | succ k ih =>
    obtain ⟨db', hround⟩ := exists_round h schedule
    cases hb : Retry.backoff schedule (n + 1) with
    | none =>
      rw [hb] at hround
      rw [List.drop_eq_nil_of_le (List.getElem?_eq_none_iff.mp hb)]
      exact ⟨db', .givenUp hround⟩
    | some secs =>
      obtain ⟨hlt, hget⟩ := List.getElem?_eq_some_iff.mp hb
      have hnext := (hround.wait_eq h).2 (by rw [hb]; rfl)
      rw [hb] at hround
      obtain ⟨db'', hrest⟩ := ih hnext (by omega)
      rw [List.drop_eq_getElem_cons hlt, hget]
      exact ⟨db'', .retry hround hrest⟩

/-- A message that is only ever refused for now is tried after every entry of
the schedule but the first, and comes to be given up. It has waited as the
schedule says exactly when the schedule says nothing. -/
theorem waits_schedule_iff (schedule : List ℕ) (db : Db) (m : Message) (hm : m ∈ db.message)
    (hs : m.status = .queued) (hn : m.attempts = 0) :
    (∃ waits db', Rounds schedule m.id db waits db') ∧
      ∀ waits db', Rounds schedule m.id db waits db' →
        (waits = schedule ∧ waits.sum = Retry.totalWindow schedule ↔ schedule = []) ∧
          waits = schedule.tail := by
  have hafter : After db m.id 0 := ⟨m, hm, rfl, hs, hn⟩
  obtain ⟨db', hrounds⟩ := exists_rounds hafter schedule
  refine ⟨⟨_, db', hrounds⟩, fun waits db' h ↦ ?_⟩
  have hwaits : waits = schedule.tail := (h.waits_eq hafter).trans List.drop_one
  refine ⟨?_, hwaits⟩
  subst hwaits
  constructor
  · rintro ⟨he, -⟩
    have hlen := congrArg List.length he
    rw [List.length_tail] at hlen
    exact List.length_eq_zero_iff.mp (by omega)
  · rintro rfl
    exact ⟨rfl, rfl⟩

end Rounds

def acceptedInvoice : Message where
  id := 7
  tenantId := 1
  idempotencyKey := "inv-1041".toList
  mailFrom := "invoice@example.com".toList
  fromName := none
  rcptTo := "ola@example.net".toList
  replyTo := none
  subject := "Invoice".toList
  bodyText := some "Please pay.".toList
  bodyHtml := none
  nextAttemptAt := 0
  createdAt := 0

attribute [local instance] Platform.ascii

def justAccepted : Db := { message := Table.empty.insertOrIgnore acceptedInvoice }

theorem acceptedInvoice_mem : acceptedInvoice ∈ justAccepted.message := by
  rw [Table.mem_def, justAccepted, Table.insertOrIgnore_of_free fun x hx ↦
    absurd hx (Table.not_mem_empty x)]
  exact List.mem_singleton.mpr rfl

theorem waits_schedule_iff_acceptedInvoice :
    (∃ waits db', Rounds Retry.SCHEDULE acceptedInvoice.id justAccepted waits db') ∧
      ∀ waits db', Rounds Retry.SCHEDULE acceptedInvoice.id justAccepted waits db' →
        (waits = Retry.SCHEDULE ∧ waits.sum = Retry.totalWindow Retry.SCHEDULE ↔
          Retry.SCHEDULE = []) ∧ waits = Retry.SCHEDULE.tail :=
  waits_schedule_iff Retry.SCHEDULE justAccepted acceptedInvoice acceptedInvoice_mem rfl rfl

/-- The relay restarts, and the message waits five minutes, not one. -/
theorem first_wait_skipped : ¬ ∀ (_ : Platform) (schedule : List ℕ) (db : Db) (m : Message),
    m ∈ db.message → m.status = .queued → m.attempts = 0 →
      ∀ waits db', Rounds schedule m.id db waits db' → waits = schedule := by
  intro h
  have hafter : After justAccepted acceptedInvoice.id 0 :=
    ⟨acceptedInvoice, acceptedInvoice_mem, rfl, rfl, rfl⟩
  obtain ⟨db', hrounds⟩ := exists_rounds hafter Retry.SCHEDULE
  have hall := h Platform.ascii Retry.SCHEDULE justAccepted acceptedInvoice acceptedInvoice_mem
    rfl rfl _ db' hrounds
  exact absurd hall (by decide)

end Worker

end Postbud
