import Postbud.Db.AttachmentBatch
import Postbud.System.Purge

namespace Postbud.System

open Lib Lib.Transition

section Runs

variable [Platform] {s s' t : State} {a : Action} {l : List Action} {id : Uuid} {m : Message}
  {worker : Text} {batch : ℕ} {locked : List Uuid}

/-- The state between the two statements of a claim: the rows are taken, and
the worker has not been given them. -/
def State.claiming (s : State) (worker : Text) (batch : ℕ) (locked : List Uuid) : State :=
  { s with db := (claim s.db s.now worker batch locked).1 }

def Unpurged (s : State) (id : Uuid) : Prop := ∀ m ∈ s.db.message, m.id = id → m.bodyPurgedAt = none

theorem Touched.bodyPurgedAt {m' : Message} (h : Touched s a m m') (ha : ∀ days, a ≠ .purge days) :
    m'.bodyPurgedAt = m.bodyPurgedAt := by
  cases h with
  | kept => rfl
  | claimed worker batch locked ha' hid => rfl
  | settled d outcome ha' hd ho hid =>
    rcases Worker.settle_cases Retry.SCHEDULE s.now d.claimed outcome with
      ⟨queueId, -, hs⟩ | ⟨detail, hs, -⟩ | ⟨next, detail, hs, -⟩ <;> rw [hs] <;> rfl
  | observed entries graceSecs ha' =>
    rcases RelayQueue.observed_spec s.now entries m with he | ⟨-, -, -, state, detail, -, he⟩ <;> rw [he]
  | delivered entries graceSecs ha' habs => rfl
  | blanked days cutoff ha' he => exact absurd ha' (ha days)

/-- Nothing but a purge purges. -/
theorem Step.unpurged (h : Step s a s') (ha : ∀ days, a ≠ .purge days) (hu : Unpurged s id) :
    Unpurged s' id := by
  intro m' hm' hid
  rcases h.added_or_touched hm' with ⟨c, id', suppressed, rfl, -⟩ | ⟨m, hm, ht⟩
  · rfl
  · rw [ht.bodyPurgedAt ha]
    exact hu m hm (ht.mail.1.id.symm.trans hid)

theorem unpurged_of_run (h : Run step s l t) (hl : ∀ days, .purge days ∉ l) (hu : Unpurged s id) :
    Unpurged t id := by
  have hno : Along step (fun _ a ↦ ∀ days, a ≠ .purge days) s l :=
    along_of_forall fun s a ha days he ↦ hl days (he ▸ ha)
  exact h.invariant_along (Unpurged · id) (fun s a s' hu ha hs ↦ (step_spec hs).unpurged ha hu) hno hu

theorem step_claim (s : State) (worker : Text) (batch : ℕ) (locked : List Uuid) :
    step s (.claim worker batch locked) = some { s.claiming worker batch locked with
      held := s.hold worker (claim s.db s.now worker batch locked).2 } := rfl

theorem Inv.claiming (h : Inv s) : Inv (s.claiming worker batch locked) := by
  obtain ⟨hn, hsound, hapart, howned, hatt, hheld⟩ := h.step (step_claim s worker batch locked)
  exact ⟨hn, hsound, hapart, howned, hatt, fun d hd ↦ hheld d (List.mem_append_left _ hd)⟩

theorem Unpurged.claiming (hu : Unpurged s id) : Unpurged (s.claiming worker batch locked) id :=
  (step_spec (step_claim s worker batch locked)).unpurged (fun _ ↦ nofun) hu

theorem unpurged_of_due (hf : ∀ m ∈ s.db.message, m.Finished) (hm : m ∈ s.db.message)
    (hdue : m.due s.now) : Unpurged s m.id := by
  intro m' hm' hid
  obtain rfl : m' = m := s.db.message_eq_of_id hm' hm hid
  by_contra hp
  have hsome := (hf m' hm').purged (Option.isSome_iff_ne_none.mpr hp)
  rw [(hf m' hm').completed.mpr (Message.status_of_due hdue)] at hsome
  cases hsome

theorem mem_accepts_of_run (h : Run step s l t) {c : AcceptCall} (hc : c ∈ s.accepts)
    {accepted : Accepted} (hr : c.stage = .returned accepted) : c ∈ t.accepts :=
  h.invariant (fun s ↦ c ∈ s.accepts) (fun _ _ _ hc hs ↦ (step_spec hs).mem_accepts hc hr) hc

theorem getD_of_holds {db : Db} {messageIds : List Uuid} {attachments : List Attachment}
    (hid : id ∈ messageIds) (h : Holds id attachments (db.attachmentsOf id)) :
    (attachmentsForBatch db messageIds).getD id [] = attachments := by
  rw [getD_attachmentsForBatch hid]
  · exact h.content
  · have hrange : ((db.attachmentsOf id).map (·.position)).Pairwise (· < ·) := by
      rw [h.position]
      exact List.pairwise_lt_range
    exact List.pairwise_map.mp hrange

/-- What an accept has stored of a message that is not purged. -/
theorem holds_of_unpurged (hi : Inv s) (hu : Unpurged s id) {call : AcceptCall}
    (hcall : call ∈ s.accepts) {status : Status} (hst : call.stage = .returned ⟨id, status, false⟩) :
    Holds id call.msg.attachments (s.db.attachmentsOf id) := by
  obtain ⟨-, -, m, hm, hmail, hholds⟩ := sound_first (hi.sound call hcall) hst
  exact hholds (hu m hm hmail.id)

theorem owned_of_due (hi : Inv s) (hm : m ∈ s.db.message) (hdue : m.due s.now) :
    ∃ call ∈ s.accepts, call.stage = .returned ⟨m.id, .queued, false⟩ := by
  obtain ⟨call, hcall, status, hst, hsupp⟩ := hi.owned m hm
  obtain ⟨hstatus, -⟩ := sound_first (hi.sound call hcall) hst
  rcases hstatus with ⟨rfl, -⟩ | ⟨rfl, -⟩
  · exact ⟨call, hcall, hst⟩
  · have hsuppressed := (hsupp rfl).1
    rw [Message.status_of_due hdue] at hsuppressed
    cases hsuppressed

/-- The stream of one query, regrouped, gives what a query for each message would. -/
theorem claimedOf_claiming (hi : Inv s) (hf : ∀ m ∈ s.db.message, m.Finished) :
    claimedOf (s.claiming worker batch locked).db (claimRows s.db s.now worker batch locked) =
      (claim s.db s.now worker batch locked).2 := by
  rw [claimedOf_eq nodup_claimRows]
  simp only [claim, claimRows, List.map_map]
  refine List.map_congr_left fun m hm ↦ ?_
  have hid : m.id ∈ (s.db.message.rows.filter
      (·.id ∈ claimIds s.db s.now batch locked)).map (·.id) := List.mem_map_of_mem hm
  obtain ⟨hm, hclaimed⟩ := List.mem_filter.mp hm
  obtain ⟨m', hm', he, hdue, -⟩ := mem_claimIds (of_decide_eq_true hclaimed)
  obtain rfl : m' = m := s.db.message_eq_of_id hm' hm he
  obtain ⟨call, hcall, hst⟩ := owned_of_due hi hm' hdue
  have hholds := holds_of_unpurged hi (unpurged_of_due hf hm' hdue) hcall hst
  have hbatch : (attachmentsForBatch (s.claiming worker batch locked).db ((s.db.message.rows.filter
      (·.id ∈ claimIds s.db s.now batch locked)).map (·.id))).getD m'.id [] =
        attachmentsFor s.db m'.id := by
    rw [attachmentsFor_of_holds hholds]
    exact getD_of_holds hid hholds
  rw [← hbatch]
  rfl

/-- Of every batch claimed in a state that any run leads to, each message whose
row was taken is given to the worker, with the attachments its submitter gave
`accept`, in that order, whatever happens between the statement that takes the
rows and the one that reads the attachments, short of a purge. -/
theorem claimed_attachments (now : Time) (l₁ l₂ : List Action) (s t : State) (worker : Text)
    (batch : ℕ) (locked : List Uuid) (h₁ : Run step { now } l₁ s)
    (h₂ : Run step (s.claiming worker batch locked) l₂ t) (hl : ∀ days, .purge days ∉ l₂) :
    (claimedOf t.db (claimRows s.db s.now worker batch locked)).map (·.id) =
        (claimRows s.db s.now worker batch locked).map (·.id) ∧
      ∀ c ∈ claimedOf t.db (claimRows s.db s.now worker batch locked),
        (∃ call ∈ s.accepts, call.stage = .returned ⟨c.id, .queued, false⟩) ∧
          ∀ call ∈ s.accepts, ∀ status, call.stage = .returned ⟨c.id, status, false⟩ →
            c.attachments = call.msg.attachments := by
  obtain ⟨hi, hf⟩ := h₁.invariant (fun s ↦ Inv s ∧ ∀ m ∈ s.db.message, m.Finished)
    (fun s a s' h hs ↦ ⟨h.1.step hs, (step_spec hs).finished h.2⟩)
    ⟨inv_init now, fun _ hm ↦ absurd hm (Table.not_mem_empty _)⟩
  have hi' : Inv t := h₂.invariant Inv (fun _ _ _ h hs ↦ h.step hs) hi.claiming
  refine ⟨ids_claimedOf nodup_claimRows, fun c hc ↦ ?_⟩
  rw [claimedOf_eq nodup_claimRows] at hc
  obtain ⟨m', hm', rfl⟩ := List.mem_map.mp hc
  obtain ⟨m, hm, hdue, rfl⟩ := mem_claimRows hm'
  have howned := owned_of_due hi hm hdue
  refine ⟨howned, fun call hcall status hst ↦ ?_⟩
  have hunpurged : Unpurged t m.id := unpurged_of_run h₂ hl (unpurged_of_due hf hm hdue).claiming
  have hholds := holds_of_unpurged hi' hunpurged (mem_accepts_of_run h₂ hcall hst) hst
  exact getD_of_holds (List.mem_map_of_mem hm') hholds

end Runs

def oneFile : NewMessage :=
  { invoice with
    attachments := [⟨"first.pdf".toList, "application/pdf".toList, [1]⟩] }

def twoFiles : NewMessage :=
  { invoice with
    idempotencyKey := "inv-1042".toList
    rcptTo := "kari@example.net".toList
    attachments := [⟨"second.pdf".toList, "application/pdf".toList, [2]⟩,
      ⟨"second.pdf".toList, "application/pdf".toList, [3]⟩] }

/-- Two accepts that take turns. -/
def acceptBoth : List Action :=
  [.submit oneFile, .submit twoFiles, .accept 0 0, .accept 1 0, .accept 1 8, .accept 0 7,
    .accept 1 5, .accept 0 6, .accept 1 4, .accept 0 0, .accept 0 0, .accept 1 0, .accept 1 0]

attribute [local instance] Platform.ascii

theorem claimed_attachments_acceptBoth : ∃ s t, Run step { now := 0 } acceptBoth s ∧
    (claimRows s.db s.now "w1".toList 20 []).map (·.id) = [7, 8] ∧
    Run step (s.claiming "w1".toList 20 []) [.tick 5, .submit oneFile] t ∧
    (claimedOf t.db (claimRows s.db s.now "w1".toList 20 [])).map (·.id) =
        (claimRows s.db s.now "w1".toList 20 []).map (·.id) ∧
      ∀ c ∈ claimedOf t.db (claimRows s.db s.now "w1".toList 20 []),
        (∃ call ∈ s.accepts, call.stage = .returned ⟨c.id, .queued, false⟩) ∧
          ∀ call ∈ s.accepts, ∀ status, call.stage = .returned ⟨c.id, status, false⟩ →
            c.attachments = call.msg.attachments := by
  have hrun : (exec step { now := 0 } acceptBoth).any fun s ↦
      (claimRows s.db s.now "w1".toList 20 []).map (·.id) = [7, 8] := by decide +kernel
  obtain ⟨s, h₁, hids⟩ := run_of_any hrun
  have h₂ : Run step (s.claiming "w1".toList 20 []) [.tick 5, .submit oneFile] _ :=
    .cons rfl (.cons rfl (.nil _))
  exact ⟨s, _, h₁, of_decide_eq_true hids, h₂,
    claimed_attachments 0 acceptBoth _ s _ _ 20 [] h₁ h₂ (by simp)⟩

end Postbud.System
