import Mathlib.Data.Prod.Lex
import Postbud.Db.Message
import Postbud.Lib.Grouping

namespace Postbud

open Lib Lib.Grouping

def MessageAttachment.attachment (r : MessageAttachment) : Attachment :=
  ⟨r.filename, r.contentType, r.content⟩

/-- `order by message_id, position, id` -/
def MessageAttachment.rank (r : MessageAttachment) : Uuid ×ₗ ℕ ×ₗ Uuid :=
  toLex (r.messageId, toLex (r.position, r.id))

variable [Platform]

/-- The rows of a whole batch, as one query answers. -/
def attachmentRows (db : Db) (messageIds : List Uuid) : List MessageAttachment :=
  (db.messageAttachment.filter (·.messageId ∈ messageIds)).insertionSort fun a b ↦ a.rank ≤ b.rank

def attachmentsForBatch (db : Db) (messageIds : List Uuid) : Std.HashMap Uuid (List Attachment) :=
  if messageIds = [] then ∅
  else group MessageAttachment.messageId MessageAttachment.attachment (attachmentRows db messageIds)

/-- The rows that the first statement of `claim` returns. -/
def claimRows (db : Db) (now : Time) (worker : Text) (batch : ℕ) (locked : List Uuid) :
    List Message :=
  (db.message.rows.filter (·.id ∈ claimIds db now batch locked)).map (·.claimBy worker now)

/-- What `claim` makes of the rows of its first statement and of the database
as its second one finds it. -/
def claimedOf (db : Db) (rows : List Message) : List Claimed :=
  let ids := rows.map (·.id)
  rows.zipWith (fun m attachments ↦ ⟨m.id, m.attempts, m.mailFrom, m.fromName, m.rcptTo, m.replyTo,
    m.subject, m.bodyText, m.bodyHtml, attachments⟩) (removeEach (attachmentsForBatch db ids) ids)

variable {db : Db} {now : Time} {worker : Text} {batch : ℕ} {locked : List Uuid} {id : Uuid}
  {messageIds : List Uuid} {rows : List Message}

theorem filter_attachmentRows_perm (hid : id ∈ messageIds) :
    ((attachmentRows db messageIds).filter (·.messageId == id)).Perm
      (db.messageAttachment.filter (·.messageId = id)) := by
  have hsorted : (attachmentRows db messageIds).Perm
      (db.messageAttachment.filter (·.messageId ∈ messageIds)) := List.perm_insertionSort _ _
  refine (hsorted.filter _).trans (.of_eq ?_)
  rw [List.filter_filter]
  refine List.filter_congr fun r _ ↦ ?_
  by_cases hr : r.messageId = id
  · simp [hr, hid]
  · simp [hr]

theorem pairwise_filter_attachmentRows (messageIds : List Uuid) (id : Uuid) :
    ((attachmentRows db messageIds).filter (·.messageId == id)).Pairwise fun a b ↦
      a.position ≤ b.position := by
  have : Std.Total fun a b : MessageAttachment ↦ a.rank ≤ b.rank := ⟨fun a b ↦ le_total _ _⟩
  have : IsTrans MessageAttachment fun a b ↦ a.rank ≤ b.rank := ⟨fun _ _ _ ↦ le_trans⟩
  have hsorted : (attachmentRows db messageIds).Pairwise fun a b ↦ a.rank ≤ b.rank :=
    List.pairwise_insertionSort _ _
  refine List.Pairwise.imp_of_mem (fun ha hb hab ↦ ?_) (hsorted.filter _)
  have ha := (List.mem_filter.mp ha).2
  have hb := (List.mem_filter.mp hb).2
  simp only [beq_iff_eq] at ha hb
  simp only [MessageAttachment.rank, Prod.Lex.toLex_le_toLex, ha, hb, lt_irrefl, false_or,
    true_and] at hab
  rcases hab with hlt | ⟨he, -⟩
  · exact le_of_lt hlt
  · exact le_of_eq he

/-- Of the one stream a message is given its own attachments, in the order of their positions. -/
theorem getD_attachmentsForBatch (hid : id ∈ messageIds)
    (hranked : (db.messageAttachment.filter (·.messageId = id)).Pairwise fun a b ↦
      a.position < b.position) :
    (attachmentsForBatch db messageIds).getD id [] =
      (db.messageAttachment.filter (·.messageId = id)).map MessageAttachment.attachment := by
  have hperm : ((attachmentRows db messageIds).filter (·.messageId == id)).Perm
      (db.messageAttachment.filter (·.messageId = id)) := filter_attachmentRows_perm hid
  have hrows := eq_of_perm_of_ranked hperm (pairwise_filter_attachmentRows messageIds id) hranked
  rw [attachmentsForBatch, if_neg (List.ne_nil_of_mem hid), getD_group, hrows]

theorem nodup_claimRows : ((claimRows db now worker batch locked).map (·.id)).Nodup := by
  rw [claimRows, List.map_map]
  exact List.pairwise_map.mpr ((db.message.unique.filter _).imp fun h hid ↦ h (.inl hid))

theorem mem_claimRows {m : Message} (h : m ∈ claimRows db now worker batch locked) :
    ∃ m₀ ∈ db.message, m₀.due now ∧ m₀.claimBy worker now = m := by
  obtain ⟨m₀, hm₀, rfl⟩ := List.mem_map.mp h
  obtain ⟨hm₀, hid⟩ := List.mem_filter.mp hm₀
  obtain ⟨m', hm', he, hdue, -⟩ := mem_claimIds (of_decide_eq_true hid)
  obtain rfl : m₀ = m' := db.message_eq_of_id hm₀ hm' he.symm
  exact ⟨m₀, hm₀, hdue, rfl⟩

theorem claimedOf_eq (hnd : (rows.map (·.id)).Nodup) : claimedOf db rows = rows.map fun m ↦
    ⟨m.id, m.attempts, m.mailFrom, m.fromName, m.rcptTo, m.replyTo, m.subject, m.bodyText,
      m.bodyHtml, (attachmentsForBatch db (rows.map (·.id))).getD m.id []⟩ := by
  rw [claimedOf, removeEach_of_nodup hnd, List.map_map, List.zipWith_map_right]
  exact List.zipWith_self

theorem ids_claimedOf (hnd : (rows.map (·.id)).Nodup) :
    (claimedOf db rows).map (·.id) = rows.map (·.id) := by
  rw [claimedOf_eq hnd, List.map_map]
  rfl

end Postbud
