import Postbud.Db.Admin

namespace Postbud

open Lib Lib.Grouping

def MessageAttachment.renumber (σ : Uuid → Uuid) (a : MessageAttachment) : MessageAttachment :=
  { a with id := σ a.id }

/-- `order by position, id` -/
def MessageAttachment.place (a : MessageAttachment) : ℕ ×ₗ Uuid := toLex (a.position, a.id)

namespace Admin

section Order

variable [Platform]

/-- The same attachments under other ids, as `gen_random_uuid()` might have
drawn them. -/
def renumber (db : AdminDb) (σ : Uuid → Uuid)
    (hσ : (db.messageAttachment.map fun a ↦ σ a.id).Nodup) : AdminDb :=
  { db with
    messageAttachment := db.messageAttachment.map (·.renumber σ)
    attachmentIds := by rwa [List.map_map]
    digest := by
      intro a ha
      obtain ⟨a₀, ha₀, rfl⟩ := List.mem_map.mp ha
      exact db.digest a₀ ha₀ }

def AttachmentMeta.seen (a : AttachmentMeta) : Text × Text × Text :=
  (a.filename, a.contentType, a.sha256)

/-- What the recipient gets of an attachment. -/
def sentAs (a : Attachment) : Text × Text × Text :=
  (a.filename, a.contentType, hex (Platform.sha256 a.content))

/-- The operator is shown the attachments of a message as the relay is given
them. -/
def ShownAsSent (db : AdminDb) (now : Time) (worker : Text) (batch : ℕ) (locked : List Uuid)
    (id : Uuid) : Prop :=
  ∃ detail, messageDetail db id = some detail ∧
    ∀ c ∈ claimedOf (claim db.toDb now worker batch locked).1
        (claimRows db.toDb now worker batch locked),
      c.id = id → detail.attachments.map AttachmentMeta.seen = c.attachments.map sentAs

omit [Platform] in
def seen (a : MessageAttachment) : Text × Text × Text := (attachmentMeta a).seen

/-- Attachments at different positions have the same filename, type and digest. -/
def Alike (db : AdminDb) (id : Uuid) : Prop :=
  ∀ a ∈ db.messageAttachment, ∀ b ∈ db.messageAttachment, a.messageId = id → b.messageId = id →
    a.position ≠ b.position → seen a = seen b

/-- The rows of a message in the order that the relay is given them. -/
def sentRows (db : Db) (id : Uuid) : List MessageAttachment :=
  (db.messageAttachment.filter (·.messageId = id)).insertionSort fun a b ↦ a.place ≤ b.place

variable {db : AdminDb} {now : Time} {worker : Text} {batch : ℕ} {locked : List Uuid} {id : Uuid}

theorem sentRows_perm : (sentRows db.toDb id).Perm
    (db.messageAttachment.filter (·.messageId = id)) := List.perm_insertionSort _ _

theorem attachmentsOf_perm : (attachmentsOf db.toDb id).Perm
    (db.messageAttachment.filter (·.messageId = id)) := List.perm_insertionSort _ _

theorem pairwise_sentRows : (sentRows db.toDb id).Pairwise fun a b ↦ a.place ≤ b.place := by
  have htotal : Std.Total fun a b : MessageAttachment ↦ a.place ≤ b.place :=
    ⟨fun a b ↦ le_total _ _⟩
  have htrans : IsTrans MessageAttachment fun a b ↦ a.place ≤ b.place := ⟨fun _ _ _ ↦ le_trans⟩
  exact List.pairwise_insertionSort _ _

theorem pairwise_attachmentsOf :
    (attachmentsOf db.toDb id).Pairwise fun a b ↦ a.id ≤ b.id := by
  have htotal : Std.Total fun a b : MessageAttachment ↦ a.id ≤ b.id := ⟨fun a b ↦ le_total _ _⟩
  have htrans : IsTrans MessageAttachment fun a b ↦ a.id ≤ b.id := ⟨fun _ _ _ ↦ le_trans⟩
  exact List.pairwise_insertionSort _ _

theorem nodup_ids : ((db.messageAttachment.filter (·.messageId = id)).map (·.id)).Nodup :=
  db.attachmentIds.sublist (List.filter_sublist.map _)

/-- The stream of the batch holds a message's rows in the order of their
positions and, at one position, of their ids. -/
theorem filter_attachmentRows {messageIds : List Uuid} (hid : id ∈ messageIds) :
    (attachmentRows db.toDb messageIds).filter (·.messageId == id) = sentRows db.toDb id := by
  have htotal : Std.Total fun a b : MessageAttachment ↦ a.rank ≤ b.rank := ⟨fun a b ↦ le_total _ _⟩
  have htrans : IsTrans MessageAttachment fun a b ↦ a.rank ≤ b.rank := ⟨fun _ _ _ ↦ le_trans⟩
  have hsorted : (attachmentRows db.toDb messageIds).Pairwise fun a b ↦ a.rank ≤ b.rank :=
    List.pairwise_insertionSort _ _
  have hperm : ((attachmentRows db.toDb messageIds).filter (·.messageId == id)).Perm
      (sentRows db.toDb id) := (filter_attachmentRows_perm hid).trans sentRows_perm.symm
  have hplaced : ((attachmentRows db.toDb messageIds).filter (·.messageId == id)).Pairwise
      fun a b ↦ a.place ≤ b.place := by
    refine List.Pairwise.imp_of_mem (fun ha hb hab ↦ ?_) (hsorted.filter _)
    have ha := beq_iff_eq.mp (List.mem_filter.mp ha).2
    have hb := beq_iff_eq.mp (List.mem_filter.mp hb).2
    simpa only [MessageAttachment.place, MessageAttachment.rank, Prod.Lex.toLex_le_toLex, ha, hb, lt_irrefl, false_or,
      true_and] using hab
  have hids : (sentRows db.toDb id).Pairwise fun a b ↦ a.id ≠ b.id :=
      List.pairwise_map.mp ((sentRows_perm.map _).nodup_iff.mpr nodup_ids)
  refine eq_of_perm_of_ranked hperm hplaced ((pairwise_sentRows.and hids).imp fun h ↦ ?_)
  exact lt_of_le_of_ne h.1 fun he ↦ h.2 (congrArg (fun k ↦ (ofLex k).2) he)

theorem find?_of_mem {m : Message} (hm : m ∈ db.message) :
    db.message.rows.find? (·.id = m.id) = some m := by
  obtain ⟨m', hm'⟩ : ∃ m', db.message.rows.find? (·.id = m.id) = some m' :=
    Option.isSome_iff_exists.mp (List.find?_isSome.mpr ⟨m, hm, decide_eq_true rfl⟩)
  have hid : m'.id = m.id := by simpa using List.find?_some hm'
  rw [hm', db.message_eq_of_id (List.mem_of_find?_eq_some hm') hm hid]

theorem messageDetail_of_mem {m : Message} (hm : m ∈ db.message) :
    ∃ t, messageDetail db m.id = some (detailOf db m t) := by
  obtain ⟨t, ht, hid⟩ := db.tenantOf m hm
  obtain ⟨t', ht'⟩ : ∃ t', db.tenant.rows.find? (·.id = m.tenantId) = some t' :=
    Option.isSome_iff_exists.mp (List.find?_isSome.mpr ⟨t, ht, decide_eq_true hid⟩)
  refine ⟨t', ?_⟩
  rw [messageDetail, find?_of_mem hm, Option.bind_eq_bind, Option.bind_some, ht']
  rfl

theorem seen_of_digest {a : MessageAttachment} (ha : a ∈ db.messageAttachment) :
    sentAs a.attachment = seen a := by
  rw [seen, attachmentMeta, db.digest a ha]
  rfl

theorem map_sentAs_sentRows :
    (sentRows db.toDb id).map (fun a ↦ sentAs a.attachment) = (sentRows db.toDb id).map seen :=
  List.map_congr_left fun _ ha ↦ seen_of_digest (List.mem_of_mem_filter (sentRows_perm.mem_iff.mp ha))

theorem getD_sentRows {messageIds : List Uuid} (hid : id ∈ messageIds) :
    (attachmentsForBatch (claim db.toDb now worker batch locked).1 messageIds).getD id [] =
      (sentRows db.toDb id).map MessageAttachment.attachment := by
  have hrows : attachmentRows (claim db.toDb now worker batch locked).1 messageIds =
      attachmentRows db.toDb messageIds := rfl
  rw [attachmentsForBatch, if_neg (List.ne_nil_of_mem hid), getD_group, hrows,
    filter_attachmentRows hid]

theorem attachments_claimed {c : Claimed}
    (hc : c ∈ claimedOf (claim db.toDb now worker batch locked).1
      (claimRows db.toDb now worker batch locked)) :
    c.attachments = (sentRows db.toDb c.id).map MessageAttachment.attachment := by
  rw [claimedOf_eq nodup_claimRows] at hc
  obtain ⟨m, hm, rfl⟩ := List.mem_map.mp hc
  exact getD_sentRows (List.mem_map_of_mem hm)

theorem exists_claimed (hid : id ∈ claimIds db.toDb now batch locked) :
    ∃ c ∈ claimedOf (claim db.toDb now worker batch locked).1
      (claimRows db.toDb now worker batch locked), c.id = id := by
  obtain ⟨m, hm, rfl, -, -⟩ := mem_claimIds hid
  rw [claimedOf_eq nodup_claimRows]
  have hrow : m.claimBy worker now ∈ claimRows db.toDb now worker batch locked :=
    List.mem_map_of_mem (List.mem_filter.mpr ⟨hm, decide_eq_true hid⟩)
  exact ⟨_, List.mem_map_of_mem hrow, rfl⟩

/-- What the two queries order is the same rows. -/
theorem shownAsSent_iff_rows (hid : id ∈ claimIds db.toDb now batch locked) :
    ShownAsSent db now worker batch locked id ↔
      (attachmentsOf db.toDb id).map seen = (sentRows db.toDb id).map seen := by
  obtain ⟨m, hm, rfl, -, -⟩ := mem_claimIds hid
  obtain ⟨t, ht⟩ := messageDetail_of_mem hm
  have hshown : (detailOf db m t).attachments.map AttachmentMeta.seen =
      (attachmentsOf db.toDb m.id).map seen := List.map_map
  have hsent : ∀ c ∈ claimedOf (claim db.toDb now worker batch locked).1
      (claimRows db.toDb now worker batch locked), c.id = m.id →
        c.attachments.map sentAs = (sentRows db.toDb m.id).map seen := by
    intro c hc he
    rw [attachments_claimed hc, he, List.map_map]
    exact map_sentAs_sentRows
  constructor
  · rintro ⟨detail, hdetail, hall⟩
    obtain rfl : detailOf db m t = detail := Option.some.inj (ht.symm.trans hdetail)
    obtain ⟨c, hc, he⟩ : ∃ c ∈ claimedOf (claim db.toDb now worker batch locked).1
      (claimRows db.toDb now worker batch locked), c.id = m.id := exists_claimed hid
    rw [← hshown, hall c hc he, hsent c hc he]
  · intro hrows
    exact ⟨_, ht, fun c hc he ↦ by rw [hshown, hsent c hc he, hrows]⟩

theorem mem_attachmentsOf {a : MessageAttachment} : a ∈ attachmentsOf db.toDb id ↔
    a ∈ db.messageAttachment ∧ a.messageId = id := by
  rw [attachmentsOf_perm.mem_iff, List.mem_filter, decide_eq_true_iff]

theorem mem_sentRows {a : MessageAttachment} : a ∈ sentRows db.toDb id ↔
    a ∈ db.messageAttachment ∧ a.messageId = id := by
  rw [sentRows_perm.mem_iff, List.mem_filter, decide_eq_true_iff]

/-- With one position for all there is one order, and of attachments that are
alike every order looks the same. -/
theorem map_seen_of_alike (h : Alike db id) :
    (attachmentsOf db.toDb id).map seen = (sentRows db.toDb id).map seen := by
  have hperm : (attachmentsOf db.toDb id).Perm (sentRows db.toDb id) :=
    attachmentsOf_perm.trans sentRows_perm.symm
  by_cases hpos : ∃ a ∈ sentRows db.toDb id, ∃ b ∈ sentRows db.toDb id, a.position ≠ b.position
  · obtain ⟨a, ha, b, hb, hab⟩ := hpos
    obtain ⟨ha, hida⟩ := mem_sentRows.mp ha
    obtain ⟨hb, hidb⟩ := mem_sentRows.mp hb
    have hall : ∀ c ∈ sentRows db.toDb id, seen c = seen a := by
      intro c hc
      obtain ⟨hc, hidc⟩ := mem_sentRows.mp hc
      by_cases hca : c.position = a.position
      · have hcb : c.position ≠ b.position := hca ▸ hab
        rw [h c hc b hb hidc hidb hcb, h a ha b hb hida hidb hab]
      · exact h c hc a ha hidc hida hca
    have hsent := List.map_congr_left hall
    have hshown := List.map_congr_left fun c hc ↦ hall c (hperm.mem_iff.mp hc)
    rw [hsent, hshown, List.map_const', List.map_const', hperm.length_eq]
  · push Not at hpos
    have hids : (sentRows db.toDb id).Pairwise fun a b ↦ a.id < b.id := by
      have hne : (sentRows db.toDb id).Pairwise fun a b ↦ a.id ≠ b.id :=
        List.pairwise_map.mp ((sentRows_perm.map _).nodup_iff.mpr nodup_ids)
      refine (pairwise_sentRows.and hne).imp_of_mem fun {a b} ha hb hab ↦ ?_
      rcases Prod.Lex.toLex_le_toLex.mp hab.1 with hlt | ⟨-, hle⟩
      · exact absurd (hpos a ha b hb) (ne_of_lt hlt)
      · exact lt_of_le_of_ne hle hab.2
    rw [eq_of_perm_of_ranked hperm pairwise_attachmentsOf hids]

theorem eq_of_attachment_id {a b : MessageAttachment} (ha : a ∈ db.messageAttachment)
    (hb : b ∈ db.messageAttachment) (h : a.id = b.id) : a = b :=
  List.inj_on_of_nodup_map db.attachmentIds ha hb h

section Renumber

variable {σ : Uuid → Uuid} {hσ : (db.messageAttachment.map fun a ↦ σ a.id).Nodup}

theorem mem_renumber {a : MessageAttachment} : a ∈ (renumber db σ hσ).messageAttachment ↔
    ∃ a₀ ∈ db.messageAttachment, a₀.renumber σ = a := List.mem_map

theorem Alike.renumber (h : Alike db id) : Alike (renumber db σ hσ) id := by
  intro a ha b hb hida hidb hab
  obtain ⟨a₀, ha₀, rfl⟩ := mem_renumber.mp ha
  obtain ⟨b₀, hb₀, rfl⟩ := mem_renumber.mp hb
  exact h a₀ ha₀ b₀ hb₀ hida hidb hab

/-- The least id of all is shown first. -/
theorem head?_attachmentsOf {b : MessageAttachment} (hb : b ∈ db.messageAttachment)
    (hidb : b.messageId = id)
    (hleast : ∀ a ∈ db.messageAttachment, a.id ≠ b.id → σ b.id < σ a.id) :
    (attachmentsOf (renumber db σ hσ).toDb id).head? = some (b.renumber σ) := by
  refine head?_of_least (List.Perm.refl _) pairwise_attachmentsOf
    (mem_attachmentsOf.mpr ⟨mem_renumber.mpr ⟨b, hb, rfl⟩, hidb⟩) fun a ha hne ↦ ?_
  obtain ⟨a₀, ha₀, rfl⟩ := mem_renumber.mp (mem_attachmentsOf.mp ha).1
  exact hleast a₀ ha₀ fun he ↦ hne (eq_of_attachment_id ha₀ hb he ▸ rfl)

/-- The first position is sent first, and the least id of those that stand there. -/
theorem head?_sentRows {x : MessageAttachment} (hx : x ∈ db.messageAttachment)
    (hidx : x.messageId = id)
    (hleast : ∀ a ∈ db.messageAttachment, a.messageId = id → a.id ≠ x.id →
      x.position < a.position ∨ x.position = a.position ∧ σ x.id < σ a.id) :
    (sentRows (renumber db σ hσ).toDb id).head? = some (x.renumber σ) := by
  refine head?_of_least (List.Perm.refl _) pairwise_sentRows
    (mem_sentRows.mpr ⟨mem_renumber.mpr ⟨x, hx, rfl⟩, hidx⟩) fun a ha hne ↦ ?_
  obtain ⟨hmem, hida⟩ := mem_sentRows.mp ha
  obtain ⟨a₀, ha₀, rfl⟩ := mem_renumber.mp hmem
  refine Prod.Lex.toLex_lt_toLex.mpr (hleast a₀ ha₀ hida fun he ↦ hne ?_)
  exact eq_of_attachment_id ha₀ hx he ▸ rfl

end Renumber

/-- Ids under which one row comes first and another one second. -/
def firstTwo (first second id : ℕ) : ℕ :=
  if id = first then 0 else if id = second then 1 else id + 2

omit [Platform] in
theorem firstTwo_injective (first second : ℕ) : Function.Injective (firstTwo first second) := by
  intro i j h
  simp only [firstTwo] at h
  split_ifs at h <;> omega

/-- An attachment that is not among the first may be drawn the least id, and
is then shown before the one that is sent first. -/
theorem seen_eq_first {x b : MessageAttachment}
    (hall : ∀ σ hσ, (attachmentsOf (renumber db σ hσ).toDb id).map seen =
      (sentRows (renumber db σ hσ).toDb id).map seen)
    (hx : x ∈ db.messageAttachment) (hidx : x.messageId = id) (hb : b ∈ db.messageAttachment)
    (hidb : b.messageId = id) (hlt : x.position < b.position)
    (hleast : ∀ a ∈ db.messageAttachment, a.messageId = id → x.position ≤ a.position) :
    seen b = seen x := by
  obtain ⟨σ, hσdef⟩ : ∃ σ, σ = firstTwo b.id x.id := ⟨_, rfl⟩
  have hσ : (db.messageAttachment.map fun a ↦ σ a.id).Nodup := by
    have hids := db.attachmentIds.map (firstTwo_injective b.id x.id)
    rwa [List.map_map, ← hσdef] at hids
  have hσb : σ b.id = 0 := by rw [hσdef, firstTwo, if_pos rfl]
  have hxb : x.id ≠ b.id := fun he ↦ absurd hlt (eq_of_attachment_id hx hb he ▸ lt_irrefl _)
  have hσx : σ x.id = 1 := by rw [hσdef, firstTwo, if_neg hxb, if_pos rfl]
  have hshown : (attachmentsOf (renumber db σ hσ).toDb id).head? = some (b.renumber σ) := by
    refine head?_attachmentsOf hb hidb fun a ha hne ↦ ?_
    rw [hσb, hσdef, firstTwo, if_neg hne]
    split_ifs <;> exact Nat.succ_pos _
  have hsent : (sentRows (renumber db σ hσ).toDb id).head? = some (x.renumber σ) := by
    refine head?_sentRows hx hidx fun a ha hida hne ↦ ?_
    rcases (hleast a ha hida).lt_or_eq with hpos | hpos
    · exact .inl hpos
    · have hab : a.id ≠ b.id := fun he ↦
        absurd hlt (eq_of_attachment_id ha hb he ▸ hpos ▸ lt_irrefl _)
      refine .inr ⟨hpos, ?_⟩
      rw [hσx, hσdef, firstTwo, if_neg hab, if_neg hne]
      exact Nat.lt_add_of_pos_left (Nat.succ_pos _)
  have hheads := congrArg List.head? (hall σ hσ)
  rw [List.head?_map, List.head?_map, hshown, hsent] at hheads
  exact Option.some.inj hheads

theorem exists_first {a : MessageAttachment} (ha : a ∈ db.messageAttachment)
    (hida : a.messageId = id) : ∃ x ∈ db.messageAttachment, x.messageId = id ∧
      ∀ c ∈ db.messageAttachment, c.messageId = id → x.position ≤ c.position := by
  have hmem : a ∈ sentRows db.toDb id := mem_sentRows.mpr ⟨ha, hida⟩
  obtain ⟨x, rest, hrows⟩ := List.exists_cons_of_ne_nil (List.ne_nil_of_mem hmem)
  obtain ⟨hx, hidx⟩ := mem_sentRows.mp (hrows ▸ List.mem_cons_self : x ∈ sentRows db.toDb id)
  refine ⟨x, hx, hidx, fun c hc hidc ↦ ?_⟩
  have hcmem : c ∈ x :: rest := hrows ▸ mem_sentRows.mpr ⟨hc, hidc⟩
  rcases List.mem_cons.mp hcmem with rfl | hlater
  · exact le_rfl
  · have hsorted : (x :: rest).Pairwise fun a b ↦ a.place ≤ b.place := hrows ▸ pairwise_sentRows
    rcases Prod.Lex.toLex_le_toLex.mp (List.rel_of_pairwise_cons hsorted hlater) with hlt | ⟨he, -⟩
    · exact le_of_lt hlt
    · exact le_of_eq he

theorem alike_of_renumber (hall : ∀ σ hσ, (attachmentsOf (renumber db σ hσ).toDb id).map seen =
    (sentRows (renumber db σ hσ).toDb id).map seen) : Alike db id := by
  intro a ha b hb hida hidb hab
  obtain ⟨x, hx, hidx, hleast⟩ := exists_first ha hida
  have hfirst : ∀ c ∈ db.messageAttachment, c.messageId = id → x.position < c.position →
      seen c = seen x :=
    fun c hc hidc hlt ↦ seen_eq_first hall hx hidx hc hidc hlt hleast
  rcases (hleast a ha hida).lt_or_eq with hxa | hxa
  · rcases (hleast b hb hidb).lt_or_eq with hxb | hxb
    · rw [hfirst a ha hida hxa, hfirst b hb hidb hxb]
    · exact seen_eq_first hall hb hidb ha hida (hxb ▸ hxa) (hxb ▸ hleast)
  · have hlt : a.position < b.position := lt_of_le_of_ne (hxa ▸ hleast b hb hidb) hab
    exact (seen_eq_first hall ha hida hb hidb hlt (hxa ▸ hleast)).symm

/-- Whatever ids its attachments are drawn, a message's attachments are shown
as they are sent, if and only if no two at different positions differ. -/
theorem shownAsSent_iff (db : AdminDb) (now : Time) (worker : Text) (batch : ℕ)
    (locked : List Uuid) (id : Uuid) (hid : id ∈ claimIds db.toDb now batch locked) :
    (∀ σ hσ, ShownAsSent (renumber db σ hσ) now worker batch locked id) ↔ Alike db id := by
  have hrows : ∀ σ hσ, ShownAsSent (renumber db σ hσ) now worker batch locked id ↔
      (attachmentsOf (renumber db σ hσ).toDb id).map seen =
        (sentRows (renumber db σ hσ).toDb id).map seen :=
    fun _ _ ↦ shownAsSent_iff_rows hid
  simp only [hrows]
  exact ⟨alike_of_renumber, fun h σ hσ ↦ map_seen_of_alike h.renumber⟩

instance : Decidable (Alike db id) := by
  unfold Alike
  infer_instance

end Order

section Pages

attribute [local instance] Platform.ascii

/-- A queued message with two pages at these positions. The id drawn for the
second one is the lesser. -/
def twoPages (first second : ℕ) : AdminDb where
  message := ⟨[{
    id := 7, tenantId := 1, idempotencyKey := "inv-1041".toList
    mailFrom := "post@example.com".toList, fromName := none, rcptTo := "ola@example.net".toList
    replyTo := none, subject := "Faktura".toList, bodyText := none, bodyHtml := none
    nextAttemptAt := 0, createdAt := 0 }], List.pairwise_singleton _ _⟩
  messageAttachment := [
    { id := 2, messageId := 7, filename := "page-1.pdf".toList
      contentType := "application/pdf".toList, content := [1], sha256 := [1], position := first },
    { id := 1, messageId := 7, filename := "page-2.pdf".toList
      contentType := "application/pdf".toList, content := [2], sha256 := [2], position := second }]
  tenant := ⟨[{
    id := 1, name := "acme".toList, apiKeyHash := [], fromDomains := ["example.com".toList]
    createdAt := 0, note := none }], List.pairwise_singleton _ _⟩
  attemptIds := []
  bounceIds := []
  tenantOf := by simp [Table.mem_def]
  attachmentIds := by simp
  digest := by
    simp only [List.forall_mem_cons, List.not_mem_nil, false_implies, implies_true, and_true]
    exact ⟨rfl, rfl⟩
  attemptNumbers := rfl
  bounceNumbers := rfl
  bounceIds_nodup := .nil

/-- Attachments from before there were positions have their ids for an order in both. -/
theorem shownAsSent_historical : Alike (twoPages 0 0) 7 ∧
    ∀ σ hσ, ShownAsSent (renumber (twoPages 0 0) σ hσ) 0 "w1".toList 20 [] 7 := by
  have halike : Alike (twoPages 0 0) 7 := by decide
  exact ⟨halike, (shownAsSent_iff (twoPages 0 0) 0 "w1".toList 20 [] 7 (by decide)).mpr halike⟩

theorem swapped_not_shownAsSent : 7 ∈ claimIds (twoPages 0 1).toDb 0 20 [] ∧
    ¬ ShownAsSent (twoPages 0 1) 0 "w1".toList 20 [] 7 := by
  have hid : 7 ∈ claimIds (twoPages 0 1).toDb 0 20 [] := by decide
  refine ⟨hid, fun h ↦ ?_⟩
  have hrows := (shownAsSent_iff_rows hid).mp h
  have hdiffer : (attachmentsOf (twoPages 0 1).toDb 7).map seen ≠
      (sentRows (twoPages 0 1).toDb 7).map seen := by decide
  exact hdiffer hrows

end Pages

end Admin

end Postbud
