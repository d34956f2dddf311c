import Postbud.Db.Admin

namespace Postbud.Api.Paging

open Lib Lib.Keyset Admin

/-- One page, the cursor of the next, and the size that was applied. -/
structure Page (ρ κ : Type) where
  items : List ρ
  next : Option κ
  limit : ℤ
  deriving DecidableEq

def DEFAULT_PAGE_SIZE : ℤ := 10

def MAX_PAGE_SIZE : ℤ := 100

def pageSize (requested : Option ℤ) : ℤ :=
  max 1 (min (requested.getD DEFAULT_PAGE_SIZE) MAX_PAGE_SIZE)

def paginate {ρ κ : Type} (items : List ρ) (limit : ℤ) (cursor : ρ → κ) : Page ρ κ :=
  let keep := limit.toNat
  if keep < items.length then ⟨items.take keep, (items.take keep).getLast?.map cursor, limit⟩
  else ⟨items, none, limit⟩

structure MessagesQuery where
  tenant : Option Text := none
  status : Option Text := none
  rcpt : Option Text := none
  before : Option Time := none
  beforeId : Option Uuid := none
  limit : Option ℤ := none
  deriving DecidableEq

structure MessageCursor where
  before : Time
  beforeId : Uuid
  deriving DecidableEq

structure SuppressionsQuery where
  address : Option Text := none
  includeRemoved : Bool := false
  beforeId : Option ℤ := none
  limit : Option ℤ := none
  deriving DecidableEq

structure IdCursor where
  beforeId : ℤ
  deriving DecidableEq

structure BouncesQuery where
  beforeId : Option ℤ := none
  limit : Option ℤ := none
  deriving DecidableEq

/-- `filter(|t| !t.is_empty())` -/
def given (t : Option Text) : Option Text := t.filter (· ≠ [])

def MessagesQuery.filter (q : MessagesQuery) : MessageFilter where
  tenant := given q.tenant
  status := given q.status
  rcpt := given q.rcpt
  before := q.before.bind fun at_ ↦ q.beforeId.map fun id ↦ (at_, id)
  limit := pageSize q.limit + 1

section Handlers

variable [Platform]

def messages (db : AdminDb) (q : MessagesQuery) : Page MessageRow MessageCursor :=
  paginate (Admin.messages db q.filter) (pageSize q.limit) fun m ↦ ⟨m.createdAt, m.id⟩

def suppressions (db : AdminDb) (q : SuppressionsQuery) : Page SuppressionRow IdCursor :=
  let limit := pageSize q.limit
  let rows := Admin.suppressions db (given q.address) q.includeRemoved q.beforeId (limit + 1)
  paginate rows limit fun s ↦ ⟨s.id⟩

def bounces (db : AdminDb) (q : BouncesQuery) : Page BounceRow IdCursor :=
  let limit := pageSize q.limit
  paginate (Admin.bounces db q.beforeId (limit + 1)) limit fun b ↦ ⟨b.id⟩

/-! ### What a client asks for that follows `next` -/

/-- The page of a query behind a cursor, or its first one. -/
def messagesFrom (q : MessagesQuery) (db : AdminDb) (cursor : Option (Time ×ₗ Uuid)) :
    List MessageRow × Option (Time ×ₗ Uuid) :=
  let page := messages db { q with
    before := cursor.map fun k ↦ (ofLex k).1
    beforeId := cursor.map fun k ↦ (ofLex k).2 }
  (page.items, page.next.map fun c ↦ toLex (c.before, c.beforeId))

def suppressionsFrom (q : SuppressionsQuery) (db : AdminDb) (cursor : Option ℤ) :
    List SuppressionRow × Option ℤ :=
  let page := suppressions db { q with beforeId := cursor }
  (page.items, page.next.map (·.beforeId))

def bouncesFrom (q : BouncesQuery) (db : AdminDb) (cursor : Option ℤ) :
    List BounceRow × Option ℤ :=
  let page := bounces db { q with beforeId := cursor }
  (page.items, page.next.map (·.beforeId))

/-- The rows that match the filter of a query. -/
def MessagesQuery.matching (q : MessagesQuery) (db : AdminDb) : List MessageRow :=
  (messageRows db).filter q.filter.accepts

def SuppressionsQuery.matching (q : SuppressionsQuery) (db : AdminDb) : List SuppressionRow :=
  (suppressionRows db).filter fun r ↦
    (given q.address).all (fun x ↦ ilike r.address (containing x)) &&
      (q.includeRemoved || r.removedAt.isNone)

end Handlers

theorem pageSize_bounds (requested : Option ℤ) :
    1 ≤ pageSize requested ∧ pageSize requested ≤ 100 := by
  rw [pageSize, MAX_PAGE_SIZE]
  omega

/-- The two clamps leave room for the row that is not shown. -/
theorem fetchLimit_pageSize (requested : Option ℤ) :
    fetchLimit (pageSize requested + 1) = (pageSize requested).toNat + 1 := by
  have hbounds := pageSize_bounds requested
  rw [fetchLimit]
  omega

variable {ρ κ σ : Type} [LinearOrder κ] {key : ρ → κ} {rows : List ρ}

theorem paginate_newest (before : Option κ) (requested : Option ℤ) (cursor : ρ → σ) (read : σ → κ)
    (hread : ∀ r, read (cursor r) = key r) (hkeys : (rows.map key).Nodup) :
    IsPage key rows before (pageSize requested).toNat
      (paginate (newest key rows before (fetchLimit (pageSize requested + 1)))
        (pageSize requested) cursor).items
      ((paginate (newest key rows before (fetchLimit (pageSize requested + 1)))
        (pageSize requested) cursor).next.map read) := by
  have hsize : 0 < (pageSize requested).toNat := by
    have hbounds := pageSize_bounds requested
    omega
  rw [fetchLimit_pageSize]
  have hpage := isPage_newest before hkeys hsize
  generalize newest key rows before ((pageSize requested).toNat + 1) = fetched at hpage ⊢
  simp only [paginate]
  split_ifs at hpage ⊢ with hmore
  · have hcursor : read ∘ cursor = key := funext hread
    simpa only [Option.map_map, hcursor] using hpage
  · rwa [List.take_of_length_le (Nat.le_of_not_lt hmore)] at hpage

section Endpoints

variable [Platform] {db : AdminDb}

theorem isPage_messages (q : MessagesQuery) (cursor : Option (Time ×ₗ Uuid)) :
    IsPage MessageRow.key (q.matching db) cursor (pageSize q.limit).toNat
      (messagesFrom q db cursor).1 (messagesFrom q db cursor).2 := by
  have hids : ((q.matching db).map (·.id)).Nodup :=
    nodup_message_ids.sublist (List.filter_sublist.map _)
  have hkeys : ((q.matching db).map MessageRow.key).Nodup := by
    refine List.pairwise_map.mpr ((List.pairwise_map.mp hids).imp fun hne he ↦ hne ?_)
    exact congrArg (fun k ↦ (ofLex k).2) he
  cases cursor with
  | none => exact paginate_newest none q.limit _ _ (fun _ ↦ rfl) hkeys
  | some k => exact paginate_newest (some k) q.limit _ _ (fun _ ↦ rfl) hkeys

theorem isPage_suppressions (q : SuppressionsQuery) (cursor : Option ℤ) :
    IsPage (fun r ↦ (r.id : ℤ)) (q.matching db) cursor (pageSize q.limit).toNat
      (suppressionsFrom q db cursor).1 (suppressionsFrom q db cursor).2 := by
  have hids : ((q.matching db).map (·.id)).Nodup :=
    nodup_suppression_ids.sublist (List.filter_sublist.map _)
  have hkeys : ((q.matching db).map fun r ↦ (r.id : ℤ)).Nodup :=
    List.pairwise_map.mpr ((List.pairwise_map.mp hids).imp fun hne he ↦ hne (Int.ofNat.inj he))
  exact paginate_newest cursor q.limit _ _ (fun _ ↦ rfl) hkeys

theorem isPage_bounces (q : BouncesQuery) (cursor : Option ℤ) :
    IsPage BounceRow.id (bounceRows db) cursor (pageSize q.limit).toNat
      (bouncesFrom q db cursor).1 (bouncesFrom q db cursor).2 :=
  paginate_newest cursor q.limit _ _ (fun _ ↦ rfl) nodup_bounce_ids

/-- Whatever happens to the tables between the pages, following `next` from
the first page shows every row that is there and matches throughout once, in
strictly descending order, and a page is the last one just when nothing older
matched. -/
theorem paging (m : MessagesQuery) (s : SuppressionsQuery) (b : BouncesQuery) :
    Paging (messagesFrom m) MessageRow.key m.matching (pageSize m.limit).toNat ∧
      Paging (suppressionsFrom s) (fun r ↦ (r.id : ℤ)) s.matching (pageSize s.limit).toNat ∧
        Paging (bouncesFrom b) BounceRow.id bounceRows (pageSize b.limit).toNat :=
  ⟨paging_of_isPage fun _ cursor ↦ isPage_messages m cursor,
    paging_of_isPage fun _ cursor ↦ isPage_suppressions s cursor,
    paging_of_isPage fun _ cursor ↦ isPage_bounces b cursor⟩

end Endpoints

end Postbud.Api.Paging
