import Mathlib.Data.List.Chain
import Postbud.Api.Paging
import Postbud.Lib.Transition

namespace Postbud.Ui.Pager

open Lib Lib.Keyset Lib.Transition Admin Api.Paging

/-- What the lists differ in: whether `load` takes the rows away, and whether an
error is shown in place of the list. -/
structure Screen where
  clears : Bool
  errorHides : Bool

def Screen.messages : Screen := ⟨true, true⟩

def Screen.suppressions : Screen := ⟨true, false⟩

def Screen.bounces : Screen := ⟨false, false⟩

/-- A keyset-paged list in a browser. `stack` is that of the page cursors, where
`null` is the first page, and `loads` the cursors of the requests under way.
`shown` is a ghost: the pages that have been shown, each with the tables it was
read from. -/
structure Listing (τ ρ κ : Type) where
  rows : Option (List ρ) := none
  error : Bool := false
  stack : List (Option κ) := [none]
  pos : ℕ := 0
  next : Option κ := none
  loads : List (Option κ) := []
  shown : List (τ × List ρ) := []

variable {τ ρ κ : Type}

def Listing.cursor (w : Listing τ ρ κ) : Option κ := (w.stack[w.pos]?).getD none

def load (scr : Screen) (w : Listing τ ρ κ) : Listing τ ρ κ :=
  { w with
    error := false
    rows := if scr.clears then none else w.rows
    loads := w.loads ++ [w.cursor] }

/-- `search`, `research` and `resize`, after which the requests have another filter or size. -/
def restart (scr : Screen) (w : Listing τ ρ κ) : Listing τ ρ κ :=
  load scr { w with stack := [none], pos := 0, shown := [] }

def older (scr : Screen) (w : Listing τ ρ κ) : Listing τ ρ κ :=
  match w.next with
  | none => w
  | some next =>
    load scr { w with
      stack := if w.pos + 1 = w.stack.length then w.stack ++ [some next] else w.stack
      pos := w.pos + 1 }

def newer (scr : Screen) (w : Listing τ ρ κ) : Listing τ ρ κ :=
  if w.pos = 0 then w else load scr { w with pos := w.pos - 1 }

/-- The pager is there. -/
def shows (scr : Screen) (w : Listing τ ρ κ) : Bool := w.rows.isSome && !(scr.errorHides && w.error)

/-- `reload` is the effect, which runs again when it sees fit, and what else calls
`load`; `answer` is that to a request under way, from the tables as they are then. -/
inductive Action (τ : Type)
  | older
  | newer
  | reload
  | answer (i : ℕ) (t : τ)
  | fail (i : ℕ)

variable (scr : Screen) (fetch : τ → Option κ → List ρ × Option κ)

def step (w : Listing τ ρ κ) : Action τ → Option (Listing τ ρ κ)
  | .older => if shows scr w ∧ w.next.isSome then some (older scr w) else none
  | .newer => if shows scr w ∧ w.pos ≠ 0 then some (newer scr w) else none
  | .reload => some (load scr w)
  | .answer i t => do
    let cursor ← w.loads[i]?
    let (items, next) := fetch t cursor
    some { w with
      rows := some items
      next
      loads := w.loads.eraseIdx i
      shown := w.shown ++ [(t, items)] }
  | .fail i => do
    let _ ← w.loads[i]?
    some { w with error := true, loads := w.loads.eraseIdx i }

/-- Who clicks waits for what is loading, and where the rows of another page stay
up behind an error, for a page without one. -/
def Waits (w : Listing τ ρ κ) : Action τ → Prop
  | .older | .newer => w.loads = [] ∧ (scr.clears = false → w.error = false)
  | _ => True

instance [DecidableEq κ] (w : Listing τ ρ κ) (a : Action τ) : Decidable (Waits scr w a) := by
  unfold Waits
  cases a <;> infer_instance

inductive Step (w : Listing τ ρ κ) : Action τ → Listing τ ρ κ → Prop
  | further (next : κ) (hs : shows scr w) (hn : w.next = some next)
      (hend : w.pos + 1 = w.stack.length) :
    Step w .older (load scr { w with stack := w.stack ++ [some next], pos := w.pos + 1 })
  | older (hs : shows scr w) (hend : w.pos + 1 ≠ w.stack.length) :
    Step w .older (load scr { w with pos := w.pos + 1 })
  | newer (hs : shows scr w) (hpos : w.pos ≠ 0) : Step w .newer (load scr { w with pos := w.pos - 1 })
  | reload : Step w .reload (load scr w)
  | answer (i : ℕ) (t : τ) (cursor next : Option κ) (items : List ρ) (hi : w.loads[i]? = some cursor)
      (hf : fetch t cursor = (items, next)) :
    Step w (.answer i t) { w with
      rows := some items
      next
      loads := w.loads.eraseIdx i
      shown := w.shown ++ [(t, items)] }
  | fail (i : ℕ) (cursor : Option κ) (hi : w.loads[i]? = some cursor) :
    Step w (.fail i) { w with error := true, loads := w.loads.eraseIdx i }

variable {scr fetch} {w w' : Listing τ ρ κ} {a : Action τ} {l : List (Action τ)}

theorem step_spec (h : step scr fetch w a = some w') : Step scr fetch w a w' := by
  cases a with
  | older =>
    obtain ⟨⟨hs, hn⟩, h⟩ := Option.ite_none_right_eq_some.mp h
    obtain rfl := Option.some.inj h
    unfold Pager.older
    split
    · rename_i hnone
      rw [hnone] at hn
      cases hn
    · rename_i next hnext
      split_ifs with hend
      · exact .further next hs hnext hend
      · exact .older hs hend
  | newer =>
    obtain ⟨⟨hs, hpos⟩, h⟩ := Option.ite_none_right_eq_some.mp h
    obtain rfl := Option.some.inj h
    rw [Pager.newer, if_neg hpos]
    exact .newer hs hpos
  | reload => exact Option.some.inj h ▸ .reload
  | answer i t =>
    obtain ⟨cursor, hi, h⟩ := Option.bind_eq_some_iff.mp h
    exact Option.some.inj h ▸ .answer i t cursor _ _ hi rfl
  | fail i =>
    obtain ⟨cursor, hi, h⟩ := Option.bind_eq_some_iff.mp h
    exact Option.some.inj h ▸ .fail i cursor hi

/-- Of two cursors in the stack, the second is what a page that was shown behind
the first one named as the next. -/
def Follows (fetch : τ → Option κ → List ρ × Option κ) (shown : List (τ × List ρ))
    (before next : Option κ) : Prop :=
  ∃ t items c, next = some c ∧ fetch t before = (items, some c) ∧ (t, items) ∈ shown

/-- The rows are those of the page that the pager is at. -/
def Settled (fetch : τ → Option κ → List ρ × Option κ) (w : Listing τ ρ κ) : Prop :=
  ∃ t items, w.rows = some items ∧ fetch t w.cursor = (items, w.next) ∧ (t, items) ∈ w.shown

structure Inv (scr : Screen) (fetch : τ → Option κ → List ρ × Option κ) (w : Listing τ ρ κ) :
    Prop where
  first : w.stack.head? = some none
  pos : w.pos < w.stack.length
  chain : w.stack.IsChain (Follows fetch w.shown)
  loads : ∀ cursor ∈ w.loads, cursor = w.cursor
  cleared : scr.clears → w.rows.isSome → Settled fetch w
  kept : scr.clears = false → w.error = false → w.loads = [] → Settled fetch w

theorem Inv.settled (h : Inv scr fetch w) (hs : shows scr w) (hw : w.loads = [])
    (he : scr.clears = false → w.error = false) : Settled fetch w := by
  obtain ⟨hrows, -⟩ := Bool.and_eq_true_iff.mp hs
  cases hc : scr.clears with
  | true => exact h.cleared hc hrows
  | false => exact h.kept hc (he hc) hw

theorem Follows.mono {shown shown' : List (τ × List ρ)} (hsub : shown ⊆ shown')
    (c c' : Option κ) (h : Follows fetch shown c c') : Follows fetch shown' c c' := by
  obtain ⟨t, items, next, hn, hf, hmem⟩ := h
  exact ⟨t, items, next, hn, hf, hsub hmem⟩

/-- Nothing is settled by a request. -/
theorem inv_load (hfirst : w.stack.head? = some none) (hpos : w.pos < w.stack.length)
    (hchain : w.stack.IsChain (Follows fetch w.shown)) (hloads : ∀ cursor ∈ w.loads, cursor = w.cursor) :
    Inv scr fetch (load scr w) where
  first := hfirst
  pos := hpos
  chain := hchain
  loads := List.forall_mem_append.mpr ⟨hloads, List.forall_mem_singleton.mpr rfl⟩
  cleared hc hrows := by
    rw [load, if_pos hc] at hrows
    cases hrows
  kept _ _ hw := absurd hw (List.append_ne_nil_of_right_ne_nil _ (List.cons_ne_nil _ _))

theorem inv_step (h : Inv scr fetch w) (hwait : Waits scr w a)
    (ha : step scr fetch w a = some w') : Inv scr fetch w' := by
  cases step_spec ha with
  | further next hs hn hend =>
    obtain ⟨t, items, -, hf, hmem⟩ := h.settled hs hwait.1 hwait.2
    rw [hn] at hf
    have hcursor : w.stack.getLast? = some w.cursor := by
      have hget := List.getElem?_eq_getElem h.pos
      rw [List.getLast?_eq_getElem?, ← hend, Nat.add_sub_cancel, Listing.cursor, hget]
      rfl
    refine inv_load ?_ ?_ ?_ ?_
    · rw [List.head?_append, h.first]
      rfl
    · rw [List.length_append, List.length_singleton, ← hend]
      exact Nat.lt_succ_self _
    · refine h.chain.append (.singleton _) fun c hc c' hc' ↦ ?_
      obtain rfl : w.cursor = c := Option.some.inj (hcursor.symm.trans hc)
      obtain rfl : some next = c' := Option.some.inj hc'
      exact ⟨t, items, next, rfl, hf, hmem⟩
    · rw [hwait.1]
      exact fun _ hc ↦ absurd hc List.not_mem_nil
  | older hs hend =>
    have hpos := h.pos
    refine inv_load h.first (by simp only; omega) h.chain ?_
    rw [hwait.1]
    exact fun _ hc ↦ absurd hc List.not_mem_nil
  | newer hs hpos =>
    have hlt := h.pos
    refine inv_load h.first (by simp only; omega) h.chain ?_
    rw [hwait.1]
    exact fun _ hc ↦ absurd hc List.not_mem_nil
  | reload => exact inv_load h.first h.pos h.chain h.loads
  | answer i t cursor next items hi hf =>
    obtain rfl := h.loads cursor (List.mem_of_getElem? hi)
    have hsettled : Settled fetch { w with
        rows := some items
        next
        loads := w.loads.eraseIdx i
        shown := w.shown ++ [(t, items)] } :=
      ⟨t, items, rfl, hf, List.mem_append_right _ (List.mem_singleton_self _)⟩
    exact {
      first := h.first
      pos := h.pos
      chain := h.chain.imp (Follows.mono (List.subset_append_left _ _))
      loads := fun cursor hc ↦ h.loads cursor (List.mem_of_mem_eraseIdx hc)
      cleared := fun _ _ ↦ hsettled
      kept := fun _ _ _ ↦ hsettled }
  | fail i cursor hi =>
    exact {
      first := h.first
      pos := h.pos
      chain := h.chain
      loads := fun cursor hc ↦ h.loads cursor (List.mem_of_mem_eraseIdx hc)
      cleared := h.cleared
      kept := fun _ he ↦ by cases he }

theorem inv_of_run (hw : w.loads = []) (hrun : Run (step scr fetch) (restart scr w) l w')
    (hl : Along (step scr fetch) (Waits scr) (restart scr w) l) : Inv scr fetch w' := by
  refine hrun.invariant_along (Inv scr fetch) (fun _ _ _ hi hP ha ↦ inv_step hi hP ha) hl ?_
  refine inv_load rfl Nat.zero_lt_one (.singleton _) ?_
  rw [hw]
  exact fun _ hc ↦ absurd hc List.not_mem_nil

/-- The cursors of a stack lead from page to page. -/
theorem walk_of_chain {shown : List (τ × List ρ)} {before : Option κ} {rest : List (Option κ)}
    (hchain : (before :: rest).IsChain (Follows fetch shown))
    (hlast : ∃ t items, fetch t ((before :: rest).getLast (List.cons_ne_nil _ _)) = (items, none) ∧
      (t, items) ∈ shown) :
    ∃ visits ⊆ shown, Walk fetch before (visits.map (·.1)) (visits.map (·.2)) := by
  induction rest generalizing before with
  | nil =>
    obtain ⟨t, items, hf, hmem⟩ := hlast
    exact ⟨[(t, items)], List.cons_subset.mpr ⟨hmem, List.nil_subset _⟩, .last hf⟩
  | cons next rest ih =>
    obtain ⟨⟨t, items, c, rfl, hf, hmem⟩, hchain⟩ := List.isChain_cons_cons.mp hchain
    obtain ⟨visits, hsub, hwalk⟩ := ih hchain hlast
    exact ⟨(t, items) :: visits, List.cons_subset.mpr ⟨hmem, hsub⟩, .more hf hwalk⟩

variable [LinearOrder κ]

/-- The list is there, and there is nothing older to ask for. -/
structure AtEnd (scr : Screen) (w : Listing τ ρ κ) : Prop where
  shows : shows scr w
  loads : w.loads = []
  error : scr.clears = false → w.error = false
  next : w.next = none

/-- Whoever has paged to the end, has been shown every row that was there and
matched throughout, once, in one descending order. -/
def ShowsAll (scr : Screen) (fetch : τ → Option κ → List ρ × Option κ) (key : ρ → κ)
    (rows : τ → List ρ) : Prop :=
  ∀ w l w', w.loads = [] → Run (step scr fetch) (restart scr w) l w' →
    Along (step scr fetch) (Waits scr) (restart scr w) l → AtEnd scr w' →
      ∃ visits ⊆ w'.shown, ((visits.map (·.2)).flatten.map key).Pairwise (· > ·) ∧
        ∀ k, (∀ t ∈ visits.map (·.1), k ∈ (rows t).map key) →
          ((visits.map (·.2)).flatten.map key).count k = 1

theorem showsAll_of_paging {key : ρ → κ} {rows : τ → List ρ} {size : ℕ}
    (hpaging : Paging fetch key rows size) : ShowsAll scr fetch key rows := by
  intro w l w' hw hrun hl hend
  have hi := inv_of_run hw hrun hl
  obtain ⟨t, items, -, hf, hmem⟩ := hi.settled hend.shows hend.loads hend.error
  rw [hend.next] at hf
  obtain ⟨rest, hstack⟩ : ∃ rest, w'.stack.take (w'.pos + 1) = none :: rest := by
    obtain ⟨c, cs, hcs⟩ := List.exists_cons_of_length_pos (Nat.zero_lt_of_lt hi.pos)
    obtain rfl : c = none := Option.some.inj ((congrArg List.head? hcs).symm.trans hi.first)
    rw [hcs]
    exact ⟨_, List.take_succ_cons⟩
  have hchain := hi.chain.take (w'.pos + 1)
  have hcursor : (w'.stack.take (w'.pos + 1)).getLast? = some w'.cursor := by
    have hget := List.getElem?_eq_getElem hi.pos
    rw [List.getLast?_take, if_neg (Nat.succ_ne_zero _), Nat.add_sub_cancel, Listing.cursor, hget]
    rfl
  rw [hstack] at hchain hcursor
  have hlast := List.getLast_of_getLast?_eq_some hcursor
  obtain ⟨visits, hsub, hwalk⟩ := walk_of_chain hchain ⟨t, items, hlast.symm ▸ hf, hmem⟩
  exact ⟨visits, hsub, hpaging.sorted _ _ hwalk, hpaging.once _ _ hwalk⟩

/-- The three lists of the admin. -/
theorem lists_show_all [Platform] (m : MessagesQuery) (s : SuppressionsQuery) (b : BouncesQuery) :
    ShowsAll .messages (messagesFrom m) MessageRow.key m.matching ∧
      ShowsAll .suppressions (suppressionsFrom s) (fun r ↦ (r.id : ℤ)) s.matching ∧
        ShowsAll .bounces (bouncesFrom b) BounceRow.id bounceRows := by
  refine ⟨showsAll_of_paging (paging_of_isPage fun _ cursor ↦ isPage_messages m cursor),
    showsAll_of_paging (paging_of_isPage fun _ cursor ↦ isPage_suppressions s cursor),
    showsAll_of_paging (paging_of_isPage fun _ cursor ↦ isPage_bounces b cursor)⟩

section Witness

attribute [local instance] Platform.ascii

theorem digest_nil : ∀ a ∈ ([] : List MessageAttachment), a.sha256 = Platform.sha256 a.content :=
  fun _ ha ↦ absurd ha List.not_mem_nil

def twoBounces : AdminDb where
  message := ⟨[], .nil⟩
  messageAttachment := []
  bounceReport := [{ receivedAt := 0, raw := "a".toList }, { receivedAt := 1, raw := "b".toList }]
  tenant := ⟨[], .nil⟩
  attemptIds := []
  bounceIds := [1, 2]
  tenantOf _ hm := absurd hm List.not_mem_nil
  attachmentIds := .nil
  digest := digest_nil
  attemptNumbers := List.length_nil
  bounceNumbers := rfl
  bounceIds_nodup := .cons (fun h ↦ absurd (List.mem_singleton.mp h) (Int.ne_of_lt (Int.lt_succ 1)))
    (List.nodup_singleton 2)

def onePerPage : BouncesQuery := { limit := some 1 }

theorem nodup_three : ([1, 2, 3] : List ℤ).Nodup := by decide

def threeBounces : AdminDb where
  message := twoBounces.message
  messageAttachment := []
  bounceReport := twoBounces.bounceReport ++ [{ receivedAt := 2, raw := "c".toList }]
  tenant := twoBounces.tenant
  attemptIds := []
  bounceIds := [1, 2, 3]
  tenantOf := twoBounces.tenantOf
  attachmentIds := .nil
  digest := digest_nil
  attemptNumbers := List.length_nil
  bounceNumbers := rfl
  bounceIds_nodup := nodup_three

/-- A third bounce comes between the pages, and the first page is gone back to. -/
def toTheEnd : List (Action AdminDb) :=
  [.answer 0 twoBounces, .older, .answer 0 threeBounces, .newer, .answer 0 threeBounces, .older,
    .reload, .answer 1 threeBounces, .answer 0 threeBounces]

theorem toTheEnd_shows_all : ∃ w, Run (step .bounces (bouncesFrom onePerPage))
      (restart .bounces {}) toTheEnd w ∧
    w.shown.map (fun visit ↦ visit.2.map (·.id)) = [[2], [1], [3], [1], [1]] ∧
    ∃ visits ⊆ w.shown,
      ((visits.map (·.2)).flatten.map BounceRow.id).Pairwise (· > ·) ∧
        ∀ k ∈ [1, 2], ((visits.map (·.2)).flatten.map BounceRow.id).count k = 1 := by
  have hrun : (exec (step .bounces (bouncesFrom onePerPage)) (restart .bounces {}) toTheEnd).any
      fun w ↦ shows .bounces w && w.loads = [] && !w.error && w.next = none &&
        w.shown.map (fun visit ↦ visit.2.map (·.id)) = [[2], [1], [3], [1], [1]] &&
        [1, 2].all fun k ↦ w.shown.all fun visit ↦ k ∈ (bounceRows visit.1).map BounceRow.id := by
    decide +kernel
  have hwaits : Along (step .bounces (bouncesFrom onePerPage)) (Waits .bounces)
      (restart .bounces {}) toTheEnd := by decide +kernel
  obtain ⟨w, hw, hp⟩ := run_of_any hrun
  simp only [Bool.and_eq_true, decide_eq_true_eq, Bool.not_eq_true', List.all_eq_true] at hp
  obtain ⟨⟨⟨⟨⟨hshows, hloads⟩, herror⟩, hnext⟩, hshown⟩, hrows⟩ := hp
  have hall := (lists_show_all {} {} onePerPage).2.2
  obtain ⟨visits, hsub, hsorted, honce⟩ :=
    hall {} toTheEnd w rfl hw hwaits ⟨hshows, hloads, fun _ ↦ herror, hnext⟩
  refine ⟨w, hw, hshown, visits, hsub, hsorted, fun k hk ↦ honce k fun t ht ↦ ?_⟩
  obtain ⟨visit, hvisit, rfl⟩ := List.mem_map.mp ht
  exact hrows k hk visit (hsub hvisit)

/-- Where the rows of another page stay up, a second click that does not wait
makes a page of the same cursor. -/
example : (exec (step .bounces (bouncesFrom onePerPage)) (restart .bounces {})
    [.answer 0 twoBounces, .older, .older]).any (·.stack = [none, some 2, some 2]) := by
  decide +kernel

end Witness

end Postbud.Ui.Pager
