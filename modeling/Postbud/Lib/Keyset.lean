import Mathlib.Data.List.Sort
import Mathlib.Data.Set.Finite.Basic
import Mathlib.Order.Defs.LinearOrder

namespace Postbud.Lib.Keyset

variable {ρ κ τ : Type} [LinearOrder κ]

/-- Whether a key comes after the cursor, if there is one, in the order of the pages. -/
def Older (before : Option κ) (k : κ) : Prop := ∀ c ∈ before, k < c

instance (before : Option κ) (k : κ) : Decidable (Older before k) := by
  unfold Older
  infer_instance

/-- `where key < cursor order by key desc limit`. -/
def newest (key : ρ → κ) (rows : List ρ) (before : Option κ) (limit : ℕ) : List ρ :=
  ((rows.filter fun r ↦ Older before (key r)).insertionSort fun a b ↦ key b ≤ key a).take limit

/-- A page of the rows under a cursor: the newest of them in order, and the
cursor of the next page if that is not all. -/
structure IsPage (key : ρ → κ) (rows : List ρ) (before : Option κ) (size : ℕ) (items : List ρ)
    (next : Option κ) : Prop where
  mem : ∀ r ∈ items, r ∈ rows ∧ Older before (key r)
  sorted : (items.map key).Pairwise (· > ·)
  length_le : items.length ≤ size
  newer : ∀ r ∈ rows, Older before (key r) → r ∉ items → ∀ r' ∈ items, key r < key r'
  complete : next = none ↔ ∀ r ∈ rows, Older before (key r) → r ∈ items
  last : ∀ c ∈ next, (items.map key).getLast? = some c

/-- Following the cursor of each page to the next, over the states that the
pages are fetched in, until there is none. -/
inductive Walk (fetch : τ → Option κ → List ρ × Option κ) : Option κ → List τ → List (List ρ) → Prop
  | last {before : Option κ} {t : τ} {items : List ρ} (h : fetch t before = (items, none)) :
    Walk fetch before [t] [items]
  | more {before : Option κ} {next : κ} {t : τ} {items : List ρ} {states : List τ}
      {pages : List (List ρ)} (h : fetch t before = (items, some next))
      (rest : Walk fetch (some next) states pages) : Walk fetch before (t :: states) (items :: pages)

section Page

variable {key : ρ → κ} {rows all : List ρ} {before : Option κ} {size : ℕ}

/-- The first rows of all that are older than the cursor, in order. -/
theorem isPage_take (hmem : ∀ r, r ∈ all ↔ r ∈ rows ∧ Older before (key r))
    (hsorted : all.Pairwise fun a b ↦ key b < key a) (hsize : 0 < size) :
    IsPage key rows before size (all.take size)
      (if size < all.length then (all.take size).getLast?.map key else none) := by
  have hsplit : (all.take size ++ all.drop size).Pairwise fun a b ↦ key b < key a := by
    rwa [List.take_append_drop]
  obtain ⟨hshown, -, hacross⟩ := List.pairwise_append.mp hsplit
  have hrest : ∀ r ∈ all, r ∉ all.take size → r ∈ all.drop size := by
    intro r hr hnot
    rw [← List.take_append_drop size all] at hr
    exact (List.mem_append.mp hr).resolve_left hnot
  have hlast : size < all.length → (all.take size).getLast? ≠ none := by
    intro hlt hnone
    have hlen := congrArg List.length (List.getLast?_eq_none_iff.mp hnone)
    rw [List.length_take, List.length_nil] at hlen
    omega
  refine ⟨fun r hr ↦ (hmem r).mp (List.mem_of_mem_take hr), List.pairwise_map.mpr hshown,
    List.length_take_le _ _, ?_, ?_, ?_⟩
  · intro r hr holder hnot r' hr'
    exact hacross r' hr' r (hrest r ((hmem r).mpr ⟨hr, holder⟩) hnot)
  · split_ifs with hlt
    · obtain ⟨probe, hprobe⟩ : ∃ r, r ∈ all.drop size := by
        refine List.exists_mem_of_length_pos ?_
        rw [List.length_drop]
        omega
      obtain ⟨hr, holder⟩ := (hmem probe).mp (List.mem_of_mem_drop hprobe)
      refine iff_of_false (fun h ↦ hlast hlt (Option.map_eq_none_iff.mp h)) fun h ↦ ?_
      exact lt_irrefl _ (hacross probe (h probe hr holder) probe hprobe)
    · refine iff_of_true rfl fun r hr holder ↦ ?_
      rw [List.take_of_length_le (by omega)]
      exact (hmem r).mpr ⟨hr, holder⟩
  · intro c hc
    split_ifs at hc
    · rw [List.getLast?_map]
      exact hc
    · cases hc

/-- One row more than the page holds tells whether there is a next one. -/
theorem isPage_newest (before : Option κ) (hkeys : (rows.map key).Nodup) (hsize : 0 < size) :
    IsPage key rows before size ((newest key rows before (size + 1)).take size)
      (if size < (newest key rows before (size + 1)).length then
        ((newest key rows before (size + 1)).take size).getLast?.map key else none) := by
  have htotal : Std.Total fun a b : ρ ↦ key b ≤ key a := ⟨fun a b ↦ le_total _ _⟩
  have htrans : IsTrans ρ fun a b ↦ key b ≤ key a := ⟨fun _ _ _ h h' ↦ h'.trans h⟩
  obtain ⟨all, hall⟩ : ∃ all, all = (rows.filter fun r ↦ Older before (key r)).insertionSort
      fun a b ↦ key b ≤ key a := ⟨_, rfl⟩
  have hperm : all.Perm (rows.filter fun r ↦ Older before (key r)) :=
    hall ▸ List.perm_insertionSort _ _
  have hmem : ∀ r, r ∈ all ↔ r ∈ rows ∧ Older before (key r) := fun r ↦ by
    rw [hperm.mem_iff, List.mem_filter, decide_eq_true_iff]
  have hsorted : all.Pairwise fun a b ↦ key b < key a := by
    have hle : all.Pairwise fun a b ↦ key b ≤ key a := hall ▸ List.pairwise_insertionSort _ _
    have hnodup : (all.map key).Nodup :=
      (hperm.map key).nodup_iff.mpr (hkeys.sublist (List.filter_sublist.map key))
    exact (hle.and (List.pairwise_map.mp hnodup)).imp fun h ↦ lt_of_le_of_ne h.1 (Ne.symm h.2)
  have hfetched : newest key rows before (size + 1) = all.take (size + 1) := by rw [newest, ← hall]
  have htake : (newest key rows before (size + 1)).take size = all.take size := by
    rw [hfetched, List.take_take, Nat.min_eq_left (Nat.le_succ size)]
  have hmore : size < (newest key rows before (size + 1)).length ↔ size < all.length := by
    rw [hfetched, List.length_take]
    omega
  rw [htake]
  simp only [hmore]
  exact isPage_take hmem hsorted hsize

end Page

section Walk

variable {fetch : τ → Option κ → List ρ × Option κ} {key : ρ → κ} {rows : τ → List ρ} {size : ℕ}
  {before : Option κ} {states : List τ} {pages : List (List ρ)}

/-- What is not on a page is older than its cursor. -/
theorem IsPage.older_next {items table : List ρ} {next : κ} {r : ρ}
    (h : IsPage key table before size items (some next)) (hr : r ∈ table)
    (holder : Older before (key r)) (hnot : r ∉ items) : key r < next := by
  obtain ⟨last, hlast, rfl⟩ := List.mem_map.mp (List.mem_of_getLast? (h.last next rfl))
  exact h.newer r hr holder hnot last hlast

/-- What is on a page is not. -/
theorem IsPage.next_le {items table : List ρ} {next : κ} {r : ρ}
    (h : IsPage key table before size items (some next)) (hr : r ∈ items) : next ≤ key r := by
  obtain ⟨newer, hkeys⟩ := List.getLast?_eq_some_iff.mp (h.last next rfl)
  have hmem : key r ∈ newer ++ [next] := hkeys ▸ List.mem_map_of_mem hr
  have hsorted := hkeys ▸ h.sorted
  rcases List.mem_append.mp hmem with hnewer | hlast
  · exact ((List.pairwise_append.mp hsorted).2.2 _ hnewer next (List.mem_singleton_self _)).le
  · exact (List.mem_singleton.mp hlast).ge

theorem IsPage.older_of_next {items table : List ρ} {next c : κ}
    (h : IsPage key table before size items (some next)) (hc : c ∈ before) : next < c := by
  obtain ⟨last, hlast, rfl⟩ := List.mem_map.mp (List.mem_of_getLast? (h.last next rfl))
  exact (h.mem last hlast).2 c hc

variable (hfetch : ∀ t before, IsPage key (rows t) before size (fetch t before).1 (fetch t before).2)
include hfetch

/-- No page shows what is not older than the cursor that the walk began with. -/
theorem walk_older (h : Walk fetch before states pages) :
    ∀ r ∈ pages.flatten, Older before (key r) := by
  induction h with
  | @last before t items h =>
    intro r hr
    have hpage := hfetch t before
    rw [h] at hpage
    rw [List.flatten_singleton] at hr
    exact (hpage.mem r hr).2
  | @more before next t items states pages h _ ih =>
    intro r hr
    have hpage := hfetch t before
    rw [h] at hpage
    rw [List.flatten_cons] at hr
    rcases List.mem_append.mp hr with hshown | hlater
    · exact (hpage.mem r hshown).2
    · exact fun c hc ↦ (ih r hlater next rfl).trans (hpage.older_of_next hc)

/-- The rows come in strictly descending order, whatever happens between the
pages. -/
theorem walk_sorted (h : Walk fetch before states pages) :
    (pages.flatten.map key).Pairwise (· > ·) := by
  induction h with
  | @last before t items h =>
    have hpage := hfetch t before
    rw [h] at hpage
    rw [List.flatten_singleton]
    exact hpage.sorted
  | @more before next t items states pages h rest ih =>
    have hpage := hfetch t before
    rw [h] at hpage
    rw [List.flatten_cons, List.map_append, List.pairwise_append]
    refine ⟨hpage.sorted, ih, fun k hk k' hk' ↦ ?_⟩
    obtain ⟨r, hr, rfl⟩ := List.mem_map.mp hk
    obtain ⟨r', hr', rfl⟩ := List.mem_map.mp hk'
    exact (walk_older hfetch rest r' hr' next rfl).trans_le (hpage.next_le hr)

/-- A row that is in every state a page is fetched in, in whatever shape, is
on one of the pages. -/
theorem mem_walk {k : κ} (h : Walk fetch before states pages) (hk : Older before k)
    (hrows : ∀ t ∈ states, k ∈ (rows t).map key) : k ∈ pages.flatten.map key := by
  induction h with
  | @last before t items h =>
    have hpage := hfetch t before
    rw [h] at hpage
    obtain ⟨r, hr, rfl⟩ := List.mem_map.mp (hrows t List.mem_cons_self)
    rw [List.flatten_singleton]
    exact List.mem_map_of_mem (hpage.complete.mp rfl r hr hk)
  | @more before next t items states pages h _ ih =>
    have hpage := hfetch t before
    rw [h] at hpage
    obtain ⟨r, hr, rfl⟩ := List.mem_map.mp (hrows t List.mem_cons_self)
    rw [List.flatten_cons, List.map_append, List.mem_append]
    by_cases hshown : r ∈ items
    · exact .inl (List.mem_map_of_mem hshown)
    · refine .inr (ih (fun c hc ↦ ?_) fun t' ht' ↦ hrows t' (List.mem_cons_of_mem _ ht'))
      obtain rfl := Option.some.inj hc
      exact hpage.older_next hr hk hshown

/-- Every page but the last spends a key. -/
theorem walk_ends (keys : List κ) (state : ℕ → τ)
    (hkeys : ∀ i, ∀ r ∈ rows (state i), Older before (key r) → key r ∈ keys) :
    ∃ n pages, Walk fetch before ((List.range n).map state) pages := by
  induction hn : (keys.filter fun k ↦ Older before k).length using Nat.strong_induction_on
    generalizing before state with
  | _ n ih =>
    subst hn
    have hpage := hfetch (state 0) before
    rcases hf : fetch (state 0) before with ⟨items, next⟩
    rw [hf] at hpage
    cases next with
    | none => exact ⟨1, [items], .last hf⟩
    | some next =>
      obtain ⟨last, hlast, rfl⟩ := List.mem_map.mp (List.mem_of_getLast? (hpage.last next rfl))
      have hmem := hpage.mem last hlast
      have hspent : key last ∈ keys.filter fun k ↦ Older before k :=
        List.mem_filter.mpr ⟨hkeys 0 last hmem.1 hmem.2, decide_eq_true hmem.2⟩
      have hfewer : (keys.filter fun k ↦ Older (some (key last)) k).length
          < (keys.filter fun k ↦ Older before k).length := by
        have hkept : (keys.filter fun k ↦ Older (some (key last)) k)
            = (keys.filter fun k ↦ Older before k).filter fun k ↦ Older (some (key last)) k := by
          rw [List.filter_filter]
          refine List.filter_congr fun k _ ↦ ?_
          rw [← Bool.decide_and, decide_eq_decide]
          exact ⟨fun h ↦ ⟨h, fun c hc ↦ (h _ rfl).trans (hpage.older_of_next hc)⟩, And.left⟩
        rw [hkept, List.length_filter_lt_length_iff_exists]
        exact ⟨key last, hspent, by simp [Older]⟩
      have hlater : ∀ i, ∀ r ∈ rows (state (i + 1)), Older (some (key last)) (key r) →
          key r ∈ keys := fun i r hr holder ↦ hkeys (i + 1) r hr fun c hc ↦
        (holder _ rfl).trans (hpage.older_of_next hc)
      obtain ⟨n, pages, hwalk⟩ := ih _ hfewer (fun i ↦ state (i + 1)) hlater rfl
      refine ⟨n + 1, items :: pages, ?_⟩
      rw [List.range_succ_eq_map, List.map_cons, List.map_map]
      exact .more hf hwalk

end Walk

/-- What a client may rely on that follows the cursors from the first page on. -/
structure Paging (fetch : τ → Option κ → List ρ × Option κ) (key : ρ → κ) (rows : τ → List ρ)
    (size : ℕ) : Prop where
  page : ∀ t before, IsPage key (rows t) before size (fetch t before).1 (fetch t before).2
  sorted : ∀ states pages, Walk fetch none states pages →
    (pages.flatten.map key).Pairwise (· > ·)
  once : ∀ states pages, Walk fetch none states pages →
    ∀ k, (∀ t ∈ states, k ∈ (rows t).map key) → (pages.flatten.map key).count k = 1
  ends : ∀ state : ℕ → τ, (∀ c, {k | k < c ∧ ∃ i, k ∈ (rows (state i)).map key}.Finite) →
    ∃ n pages, Walk fetch none ((List.range n).map state) pages

theorem paging_of_isPage {fetch : τ → Option κ → List ρ × Option κ} {key : ρ → κ}
    {rows : τ → List ρ} {size : ℕ}
    (hfetch : ∀ t before, IsPage key (rows t) before size (fetch t before).1 (fetch t before).2) :
    Paging fetch key rows size where
  page := hfetch
  sorted _ _ h := walk_sorted hfetch h
  once states pages h k hk := by
    have hnodup : (pages.flatten.map key).Nodup := (walk_sorted hfetch h).imp ne_of_gt
    exact List.count_eq_one_of_mem hnodup (mem_walk hfetch h nofun hk)
  ends state hfinite := by
    rcases hf : fetch (state 0) none with ⟨items, next⟩
    cases next with
    | none => exact ⟨1, [items], .last hf⟩
    | some next =>
      have hkeys : ∀ i, ∀ r ∈ rows (state (i + 1)), Older (some next) (key r) →
          key r ∈ (hfinite next).toFinset.toList := by
        intro i r hr holder
        rw [Finset.mem_toList, Set.Finite.mem_toFinset]
        exact ⟨holder next rfl, i + 1, List.mem_map_of_mem hr⟩
      obtain ⟨n, pages, hwalk⟩ := walk_ends hfetch _ (fun i ↦ state (i + 1)) hkeys
      refine ⟨n + 1, items :: pages, ?_⟩
      rw [List.range_succ_eq_map, List.map_cons, List.map_map]
      exact .more hf hwalk

end Postbud.Lib.Keyset
