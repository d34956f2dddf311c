import Mathlib.Data.List.Nodup
import Postbud.Db.DmarcStore
import Postbud.Db.DmarcSummary

namespace Postbud.DmarcStore

open Lib Lib.Processes Lib.Join Lib.Transition Dmarc

variable {s s' : State} {a : Action} {l : List Action} {i : ℕ} {c c' y : Call} {b : Block}
  {db : Tables}

/-- The ids that two calls have drawn differ, and so do the identities of
what they write. -/
structure Call.Apart (c c' : Call) : Prop where
  ids : ∀ id ∈ c.id?, ∀ id' ∈ c'.id?, id ≠ id'
  identities : ∀ b ∈ c.block, ∀ b' ∈ c'.block, b.row.identity ≠ b'.row.identity

instance : Std.Symm Call.Apart where
  symm _ _ h := ⟨fun id hid id' hid' he ↦ h.ids id' hid' id hid he.symm,
    fun b hb b' hb' he ↦ h.identities b' hb' b hb he.symm⟩

/-- A block holds the row of a call's report, and the first of its records. -/
structure Call.Made (c : Call) (b : Block) : Prop where
  row : b.row = c.report.row b.row.id c.raw c.now
  records : b.records.map RecordRow.record = c.report.records.take b.records.length
  report : ∀ d ∈ b.records, d.report = b.row.id

/-- The records that a call has stored. -/
def Call.published (c : Call) : List RecordRow := (c.stored.map (·.records)).getD []

structure Inv (s : State) : Prop where
  apart : Apart Call.Apart s.calls
  drawn : ∀ c ∈ s.calls, ∀ id ∈ c.id?, id ≤ s.db.reportSeq
  made : ∀ c ∈ s.calls, ∀ b ∈ c.block, c.Made b
  whole : ∀ c ∈ s.calls, ∀ b ∈ c.stored, b.records.map RecordRow.record = c.report.records
  reports : s.db.report.Perm ((s.calls.filterMap Call.stored).map (·.row))
  records : ∀ d ∈ s.db.record, ∃ r ∈ s.db.report, d.report = r.id
  published : ∀ c ∈ s.calls, ∀ id ∈ c.id?, s.db.recordsOf id = c.published
  held : ∀ c ∈ s.calls, c.answer = some false → ∃ r ∈ s.db.report, r.identity = c.report.identity

namespace Call

theorem mem_block_of_stored (h : b ∈ c.stored) : b ∈ c.block := by
  unfold stored at h
  unfold block
  cases hs : c.stage with
  | returned stored => simpa only [hs] using h
  | _ =>
    rw [hs] at h
    cases h

theorem mem_id?_of_block (h : b ∈ c.block) : b.row.id ∈ c.id? := by
  unfold block at h
  unfold id?
  cases hs : c.stage with
  | records block =>
    rw [hs] at h
    obtain rfl := Option.some.inj h
    rfl
  | returned stored =>
    rw [hs] at h
    obtain rfl : stored = some b := h
    rfl
  | _ =>
    rw [hs] at h
    cases h

theorem answer_eq_true : c.answer = some true ↔ ∃ b, c.stored = some b := by
  unfold answer stored
  cases c.stage with
  | returned stored => simp only [Option.some.injEq, Option.isSome_iff_exists]
  | _ => exact iff_of_false (fun h ↦ by cases h) fun ⟨_, h⟩ ↦ by cases h

theorem published_of_none (h : c.stored = none) : c.published = [] := by
  rw [published, h]
  rfl

/-- A block that was started is written by an open call, or stored. -/
theorem block_cases (h : b ∈ c.block) : c.stage = .records b ∨ b ∈ c.stored := by
  unfold block at h
  unfold stored
  cases hs : c.stage with
  | records block =>
    rw [hs] at h
    obtain rfl := Option.some.inj h
    exact .inl rfl
  | returned stored =>
    rw [hs] at h
    exact .inr h
  | _ =>
    rw [hs] at h
    cases h

end Call

theorem Inv.init : Inv {} where
  apart := Apart.nil
  drawn _ hc := absurd hc List.not_mem_nil
  made _ hc := absurd hc List.not_mem_nil
  whole _ hc := absurd hc List.not_mem_nil
  reports := .nil
  records _ hd := absurd hd List.not_mem_nil
  published _ hc := absurd hc List.not_mem_nil
  held _ hc := absurd hc List.not_mem_nil

theorem Inv.mem_report_iff (h : Inv s) {r : ReportRow} :
    r ∈ s.db.report ↔ ∃ c ∈ s.calls, ∃ b ∈ c.stored, b.row = r := by
  rw [h.reports.mem_iff, List.mem_map]
  constructor
  · intro hr
    obtain ⟨b, hb, rfl⟩ := hr
    obtain ⟨c, hc, hb⟩ := List.mem_filterMap.mp hb
    exact ⟨c, hc, b, hb, rfl⟩
  · intro hr
    obtain ⟨c, hc, b, hb, rfl⟩ := hr
    exact ⟨b, List.mem_filterMap.mpr ⟨c, hc, hb⟩, rfl⟩

theorem Inv.id_le (h : Inv s) {r : ReportRow} (hr : r ∈ s.db.report) : r.id ≤ s.db.reportSeq := by
  obtain ⟨c, hc, b, hb, rfl⟩ := h.mem_report_iff.mp hr
  exact h.drawn c hc _ (Call.mem_id?_of_block (Call.mem_block_of_stored hb))

/-- No record refers to an id that is still to be drawn. -/
theorem Inv.recordsOf_fresh (h : Inv s) {id : ℤ} (hid : s.db.reportSeq < id) :
    s.db.recordsOf id = [] := by
  refine List.filter_eq_nil_iff.mpr fun d hd he ↦ ?_
  obtain ⟨r, hr, hrep⟩ := h.records d hd
  have hle := h.id_le hr
  have he := of_decide_eq_true he
  omega

/-- What a transaction with a new identity writes differs from all that is
written or stored. -/
theorem Inv.identity_fresh (h : Inv s) {report : Report} (hy : y ∈ s.calls.eraseIdx i)
    (hfree : ¬ y.Blocks report) (hnew : ∀ r ∈ s.db.report, r.identity ≠ report.identity)
    (hb : b ∈ y.block) : report.identity ≠ b.row.identity := by
  intro he
  rcases Call.block_cases hb with hs | hs
  · exact hfree ⟨b, hs, he.symm⟩
  · have hr := h.mem_report_iff.mpr ⟨y, List.mem_of_mem_eraseIdx hy, b, hs, rfl⟩
    exact hnew b.row hr he.symm

/-- A call moves, and nothing is committed. -/
theorem Inv.move (h : Inv s) (hi : s.calls[i]? = some c) (hreport : db.report = s.db.report)
    (hrecord : db.record = s.db.record) (hseq : s.db.reportSeq ≤ db.reportSeq)
    (hopen : c.stored = none) (hopen' : c'.stored = none)
    (hid : ∀ id ∈ c'.id?, id ∈ c.id? ∨ id = db.reportSeq ∧ s.db.reportSeq < id)
    (hmade : ∀ b ∈ c'.block, c'.Made b)
    (hidentity : ∀ b ∈ c'.block, ∀ y ∈ s.calls.eraseIdx i, ∀ b' ∈ y.block,
      b.row.identity ≠ b'.row.identity)
    (hheld : c'.answer = some false → ∃ r ∈ s.db.report, r.identity = c'.report.identity) :
    Inv { db, calls := s.calls.set i c' } where
  apart := by
    refine h.apart.set fun j y hj hy ↦ ⟨fun id hmem id' hmem' ↦ ?_, fun b hb ↦ ?_⟩
    · rcases hid id hmem with hmem | ⟨-, hlt⟩
      · exact (h.apart i j c y (Ne.symm hj) hi hy).ids id hmem id' hmem'
      · have hle := h.drawn y (List.mem_of_getElem? hy) id' hmem'
        omega
    · exact hidentity b hb y (List.mem_eraseIdx_iff_getElem?.mpr ⟨j, hj, hy⟩)
  drawn := by
    refine forall_mem_set (fun id hmem ↦ ?_) fun y hy id hmem ↦ ?_
    · rcases hid id hmem with hmem | ⟨rfl, -⟩
      · exact (h.drawn c (List.mem_of_getElem? hi) id hmem).trans hseq
      · exact le_rfl
    · exact (h.drawn y (List.mem_of_mem_eraseIdx hy) id hmem).trans hseq
  made := forall_mem_set hmade fun y hy ↦ h.made y (List.mem_of_mem_eraseIdx hy)
  whole := by
    refine forall_mem_set ?_ fun y hy ↦ h.whole y (List.mem_of_mem_eraseIdx hy)
    intro b hb
    rw [hopen'] at hb
    cases hb
  reports := by
    have hperm := perm_filterMap_set c' hi hopen
    rw [hopen', Option.toList_none, List.append_nil] at hperm
    rw [hreport]
    exact h.reports.trans (hperm.symm.map _)
  records := hreport ▸ hrecord ▸ h.records
  published := by
    have hsame (id : ℤ) : db.recordsOf id = s.db.recordsOf id := by
      rw [Tables.recordsOf, Tables.recordsOf, hrecord]
    refine forall_mem_set (fun id hmem ↦ ?_) fun y hy id hmem ↦ ?_
    · rw [hsame, Call.published_of_none hopen']
      rcases hid id hmem with hmem | ⟨-, hlt⟩
      · rw [h.published c (List.mem_of_getElem? hi) id hmem, Call.published_of_none hopen]
      · exact h.recordsOf_fresh hlt
    · rw [hsame, h.published y (List.mem_of_mem_eraseIdx hy) id hmem]
  held := by
    rw [hreport]
    exact forall_mem_set hheld fun y hy ↦ h.held y (List.mem_of_mem_eraseIdx hy)

theorem recordsOf_append (records : List RecordRow) (report : List ReportRow) (id : ℤ) :
    Tables.recordsOf { db with report, record := db.record ++ records } id =
      db.recordsOf id ++ records.filter (·.report = id) := by
  rw [Tables.recordsOf, Tables.recordsOf, List.filter_append]

/-- A call commits its block. -/
theorem Inv.commit (h : Inv s) (hi : s.calls[i]? = some c) (hc : c.stage = .records b)
    (hlast : c.report.records[b.records.length]? = none) :
    Inv { db := { s.db with
            report := s.db.report ++ [b.row]
            record := s.db.record ++ b.records }
          calls := s.calls.set i (c.close (.returned (some b))) } := by
  have hmem := List.mem_of_getElem? hi
  have hblock : b ∈ c.block := by
    rw [Call.block, hc]
    rfl
  have hopen : c.stored = none := by rw [Call.stored, hc]
  have hid : b.row.id ∈ c.id? := Call.mem_id?_of_block hblock
  have hmade := h.made c hmem b hblock
  constructor
  case apart =>
    refine h.apart.set fun j y hj hy ↦ ?_
    have hapart := h.apart i j c y (Ne.symm hj) hi hy
    refine ⟨fun id hmem ↦ ?_, fun b' hb' ↦ ?_⟩
    · exact Option.some.inj hmem ▸ hapart.ids b.row.id hid
    · exact Option.some.inj hb' ▸ hapart.identities b hblock
  case drawn =>
    refine forall_mem_set (fun id hmem' ↦ ?_) fun y hy ↦ h.drawn y (List.mem_of_mem_eraseIdx hy)
    exact Option.some.inj hmem' ▸ h.drawn c hmem b.row.id hid
  case made =>
    refine forall_mem_set (fun b' hb' ↦ ?_) fun y hy ↦ h.made y (List.mem_of_mem_eraseIdx hy)
    exact Option.some.inj hb' ▸ ⟨hmade.row, hmade.records, hmade.report⟩
  case whole =>
    refine forall_mem_set (fun b' hb' ↦ ?_) fun y hy ↦ h.whole y (List.mem_of_mem_eraseIdx hy)
    obtain rfl := Option.some.inj hb'
    rw [hmade.records]
    exact List.take_of_length_le (List.getElem?_eq_none_iff.mp hlast)
  case reports =>
    have hperm := perm_filterMap_set (c.close (.returned (some b))) hi hopen
    refine (h.reports.append_right [b.row]).trans ?_
    rw [← List.map_singleton, ← List.map_append]
    exact (hperm.symm).map _
  case records =>
    refine List.forall_mem_append.mpr ⟨fun d hd ↦ ?_, fun d hd ↦ ?_⟩
    · obtain ⟨r, hr, he⟩ := h.records d hd
      exact ⟨r, List.mem_append_left _ hr, he⟩
    · exact ⟨b.row, List.mem_append_right _ (List.mem_singleton_self _), hmade.report d hd⟩
  case published =>
    refine forall_mem_set (fun id hmem' ↦ ?_) fun y hy id hmem' ↦ ?_
    · obtain rfl := Option.some.inj hmem'
      rw [recordsOf_append, h.published c hmem _ hid, Call.published_of_none hopen,
        List.nil_append]
      exact List.filter_eq_self.mpr fun d hd ↦ decide_eq_true (hmade.report d hd)
    · obtain ⟨j, hj, hy⟩ := List.mem_eraseIdx_iff_getElem?.mp hy
      have hne := (h.apart i j c y (Ne.symm hj) hi hy).ids b.row.id hid id hmem'
      have hnil : b.records.filter (·.report = id) = [] := by
        refine List.filter_eq_nil_iff.mpr fun d hd he ↦ hne ?_
        exact (hmade.report d hd).symm.trans (of_decide_eq_true he)
      rw [recordsOf_append, hnil, List.append_nil]
      exact h.published y (List.mem_of_getElem? hy) id hmem'
  case held =>
    refine forall_mem_set (fun hans ↦ by cases hans) fun y hy hans ↦ ?_
    obtain ⟨r, hr, he⟩ := h.held y (List.mem_of_mem_eraseIdx hy) hans
    exact ⟨r, List.mem_append_left _ hr, he⟩

/-- A call that writes nothing more moves on. -/
theorem Inv.close (h : Inv s) (hi : s.calls[i]? = some c) (hopen : c.stored = none)
    (hid : c'.id? = none) (hblock : c'.block = none) (hstored : c'.stored = none)
    (hheld : c'.answer = some false → ∃ r ∈ s.db.report, r.identity = c'.report.identity) :
    Inv { s with calls := s.calls.set i c' } := by
  refine h.move hi rfl rfl le_rfl hopen hstored (fun id hmem ↦ ?_) (fun b hb ↦ ?_)
    (fun b hb ↦ ?_) hheld
  · rw [hid] at hmem
    cases hmem
  · rw [hblock] at hb
    cases hb
  · rw [hblock] at hb
    cases hb

theorem Inv.statement (h : Inv s) (hi : s.calls[i]? = some c)
    (hs : Call.Step s.db (s.calls.eraseIdx i) c db c') : Inv { db, calls := s.calls.set i c' } := by
  have hmem := List.mem_of_getElem? hi
  cases hs with
  | failed hopen => exact h.close hi hopen rfl rfl rfl fun hans ↦ by cases hans
  | drawn hc =>
    have hopen : c.stored = none := by rw [Call.stored, hc]
    have hlt : s.db.reportSeq < s.db.reportSeq + 1 := Int.lt_succ _
    refine h.move hi rfl rfl hlt.le hopen rfl (fun id hid ↦ .inr ?_) (fun b hb ↦ ?_)
      (fun b hb ↦ ?_) fun hans ↦ ?_
    · obtain rfl := Option.some.inj hid
      exact ⟨rfl, hlt⟩
    · cases hb
    · cases hb
    · cases hans
  | duplicate id hc r hr hsame =>
    have hopen : c.stored = none := by rw [Call.stored, hc]
    exact h.close hi hopen rfl rfl rfl fun _ ↦ ⟨r, hr, hsame⟩
  | inserted id hc hfree hnew =>
    have hopen : c.stored = none := by rw [Call.stored, hc]
    refine h.move hi rfl rfl le_rfl hopen rfl (fun id' hid ↦ .inl ?_) (fun b hb ↦ ?_)
      (fun b hb y hy b' hb' ↦ ?_) fun hans ↦ ?_
    · obtain rfl := Option.some.inj hid
      rw [Call.id?, hc]
      rfl
    · obtain rfl := Option.some.inj hb
      exact ⟨rfl, rfl, fun d hd ↦ absurd hd List.not_mem_nil⟩
    · obtain rfl := Option.some.inj hb
      exact h.identity_fresh hy (hfree y hy) hnew hb'
    · cases hans
  | recorded block record hc hr =>
    have hopen : c.stored = none := by rw [Call.stored, hc]
    have hblock : block ∈ c.block := by
      rw [Call.block, hc]
      rfl
    have hmade := h.made c hmem block hblock
    refine h.move hi rfl rfl le_rfl hopen rfl (fun id hid ↦ .inl ?_) (fun b hb ↦ ?_)
      (fun b hb y hy ↦ ?_) fun hans ↦ ?_
    · obtain rfl := Option.some.inj hid
      show block.row.id ∈ c.id?
      exact Call.mem_id?_of_block hblock
    · obtain rfl := Option.some.inj hb
      refine ⟨hmade.row, ?_, forall_mem_concat hmade.report rfl⟩
      obtain ⟨hlt, rfl⟩ := List.getElem?_eq_some_iff.mp hr
      show (block.records ++ [_]).map RecordRow.record = c.report.records.take _
      rw [List.map_append, List.length_append, List.length_singleton, hmade.records,
        List.map_singleton, Record.record_row]
      exact List.take_concat_get' _ _ hlt
    · obtain rfl := Option.some.inj hb
      obtain ⟨j, hj, hy⟩ := List.mem_eraseIdx_iff_getElem?.mp hy
      exact (h.apart i j c y (Ne.symm hj) hi hy).identities block hblock
    · cases hans
  | committed block hc hlast => exact h.commit hi hc hlast

theorem Inv.call (h : Inv s) (report : Report) (raw : Text) (now : Time) :
    Inv { s with calls := s.calls ++ [{ report, raw, now }] } where
  apart := h.apart.concat fun y _ ↦ ⟨fun id hid ↦ (by cases hid), fun b hb ↦ by cases hb⟩
  drawn := forall_mem_concat h.drawn fun id hid ↦ by cases hid
  made := forall_mem_concat h.made fun b hb ↦ by cases hb
  whole := forall_mem_concat h.whole fun b hb ↦ by cases hb
  reports := by
    rw [List.filterMap_append]
    exact (List.append_nil (s.calls.filterMap Call.stored)).symm ▸ h.reports
  records := h.records
  published := forall_mem_concat h.published fun id hid ↦ by cases hid
  held := forall_mem_concat h.held fun hans ↦ by cases hans

theorem Inv.step (h : Inv s) (hs : Step s a s') : Inv s' := by
  cases hs with
  | call report raw now => exact h.call report raw now
  | statement i c c' db hi hc => exact h.statement hi hc
  | abort i c hi hopen => exact h.statement hi (.failed hopen)

theorem inv_of_run (h : Run DmarcStore.step {} l s) : Inv s :=
  h.invariant Inv (fun _ _ _ hi hs ↦ hi.step (step_spec hs)) .init

/-- The calls that answered true, in the order they were made. -/
def State.winners (s : State) : List Call := s.calls.filter (·.answer = some true)

/-- The reports of these calls. -/
def State.winning (s : State) : List Report := s.winners.map (·.report)

/-- A row of `dmarc_report` with its records is what a call was given. -/
structure StoredBy (db : Tables) (r : ReportRow) (c : Call) : Prop where
  row : r = c.report.row r.id c.raw c.now
  records : (db.recordsOf r.id).map RecordRow.record = c.report.records

theorem Inv.storedBy (h : Inv s) (hc : c ∈ s.calls) (hb : b ∈ c.stored) :
    StoredBy s.db b.row c := by
  have hblock := Call.mem_block_of_stored hb
  refine ⟨(h.made c hc b hblock).row, ?_⟩
  rw [h.published c hc _ (Call.mem_id?_of_block hblock), Call.published, hb]
  exact h.whole c hc b hb

theorem Inv.identity_stored (h : Inv s) (hc : c ∈ s.calls) (hb : b ∈ c.stored) :
    b.row.identity = c.report.identity := by
  rw [(h.storedBy hc hb).row, Report.identity_row]

/-- Calls that answered true had different identities. -/
theorem Inv.winner_unique (h : Inv s) {j : ℕ} (hi : s.calls[i]? = some c)
    (hj : s.calls[j]? = some c') (hc : c.answer = some true) (hc' : c'.answer = some true)
    (he : c.report.identity = c'.report.identity) : i = j := by
  obtain ⟨b, hb⟩ := Call.answer_eq_true.mp hc
  obtain ⟨b', hb'⟩ := Call.answer_eq_true.mp hc'
  refine h.apart.unique hi hj fun hapart ↦ ?_
  apply hapart.identities b (Call.mem_block_of_stored hb) b' (Call.mem_block_of_stored hb')
  rw [h.identity_stored (List.mem_of_getElem? hi) hb, h.identity_stored (List.mem_of_getElem? hj) hb',
    he]

theorem Inv.identities_apart (h : Inv s) :
    s.db.report.Pairwise fun r r' ↦ r.identity ≠ r'.identity := by
  have hblocks : (s.calls.filterMap Call.stored).Pairwise
      fun b b' ↦ b.row.identity ≠ b'.row.identity := by
    refine List.pairwise_filterMap.mpr (h.apart.pairwise.imp fun hapart b hb b' hb' ↦ ?_)
    exact hapart.identities b (Call.mem_block_of_stored hb) b' (Call.mem_block_of_stored hb')
  exact h.reports.symm.pairwise (List.pairwise_map.mpr hblocks) fun hne he ↦ hne he.symm

theorem Inv.winning_nodup (h : Inv s) : (s.winning.map Report.identity).Nodup := by
  rw [State.winning, List.map_map]
  refine List.pairwise_map.mpr (List.pairwise_filter.mpr (h.apart.pairwise.imp_of_mem ?_))
  intro c c' hc hc' hapart hans hans' he
  obtain ⟨b, hb⟩ := Call.answer_eq_true.mp (of_decide_eq_true hans)
  obtain ⟨b', hb'⟩ := Call.answer_eq_true.mp (of_decide_eq_true hans')
  apply hapart.identities b (Call.mem_block_of_stored hb) b' (Call.mem_block_of_stored hb')
  rw [h.identity_stored hc hb, h.identity_stored hc' hb']
  exact he

/-- What the stored blocks of a domain say is what the reports of its winners say. -/
theorem Inv.map_blocks (h : Inv s) (domain : Text) (f : List Record → ℤ) :
    ((s.calls.filterMap Call.stored).filter (·.row.policyDomain = domain)).map
        (fun b ↦ f (b.records.map RecordRow.record)) =
      (s.winning.filter (·.domain = domain)).map fun report ↦ f report.records := by
  have hall (calls : List Call) (hcalls : ∀ c ∈ calls, c ∈ s.calls) :
      ((calls.filterMap Call.stored).filter (·.row.policyDomain = domain)).map
          (fun b ↦ f (b.records.map RecordRow.record)) =
        (((calls.filter (·.answer = some true)).map (·.report)).filter (·.domain = domain)).map
          fun report ↦ f report.records := by
    induction calls with
    | nil => rfl
    | cons c calls ih =>
      have ih := ih fun c' hc' ↦ hcalls c' (List.mem_cons_of_mem c hc')
      cases hs : c.stored with
      | none =>
        have hans : ¬ c.answer = some true := by
          rw [Call.answer_eq_true, hs]
          exact fun ⟨_, hb⟩ ↦ by cases hb
        rw [List.filterMap_cons_none hs, List.filter_cons_of_neg (by simpa using hans), ih]
      | some b =>
        have hc := hcalls c List.mem_cons_self
        have hans : c.answer = some true := Call.answer_eq_true.mpr ⟨b, hs⟩
        have hdomain : b.row.policyDomain = c.report.domain := by
          rw [(h.storedBy hc hs).row, Report.policyDomain_row]
        rw [List.filterMap_cons_some hs, List.filter_cons_of_pos (p := fun c : Call ↦
          decide (c.answer = some true)) (by simpa using hans), List.map_cons]
        by_cases hd : c.report.domain = domain
        · rw [List.filter_cons_of_pos (by simpa [hdomain] using hd),
            List.filter_cons_of_pos (by simpa using hd), List.map_cons, List.map_cons, ih,
            h.whole c hc b hs]
        · rw [List.filter_cons_of_neg (by simpa [hdomain] using hd),
            List.filter_cons_of_neg (by simpa using hd), ih]
  exact hall s.calls fun _ hc ↦ hc

/-- The join of a domain counts what the reports of its winners count. -/
theorem Inv.sum_joinedFor (h : Inv s) (domain : Text) (p : Record → Bool) :
    (((partners (s.db.joinedFor domain)).filter (fun d ↦ p d.record)).map (·.messageCount)).sum =
      ((s.winning.filter (·.domain = domain)).map fun report ↦
        ((report.records.filter p).map (·.count)).sum).sum := by
  let tally (records : List Record) : ℤ := ((records.filter p).map (·.count)).sum
  have hrows (ds : List RecordRow) : ((ds.filter fun d ↦ p d.record).map (·.messageCount)).sum =
      tally (ds.map RecordRow.record) := by
    show _ = (((ds.map RecordRow.record).filter p).map _).sum
    rw [List.filter_map, List.map_map]
    rfl
  have hblock : ∀ b ∈ (s.calls.filterMap Call.stored).filter (·.row.policyDomain = domain),
      s.db.recordsOf b.row.id = b.records := by
    intro b hb
    obtain ⟨c, hc, hb⟩ := List.mem_filterMap.mp (List.mem_filter.mp hb).1
    rw [h.published c hc _ (Call.mem_id?_of_block (Call.mem_block_of_stored hb)), Call.published, hb]
    rfl
  have hperm : (s.db.report.filter (·.policyDomain = domain)).Perm
      (((s.calls.filterMap Call.stored).filter (·.row.policyDomain = domain)).map (·.row)) := by
    refine (h.reports.filter _).trans ?_
    rw [List.filter_map]
    exact .refl _
  calc (((partners (s.db.joinedFor domain)).filter fun d ↦ p d.record).map (·.messageCount)).sum
    _ = ((s.db.report.filter (·.policyDomain = domain)).map fun r ↦
          tally ((s.db.recordsOf r.id).map RecordRow.record)).sum := by
      rw [partners_joinedFor, List.filter_flatMap, List.map_flatMap, List.flatMap_def,
        List.sum_flatten, List.map_map]
      exact congrArg List.sum (List.map_congr_left fun r _ ↦ hrows (s.db.recordsOf r.id))
    _ = (((s.calls.filterMap Call.stored).filter (·.row.policyDomain = domain)).map fun b ↦
          tally (b.records.map RecordRow.record)).sum := by
      rw [(hperm.map _).sum_eq, List.map_map]
      exact congrArg List.sum (List.map_congr_left fun b hb ↦ by
        rw [Function.comp_apply, hblock b hb])
    _ = _ := congrArg List.sum (h.map_blocks domain tally)

theorem Inv.messagesOf_joinedFor (h : Inv s) (domain : Text) :
    messagesOf (s.db.joinedFor domain) =
      ((s.winning.filter (·.domain = domain)).map Report.messages).sum := by
  have hsum := h.sum_joinedFor domain fun _ ↦ true
  simp only [List.filter_true] at hsum
  exact hsum

theorem Inv.passedOf_joinedFor (h : Inv s) (domain : Text) :
    passedOf (s.db.joinedFor domain) =
      ((s.winning.filter (·.domain = domain)).map Report.passed).sum :=
  h.sum_joinedFor domain Record.passed

/-- Whatever calls run side by side, an identity is stored once: its row, with
all of its records, is what the one call was given that answered true, and no
record is without a row. The totals of a domain count every identity once. -/
theorem stored_once (h : Run DmarcStore.step {} l s) :
    (s.db.report.Pairwise fun r r' ↦ r.identity ≠ r'.identity) ∧
    (∀ r ∈ s.db.report, ∃ (i : ℕ) (c : Call), s.calls[i]? = some c ∧ c.answer = some true ∧
      StoredBy s.db r c ∧ ∀ (j : ℕ) (c' : Call), s.calls[j]? = some c' → c'.answer = some true →
        c'.report.identity = r.identity → i = j) ∧
    (∀ c ∈ s.calls, c.answer = some true → ∃ r ∈ s.db.report, StoredBy s.db r c) ∧
    (∀ d ∈ s.db.record, ∃ r ∈ s.db.report, d.report = r.id) ∧
    (s.winning.map Report.identity).Nodup ∧
    ∀ domain,
      messagesOf (s.db.joinedFor domain) =
        ((s.winning.filter (·.domain = domain)).map Report.messages).sum ∧
      passedOf (s.db.joinedFor domain) =
        ((s.winning.filter (·.domain = domain)).map Report.passed).sum := by
  have hi := inv_of_run h
  refine ⟨hi.identities_apart, fun r hr ↦ ?_, fun c hc hans ↦ ?_, hi.records, hi.winning_nodup,
    fun domain ↦ ⟨hi.messagesOf_joinedFor domain, hi.passedOf_joinedFor domain⟩⟩
  · obtain ⟨c, hc, b, hb, rfl⟩ := hi.mem_report_iff.mp hr
    obtain ⟨i, hget⟩ := List.mem_iff_getElem?.mp hc
    have hans : c.answer = some true := Call.answer_eq_true.mpr ⟨b, hb⟩
    refine ⟨i, c, hget, hans, hi.storedBy hc hb, fun j c' hj hans' he ↦ ?_⟩
    exact hi.winner_unique hget hj hans hans' ((hi.identity_stored hc hb).symm.trans he.symm)
  · obtain ⟨b, hb⟩ := Call.answer_eq_true.mp hans
    exact ⟨b.row, hi.mem_report_iff.mpr ⟨c, hc, b, hb, rfl⟩, hi.storedBy hc hb⟩

/-- The identity that a call answers for is held. -/
theorem held_of_answer (h : Run DmarcStore.step {} l s) (hc : c ∈ s.calls) {answer : Bool}
    (hans : c.answer = some answer) :
    c.report.identity ∈ s.db.report.map ReportRow.identity := by
  have hi := inv_of_run h
  rw [List.mem_map]
  cases answer with
  | false => exact hi.held c hc hans
  | true =>
    obtain ⟨b, hb⟩ := Call.answer_eq_true.mp hans
    exact ⟨b.row, hi.mem_report_iff.mpr ⟨c, hc, b, hb, rfl⟩, hi.identity_stored hc hb⟩

def dailyReport (orgName : Text) (passing failing : ℤ) : Report where
  orgName
  email := none
  reportId := "2026-09-01".toList
  begin_ := 1788220800
  end_ := 1788307199
  domain := "example.com".toList
  p := some "reject".toList
  sp := none
  pct := some 100
  adkim := none
  aspf := none
  records := [
    { sourceIp := "192.0.2.1".toList, count := passing, disposition := "none".toList
      dkimAligned := "pass".toList, spfAligned := "fail".toList, headerFrom := "example.com".toList },
    { sourceIp := "198.51.100.7".toList, count := failing, disposition := "reject".toList
      dkimAligned := "fail".toList, spfAligned := "fail".toList, headerFrom := "example.com".toList }]

/-- Two calls race with one report, and a third stores that of another organisation. -/
def redelivery : List Action :=
  [.call (dailyReport "google.com".toList 40 2) "a".toList 0,
    .call (dailyReport "google.com".toList 40 2) "a".toList 1,
    .call (dailyReport "Yahoo".toList 7 0) "b".toList 2,
    .statement 0, .statement 1, .statement 2, .statement 0, .statement 2, .statement 0, .statement 2,
    .statement 0, .statement 0, .statement 1, .statement 2, .statement 2]

theorem stored_once_redelivery : ∃ s, Run step {} redelivery s ∧
    s.calls.map Call.answer = [some true, some false, some true] ∧
    s.db.report.length = 2 ∧ s.db.record.length = 4 ∧
    (s.db.report.Pairwise fun r r' ↦ r.identity ≠ r'.identity) ∧
    messagesOf (s.db.joinedFor "example.com".toList) = 49 ∧
    passedOf (s.db.joinedFor "example.com".toList) = 47 := by
  have hrun : (exec step {} redelivery).any fun s ↦
      s.calls.map Call.answer = [some true, some false, some true] &&
      s.db.report.length = 2 && s.db.record.length = 4 &&
      s.winning = [dailyReport "google.com".toList 40 2, dailyReport "Yahoo".toList 7 0] := by
    decide +kernel
  obtain ⟨s, hs, hp⟩ := run_of_any hrun
  simp only [Bool.and_eq_true, decide_eq_true_eq] at hp
  obtain ⟨⟨⟨hanswers, hreports⟩, hrecords⟩, hwinning⟩ := hp
  obtain ⟨hapart, -, -, -, -, htotals⟩ := stored_once hs
  obtain ⟨hmessages, hpassed⟩ := htotals "example.com".toList
  rw [hwinning] at hmessages hpassed
  exact ⟨s, hs, hanswers, hreports, hrecords, hapart, hmessages.trans (by decide +kernel),
    hpassed.trans (by decide +kernel)⟩

end Postbud.DmarcStore
