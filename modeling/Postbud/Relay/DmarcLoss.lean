import Postbud.Relay.Dmarc

namespace Postbud.DmarcPoller

open Lib Lib.Text Dmarc

section Server

def World.moved (w : World) (uid : ℕ) (m : Mail) : Option Mail :=
  if m.uid = uid ∧ (w.move uid).applied then none else some m

def World.flagged (w : World) (uid : ℕ) (m : Mail) : Mail :=
  if m.uid = uid ∧ (w.flag uid).applied then { m with deleted := true } else m

def World.expunged (w : World) (uid : ℕ) (m : Mail) : Option Mail :=
  if m.deleted ∧ (w.expunge uid).applied then none else some m

/-- What is left of a message after the turn of a uid: the commands of
`archive`, as they bear on one message. -/
def World.turn (w : World) (m : Mail) (uid : ℕ) : Option Mail :=
  (w.moved uid m).bind fun m ↦
    if (w.move uid).ok || !(w.copy uid).ok then some m
    else if !(w.flag uid).sent then some (w.flagged uid m)
    else w.expunged uid (w.flagged uid m)

/-- What is left of a message after the turns of some uids: this is decided by
the answers of the server to the commands that move messages. -/
def World.stays (w : World) (m : Mail) (uids : List ℕ) : Option Mail := uids.foldlM w.turn m

/-- The messages that a pass examines. -/
def World.examined (w : World) (b : Mailbox) : List ℕ :=
  if w.select && w.search then uids b else []

variable {w : World} {m m' : Mail} {uid : ℕ} {p : Pass} {b : Mailbox} {folder : Text}

theorem World.moved_eq_some (h : w.moved uid m = some m') : m' = m := by
  unfold World.moved at h
  split_ifs at h
  exact (Option.some.inj h).symm

theorem World.expunged_eq_some (h : w.expunged uid m = some m') : m' = m := by
  unfold World.expunged at h
  split_ifs at h
  exact (Option.some.inj h).symm

theorem World.flagged_spec (w : World) (uid : ℕ) (m : Mail) :
    (w.flagged uid m).uid = m.uid ∧ (w.flagged uid m).raw = m.raw := by
  unfold World.flagged
  split_ifs <;> exact ⟨rfl, rfl⟩

theorem World.turn_eq_some (h : w.turn m uid = some m') : m'.uid = m.uid ∧ m'.raw = m.raw := by
  obtain ⟨m₁, h₁, hrest⟩ := Option.bind_eq_some_iff.mp h
  obtain rfl := World.moved_eq_some h₁
  clear h
  split_ifs at hrest
  · obtain rfl := Option.some.inj hrest
    exact ⟨rfl, rfl⟩
  · obtain rfl := Option.some.inj hrest
    exact w.flagged_spec uid m₁
  · obtain rfl := World.expunged_eq_some hrest
    exact w.flagged_spec uid m₁

theorem World.stays_eq_some {uids : List ℕ} (h : w.stays m uids = some m') :
    m'.uid = m.uid ∧ m'.raw = m.raw := by
  induction uids generalizing m with
  | nil =>
    obtain rfl := Option.some.inj h
    exact ⟨rfl, rfl⟩
  | cons u uids ih =>
    obtain ⟨m₁, h₁, h⟩ := Option.bind_eq_some_iff.mp h
    obtain ⟨hu, hr⟩ := World.turn_eq_some h₁
    obtain ⟨hu', hr'⟩ := ih h
    exact ⟨hu'.trans hu, hr'.trans hr⟩

theorem mails_move :
    (p.move w uid folder).mailbox.mails = p.mailbox.mails.filterMap (w.moved uid) := by
  unfold Pass.move World.moved
  split_ifs with h
  · simp only [h, and_true]
    rfl
  · simp only [h, and_false, if_false, List.filterMap_some, Bool.false_eq_true]

theorem mailbox_copy : (p.copy w uid folder).mailbox = p.mailbox := by
  unfold Pass.copy
  split_ifs <;> rfl

theorem mails_flag : (p.flag w uid).mailbox.mails = p.mailbox.mails.map (w.flagged uid) := by
  unfold Pass.flag World.flagged
  split_ifs with h
  · simp only [h, and_true]
    exact List.filterMap_eq_map'.symm ▸ rfl
  · simp only [h, and_false, if_false, Bool.false_eq_true, List.map_id']

theorem mails_expunge :
    (p.expunge w uid).mailbox.mails = p.mailbox.mails.filterMap (w.expunged uid) := by
  unfold Pass.expunge World.expunged
  split_ifs with h
  · simp only [h, and_true]
    rfl
  · simp only [h, and_false, Bool.false_eq_true, if_false, List.filterMap_some]

/-- An archive does the turn of its uid to every message. -/
theorem mails_archive : (archive w p uid folder).1.mailbox.mails =
    p.mailbox.mails.filterMap (w.turn · uid) := by
  unfold archive World.turn
  cases hm : (w.move uid).ok with
  | true =>
    simp only [if_true, mails_move, Bool.true_or, Option.bind_fun_some]
  | false =>
    cases hc : (w.copy uid).ok with
    | false =>
      simp only [if_true, if_false, Bool.false_eq_true, Bool.not_false, mailbox_copy, mails_move,
        Bool.or_true, Option.bind_fun_some]
    | true =>
      cases hf : (w.flag uid).sent with
      | false =>
        simp only [if_true, if_false, Bool.false_eq_true, Bool.not_false, Bool.not_true, mails_flag,
          mailbox_copy, mails_move, Bool.or_self, List.map_filterMap, Option.map_eq_bind,
          Function.comp_def]
      | true =>
        simp only [if_false, Bool.false_eq_true, Bool.not_true, mails_expunge, mails_flag,
          mailbox_copy, mails_move, Bool.or_self, List.map_filterMap, List.filterMap_filterMap,
          Option.bind_map, Function.comp_def]

theorem held_archive : (archive w p uid folder).1.held = p.held := by
  have hmove : (p.move w uid folder).held = p.held := by
    unfold Pass.move
    split_ifs <;> rfl
  have hcopy (p : Pass) : (p.copy w uid folder).held = p.held := by
    unfold Pass.copy
    split_ifs <;> rfl
  have hflag (p : Pass) : (p.flag w uid).held = p.held := by
    unfold Pass.flag
    split_ifs <;> rfl
  have hexpunge (p : Pass) : (p.expunge w uid).held = p.held := by
    unfold Pass.expunge
    split_ifs <;> rfl
  unfold archive
  dsimp only
  split_ifs <;> simp only [hexpunge, hflag, hcopy, hmove]

theorem Mailbox.find?_eq_some_iff : b.find? uid = some m ↔ m ∈ b.mails ∧ m.uid = uid := by
  constructor
  · intro h
    have hp := List.find?_some h
    exact ⟨List.mem_of_find?_eq_some h, of_decide_eq_true hp⟩
  · intro h
    obtain ⟨hm, rfl⟩ := h
    obtain ⟨m', hm'⟩ : ∃ m', b.find? m.uid = some m' :=
      Option.isSome_iff_exists.mp (List.find?_isSome.mpr ⟨m, hm, decide_eq_true rfl⟩)
    have hp := List.find?_some hm'
    have hu : m'.uid = m.uid := of_decide_eq_true hp
    rw [hm', List.inj_on_of_nodup_map b.distinct (List.mem_of_find?_eq_some hm') hm hu]

end Server

section Reports

variable [MailParser] [Formats]

/-- The reports that can be read from a message. -/
def reportsIn (raw : Bytes) : List Report := (readings raw).filterMap Except.toOption

/-- A report of a message is stored or held already, as the database fails
neither on it nor on one before it. -/
def World.Answers (w : World) (uid : ℕ) (raw : Bytes) (identity : Text × Text) : Prop :=
  ∃ (k : ℕ) (report : Report), (reportsIn raw)[k]? = some report ∧ report.identity = identity ∧
    ∀ j ≤ k, (w.store uid j).isSome

/-- One of the messages that are examined is there at its turn, is fetched,
and has such a report answered. -/
def World.Stores (w : World) (b : Mailbox) (examined : List ℕ) (identity : Text × Text) : Prop :=
  ∃ before after : List ℕ, ∃ m ∈ b.mails, examined = before ++ m.uid :: after ∧
    (w.stays m before).isSome ∧ w.fetch m.uid ∧ w.Answers m.uid m.raw identity

/-- No message leaves the mailbox with a report that the database does not hold. -/
def Lossless (b : Mailbox) (p : Pass) : Prop :=
  ∀ m ∈ b.mails, m.uid ∉ p.mailbox.mails.map (·.uid) →
    ∀ report ∈ reportsIn m.raw, report.identity ∈ p.held

variable {w : World} {config : Config} {p : Pass} {b : Mailbox} {uid k : ℕ} {t : Tally}
  {held : List (Text × Text)} {identity : Text × Text} {rs : List (Except Text Report)}

omit [MailParser] [Formats] in
/-- The first element is found, or one of the others is, past the first. -/
theorem exists_getElem?_cons {α : Type} {P : α → Prop} {Q : ℕ → Prop} {x : α} {l : List α} :
    (∃ (i : ℕ) (y : α), (x :: l)[i]? = some y ∧ P y ∧ ∀ j ≤ i, Q (k + j)) ↔
      Q k ∧ (P x ∨ ∃ (i : ℕ) (y : α), l[i]? = some y ∧ P y ∧ ∀ j ≤ i, Q (k + 1 + j)) := by
  constructor
  · intro h
    obtain ⟨i, y, hi, hy, hall⟩ := h
    refine ⟨hall 0 (Nat.zero_le i), ?_⟩
    cases i with
    | zero =>
      obtain rfl := Option.some.inj hi
      exact .inl hy
    | succ i =>
      refine .inr ⟨i, y, hi, hy, fun j hj ↦ ?_⟩
      rw [Nat.add_assoc, Nat.add_comm 1 j]
      exact hall (j + 1) (Nat.succ_le_succ hj)
  · intro h
    obtain ⟨hk, h⟩ := h
    rcases h with hx | ⟨i, y, hi, hy, hall⟩
    · refine ⟨0, x, rfl, hx, fun j hj ↦ ?_⟩
      obtain rfl := Nat.le_zero.mp hj
      exact hk
    · refine ⟨i + 1, y, hi, hy, fun j hj ↦ ?_⟩
      cases j with
      | zero => exact hk
      | succ j =>
        rw [Nat.add_comm j 1, ← Nat.add_assoc]
        exact hall j (Nat.le_of_succ_le_succ hj)

omit [MailParser] [Formats] in
theorem mem_storeAll : identity ∈ (storeAll w uid k held t rs).1 ↔
    identity ∈ held ∨ ∃ (i : ℕ) (report : Report),
      (rs.filterMap Except.toOption)[i]? = some report ∧ report.identity = identity ∧
        ∀ j ≤ i, (w.store uid (k + j)).isSome := by
  induction rs generalizing k held t with
  | nil => exact ⟨.inl, fun h ↦ h.resolve_right fun ⟨_, _, h, _⟩ ↦ by cases h⟩
  | cons r rs ih =>
    cases r with
    | error failure => exact ih
    | ok report =>
      rw [storeAll, List.filterMap_cons_some (show Except.toOption (.ok report) = some report from rfl),
        exists_getElem?_cons (Q := fun n ↦ (w.store uid n).isSome)]
      cases hs : w.store uid k with
      | none => exact ⟨.inl, fun h ↦ h.resolve_right fun ⟨hk, _⟩ ↦ by cases hk⟩
      | some stored =>
        simp only [ih, List.mem_cons, Option.isSome_some, true_and, eq_comm (a := identity), or_assoc,
          or_left_comm]

theorem mem_handleOne : identity ∈ (handleOne w p uid).1 ↔ identity ∈ p.held ∨
    ∃ m ∈ p.mailbox.mails, m.uid = uid ∧ w.fetch uid ∧ w.Answers uid m.raw identity := by
  unfold handleOne
  cases hf : w.fetch uid with
  | false =>
    refine ⟨.inl, fun h ↦ h.resolve_right fun ⟨_, _, _, h, _⟩ ↦ ?_⟩
    cases h
  | true =>
    rw [if_pos rfl]
    cases hm : p.mailbox.find? uid with
    | none =>
      refine ⟨.inl, fun h ↦ h.resolve_right fun ⟨m, hmem, hu, _⟩ ↦ ?_⟩
      rw [Mailbox.find?_eq_some_iff.mpr ⟨hmem, hu⟩] at hm
      cases hm
    | some m =>
      have hone : ∀ m' ∈ p.mailbox.mails, m'.uid = uid → m' = m := by
        intro m' hmem hu
        have hm' := Mailbox.find?_eq_some_iff.mpr ⟨hmem, hu⟩
        exact Option.some.inj (hm'.symm.trans hm)
      obtain ⟨hmem, hu⟩ := Mailbox.find?_eq_some_iff.mp hm
      have hiff : (∃ m ∈ p.mailbox.mails, m.uid = uid ∧ true = true ∧
          w.Answers uid m.raw identity) ↔ w.Answers uid m.raw identity := by
        constructor
        · intro h
          obtain ⟨m', hmem', hu', -, hans⟩ := h
          exact hone m' hmem' hu' ▸ hans
        · exact fun h ↦ ⟨m, hmem, hu, rfl, h⟩
      rw [hiff]
      dsimp only
      split_ifs with hnone
      · have hreports : reportsIn m.raw = [] := by
          rw [reportsIn, readings, hnone]
          rfl
        refine ⟨.inl, fun h ↦ h.resolve_right fun ⟨k, _, hk, _⟩ ↦ ?_⟩
        rw [hreports] at hk
        cases hk
      · rw [mem_storeAll]
        simp only [World.Answers, reportsIn, Nat.zero_add]

theorem visit_spec (w : World) (config : Config) (p : Pass) (uid : ℕ) :
    (visit w config p uid).mailbox.mails = p.mailbox.mails.filterMap (w.turn · uid) ∧
      (visit w config p uid).held = (handleOne w p uid).1 := by
  unfold visit
  dsimp only
  split <;> exact ⟨mails_archive, held_archive⟩

/-- What is in the mailbox after the turns of some uids. -/
theorem mails_foldl (us : List ℕ) :
    (us.foldl (visit w config) p).mailbox.mails = p.mailbox.mails.filterMap (w.stays · us) := by
  induction us generalizing p with
  | nil => exact List.filterMap_some.symm
  | cons u us ih =>
    rw [List.foldl_cons, ih, (visit_spec w config p u).1, List.filterMap_filterMap]
    rfl

/-- What the database holds after them. -/
theorem mem_held_foldl (us : List ℕ) : identity ∈ (us.foldl (visit w config) p).held ↔
    identity ∈ p.held ∨ w.Stores p.mailbox us identity := by
  induction us generalizing p with
  | nil =>
    refine ⟨.inl, fun h ↦ h.resolve_right fun ⟨before, after, m, _, he, _⟩ ↦ ?_⟩
    exact absurd he.symm (List.append_ne_nil_of_right_ne_nil before (List.cons_ne_nil m.uid after))
  | cons u us ih =>
    obtain ⟨hmails, hheld⟩ := visit_spec w config p u
    rw [List.foldl_cons, ih, hheld, mem_handleOne, or_assoc]
    refine or_congr_right ?_
    constructor
    · intro h
      rcases h with ⟨m, hm, rfl, hfetch, hans⟩ | ⟨before, after, m', hm', he, hstays, hfetch, hans⟩
      · exact ⟨[], us, m, hm, rfl, rfl, hfetch, hans⟩
      · rw [hmails] at hm'
        obtain ⟨m, hm, hturn⟩ := List.mem_filterMap.mp hm'
        obtain ⟨hu, hraw⟩ := World.turn_eq_some hturn
        rw [hu] at he hfetch hans
        rw [hraw] at hans
        refine ⟨u :: before, after, m, hm, congrArg (u :: ·) he, ?_, hfetch, hans⟩
        rw [World.stays, List.foldlM_cons, hturn]
        exact hstays
    · intro h
      obtain ⟨before, after, m, hm, he, hstays, hfetch, hans⟩ := h
      cases before with
      | nil =>
        obtain ⟨rfl, rfl⟩ := List.cons_eq_cons.mp he
        exact .inl ⟨m, hm, rfl, hfetch, hans⟩
      | cons u' before =>
        obtain ⟨rfl, rfl⟩ : u = u' ∧ us = before ++ m.uid :: after := List.cons_eq_cons.mp he
        obtain ⟨m'', hm''⟩ := Option.isSome_iff_exists.mp hstays
        obtain ⟨m', hturn, hrest⟩ := Option.bind_eq_some_iff.mp hm''
        have hstays' : (w.stays m' before).isSome := Option.isSome_iff_exists.mpr ⟨m'', hrest⟩
        obtain ⟨hu, hraw⟩ := World.turn_eq_some hturn
        refine .inr ⟨before, after, m', ?_, by rw [hu], hstays', by rwa [hu], by rwa [hu, hraw]⟩
        rw [hmails]
        exact List.mem_filterMap.mpr ⟨m, hm, hturn⟩

/-- The messages that the answers of the server let out of the mailbox have
reports only that the database held before, or that the pass stores. -/
def World.Covers (w : World) (b : Mailbox) (held : List (Text × Text)) : Prop :=
  ∀ m ∈ b.mails, w.stays m (w.examined b) = none → ∀ report ∈ reportsIn m.raw,
    report.identity ∈ held ∨ w.Stores b (w.examined b) report.identity

theorem drainMailbox_eq (w : World) (config : Config) (b : Mailbox) (held : List (Text × Text)) :
    (drainMailbox w config b held).1 =
      (w.examined b).foldl (visit w config) { mailbox := b, held } := by
  unfold drainMailbox World.examined
  cases w.select <;> cases w.search <;> rfl

/-- A pass loses no report exactly when the database, and the fetches, fail for
none that leaves the mailbox. -/
theorem drainMailbox_lossless_iff (w : World) (config : Config) (b : Mailbox)
    (held : List (Text × Text)) :
    Lossless b (drainMailbox w config b held).1 ↔ w.Covers b held := by
  unfold Lossless World.Covers
  rw [drainMailbox_eq]
  simp only [mem_held_foldl, mails_foldl]
  refine forall₂_congr fun m hm ↦ ?_
  have hleft : m.uid ∉ (b.mails.filterMap (w.stays · (w.examined b))).map (·.uid) ↔
      w.stays m (w.examined b) = none := by
    rw [List.mem_map, not_exists]
    constructor
    · intro h
      cases hs : w.stays m (w.examined b) with
      | none => rfl
      | some m' =>
        exact absurd ⟨List.mem_filterMap.mpr ⟨m, hm, hs⟩, (World.stays_eq_some hs).1⟩ (h m')
    · intro h m' hm'
      obtain ⟨hmem, hu⟩ := hm'
      obtain ⟨m₁, hm₁, hs⟩ := List.mem_filterMap.mp hmem
      have hu₁ : m₁.uid = m.uid := (World.stays_eq_some hs).1.symm.trans hu
      obtain rfl := List.inj_on_of_nodup_map b.distinct hm₁ hm hu₁
      rw [h] at hs
      cases hs
  rw [hleft]

end Reports

/-- A report without records, as the body of a message. -/
def dailyDocument : Text :=
  "<feedback><report_metadata><report_id>1</report_id></report_metadata>".toList ++
    "<policy_published><domain>example.com</domain></policy_published></feedback>".toList

def dailyMail : Mail where
  uid := 7
  raw := utf8 ("Content-Type: text/xml; charset=utf-8\r\n\r\n".toList ++ dailyDocument)

def dailyMailbox : Mailbox := ⟨[dailyMail], List.nodup_singleton _⟩

/-- The parser of mail, as it answers for the message above. -/
@[reducible] def MailParser.daily : MailParser where
  parse raw := if raw = dailyMail.raw then some [.text dailyDocument] else none

@[reducible] def Formats.daily : Formats where
  gunzip _ _ := .error "invalid gzip header".toList
  unzip _ := .error "invalid Zip archive".toList
  xml t :=
    if t = dailyDocument then
      .ok { reportMetadata := some { reportId := some "1".toList }
            policyPublished := some { domain := some "example.com".toList } }
    else .error "syntax error".toList

attribute [local instance] MailParser.daily Formats.daily

/-- Everything succeeds, but the database is away. -/
def databaseAway : World where
  select := true
  search := true
  fetch _ := true
  store _ _ := none
  move _ := .done
  copy _ := .done
  flag _ := ⟨true, true⟩
  expunge _ := ⟨true, true⟩

def folders : Config := ⟨"postbud/archive".toList, "postbud/failures".toList⟩

theorem failed_store_loses_report :
    (reportsIn dailyMail.raw).map Report.identity = [("unknown".toList, "1".toList)] ∧
      (drainMailbox databaseAway folders dailyMailbox []).1.mailbox.mails = [] ∧
      (drainMailbox databaseAway folders dailyMailbox []).1.filed =
        [("postbud/failures".toList, dailyMail.raw)] ∧
      ¬ Lossless dailyMailbox (drainMailbox databaseAway folders dailyMailbox []).1 := by
  have hreports : (reportsIn dailyMail.raw).map Report.identity =
      [("unknown".toList, "1".toList)] := by decide +kernel
  have hpass : (drainMailbox databaseAway folders dailyMailbox []).1.mailbox.mails = [] ∧
      (drainMailbox databaseAway folders dailyMailbox []).1.held = [] ∧
      (drainMailbox databaseAway folders dailyMailbox []).1.filed =
        [("postbud/failures".toList, dailyMail.raw)] := by decide +kernel
  obtain ⟨hmails, hheld, hfiled⟩ := hpass
  refine ⟨hreports, hmails, hfiled, fun h ↦ ?_⟩
  obtain ⟨report, hreport, -⟩ := List.mem_map.mp (hreports ▸ List.mem_singleton_self _)
  have hlost := h dailyMail (List.mem_singleton_self _) (by rw [hmails]; exact List.not_mem_nil)
    report hreport
  rw [hheld] at hlost
  exact List.not_mem_nil hlost

end Postbud.DmarcPoller
