import Postbud.Api.Auth
import Postbud.Db.BounceRetry
import Postbud.Lib.Inevitable
import Postbud.Lib.Utf8

namespace Postbud.Bounce

open Lib Lib.Text Lib.Utf8 Api Dsn

/-- What axum and Postgres take: so many bytes of a body, and these texts as
the key of an index row. -/
class Surroundings where
  bodyLimit : ℕ
  indexable : Text → Bool

inductive Refusal
  | payloadTooLarge
  | invalidUtf8
  | api (err : ApiError)
  deriving DecidableEq

section Handler

variable [Surroundings]

/-- The `String` extractor. -/
def extract (body : Bytes) : Except Refusal Text :=
  if Surroundings.bodyLimit < body.length then .error .payloadTooLarge
  else match fromUtf8 body with
    | none => .error .invalidUtf8
    | some text => .ok text

variable [Platform]

/-- `POST /v1/bounces`, up to the call of `bounce::ingest`. -/
def receive (bounceToken authorization : Option Text) (body : Bytes) : Except Refusal Call :=
  match extract body with
  | .error refusal => .error refusal
  | .ok body =>
    match authorizeRelay bounceToken authorization with
    | .error err => .error (.api err)
    | .ok () =>
      if trim body = [] then .error (.api (.badRequest "empty bounce body".toList))
      else .ok (start body)

omit [Surroundings] [Platform] in
/-- The texts a statement binds. -/
def Stage.bound (raw : Text) : Stage → List Text
  | .storeRaw => [raw]
  | .lookup queueId _ _ _ => [queueId]
  | .store _ report _ _ =>
    raw :: (report.relayQueueId.toList ++ report.finalRecipient.toList ++ report.status.toList ++
      report.diagnostic.toList)
  | .suppress address report _ _ => address :: "dsn".toList :: report.diagnostic.toList
  | .returned _ | .failed => []

omit [Surroundings] in
/-- The texts a statement puts into an index. -/
def Stage.keys : Stage → List Text
  | .store _ report _ _ => report.relayQueueId.toList
  | .suppress address _ _ _ => [Platform.lower address]
  | _ => []

def Call.accepted (c : Call) : Bool :=
  (c.stage.bound c.raw).all (fun t ↦ '\x00' ∉ t) && c.stage.keys.all Surroundings.indexable

/-- A statement of a call of `ingest`: one that Postgres does not take ends
the call with an error. -/
def execute (db : Db) (now : Time) (c : Call) : Option (Db × Call) :=
  if c.accepted then c.step db now else c.fail.map fun c ↦ (db, c)

/-- A statement of a call, after what other requests did since the last one:
`bounce_report` is insert-only. -/
def Round (x y : Db × Call) : Prop :=
  ∃ db now, x.1.bounceReport <+: db.bounceReport ∧ execute db now x.2 = some y

/-- The request has succeeded, and since `db` a row came to hold the DSN. -/
structure Stored (db : Db) (raw : Text) (x : Db × Call) : Prop where
  returned : ∃ out, x.2.stage = .returned out
  row : ∃ new, x.1.bounceReport = db.bounceReport ++ new ∧ ∃ row ∈ new, row.raw = raw

def Served (bounceToken authorization : Option Text) (db : Db) (body : Bytes) : Prop :=
  ∃ c, receive bounceToken authorization body = .ok c ∧ body = utf8 c.raw ∧
    Inevitable Round (Stored db c.raw) (db, c)

/-- The texts that the reports of a DSN put into an index fit there. -/
def Indexable (raw : Text) : Prop :=
  ∀ r ∈ parse raw, (∀ q ∈ r.relayQueueId, Surroundings.indexable q) ∧
    (r.shouldSuppress → ∀ a ∈ r.finalRecipient, Surroundings.indexable (Platform.lower a))

def Storable (body : Bytes) : Prop :=
  body.length ≤ Surroundings.bodyLimit ∧
    ∃ text, body = utf8 text ∧ trim text ≠ [] ∧ '\x00' ∉ text ∧ Indexable text

/-! ### What the statements still to come need -/

structure Sound (raw : Text) (r : Report) : Prop where
  noNul : '\x00' ∉ raw
  free : r.Free '\x00'
  queueId : ∀ q ∈ r.relayQueueId, Surroundings.indexable q
  address : r.shouldSuppress → ∀ a ∈ r.finalRecipient, Surroundings.indexable (Platform.lower a)

def Fits (raw : Text) : Stage → Prop
  | .storeRaw => '\x00' ∉ raw
  | .lookup queueId report rest _ => '\x00' ∉ queueId ∧ Sound raw report ∧ ∀ r ∈ rest, Sound raw r
  | .store _ report rest _ => Sound raw report ∧ ∀ r ∈ rest, Sound raw r
  | .suppress address report rest _ =>
    ('\x00' ∉ address ∧ (∀ d ∈ report.diagnostic, '\x00' ∉ d) ∧
      Surroundings.indexable (Platform.lower address)) ∧ ∀ r ∈ rest, Sound raw r
  | .returned _ => True
  | .failed => False

variable {raw : Text} {report : Report} {rest : List Report} {out : Ingested} {db db' : Db}
  {now : Time} {c c' : Call}

theorem fits_next : Fits raw (next out rest) ↔ ∀ r ∈ rest, Sound raw r := by
  cases rest with
  | nil => simp [next, Fits]
  | cons report rest =>
    rw [List.forall_mem_cons]
    cases hq : report.relayQueueId with
    | none => simp [next, hq, Fits]
    | some queueId =>
      simp only [next, hq, Fits]
      exact ⟨fun h ↦ h.2, fun h ↦ ⟨h.1.free.relayQueueId queueId hq, h⟩⟩

theorem fits_start : Fits raw (start raw).stage ↔ '\x00' ∉ raw ∧ Indexable raw := by
  unfold start Indexable
  cases hp : parse raw with
  | nil => simp [Fits]
  | cons report rest =>
    dsimp only
    rw [fits_next, ← hp]
    constructor
    · intro h
      have hraw := (h report (hp ▸ List.mem_cons_self)).noNul
      exact ⟨hraw, fun r hr ↦ ⟨(h r hr).queueId, (h r hr).address⟩⟩
    · rintro ⟨hraw, h⟩ r hr
      exact ⟨hraw, free_of_mem_parse (by decide) hraw r hr, (h r hr).1, (h r hr).2⟩

theorem accepted_store {messageId : Option Uuid} :
    Call.accepted ⟨raw, .store messageId report rest out⟩ ↔ '\x00' ∉ raw ∧ report.Free '\x00' ∧
      ∀ q ∈ report.relayQueueId, Surroundings.indexable q := by
  simp only [Call.accepted, Stage.bound, Stage.keys, Bool.and_eq_true, List.all_eq_true,
    decide_eq_true_eq, List.forall_mem_cons, List.forall_mem_append, Option.mem_toList]
  constructor
  · rintro ⟨⟨hraw, ⟨⟨hid, hrecipient⟩, hstatus⟩, hdiagnostic⟩, hkey⟩
    exact ⟨hraw, ⟨hid, hrecipient, hstatus, hdiagnostic⟩, hkey⟩
  · rintro ⟨hraw, ⟨hid, hrecipient, hstatus, hdiagnostic⟩, hkey⟩
    exact ⟨⟨hraw, ⟨⟨hid, hrecipient⟩, hstatus⟩, hdiagnostic⟩, hkey⟩

theorem accepted_suppress {address : Text} :
    Call.accepted ⟨raw, .suppress address report rest out⟩ ↔ '\x00' ∉ address ∧
      (∀ d ∈ report.diagnostic, '\x00' ∉ d) ∧
        Surroundings.indexable (Platform.lower address) := by
  have hdsn : '\x00' ∉ "dsn".toList := by decide
  simp only [Call.accepted, Stage.bound, Stage.keys, Bool.and_eq_true, List.all_eq_true,
    decide_eq_true_eq, List.forall_mem_cons, Option.mem_toList]
  constructor
  · rintro ⟨⟨haddress, -, hdiagnostic⟩, hkey, -⟩
    exact ⟨haddress, hdiagnostic, hkey⟩
  · rintro ⟨haddress, hdiagnostic, hkey⟩
    exact ⟨⟨haddress, hdsn, hdiagnostic⟩, hkey, by simp⟩

theorem fits_afterStore (hraw : '\x00' ∉ raw) (hfree : report.Free '\x00')
    (hkey : ∀ q ∈ report.relayQueueId, Surroundings.indexable q) :
    Fits raw (afterStore report rest out) ↔ Sound raw report ∧ ∀ r ∈ rest, Sound raw r := by
  cases hs : report.shouldSuppress with
  | false =>
    have hsound : Sound raw report := ⟨hraw, hfree, hkey, by simp [hs]⟩
    simp only [afterStore, hs, fits_next, hsound, true_and]
  | true =>
    cases hr : report.finalRecipient with
    | none =>
      have hsound : Sound raw report := ⟨hraw, hfree, hkey, by simp [hr]⟩
      simp only [afterStore, hs, hr, fits_next, hsound, true_and]
    | some address =>
      simp only [afterStore, hs, hr, Fits]
      refine and_congr_left fun _ ↦ ⟨fun h ↦ ⟨hraw, hfree, hkey, ?_⟩, fun h ↦ ?_⟩
      · intro _ a ha
        obtain rfl := Option.some.inj (hr.symm.trans ha)
        exact h.2.2
      · exact ⟨hfree.finalRecipient address hr, hfree.diagnostic, h.address hs address hr⟩

theorem accepted_of_fits (h : Fits c.raw c.stage) : c.accepted := by
  obtain ⟨raw, stage⟩ := c
  cases stage with
  | storeRaw => simpa [Call.accepted, Stage.bound, Stage.keys, Fits] using h
  | lookup queueId report rest out => simpa [Call.accepted, Stage.bound, Stage.keys] using h.1
  | store messageId report rest out =>
    exact accepted_store.mpr ⟨h.1.noNul, h.1.free, h.1.queueId⟩
  | suppress address report rest out => exact accepted_suppress.mpr h.1
  | returned out => rfl
  | failed => rfl

/-- A statement takes away what it needed itself, and fails if it is not there. -/
theorem fits_execute (h : execute db now c = some (db', c')) :
    Fits c'.raw c'.stage ↔ Fits c.raw c.stage := by
  unfold execute at h
  split at h
  · rename_i haccepted
    have hstep := Call.step_spec h
    obtain ⟨raw, stage⟩ := c
    cases hstep with
    | storedRaw hc =>
      cases hc
      simpa [Call.accepted, Stage.bound, Stage.keys, Fits] using haccepted
    | lookedUp queueId messageId report rest out out' hc =>
      cases hc
      have hid : '\x00' ∉ queueId := by
        simpa [Call.accepted, Stage.bound, Stage.keys] using haccepted
      simp only [Fits, hid, not_false_eq_true, true_and]
    | stored messageId report rest out hc =>
      cases hc
      obtain ⟨hraw, hfree, hkey⟩ := accepted_store.mp haccepted
      exact fits_afterStore hraw hfree hkey
    | suppressed address report rest out hc =>
      cases hc
      have haddress := accepted_suppress.mp haccepted
      exact fits_next.trans ⟨fun hrest ↦ ⟨haddress, hrest⟩, fun h ↦ h.2⟩
  · rename_i hrefused
    obtain ⟨c'', hfail, he⟩ := Option.map_eq_some_iff.mp h
    obtain ⟨rfl, rfl⟩ := Prod.mk.inj he
    obtain ⟨-, rfl⟩ := Call.fail_spec hfail
    exact iff_of_false (fun hf ↦ hf) fun hf ↦ hrefused (accepted_of_fits hf)

/-! ### The end of a call -/

omit [Surroundings] [Platform] in
def Stage.statements : Stage → ℕ
  | .storeRaw => 1
  | .lookup _ _ rest _ => 3 + 3 * rest.length
  | .store _ _ rest _ => 2 + 3 * rest.length
  | .suppress _ _ rest _ => 1 + 3 * rest.length
  | .returned _ | .failed => 0

omit [Surroundings] [Platform] in
theorem statements_next : (next out rest).statements ≤ 3 * rest.length := by
  cases rest with
  | nil => exact Nat.zero_le _
  | cons report rest =>
    cases hq : report.relayQueueId with
    | none =>
      simp only [next, hq, Stage.statements, List.length_cons]
      omega
    | some queueId =>
      simp only [next, hq, Stage.statements, List.length_cons]
      omega

omit [Surroundings] [Platform] in
theorem statements_afterStore :
    (afterStore report rest out).statements ≤ 1 + 3 * rest.length := by
  unfold afterStore
  split
  · exact Nat.le_refl _
  · exact Nat.le_trans statements_next (Nat.le_add_left _ _)

omit [Surroundings] in
theorem statements_step (h : c.step db now = some (db', c')) :
    c'.stage.statements < c.stage.statements := by
  have hstep := Call.step_spec h
  obtain ⟨raw, stage⟩ := c
  cases hstep with
  | storedRaw hc =>
    cases hc
    exact Nat.one_pos
  | lookedUp queueId messageId report rest out out' hc =>
    cases hc
    exact Nat.add_lt_add_right (by decide) _
  | stored messageId report rest out hc =>
    cases hc
    exact Nat.lt_of_le_of_lt statements_afterStore (Nat.add_lt_add_right (by decide) _)
  | suppressed address report rest out hc =>
    cases hc
    exact Nat.lt_of_le_of_lt statements_next (Nat.lt_add_of_pos_left Nat.one_pos)

omit [Surroundings] in
theorem exists_step (db : Db) (now : Time) (hreturned : ∀ out, c.stage ≠ .returned out) (hfailed : c.stage ≠ .failed) :
    ∃ x, c.step db now = some x := by
  obtain ⟨raw, stage⟩ := c
  cases stage with
  | storeRaw => exact ⟨_, rfl⟩
  | lookup queueId report rest out =>
    simp only [Call.step]
    split
    · exact ⟨_, rfl⟩
    · exact ⟨_, rfl⟩
  | store messageId report rest out => exact ⟨_, rfl⟩
  | suppress address report rest out => exact ⟨_, rfl⟩
  | returned out => exact absurd rfl (hreturned out)
  | failed => exact absurd rfl hfailed

omit [Surroundings] [Platform] in
theorem raw_of_isRow {o : Option Report} {row : BounceReport} (h : IsRow raw o row) : row.raw = raw := by
  cases o with
  | none =>
    obtain ⟨_, rfl⟩ := h
    rfl
  | some report =>
    obtain ⟨_, _, rfl⟩ := h
    rfl

/-- The call will be taken to its end: what it needs is there, and a row holds
the DSN or is still to be stored. -/
structure Underway (db : Db) (raw : Text) (x : Db × Call) : Prop where
  same : x.2.raw = raw
  fits : Fits raw x.2.stage
  row : ∃ new, x.1.bounceReport = db.bounceReport ++ new ∧
    ((∃ row ∈ new, row.raw = raw) ∨ x.2.unstored ≠ [])

theorem Underway.step {x y : Db × Call} (h : Underway db raw x) (hround : Round x y) :
    Underway db raw y ∧ y.2.stage.statements < x.2.stage.statements := by
  obtain ⟨hraw, hfits, new, hnew, hrow⟩ := h
  obtain ⟨db₁, now, ⟨others, hothers⟩, hexecute⟩ := hround
  rw [← hraw] at hfits
  have haccepted := accepted_of_fits hfits
  have hfits' := (fits_execute hexecute).mpr hfits
  rw [execute, if_pos haccepted] at hexecute
  have hstep := Call.step_spec hexecute
  obtain ⟨done, stored, hstored, hrows, hleft⟩ := hstep.stores
  have hraw' : y.2.raw = raw := hstep.raw.trans hraw
  refine ⟨⟨hraw', hraw' ▸ hfits', new ++ others ++ stored, ?_, ?_⟩, statements_step hexecute⟩
  · rw [hstored, ← hothers, hnew]
    simp
  · obtain ⟨row, hmem, hr⟩ | hunstored := hrow
    · exact .inl ⟨row, by simp [hmem], hr⟩
    · cases hrows with
      | nil => exact .inr (by simpa [hleft] using hunstored)
      | @cons o row done stored ho _ =>
        exact .inl ⟨row, by simp, hraw ▸ raw_of_isRow ho⟩

omit [Surroundings] [Platform] in
theorem unstored_start_ne_nil (raw : Text) : (start raw).unstored ≠ [] := by
  rw [unstored_start]
  unfold wanted
  split <;> simp_all

theorem inevitable_of_fits (h : Fits raw (start raw).stage) :
    Inevitable Round (Stored db raw) (db, start raw) := by
  have hstart : Underway db raw (db, start raw) :=
    ⟨rfl, h, [], (List.append_nil _).symm, .inr (unstored_start_ne_nil raw)⟩
  refine Inevitable.of_measure (fun x ↦ x.2.stage.statements) (fun x hx ↦ ?_) hstart
  by_cases hreturned : ∃ out, x.2.stage = .returned out
  · obtain ⟨out, hout⟩ := hreturned
    obtain ⟨-, -, new, hnew, hrow⟩ := hx
    have hnil : x.2.unstored = [] := by rw [Call.unstored, hout]
    exact .inl ⟨⟨out, hout⟩, new, hnew, hrow.resolve_right fun hne ↦ hne hnil⟩
  · have hfailed : x.2.stage ≠ .failed := by
      intro hf
      have hfits := hx.fits
      rw [hf] at hfits
      exact hfits
    have haccepted : x.2.accepted := accepted_of_fits (hx.same ▸ hx.fits)
    obtain ⟨y, hy⟩ := exists_step x.1 0 (not_exists.mp hreturned) hfailed
    refine .inr ⟨⟨y, x.1, 0, List.prefix_rfl, ?_⟩, fun y hy ↦ hx.step hy⟩
    rw [execute, if_pos haccepted]
    exact hy

theorem fits_of_inevitable (h : Inevitable Round (Stored db raw) (db', c)) : Fits c.raw c.stage := by
  refine h.necessary (I := fun x ↦ Fits x.2.raw x.2.stage) (fun x hx ↦ ?_) fun x y hround hy ↦ ?_
  · obtain ⟨out, hout⟩ := hx.returned
    rw [hout]
    trivial
  · obtain ⟨db₁, now, -, hexecute⟩ := hround
    exact (fits_execute hexecute).mp hy

theorem receive_eq_ok {bounceToken authorization : Option Text}
    (hauth : authorizeRelay bounceToken authorization = .ok ()) {body : Bytes} :
    receive bounceToken authorization body = .ok c ↔ body.length ≤ Surroundings.bodyLimit ∧
      ∃ text, body = utf8 text ∧ trim text ≠ [] ∧ c = start text := by
  have hextract : ∀ text, extract body = .ok text ↔
      body.length ≤ Surroundings.bodyLimit ∧ body = utf8 text := by
    intro text
    unfold extract
    split
    · rename_i hlong
      simp [hlong]
    · rename_i hshort
      rw [← fromUtf8_eq_some]
      cases fromUtf8 body <;> simp [Nat.le_of_not_lt hshort]
  unfold receive
  rw [hauth]
  cases hbody : extract body with
  | error refusal =>
    simp only [reduceCtorEq, false_iff]
    rintro ⟨hlimit, text, htext, -⟩
    rw [(hextract text).mpr ⟨hlimit, htext⟩] at hbody
    cases hbody
  | ok text =>
    obtain ⟨hlimit, htext⟩ := (hextract text).mp hbody
    have hone : ∀ text', body = utf8 text' ↔ text' = text := by
      intro text'
      constructor
      · intro h
        exact Except.ok.inj (((hextract text').mpr ⟨hlimit, h⟩).symm.trans hbody)
      · rintro rfl
        exact htext
    dsimp only
    simp only [hlimit, hone, true_and]
    by_cases htrim : trim text = []
    · simp [htrim]
    · simp [htrim, eq_comm]

/-- A DSN posted with the right token is stored, and its request succeeds,
exactly when its body is of a size and a text that axum and Postgres take. -/
theorem served_iff {bounceToken authorization : Option Text}
    (hauth : authorizeRelay bounceToken authorization = .ok ()) (db : Db) (body : Bytes) :
    Served bounceToken authorization db body ↔ Storable body := by
  simp only [Served, Storable, receive_eq_ok hauth]
  constructor
  · rintro ⟨c, ⟨hlimit, text, hbody, htrim, rfl⟩, -, hinevitable⟩
    obtain ⟨hnul, hkeys⟩ := fits_start.mp (fits_of_inevitable hinevitable)
    exact ⟨hlimit, text, hbody, htrim, hnul, hkeys⟩
  · rintro ⟨hlimit, text, hbody, htrim, hnul, hkeys⟩
    exact ⟨start text, ⟨hlimit, text, hbody, htrim, rfl⟩, hbody,
      inevitable_of_fits (fits_start.mpr ⟨hnul, hkeys⟩)⟩

end Handler

/-- A body of up to 2 MB and index keys of up to 2704 bytes. -/
@[reducible] def Surroundings.usual : Surroundings where
  bodyLimit := 2097152
  indexable t := (utf8 t).length ≤ 2704

section Inputs

attribute [local instance] Platform.ascii Surroundings.usual

def rightToken : Option Text := some "Bearer secret".toList

theorem served_hardBounce : Served (some "secret".toList) rightToken {} (utf8 hardBounce) :=
  (served_iff (by decide) {} (utf8 hardBounce)).mpr
    ⟨by decide +kernel, hardBounce, rfl, by decide +kernel, by decide +kernel, by
      unfold Indexable
      decide +kernel⟩

/-- A DSN in Latin-1 is refused, and nothing of it is kept. -/
theorem latin1_is_refused :
    ¬ ∀ (bounceToken authorization : Option Text) (db : Db) (body : Bytes),
      authorizeRelay bounceToken authorization = .ok () →
        (∃ b ∈ body, isWhitespace (Char.ofNat b.toNat) = false) →
          Served bounceToken authorization db body := by
  intro h
  obtain ⟨c, -, hbody, -⟩ :=
    h (some "secret".toList) rightToken {} [0x53, 0xF8, 0x72] (by decide) (by decide)
  have hinvalid : ¬ (List.toByteArray [0x53, 0xF8, 0x72]).IsValidUTF8 := by decide +kernel
  exact hinvalid ⟨c.raw, congrArg List.toByteArray hbody⟩

end Inputs

end Postbud.Bounce
