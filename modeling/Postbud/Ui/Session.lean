import Postbud.Api.RefreshCookie
import Postbud.Lib.Rotation
import Postbud.Lib.Simulation

namespace Postbud.Session

open Lib Lib.Transition Lib.Processes Api

def MAX_AGE : Time := seconds Oidc.REFRESH_COOKIE_MAX_AGE

/-- What the issuer answers the proxy: nothing that it can read, an error, or tokens. -/
inductive Upstream
  | unusable
  | error
  | tokens (refreshToken idToken : Option ℕ)

/-- What the page is answered. The cookie that is set may be one that is over. -/
structure Reply where
  status : ℕ
  setCookie : Option (Option ℕ) := none
  idToken : Option ℕ := none
  deriving DecidableEq

def Reply.ok (r : Reply) : Bool := 200 ≤ r.status && r.status < 300

def statusCode : ApiError → ℕ
  | .unauthorized => 401
  | .badRequest _ => 400
  | .notFound => 404
  | .forbidden => 403
  | .adminDisabled => 503
  | .internal => 500

/-- `POST /admin/api/oidc/refresh`, where `oidc` says whether there is an issuer. -/
def refresh (oidc : Bool) (cookie : Option ℕ) (upstream : Upstream) : Except ApiError Reply :=
  if !oidc then .error .adminDisabled
  else if cookie.isNone then .error .unauthorized
  else match upstream with
  | .unusable => .error .internal
  | .error => .error (.badRequest "the issuer refused the session".toList)
  | .tokens refreshToken idToken =>
    .ok { status := 200, setCookie := refreshToken.map some, idToken }

/-- `POST /admin/api/oidc/token`, which passes an error of the issuer on. -/
def exchange (oidc : Bool) (upstream : Upstream) : Except ApiError Reply :=
  if !oidc then .error .adminDisabled
  else match upstream with
  | .unusable => .error .internal
  | .error => .ok { status := 400 }
  | .tokens refreshToken idToken =>
    .ok { status := 200, setCookie := refreshToken.map some, idToken }

def logout : Reply := { status := 204, setCookie := some none }

def reply : Except ApiError Reply → Reply
  | .ok r => r
  | .error err => { status := statusCode err }

inductive Credential
  | idToken (n : ℕ)
  | typed
  deriving DecidableEq

/-- A page of the admin, loaded in some tab. `refreshing` is the promise that
every call of the page waits for. -/
structure Page where
  token : Option Credential := none
  refreshing : Option ℕ := none
  isOpen : Bool := true
  deriving DecidableEq

inductive Kind
  | refresh (attempt : ℕ)
  | exchange
  | logout
  deriving DecidableEq

/-- Where a task stands: its request under way with a cookie or without, the
answer under way, the pause before another attempt, or done. -/
inductive Phase
  | requested (cookie : Option ℕ)
  | answered (r : Reply)
  | pausing
  | settled (ok : Bool)
  deriving DecidableEq

/-- A run of `refreshSession`, `completeLogin` or `endSession`. -/
structure Task where
  page : ℕ
  kind : Kind
  phase : Phase
  deriving DecidableEq

inductive CallPhase
  | sent (mayRefresh : Bool)
  | awaiting (task : ℕ)
  | done
  deriving DecidableEq

/-- A call of `api`. -/
structure Call where
  page : ℕ
  phase : CallPhase
  deriving DecidableEq

/-- The pages of a browser with one cookie jar, and the issuer with the refresh
tokens that it still honours. -/
structure World where
  pages : List Page := []
  tasks : List Task := []
  calls : List Call := []
  jar : Option (ℕ × Time) := none
  live : Finset ℕ := ∅
  issued : ℕ := 0
  signed : ℕ := 0
  now : Time := 0

/-- What the issuer makes of a grant: whether the answer has a refresh token
and an id token, and whether the proxy can read it. -/
inductive Verdict
  | unreachable
  | refuses
  | honours (rotates names reads : Bool)

inductive Action
  | tick (time : ℕ)
  | openPage
  | openCallback (matches_ : Bool)
  | type (page : ℕ)
  | call (page : ℕ)
  | answer (call : ℕ) (unauthorized : Bool)
  | resume (call : ℕ)
  | signOut (page : ℕ)
  | close (page : ℕ)
  | serve (task : ℕ) (verdict : Verdict)
  | lose (task : ℕ)
  | land (task : ℕ)
  | wake (task : ℕ)

namespace World

/-- The cookie that a request carries. -/
def cookie (w : World) : Option ℕ := w.jar.bind fun (t, expires) ↦
  if w.now < expires then some t else none

def openAt (w : World) (p : ℕ) : Bool := w.pages[p]?.any (·.isOpen)

def load (w : World) : World := { w with pages := w.pages ++ [⟨none, none, true⟩] }

def setPage (w : World) (p : ℕ) (f : Page → Page) : World := { w with pages := w.pages.modify p f }

def setToken (w : World) (p : ℕ) (token : Option Credential) : World :=
  w.setPage p fun page ↦ { page with token }

def start (w : World) (p : ℕ) (kind : Kind) (cookie : Option ℕ) : World :=
  { w with tasks := w.tasks ++ [⟨p, kind, .requested cookie⟩] }

/-- Whoever asks while an exchange is under way shares it. -/
def refreshSession (w : World) (p : ℕ) : World × ℕ :=
  match w.pages[p]?.bind (·.refreshing) with
  | some task => (w, task)
  | none => ((w.start p (.refresh 0) w.cookie).setPage p fun page ↦
      { page with refreshing := some w.tasks.length }, w.tasks.length)

def setPhase (w : World) (i : ℕ) (task : Task) (phase : Phase) : World :=
  { w with tasks := w.tasks.set i { task with phase } }

/-- The end of a task: after the logout the browser leaves the page. -/
def settle (w : World) (i : ℕ) (task : Task) (ok : Bool) : World :=
  (w.setPhase i task (.settled ok)).setPage task.page fun page ↦ match task.kind with
    | .refresh _ => { page with refreshing := none }
    | .exchange => page
    | .logout => { page with isOpen := false }

def setCookie (w : World) (r : Reply) : World := match r.setCookie with
  | none => w
  | some cookie => { w with jar := cookie.map (·, w.now + MAX_AGE) }

/-- The browser stores the cookie of an answer, and the page goes on if it is still there. -/
def land (w : World) (i : ℕ) (task : Task) (r : Reply) : World :=
  let w' := w.setCookie r
  if !w'.openAt task.page then w'.settle i task false
  else match task.kind with
  | .logout => w'.settle i task true
  | .exchange => match r.ok, r.idToken with
    | true, some n => (w'.setToken task.page (some (.idToken n))).settle i task true
    | _, _ => w'.settle i task false
  | .refresh _ => match r.ok, r.idToken with
    | true, some n => (w'.setToken task.page (some (.idToken n))).settle i task true
    | true, none => w'.settle i task false
    | false, _ => if r.status = 400 then w'.setPhase i task .pausing else w'.settle i task false

/-- The issuer answers the proxy. A token that is dead it does not honour. -/
def grant (w : World) (spent : Option ℕ) : Verdict → Option (World × Upstream)
  | .unreachable => some (w, .unusable)
  | .refuses => some (w, .error)
  | .honours rotates names reads =>
    if ∀ t ∈ spent, t ∈ w.live then
      some ({ w with
          live := if rotates then insert w.issued (spent.elim w.live w.live.erase) else w.live
          issued := if rotates then w.issued + 1 else w.issued
          signed := w.signed + 1 },
        if reads then .tokens (if rotates then some w.issued else none)
          (if names then some w.signed else none)
        else .unusable)
    else none

def serve (oidc : Bool) (w : World) (kind : Kind) (cookie : Option ℕ) (verdict : Verdict) :
    Option (World × Reply) :=
  match kind with
  | .logout => some (w, logout)
  | .exchange => (if oidc then w.grant none verdict else some (w, .unusable)).map
      fun (w, upstream) ↦ (w, reply (exchange oidc upstream))
  | .refresh _ => (if oidc && cookie.isSome then w.grant cookie verdict else some (w, .unusable)).map
      fun (w, upstream) ↦ (w, reply (refresh oidc cookie upstream))

def setCall (w : World) (c : ℕ) (call : Call) (phase : CallPhase) : World :=
  { w with calls := w.calls.set c { call with phase } }

/-- The answer to a call. -/
def answer (w : World) (c : ℕ) (call : Call) (mayRefresh unauthorized : Bool) : World :=
  if !unauthorized then w.setCall c call .done
  else if mayRefresh then
    let (w, task) := w.refreshSession call.page
    w.setCall c call (.awaiting task)
  else (w.setToken call.page none).setCall c call .done

def resume (w : World) (c : ℕ) (call : Call) (ok : Bool) : World :=
  if ok then w.setCall c call (.sent false)
  else (w.setToken call.page none).setCall c call .done

/-- After the pause there is a second attempt and no third. -/
def wake (w : World) (i : ℕ) (task : Task) : World := match task.kind with
  | .refresh 0 => w.setPhase i { task with kind := .refresh 1 } (.requested w.cookie)
  | _ => w.settle i task false

end World

def step (oidc : Bool) (w : World) : Action → Option World
  | .tick time => some { w with now := w.now + time }
  | .openPage => some (w.load.refreshSession w.pages.length).1
  | .openCallback matches_ =>
    some (if matches_ then w.load.start w.pages.length .exchange none else w.load)
  | .type p => if w.openAt p then some (w.setToken p (some .typed)) else none
  | .call p => if w.openAt p then some { w with calls := w.calls ++ [⟨p, .sent true⟩] } else none
  | .answer c unauthorized => do
    let call ← w.calls[c]?
    match call.phase with
    | .sent mayRefresh =>
      if w.openAt call.page then some (w.answer c call mayRefresh unauthorized) else none
    | _ => none
  | .resume c => do
    let call ← w.calls[c]?
    match call.phase with
    | .awaiting task => match (← w.tasks[task]?).phase with
      | .settled ok => if w.openAt call.page then some (w.resume c call ok) else none
      | _ => none
    | _ => none
  | .signOut p =>
    if w.openAt p then some ((w.setToken p none).start p .logout none) else none
  | .close p => some (w.setPage p fun page ↦ { page with isOpen := false })
  | .serve i verdict => do
    let task ← w.tasks[i]?
    match task.phase with
    | .requested cookie =>
      let (w, r) ← w.serve oidc task.kind cookie verdict
      return w.setPhase i task (.answered r)
    | _ => none
  | .lose i => do
    let task ← w.tasks[i]?
    match task.phase with
    | .requested _ | .answered _ => some (w.settle i task false)
    | _ => none
  | .land i => do
    let task ← w.tasks[i]?
    match task.phase with
    | .answered r => some (w.land i task r)
    | _ => none
  | .wake i => do
    let task ← w.tasks[i]?
    match task.phase with
    | .pausing => if w.openAt task.page then some (w.wake i task) else none
    | _ => none

/-! What an action can do. -/

section Steps

variable {oidc : Bool} {w w' : World} {i p : ℕ} {task : Task} {phase : Phase} {kind : Kind}
  {cookie : Option ℕ} {verdict : Verdict} {r : Reply}

theorem openAt_iff : w.openAt p ↔ ∃ page, w.pages[p]? = some page ∧ page.isOpen :=
  Option.any_eq_true _ _

theorem tasks_setCookie (r : Reply) : (w.setCookie r).tasks = w.tasks := by
  unfold World.setCookie
  split <;> rfl

/-- The cookie that a request spends: only one for a new token. -/
def Kind.spends (kind : Kind) (cookie : Option ℕ) : Option ℕ := match kind with
  | .refresh _ => cookie
  | _ => none

/-- All that a request can come to. -/
inductive Serves (w : World) (kind : Kind) (cookie : Option ℕ) : Verdict → World → Reply → Prop
  | fails {verdict : Verdict} {r : Reply} (hcookie : r.setCookie = none) (hid : r.idToken = none) :
    Serves w kind cookie verdict w r
  | logout {verdict : Verdict} (h : kind = .logout) : Serves w kind cookie verdict w logout
  | keeps {names reads : Bool} {r : Reply} (hcookie : r.setCookie = none)
    (h : kind = .exchange ∨ ∃ t, kind.spends cookie = some t ∧ t ∈ w.live) :
    Serves w kind cookie (.honours false names reads) { w with signed := w.signed + 1 } r
  | rotates {names reads : Bool} {r : Reply}
    (hcookie : r.setCookie = if reads then some (some w.issued) else none)
    (h : kind = .exchange ∨ ∃ t, kind.spends cookie = some t ∧ t ∈ w.live) :
    Serves w kind cookie (.honours true names reads)
      { w with live := insert w.issued ((kind.spends cookie).elim w.live w.live.erase)
               issued := w.issued + 1, signed := w.signed + 1 } r

theorem serves_of_grant {spent : Option ℕ} {upstream : Upstream} {answer : Upstream → Except ApiError Reply}
    (hanswer : ∀ upstream, (∀ refreshToken idToken, upstream ≠ .tokens refreshToken idToken) →
      (reply (answer upstream)).setCookie = none ∧ (reply (answer upstream)).idToken = none)
    (htokens : ∀ refreshToken idToken, answer (.tokens refreshToken idToken) =
      .ok { status := 200, setCookie := refreshToken.map some, idToken })
    (hspent : kind.spends cookie = spent) (hkind : kind = .exchange ∨ ∃ attempt t, kind = .refresh attempt ∧ cookie = some t)
    (h : w.grant spent verdict = some (w', upstream)) :
    Serves w kind cookie verdict w' (reply (answer upstream)) := by
  subst hspent
  cases verdict with
  | unreachable =>
    obtain ⟨rfl, rfl⟩ := Prod.mk.inj (Option.some.inj h)
    obtain ⟨hcookie, hid⟩ := hanswer .unusable nofun
    exact .fails hcookie hid
  | refuses =>
    obtain ⟨rfl, rfl⟩ := Prod.mk.inj (Option.some.inj h)
    obtain ⟨hcookie, hid⟩ := hanswer .error nofun
    exact .fails hcookie hid
  | honours rotates names reads =>
    obtain ⟨hlive, h⟩ := Option.ite_none_right_eq_some.mp h
    obtain ⟨rfl, rfl⟩ := Prod.mk.inj (Option.some.inj h)
    have hkind : kind = .exchange ∨ ∃ t, kind.spends cookie = some t ∧ t ∈ w.live := by
      refine hkind.imp_right fun ⟨attempt, t, hrefresh, ht⟩ ↦ ?_
      subst hrefresh ht
      exact ⟨t, rfl, hlive t rfl⟩
    have hcookie : (reply (answer (if reads then .tokens (if rotates then some w.issued else none)
        (if names then some w.signed else none) else .unusable))).setCookie =
          if reads && rotates then some (some w.issued) else none := by
      cases reads with
      | false => exact (hanswer .unusable nofun).1
      | true =>
        rw [if_pos rfl, htokens]
        cases rotates <;> rfl
    cases rotates with
    | false =>
      rw [Bool.and_false] at hcookie
      exact .keeps hcookie hkind
    | true =>
      rw [Bool.and_true] at hcookie
      exact .rotates hcookie hkind

theorem serve_spec (h : w.serve oidc kind cookie verdict = some (w', r)) :
    Serves w kind cookie verdict w' r := by
  cases kind with
  | logout =>
    obtain ⟨rfl, rfl⟩ := Prod.mk.inj (Option.some.inj h)
    exact .logout rfl
  | exchange =>
    obtain ⟨⟨w₁, upstream⟩, hgrant, h⟩ := Option.map_eq_some_iff.mp h
    obtain ⟨rfl, rfl⟩ := Prod.mk.inj h
    cases oidc with
    | false =>
      obtain ⟨rfl, rfl⟩ := Prod.mk.inj (Option.some.inj hgrant)
      exact .fails rfl rfl
    | true =>
      refine serves_of_grant (fun upstream hup ↦ ?_) (fun _ _ ↦ rfl) rfl (.inl rfl) hgrant
      cases upstream with
      | tokens refreshToken idToken => exact absurd rfl (hup _ _)
      | _ => exact ⟨rfl, rfl⟩
  | refresh attempt =>
    obtain ⟨⟨w₁, upstream⟩, hgrant, h⟩ := Option.map_eq_some_iff.mp h
    obtain ⟨rfl, rfl⟩ := Prod.mk.inj h
    cases oidc with
    | false =>
      obtain ⟨rfl, rfl⟩ := Prod.mk.inj (Option.some.inj hgrant)
      exact .fails rfl rfl
    | true =>
      cases cookie with
      | none =>
        obtain ⟨rfl, rfl⟩ := Prod.mk.inj (Option.some.inj hgrant)
        exact .fails rfl rfl
      | some t =>
        refine serves_of_grant (fun upstream hup ↦ ?_) (fun _ _ ↦ rfl) rfl
          (.inr ⟨attempt, t, rfl, rfl⟩) hgrant
        cases upstream with
        | tokens refreshToken idToken => exact absurd rfl (hup _ _)
        | _ => exact ⟨rfl, rfl⟩

theorem getElem?_setPage {f : Page → Page} {q : ℕ} {page' : Page} :
    (w.setPage p f).pages[q]? = some page' ↔
      ∃ page, w.pages[q]? = some page ∧ (if p = q then f page else page) = page' := by
  rw [World.setPage, List.getElem?_modify]
  exact Option.map_eq_some_iff

/-- What comes of an answer that lands. -/
inductive Lands (w : World) (i : ℕ) (task : Task) (r : Reply) : World → Prop
  | settles (ok : Bool) : Lands w i task r ((w.setCookie r).settle i task ok)
  | signsIn {n : ℕ} (h : r.idToken = some n) :
    Lands w i task r (((w.setCookie r).setToken task.page (some (.idToken n))).settle i task true)
  | pauses {attempt : ℕ} (h : task.kind = .refresh attempt) :
    Lands w i task r ((w.setCookie r).setPhase i task .pausing)

theorem land_spec (w : World) (i : ℕ) (task : Task) (r : Reply) : Lands w i task r (w.land i task r) := by
  unfold World.land
  dsimp only
  split
  · exact .settles false
  · split
    · exact .settles true
    · split
      · rename_i n _ hn
        exact .signsIn hn
      · exact .settles false
    · rename_i attempt hkind
      split
      · rename_i n _ hn
        exact .signsIn hn
      · exact .settles false
      · split
        · exact .pauses hkind
        · exact .settles false

/-- All that an action can do. -/
inductive Steps (w : World) : Action → World → Prop
  | tick (time : ℕ) : Steps w (.tick time) { w with now := w.now + time }
  | opens : Steps w .openPage (w.load.refreshSession w.pages.length).1
  | returns : Steps w (.openCallback true) (w.load.start w.pages.length .exchange none)
  | mismatches : Steps w (.openCallback false) w.load
  | types (p : ℕ) : Steps w (.type p) (w.setToken p (some .typed))
  | calls {p : ℕ} (h : w.openAt p) : Steps w (.call p) { w with calls := w.calls ++ [⟨p, .sent true⟩] }
  | answers {c : ℕ} {call : Call} {mayRefresh : Bool} (unauthorized : Bool)
    (hcall : w.calls[c]? = some call) (hopen : w.openAt call.page) :
    Steps w (.answer c unauthorized) (w.answer c call mayRefresh unauthorized)
  | resumes {c : ℕ} {call : Call} (ok : Bool) (hcall : w.calls[c]? = some call) :
    Steps w (.resume c) (w.resume c call ok)
  | signsOut {p : ℕ} (h : w.openAt p) : Steps w (.signOut p) ((w.setToken p none).start p .logout none)
  | closes (p : ℕ) : Steps w (.close p) (w.setPage p fun page ↦ { page with isOpen := false })
  | serves {i : ℕ} {task : Task} {cookie : Option ℕ} {verdict : Verdict} {w' : World} {r : Reply}
    (hi : w.tasks[i]? = some task) (hphase : task.phase = .requested cookie)
    (h : Serves w task.kind cookie verdict w' r) :
    Steps w (.serve i verdict) (w'.setPhase i task (.answered r))
  | loses {i : ℕ} {task : Task} (hi : w.tasks[i]? = some task)
    (hphase : (∃ cookie, task.phase = .requested cookie) ∨ ∃ r, task.phase = .answered r) :
    Steps w (.lose i) (w.settle i task false)
  | lands {i : ℕ} {task : Task} {r : Reply} {w' : World} (hi : w.tasks[i]? = some task)
    (hphase : task.phase = .answered r) (h : Lands w i task r w') : Steps w (.land i) w'
  | retries {i : ℕ} {task : Task} (hi : w.tasks[i]? = some task) (hphase : task.phase = .pausing)
    (hkind : task.kind = .refresh 0) :
    Steps w (.wake i) (w.setPhase i { task with kind := .refresh 1 } (.requested w.cookie))
  | givesUp {i : ℕ} {task : Task} (hi : w.tasks[i]? = some task) (hphase : task.phase = .pausing) :
    Steps w (.wake i) (w.settle i task false)

theorem step_spec {a : Action} (h : step oidc w a = some w') : Steps w a w' := by
  cases a with
  | tick time =>
    obtain rfl := Option.some.inj h
    exact .tick time
  | openPage =>
    obtain rfl := Option.some.inj h
    exact .opens
  | openCallback matches_ =>
    obtain rfl := Option.some.inj h
    cases matches_ with
    | false => exact .mismatches
    | true => exact .returns
  | type p =>
    obtain ⟨-, h⟩ := Option.ite_none_right_eq_some.mp h
    obtain rfl := Option.some.inj h
    exact .types p
  | call p =>
    obtain ⟨hopen, h⟩ := Option.ite_none_right_eq_some.mp h
    obtain rfl := Option.some.inj h
    exact .calls hopen
  | answer c unauthorized =>
    obtain ⟨call, hcall, h⟩ := Option.bind_eq_some_iff.mp h
    split at h
    · obtain ⟨hopen, h⟩ := Option.ite_none_right_eq_some.mp h
      obtain rfl := Option.some.inj h
      exact .answers unauthorized hcall hopen
    · cases h
  | resume c =>
    obtain ⟨call, hcall, h⟩ := Option.bind_eq_some_iff.mp h
    split at h
    · obtain ⟨task, -, h⟩ := Option.bind_eq_some_iff.mp h
      split at h
      · obtain ⟨-, h⟩ := Option.ite_none_right_eq_some.mp h
        obtain rfl := Option.some.inj h
        exact .resumes _ hcall
      · cases h
    · cases h
  | signOut p =>
    obtain ⟨hopen, h⟩ := Option.ite_none_right_eq_some.mp h
    obtain rfl := Option.some.inj h
    exact .signsOut hopen
  | close p =>
    obtain rfl := Option.some.inj h
    exact .closes p
  | serve i verdict =>
    obtain ⟨task, hi, h⟩ := Option.bind_eq_some_iff.mp h
    split at h
    · rename_i cookie hphase
      obtain ⟨⟨w₁, r⟩, hserve, h⟩ := Option.bind_eq_some_iff.mp h
      obtain rfl := Option.some.inj h
      exact .serves hi hphase (serve_spec hserve)
    · cases h
  | lose i =>
    obtain ⟨task, hi, h⟩ := Option.bind_eq_some_iff.mp h
    split at h
    · rename_i cookie hphase
      obtain rfl := Option.some.inj h
      exact .loses hi (.inl ⟨cookie, hphase⟩)
    · rename_i r hphase
      obtain rfl := Option.some.inj h
      exact .loses hi (.inr ⟨r, hphase⟩)
    · cases h
  | land i =>
    obtain ⟨task, hi, h⟩ := Option.bind_eq_some_iff.mp h
    split at h
    · rename_i r hphase
      obtain rfl := Option.some.inj h
      exact .lands hi hphase (land_spec w i task r)
    · cases h
  | wake i =>
    obtain ⟨task, hi, h⟩ := Option.bind_eq_some_iff.mp h
    split at h
    · rename_i hphase
      obtain ⟨-, h⟩ := Option.ite_none_right_eq_some.mp h
      obtain rfl := Option.some.inj h
      unfold World.wake
      split
      · rename_i hkind
        exact .retries hi hphase hkind
      · exact .givesUp hi hphase
    · cases h

end Steps

end Postbud.Session
