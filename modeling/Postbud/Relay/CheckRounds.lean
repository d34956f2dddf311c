import Postbud.Db.SendingDomain
import Postbud.Lib.Pacing
import Postbud.Relay.BounceProbe
import Postbud.Relay.RelayCheck

namespace Postbud.CheckRounds

open Lib Lib.Text Lib.Transition Lib.Processes DnsCheck

def RECHECK_MINUTES : ℤ := 15

def REVALIDATE_HOURS : ℤ := 24

def TICK : Time := seconds 60

def bounceMailbox (env : Option Text) : Option Text :=
  let name := trim (env.getD "bounces".toList)
  if name = [] then none else some name

def expected (d : SendingDomain) : Expected where
  spf := d.spfExpected
  dkimPublicKey := d.dkimPublicKey
  mx := d.mxExpected
  dmarcPolicy := d.dmarcPolicyExpected

/-- The check of one domain, where `mailbox` is the variable `BOUNCE_MAILBOX`:
none if it panics. -/
def checkDomain [Resolver] (mailbox : Option Text) (peer : Peer) (nonce : Option ℕ)
    (d : SendingDomain) : ExceptT ResolveError Option DomainResult := do
  let observed ← observe d.domain d.dkimSelector
  let result ← ExceptT.lift (evaluate (expected d) observed)
  return match bounceMailbox mailbox, d.mxExpected with
  | some mailbox, some _ => { result with bounce := bounceVerdict peer nonce d.domain mailbox }
  | _, _ => result

/-- What is evaluated is what was observed, and the relay's answer is all that is added. -/
theorem checkDomain_ok {dns : Resolver} {mailbox : Option Text} {peer : Peer} {nonce : Option ℕ}
    {d : SendingDomain} {result : DomainResult}
    (h : (@checkDomain dns mailbox peer nonce d).run = some (.ok result)) :
    ∃ o r, (@observe dns d.domain d.dkimSelector).run = some (.ok o) ∧
      evaluate (expected d) o = some r ∧ result = { r with bounce := result.bounce } ∧
      (result.bounce = r.bounce ∨ d.mxExpected.isSome ∧ (bounceMailbox mailbox).isSome) := by
  obtain ⟨o, hobserve, h⟩ := Result.run_ok_of_bind h
  obtain ⟨_, hlift, h⟩ := Result.run_ok_of_bind h
  obtain ⟨r, heval, he⟩ := Option.map_eq_some_iff.mp hlift
  obtain rfl := Except.ok.inj he
  refine ⟨o, r, hobserve, heval, ?_⟩
  have hresult := Except.ok.inj (Option.some.inj h)
  subst hresult
  cases hbox : bounceMailbox mailbox with
  | none => exact ⟨rfl, .inl rfl⟩
  | some box =>
    cases hexp : d.mxExpected with
    | none => exact ⟨rfl, .inl rfl⟩
    | some host => exact ⟨rfl, .inr ⟨rfl, rfl⟩⟩

/-- Where the loop of a worker stands: asleep until some time, with the domains
it found due and has not checked yet, about to check the relay, or ended. -/
inductive Loop
  | asleep (wake : Time)
  | checking (asked : Time) (due : List SendingDomain)
  | confirming (clock : Time) (host : Text)
  | ended
  deriving DecidableEq

def wait (valid : Bool) : Time := if valid then hours REVALIDATE_HOURS else minutes RECHECK_MINUTES

/-- The domains of a round are in the order of their ids, each once. -/
def Loop.Sorted : Loop → Prop
  | .checking _ due => due.Pairwise (·.id < ·.id)
  | _ => True

/-- The clock at which a loop found a domain due that it has not checked yet. -/
def Loop.asks (id : ℤ) : Loop → Option ℤ
  | .checking asked due => if id ∈ due.map (·.id) then some asked else none
  | _ => none

def Loop.asksRelay : Loop → Option ℤ
  | .confirming clock _ => some clock
  | _ => none

theorem le_wait (valid : Bool) : minutes RECHECK_MINUTES ≤ wait valid := by
  cases valid <;> decide

theorem asks_cons {id : ℤ} {asked : Time} {d : SendingDomain} {due : List SendingDomain} (h : d.id ≠ id) :
    Loop.asks id (.checking asked (d :: due)) = Loop.asks id (.checking asked due) := by
  simp only [Loop.asks, List.map_cons, List.mem_cons, Ne.symm h, false_or]

/-- A domain that is checked is not due to the loop any more. -/
theorem asks_of_sorted {asked : Time} {d : SendingDomain} {due : List SendingDomain}
    (hs : Loop.Sorted (.checking asked (d :: due))) :
    Loop.asks d.id (.checking asked due) = none := by
  refine if_neg fun h ↦ ?_
  obtain ⟨d', hd', he⟩ := List.mem_map.mp h
  exact Int.ne_of_gt ((List.pairwise_cons.mp hs).1 d' hd') he

section Worker

variable [Platform]

/-- The first query of a round. -/
def Loop.begun (db : Registry) (now : Time) (answered : Bool) : Loop :=
  .checking now (if answered then Domain.dueForCheck db now RECHECK_MINUTES REVALIDATE_HOURS else [])

/-- What comes of the check of a domain. A check that cannot be stored ends the round. -/
def Loop.checked (db : Registry) (now asked : Time) (d : SendingDomain) (due : List SendingDomain)
    (stored : Bool) : Option (Except ResolveError DomainResult) → Registry × Loop
  | none => (db, .ended)
  | some (.error _) => (db, .checking asked due)
  | some (.ok result) =>
    match if stored then Domain.recordCheck db now d.id result else none with
    | some db' => (db', .checking asked due)
    | none => (db, .checking asked [])

def publicHost (env : Option Text) : Option Text := do
  let host := toAsciiLowercase (trimEndMatches '.' (trim (← env)))
  if host = [] then none else some host

def Loop.relayAsked (db : Registry) (now clock : Time) (env : Option Text) (answered : Bool) : Loop :=
  match publicHost env with
  | none => .asleep (now + TICK)
  | some host =>
    if answered && Relay.due db clock RECHECK_MINUTES REVALIDATE_HOURS then .confirming clock host
    else .asleep (now + TICK)

def Loop.relayChecked (db : Registry) (now : Time) (host : Text) (stored : Bool) :
    Except ResolveError Rdns.Observed → Registry × Loop
  | .error _ => (db, .asleep (now + TICK))
  | .ok observed =>
    ((if stored then Relay.recordCheck db now host (Rdns.evaluate host observed) else none).getD db,
      .asleep (now + TICK))

/-- The registry and the loops of all the workers there have been. -/
structure World where
  db : Registry := {}
  loops : List Loop := []
  now : Time := 0

/-- What a loop does, or is done to it. `answered` and `stored` say whether the
statement to the database succeeds. -/
inductive Move
  | restart
  | stop
  | begin_ (answered : Bool)
  | check (dns : Resolver) (mailbox : Option Text) (peer : Peer) (nonce : Option ℕ) (stored : Bool)
  | relayDue (clock : Time) (publicHost : Option Text) (answered : Bool)
  | relayCheck (observed : Except ResolveError Rdns.Observed) (stored : Bool)

inductive Action
  | tick (time : ℕ)
  | add (domain spfExpected dkimSelector dkimPublicKey : Text)
      (mxExpected dmarcPolicyExpected : Option Text) (createdBy : Text)
  | end_ (id : ℤ) (endedBy : Text)
  | start
  | move (loop : ℕ) (m : Move)

/-- A move that is not the next one of the loop does not happen. -/
def Loop.move (db : Registry) (now : Time) :
    Move → Loop → Option (Registry × Loop)
  | .restart, .ended => some (db, .asleep now)
  | .stop, _ => some (db, .ended)
  | .begin_ answered, .asleep wake => if wake ≤ now then some (db, .begun db now answered) else none
  | .check dns mailbox peer nonce stored, .checking asked (d :: due) =>
    some (checked db now asked d due stored (@checkDomain dns mailbox peer nonce d).run)
  | .relayDue clock env answered, .checking _ [] => some (db, .relayAsked db now clock env answered)
  | .relayCheck observed stored, .confirming _ host =>
    some (relayChecked db now host stored observed)
  | _, _ => none

def step (w : World) : Action → Option World
  | .tick time => some { w with now := w.now + time }
  | .add domain spfExpected dkimSelector dkimPublicKey mxExpected dmarcPolicyExpected createdBy =>
    some { w with db := (Domain.add w.db w.now domain spfExpected dkimSelector dkimPublicKey
      mxExpected dmarcPolicyExpected createdBy).1 }
  | .end_ id endedBy => some { w with db := (Domain.end_ w.db w.now id endedBy).1 }
  | .start => some { w with loops := w.loops ++ [.asleep w.now] }
  | .move i m => do
    let loop ← w.loops[i]?
    let (db, loop) ← loop.move w.db w.now m
    return { w with db, loops := w.loops.set i loop }

/-- All that a move can do. -/
inductive Moves (db : Registry) (now : Time) : Move → Loop → Registry → Loop → Prop
  | restart : Moves db now .restart .ended db (.asleep now)
  | stop (loop : Loop) : Moves db now .stop loop db .ended
  | begin_ {wake : Time} (answered : Bool) (h : wake ≤ now) :
    Moves db now (.begin_ answered) (.asleep wake) db (.begun db now answered)
  | panics {asked : Time} {d : SendingDomain} {due : List SendingDomain} {dns : Resolver}
    {mailbox : Option Text} {peer : Peer} {nonce : Option ℕ} {stored : Bool}
    (h : (@checkDomain dns mailbox peer nonce d).run = none) :
    Moves db now (.check dns mailbox peer nonce stored) (.checking asked (d :: due)) db .ended
  | skips {asked : Time} {d : SendingDomain} {due : List SendingDomain} {dns : Resolver}
    {mailbox : Option Text} {peer : Peer} {nonce : Option ℕ} {stored : Bool} {err : ResolveError}
    (h : (@checkDomain dns mailbox peer nonce d).run = some (.error err)) :
    Moves db now (.check dns mailbox peer nonce stored) (.checking asked (d :: due)) db
      (.checking asked due)
  | records {asked : Time} {d : SendingDomain} {due : List SendingDomain} {dns : Resolver}
    {mailbox : Option Text} {peer : Peer} {nonce : Option ℕ} {result : DomainResult} {db' : Registry}
    (h : (@checkDomain dns mailbox peer nonce d).run = some (.ok result))
    (hdb : Domain.recordCheck db now d.id result = some db') :
    Moves db now (.check dns mailbox peer nonce true) (.checking asked (d :: due)) db'
      (.checking asked due)
  | aborts {asked : Time} {d : SendingDomain} {due : List SendingDomain} {dns : Resolver}
    {mailbox : Option Text} {peer : Peer} {nonce : Option ℕ} {stored : Bool} {result : DomainResult}
    (h : (@checkDomain dns mailbox peer nonce d).run = some (.ok result))
    (hdb : stored → Domain.recordCheck db now d.id result = none) :
    Moves db now (.check dns mailbox peer nonce stored) (.checking asked (d :: due)) db
      (.checking asked [])
  | rests {asked clock : Time} {env : Option Text} {answered : Bool} :
    Moves db now (.relayDue clock env answered) (.checking asked []) db (.asleep (now + TICK))
  | relayDue {asked clock : Time} {env : Option Text} {host : Text}
    (hdue : Relay.due db clock RECHECK_MINUTES REVALIDATE_HOURS) :
    Moves db now (.relayDue clock env true) (.checking asked []) db (.confirming clock host)
  | relaySkips {clock : Time} {host : Text} {stored : Bool}
    {observed : Except ResolveError Rdns.Observed} :
    Moves db now (.relayCheck observed stored) (.confirming clock host) db
      (.asleep (now + TICK))
  | relayRecords {clock : Time} {host : Text} {stored : Bool} {observed : Rdns.Observed}
    {db' : Registry}
    (hdb : Relay.recordCheck db now host (Rdns.evaluate host observed) = some db') :
    Moves db now (.relayCheck (.ok observed) stored) (.confirming clock host) db'
      (.asleep (now + TICK))

section Moves

variable {db db' : Registry} {now : Time} {m : Move} {loop loop' : Loop}

theorem move_spec (h : loop.move db now m = some (db', loop')) :
    Moves db now m loop db' loop' := by
  unfold Loop.move at h
  split at h
  · cases h
    exact .restart
  · cases h
    exact .stop loop
  · obtain ⟨hwake, h⟩ := Option.ite_none_right_eq_some.mp h
    cases h
    exact .begin_ _ hwake
  · rename_i dns mailbox peer nonce stored asked d due
    have h := Option.some.inj h
    cases hrun : (@checkDomain dns mailbox peer nonce d).run with
    | none =>
      rw [hrun] at h
      cases h
      exact .panics hrun
    | some res =>
      rw [hrun] at h
      cases res with
      | error err =>
        cases h
        exact .skips hrun
      | ok result =>
        simp only [Loop.checked] at h
        split at h
        · rename_i db₁ hdb
          cases h
          obtain ⟨hstored, hdb⟩ := Option.ite_none_right_eq_some.mp hdb
          subst hstored
          exact .records hrun hdb
        · rename_i hdb
          cases h
          refine .aborts hrun fun hstored ↦ ?_
          rwa [if_pos hstored] at hdb
  · rename_i clock env answered asked
    have h := Option.some.inj h
    unfold Loop.relayAsked at h
    split at h
    · cases h
      exact .rests
    · split_ifs at h with hdue
      · cases h
        obtain ⟨hanswered, hdue⟩ := Bool.and_eq_true_iff.mp hdue
        subst hanswered
        exact .relayDue hdue
      · cases h
        exact .rests
  · rename_i observed stored clock host
    have h := Option.some.inj h
    cases observed with
    | error err =>
      cases h
      exact .relaySkips
    | ok observed =>
      simp only [Loop.relayChecked] at h
      cases hdb : (if stored then Relay.recordCheck db now host (Rdns.evaluate host observed)
          else none) with
      | none =>
        rw [hdb] at h
        cases h
        exact .relaySkips
      | some db₁ =>
        rw [hdb] at h
        cases h
        exact .relayRecords (Option.ite_none_right_eq_some.mp hdb).2
  · cases h

theorem step_move {w w' : World} {i : ℕ} (h : step w (.move i m) = some w') :
    ∃ loop db loop', w.loops[i]? = some loop ∧ Moves w.db w.now m loop db loop' ∧
      w' = { w with db, loops := w.loops.set i loop' } := by
  obtain ⟨loop, hloop, h⟩ := Option.bind_eq_some_iff.mp h
  obtain ⟨⟨db, loop'⟩, hmove, h⟩ := Option.bind_eq_some_iff.mp h
  exact ⟨loop, db, loop', hloop, move_spec hmove, (Option.some.inj h).symm⟩

end Moves

def World.init (loops : ℕ) (now : Time) : World where
  loops := List.replicate loops (.asleep now)
  now := now

def World.Sorted (w : World) : Prop := ∀ loop ∈ w.loops, loop.Sorted

def entries (db : Registry) (id : ℤ) : List (ℤ × ℤ) :=
  (Domain.history db id).map fun c ↦ (c.checkedAt, wait c.valid)

def relayEntries (db : Registry) : List (ℤ × ℤ) :=
  db.relayCheck.map fun c ↦ (c.checkedAt, wait c.valid)

section Pacing

variable {db db' : Registry} {now : Time} {m : Move} {loop loop' : Loop}
  {id : ℤ} {skew : ℤ}

theorem Moves.sorted (h : Moves db now m loop db' loop') (hs : loop.Sorted) :
    loop'.Sorted := by
  cases h with
  | begin_ answered =>
    cases answered with
    | true => exact Domain.sorted_dueForCheck
    | false => exact .nil
  | skips => exact (List.pairwise_cons.mp hs).2
  | records => exact (List.pairwise_cons.mp hs).2
  | aborts => exact .nil
  | _ => trivial

theorem entries_recordCheck {domainId : ℤ} {result : DomainResult}
    (h : Domain.recordCheck db now domainId result = some db') : entries db' id =
      entries db id ++ if domainId = id then [(now, wait result.valid)] else [] := by
  rw [entries, Domain.history_recordCheck h, List.map_append]
  split_ifs <;> rfl

theorem begun_asks (db : Registry) (now : Time) (answered : Bool) (id : ℤ) :
    Loop.asks id (.begun db now answered) = none ∨
      Loop.asks id (.begun db now answered) = some now ∧
        ∀ e ∈ (entries db id).getLast?, e.1 + e.2 < now := by
  cases answered with
  | false => exact .inl rfl
  | true =>
    simp only [Loop.begun, if_true, Loop.asks]
    split_ifs with hmem
    · refine .inr ⟨rfl, fun e he ↦ ?_⟩
      obtain ⟨d, hd, rfl⟩ := List.mem_map.mp hmem
      obtain ⟨r, -, -, hdue, rfl⟩ := Domain.mem_dueForCheck.mp hd
      rw [entries, List.getLast?_map] at he
      obtain ⟨c, hc, rfl⟩ := Option.map_eq_some_iff.mp he
      exact Domain.due_iff.mp hdue c hc
    · exact .inl rfl

/-- What a move is to the checks of one domain. -/
theorem Moves.paces (h : Moves db now m loop db' loop') (hs : loop.Sorted) (id : ℤ) :
    Pacing.Paces 0 (minutes RECHECK_MINUTES) now (loop.asks id) (entries db id) (loop'.asks id)
      (entries db' id) := by
  cases h with
  | begin_ answered =>
    obtain h | ⟨h, hdue⟩ := begun_asks db now answered id
    · rw [h]
      exact .drops _ _
    · rw [h]
      exact .asks _ hdue (Int.le_of_eq (Int.add_zero now).symm)
  | @skips asked d due _ _ _ _ _ _ _ =>
    by_cases hid : d.id = id
    · subst hid
      rw [asks_of_sorted hs]
      exact .drops _ _
    · rw [asks_cons hid]
      exact .stays _ _
  | @records asked d due _ _ _ _ result _ _ hdb =>
    rw [entries_recordCheck hdb]
    by_cases hid : d.id = id
    · subst hid
      rw [asks_of_sorted hs, if_pos rfl]
      have hasks : Loop.asks d.id (.checking asked (d :: due)) = some asked :=
        if_pos (List.mem_map_of_mem List.mem_cons_self)
      rw [hasks]
      exact .marks _ _ (le_wait _)
    · rw [asks_cons hid, if_neg hid, List.append_nil]
      exact .stays _ _
  | relayRecords hdb =>
    obtain ⟨-, rfl⟩ := Relay.recordCheck_eq_some.mp hdb
    exact .drops _ _
  | _ => exact .drops _ _

/-- What a move is to the checks of the relay. -/
theorem Moves.paces_relay (h : Moves db now m loop db' loop')
    (hclock : ∀ clock env answered, m = .relayDue clock env answered → clock ≤ now + skew) :
    Pacing.Paces skew (minutes RECHECK_MINUTES) now loop.asksRelay (relayEntries db) loop'.asksRelay
      (relayEntries db') := by
  cases h with
  | records _ hdb =>
    obtain ⟨-, -, rfl⟩ := Domain.recordCheck_eq_some.mp hdb
    exact .drops _ _
  | @relayDue asked clock env host hdue =>
    refine .asks _ (fun e he ↦ ?_) (hclock _ _ _ rfl)
    rw [relayEntries, List.getLast?_map] at he
    obtain ⟨c, hc, rfl⟩ := Option.map_eq_some_iff.mp he
    exact Relay.due_iff.mp hdue c hc
  | relayRecords hdb =>
    obtain ⟨-, rfl⟩ := Relay.recordCheck_eq_some.mp hdb
    simp only [relayEntries, List.map_append]
    exact .marks _ _ (le_wait _)
  | _ => exact .drops _ _

/-- The workers and the checks of one kind, as the pacing of it sees them. -/
structure Follows (asks : Loop → Option ℤ) (hist : Registry → List (ℤ × ℤ)) (w : World)
    (s : Pacing.State) : Prop where
  now : s.now = w.now
  asked : s.asked = w.loops.map asks
  marks : s.marks.map Pacing.Mark.entry = hist w.db

theorem follows_init {asks : Loop → Option ℤ} {hist : Registry → List (ℤ × ℤ)}
    (hasks : ∀ wake, asks (.asleep wake) = none) (hhist : hist {} = []) (loops : ℕ) (now : Time) :
    Follows asks hist (.init loops now) { asked := List.replicate loops none, now } where
  now := rfl
  asked := by rw [World.init, List.map_replicate, hasks]
  marks := hhist.symm

theorem sorted_init (loops : ℕ) (now : Time) : (World.init loops now).Sorted :=
  fun loop hloop ↦ (List.eq_of_mem_replicate hloop : loop = .asleep now) ▸ trivial

theorem sorted_step {w w' : World} {a : Action} (h : step w a = some w') (hs : w.Sorted) :
    w'.Sorted := by
  cases a with
  | tick time =>
    obtain rfl := Option.some.inj h
    exact hs
  | add =>
    obtain rfl := Option.some.inj h
    exact hs
  | end_ =>
    obtain rfl := Option.some.inj h
    exact hs
  | start =>
    obtain rfl := Option.some.inj h
    exact forall_mem_concat hs trivial
  | move i m =>
    obtain ⟨loop, db, loop', hloop, hmove, rfl⟩ := step_move h
    have hsorted := hmove.sorted (hs loop (List.mem_of_getElem? hloop))
    exact forall_mem_set hsorted fun x hx ↦ hs x (List.mem_of_mem_eraseIdx hx)

section Kind

/-! One kind of checks, of domains or of the relay. -/

variable {asks : Loop → Option ℤ} {hist : Registry → List (ℤ × ℤ)} {P : World → Action → Prop}
  (hasks : ∀ wake, asks (.asleep wake) = none)
  (hhist : ∀ db db', db'.domainCheck = db.domainCheck → db'.relayCheck = db.relayCheck →
    hist db' = hist db)
  (hmoves : ∀ (w : World) (i : ℕ) (m : Move) (loop loop' : Loop) (db' : Registry),
    P w (.move i m) → loop.Sorted → Moves w.db w.now m loop db' loop' →
      Pacing.Paces skew (minutes RECHECK_MINUTES) w.now (asks loop) (hist w.db) (asks loop')
        (hist db'))

include hasks hhist hmoves

/-- Whatever a loop's moves are to one kind of checks, pacing simulates it. -/
theorem simulates : Simulates step (Pacing.step skew (minutes RECHECK_MINUTES)) P
      fun w s ↦ w.Sorted ∧ Follows asks hist w s := by
  intro w a w' s hP hR h
  obtain ⟨hsorted, hnow, hasked, hmarks⟩ := hR
  have hsorted' := sorted_step h hsorted
  cases a with
  | tick time =>
    obtain rfl := Option.some.inj h
    refine ⟨[.tick time], _, .one rfl, hsorted', ?_, hasked, hmarks⟩
    exact congrArg (· + (time : ℤ)) hnow
  | add =>
    obtain rfl := Option.some.inj h
    obtain ⟨hdomain, hrelay, -⟩ := Domain.add_cases w.db w.now _ _ _ _ _ _ _
    exact ⟨[], s, .nil s, hsorted', hnow, hasked, hmarks.trans (hhist _ _ hdomain hrelay).symm⟩
  | end_ id endedBy =>
    obtain rfl := Option.some.inj h
    exact ⟨[], s, .nil s, hsorted', hnow, hasked,
      hmarks.trans (hhist w.db (Domain.end_ w.db w.now id endedBy).1 rfl rfl).symm⟩
  | start =>
    obtain rfl := Option.some.inj h
    refine ⟨[.join], _, .one rfl, hsorted', hnow, ?_, hmarks⟩
    rw [List.map_append, List.map_singleton, hasks, hasked]
  | move i m =>
    obtain ⟨loop, db, loop', hloop, hmove, rfl⟩ := step_move h
    have hpaces := hmoves w i m loop loop' db hP (hsorted loop (List.mem_of_getElem? hloop)) hmove
    rw [← hnow] at hpaces
    have hask : s.asked[i]? = some (asks loop) := by
      rw [hasked, List.getElem?_map, hloop]
      rfl
    obtain ⟨l, t, hrun, htnow, htasked, htmarks⟩ := hpaces.run hask hmarks
    refine ⟨l, t, hrun, hsorted', htnow.trans hnow, ?_, htmarks⟩
    rw [htasked, hasked, List.map_set]

variable (asks hist skew) in
theorem paced_of_moves {loops : ℕ} {start : Time} {l : List Action} {w : World}
    (h : Run step (.init loops start) l w) (hempty : hist {} = [])
    (hP : Along step P (.init loops start) l) :
    (w.loops.length ≤ 1 → (hist w.db).IsChain fun e e' ↦ e.1 + e.2 < e'.1 + skew) ∧
    ∀ t : Time, ((hist w.db).filter fun e ↦
      t < e.1 ∧ e.1 ≤ t + minutes RECHECK_MINUTES - skew).length ≤ w.loops.length := by
  obtain ⟨s, ⟨-, hfollows⟩, hinv⟩ := h.of_simulation (simulates hasks hhist hmoves) hP
    ⟨sorted_init _ _, follows_init hasks hempty _ _⟩
    (fun l' t ht ↦ Pacing.inv_run (Pacing.inv_init _ _ _ _) ht)
  have hlength : s.asked.length = w.loops.length := by rw [hfollows.asked, List.length_map]
  rw [← hfollows.marks, ← hlength]
  exact ⟨hinv.paced_entries, hinv.length_entries_le⟩

end Kind

section Runs

variable {loops : ℕ} {start : Time} {l : List Action} {w : World}

/-- With one worker no domain is checked before its last check has run out, and
with any number it is checked by each of them once in a quarter of an hour at most. -/
theorem checks_paced (h : Run step (.init loops start) l w) (id : ℤ) :
    (w.loops.length ≤ 1 → (Domain.history w.db id).IsChain fun c c' ↦
      c.checkedAt + wait c.valid < c'.checkedAt) ∧
    ∀ t : Time, ((Domain.history w.db id).filter fun c ↦
      t < c.checkedAt ∧ c.checkedAt ≤ t + minutes RECHECK_MINUTES).length ≤ w.loops.length := by
  obtain ⟨hchain, hle⟩ := paced_of_moves 0 (Loop.asks id) (entries · id) (fun _ ↦ rfl)
    (fun db db' hdb _ ↦ by simp only [entries, Domain.history, hdb])
    (fun w i m loop loop' db' _ hs hm ↦ hm.paces hs id) h rfl (along_of_forall fun _ _ _ ↦ trivial)
  constructor
  · intro hone
    have hchain := hchain hone
    rw [entries, List.isChain_map] at hchain
    exact hchain.imp fun _ _ hlt ↦ by simpa only [Int.add_zero] using hlt
  · intro t
    have hle := hle t
    rw [entries, List.filter_map, List.length_map, Int.sub_zero] at hle
    exact hle

/-- The clock of a worker that looks whether the relay is due is not far ahead of the database's. -/
def ClockWithin (skew : ℤ) (w : World) : Action → Prop
  | .move _ (.relayDue clock _ _) => clock ≤ w.now + skew
  | _ => True

instance (w : World) (a : Action) : Decidable (ClockWithin skew w a) := by
  unfold ClockWithin
  split <;> infer_instance

/-- The same of the relay, but for how far the workers' clocks are ahead of the database's. -/
theorem relay_checks_paced (h : Run step (.init loops start) l w)
    (hskew : Along step (ClockWithin skew) (.init loops start) l) :
    (w.loops.length ≤ 1 → w.db.relayCheck.IsChain fun c c' ↦
      c.checkedAt + wait c.valid < c'.checkedAt + skew) ∧
    ∀ t : Time, (w.db.relayCheck.filter fun c ↦
      t < c.checkedAt ∧ c.checkedAt ≤ t + minutes RECHECK_MINUTES - skew).length ≤
        w.loops.length := by
  obtain ⟨hchain, hle⟩ := paced_of_moves skew Loop.asksRelay relayEntries (fun _ ↦ rfl)
    (fun db db' _ hdb ↦ by simp only [relayEntries, hdb])
    (fun w i m loop loop' db' hP hs hm ↦ hm.paces_relay fun clock env answered he ↦ by
      subst he
      exact hP) h rfl hskew
  constructor
  · intro hone
    have hchain := hchain hone
    rwa [relayEntries, List.isChain_map] at hchain
  · intro t
    have hle := hle t
    rwa [relayEntries, List.filter_map, List.length_map] at hle

end Runs

end Pacing

end Worker

attribute [local instance] Platform.ascii

/-- A resolver that knows of no record, and a relay that is not there. -/
@[reducible] def silent : Resolver := ⟨fun _ ↦ .ok [], fun _ ↦ .ok []⟩

def unreachable : Peer := ⟨false, fun _ ↦ [], fun _ ↦ false⟩

def addExample : Action :=
  .add "example.com".toList "v=spf1 -all".toList "s".toList "key".toList none none "ops".toList

/-- A round in which one domain is due, and the relay too. -/
def checkRound (clock : Time) : List Action :=
  [.move 0 (.begin_ true), .move 0 (.check silent none unreachable none true),
    .move 0 (.relayDue clock (some "relay.example.com".toList) true), .move 0 (.relayCheck (.ok {}) true)]

/-- A domain that is not valid is checked anew after a quarter of an hour. -/
def twoRounds : List Action :=
  addExample :: checkRound 0 ++ .tick (minutes 16).toNat :: checkRound (minutes 16)

theorem checks_paced_twice : ∃ w, Run step (.init 1 0) twoRounds w ∧
    (Domain.history w.db 1).length = 2 ∧ (Domain.history w.db 1).IsChain fun c c' ↦
      c.checkedAt + wait c.valid < c'.checkedAt := by
  have hexec : (exec step (.init 1 0) twoRounds).any fun w ↦
      (Domain.history w.db 1).length = 2 && w.loops.length = 1 := by decide +kernel
  obtain ⟨w, hrun, hw⟩ := run_of_any hexec
  obtain ⟨htwo, hone⟩ := Bool.and_eq_true_iff.mp hw
  exact ⟨w, hrun, of_decide_eq_true htwo,
    (checks_paced hrun 1).1 (Nat.le_of_eq (of_decide_eq_true hone))⟩

theorem relay_checks_paced_twice : ∃ w, Run step (.init 1 0) twoRounds w ∧
    w.db.relayCheck.length = 2 ∧ w.db.relayCheck.IsChain fun c c' ↦
      c.checkedAt + wait c.valid < c'.checkedAt + 0 := by
  have hexec : (exec step (.init 1 0) twoRounds).any fun w ↦
      w.db.relayCheck.length = 2 && w.loops.length = 1 := by decide +kernel
  obtain ⟨w, hrun, hw⟩ := run_of_any hexec
  obtain ⟨htwo, hone⟩ := Bool.and_eq_true_iff.mp hw
  have hclocks : Along step (ClockWithin 0) (.init 1 0) twoRounds := by decide +kernel
  exact ⟨w, hrun, of_decide_eq_true htwo,
    (relay_checks_paced hrun hclocks).1 (Nat.le_of_eq (of_decide_eq_true hone))⟩

end Postbud.CheckRounds
