import Postbud.Lib.Simulation
import Postbud.Lib.Wakeup
import Postbud.System.Invariant

namespace Postbud.WorkerLoop

open Lib Lib.Transition Lib.Wakeup Lib.Processes
open Postbud.System (Delivery)

structure Config where
  workerName : Text
  batch : ℕ
  concurrency : ℕ
  positive : 0 < concurrency

/-- A task of the join set; one that is `finished` has not been joined yet. -/
inductive Task
  | running (d : Delivery)
  | finished
  deriving DecidableEq

def Task.held : Task → List Delivery
  | .running d => [d]
  | .finished => []

/-- Where the loop of `run` stands. It waits for work where `claiming` and its
waiter is asleep. -/
inductive Phase
  | claiming
  | delivering (pending : List Delivery) (deliveries : List Task)
  | ended
  deriving DecidableEq

def Phase.held : Phase → List Delivery
  | .delivering pending deliveries => pending ++ deliveries.flatMap Task.held
  | _ => []

/-- A worker process: its loop, and what `spawn_wake_listener` has made of the
notifications of the database. -/
structure Loop where
  config : Config
  phase : Phase := .claiming
  wake : Waiter Uuid := {}

def Loop.deliver (l : Loop) (pending : List Delivery) (deliveries : List Task) : Loop :=
  { l with phase := .delivering pending deliveries }

/-- After a claim, which left out the rows that others had locked. -/
def Loop.claimed (l : Loop) (claimed : List Delivery) (locked : List Uuid) : Loop :=
  if claimed = [] then { l with wake := l.wake.sleep locked } else l.deliver claimed []

def Loop.end (l : Loop) : Loop := { l with phase := .ended, wake := {} }

/-- The database and the workers on it. -/
structure World [Platform] where
  base : System.State
  loops : List Loop := []

/-- `claims` to `joins` are the statements of `run` and of its tasks; `fails`
is a task that panics or cannot record, `dies` a worker that is killed or whose
claim is an error. `subscribes`, `disconnects` and `receives` are the listener's. -/
inductive Action
  | other (a : System.Action)
  | start (config : Config)
  | claims (i : ℕ) (locked : List Uuid)
  | wakes (i : ℕ)
  | timesOut (i : ℕ)
  | spawns (i : ℕ)
  | handsOver (i j : ℕ) (outcome : Outcome)
  | records (i j : ℕ)
  | fails (i j : ℕ)
  | joins (i j : ℕ)
  | drained (i : ℕ)
  | dies (i : ℕ)
  | subscribes (i : ℕ)
  | disconnects (i : ℕ)
  | receives (i : ℕ)

/-- What in the system only workers do. -/
def ofWorker : System.Action → Bool
  | .claim .. | .handoff .. | .record .. | .abandon .. => true
  | _ => false

variable [Platform]

/-- The action has committed a wake-up. -/
def notifies (base : System.State) : System.Action → Bool
  | .accept i _ => base.accepts[i]?.any (·.notified)
  | _ => false

def hold (base : System.State) (worker : Text) (locked : List Uuid) (batch : ℕ) : List Delivery :=
  (Postbud.claim base.db base.now worker batch locked).2.map fun c ↦
    { worker, claimed := c, seen := base.db.suppressionSeq }

def Loop.notify (base : System.State) (a : System.Action) (l : Loop) : Loop :=
  if notifies base a then { l with wake := l.wake.send } else l

def World.set (w : World) (i : ℕ) (l : Loop) : World := { w with loops := w.loops.set i l }

/-- A worker moves without the database. -/
def World.move (w : World) (i : ℕ) (f : Loop → Option Loop) : Option World := do
  let l ← w.loops[i]?
  let l ← f l
  some (w.set i l)

/-- A worker moves, and the system by an action of its own. -/
def World.act (w : World) (i : ℕ) (a : System.Action) (l : Loop) : Option World := do
  let base ← System.step w.base a
  some { base, loops := w.loops.set i l }

def Loop.spawn (l : Loop) : Option Loop :=
  match l.phase with
  | .delivering (d :: pending) deliveries =>
    if deliveries.length < l.config.concurrency then
      some (l.deliver pending (deliveries ++ [.running d]))
    else none
  | _ => none

def Loop.join (j : ℕ) (l : Loop) : Option Loop :=
  match l.phase with
  | .delivering pending deliveries =>
    if deliveries[j]? = some .finished ∧
        (pending ≠ [] → l.config.concurrency ≤ deliveries.length) then
      some (l.deliver pending (deliveries.eraseIdx j))
    else none
  | _ => none

def Loop.drain (l : Loop) : Option Loop :=
  if l.phase = .delivering [] [] then some { l with phase := .claiming } else none

def Loop.listen (l : Loop) (f : Waiter Uuid → Option (Waiter Uuid)) : Option Loop :=
  if l.phase = .ended then none else (f l.wake).map fun wake ↦ { l with wake }

/-- The task `j` of a worker, and the worker with what becomes of the task. -/
def Loop.task (l : Loop) (j : ℕ) : Option (Delivery × (Task → Loop)) :=
  match l.phase with
  | .delivering pending deliveries =>
    match deliveries[j]? with
    | some (.running d) => some (d, fun t ↦ l.deliver pending (deliveries.set j t))
    | _ => none
  | _ => none

/-- What becomes of a task by an action of the system that its worker takes. -/
inductive Becomes (d : Delivery) : System.Action → Task → Prop
  | handedOver (outcome : Outcome) :
    Becomes d (.handoff d outcome) (.running { d with outcome := some outcome })
  | recorded : Becomes d (.record d) .finished
  | failed : Becomes d (.abandon d) .finished

def step (w : World) : Action → Option World
  | .other a => do
    if ofWorker a then none
    else
      let base ← System.step w.base a
      some { base, loops := w.loops.map (Loop.notify base a) }
  | .start config => some { w with loops := w.loops ++ [{ config }] }
  | .claims i locked => do
    let l ← w.loops[i]?
    if l.phase = .claiming ∧ l.wake.asleep.isNone then
      w.act i (.claim l.config.workerName l.config.batch locked)
        (l.claimed (hold w.base l.config.workerName locked l.config.batch) locked)
    else none
  | .wakes i => w.move i fun l ↦ l.listen Waiter.wake
  | .timesOut i => w.move i fun l ↦ l.listen Waiter.timeOut
  | .spawns i => w.move i Loop.spawn
  | .handsOver i j outcome => do
    let l ← w.loops[i]?
    let (d, become) ← l.task j
    w.act i (.handoff d outcome) (become (.running { d with outcome := some outcome }))
  | .records i j => do
    let l ← w.loops[i]?
    let (d, become) ← l.task j
    w.act i (.record d) (become .finished)
  | .fails i j => do
    let l ← w.loops[i]?
    let (d, become) ← l.task j
    w.act i (.abandon d) (become .finished)
  | .joins i j => w.move i (Loop.join j)
  | .drained i => w.move i Loop.drain
  | .dies i => do
    let l ← w.loops[i]?
    if l.phase = .ended then none
    else
      some { base := { w.base with held := w.base.held.diff l.phase.held }, loops := w.loops.set i l.end }
  | .subscribes i => w.move i fun l ↦ l.listen fun wake ↦ some wake.subscribe
  | .disconnects i => w.move i fun l ↦ l.listen fun wake ↦ some wake.disconnect
  | .receives i => w.move i fun l ↦ l.listen Waiter.receive

/-- The worker whose batch an action brings nearer to its end. -/
def Action.drains : Action → Option ℕ
  | .spawns i | .handsOver i _ _ | .records i _ | .fails i _ | .joins i _ | .drained i => some i
  | _ => none

/-- What one action does. -/
inductive Step (w : World) : Action → World → Prop
  | other (a : System.Action) (base : System.State) (ha : ofWorker a = false)
      (h : System.step w.base a = some base) :
    Step w (.other a) { base, loops := w.loops.map (Loop.notify base a) }
  | start (config : Config) : Step w (.start config) { w with loops := w.loops ++ [{ config }] }
  | claims (i : ℕ) (locked : List Uuid) (l : Loop) (base : System.State) (hi : w.loops[i]? = some l)
      (hl : l.phase = .claiming) (hw : l.wake.asleep = none)
      (h : System.step w.base (.claim l.config.workerName l.config.batch locked) = some base) :
    Step w (.claims i locked)
      { base
        loops := w.loops.set i
          (l.claimed (hold w.base l.config.workerName locked l.config.batch) locked) }
  | spawns (i : ℕ) (l : Loop) (d : Delivery) (pending : List Delivery) (deliveries : List Task)
      (hi : w.loops[i]? = some l) (hl : l.phase = .delivering (d :: pending) deliveries)
      (hlt : deliveries.length < l.config.concurrency) :
    Step w (.spawns i) (w.set i (l.deliver pending (deliveries ++ [.running d])))
  | tasks (a : Action) (i j : ℕ) (l : Loop) (d : Delivery) (t : Task) (pending : List Delivery)
      (deliveries : List Task) (own : System.Action) (base : System.State)
      (ha : a.drains = some i) (hi : w.loops[i]? = some l)
      (hl : l.phase = .delivering pending deliveries) (hj : deliveries[j]? = some (.running d))
      (hown : Becomes d own t) (h : System.step w.base own = some base) :
    Step w a { base, loops := w.loops.set i (l.deliver pending (deliveries.set j t)) }
  | joins (i j : ℕ) (l : Loop) (pending : List Delivery) (deliveries : List Task)
      (hi : w.loops[i]? = some l) (hl : l.phase = .delivering pending deliveries)
      (hj : deliveries[j]? = some .finished) (hfull : pending ≠ [] → l.config.concurrency ≤ deliveries.length) :
    Step w (.joins i j) (w.set i (l.deliver pending (deliveries.eraseIdx j)))
  | drained (i : ℕ) (l : Loop) (hi : w.loops[i]? = some l) (hl : l.phase = .delivering [] []) :
    Step w (.drained i) (w.set i { l with phase := .claiming })
  | dies (i : ℕ) (l : Loop) (hi : w.loops[i]? = some l) :
    Step w (.dies i)
      { base := { w.base with held := w.base.held.diff l.phase.held }, loops := w.loops.set i l.end }
  | heeds (a : Action) (i : ℕ) (l : Loop) (wake : Waiter Uuid) (ha : a.drains = none)
      (hi : w.loops[i]? = some l) (hw : l.wake.Heeds wake) :
    Step w a (w.set i { l with wake })

variable {w w' : World} {a : Action} {i j : ℕ} {l l' : Loop}

theorem move_spec {f : Loop → Option Loop} (h : w.move i f = some w') :
    ∃ l l', w.loops[i]? = some l ∧ f l = some l' ∧ w' = w.set i l' := by
  obtain ⟨l, hi, h⟩ := Option.bind_eq_some_iff.mp h
  obtain ⟨l', hf, h⟩ := Option.bind_eq_some_iff.mp h
  exact ⟨l, l', hi, hf, (Option.some.inj h).symm⟩

theorem act_spec {own : System.Action} (h : w.act i own l = some w') :
    ∃ base, System.step w.base own = some base ∧ w' = { base, loops := w.loops.set i l } := by
  obtain ⟨base, hs, h⟩ := Option.bind_eq_some_iff.mp h
  exact ⟨base, hs, (Option.some.inj h).symm⟩

omit [Platform] in
theorem listen_spec {f : Waiter Uuid → Option (Waiter Uuid)} (h : l.listen f = some l') :
    ∃ wake, f l.wake = some wake ∧ l' = { l with wake } := by
  simp only [Loop.listen, Option.ite_none_left_eq_some] at h
  obtain ⟨wake, hf, rfl⟩ := Option.map_eq_some_iff.mp h.2
  exact ⟨wake, hf, rfl⟩

omit [Platform] in
theorem task_spec {x : Delivery × (Task → Loop)} (h : l.task j = some x) :
    ∃ pending deliveries, l.phase = .delivering pending deliveries ∧
      deliveries[j]? = some (.running x.1) ∧
      ∀ t, x.2 t = l.deliver pending (deliveries.set j t) := by
  simp only [Loop.task] at h
  split at h
  · rename_i pending deliveries hp
    split at h
    · rename_i d hj
      obtain rfl := Option.some.inj h
      exact ⟨pending, deliveries, hp, hj, fun _ ↦ rfl⟩
    · cases h
  · cases h

theorem tasks_spec {own : Delivery → System.Action} {t : Delivery → Task}
    (ha : a.drains = some i) (hown : ∀ d, Becomes d (own d) (t d))
    (h : (do
      let l ← w.loops[i]?
      let (d, become) ← l.task j
      w.act i (own d) (become (t d))) = some w') : Step w a w' := by
  obtain ⟨l, hi, h⟩ := Option.bind_eq_some_iff.mp h
  obtain ⟨x, hx, h⟩ := Option.bind_eq_some_iff.mp h
  obtain ⟨pending, deliveries, hp, hj, hbecome⟩ := task_spec hx
  obtain ⟨base, hs, rfl⟩ := act_spec h
  rw [hbecome]
  exact .tasks a i j l x.1 _ pending deliveries _ base ha hi hp hj (hown x.1) hs

theorem heeds_spec {f : Waiter Uuid → Option (Waiter Uuid)} (ha : a.drains = none)
    (hf : ∀ wake wake', f wake = some wake' → wake.Heeds wake')
    (h : w.move i (·.listen f) = some w') : Step w a w' := by
  obtain ⟨l, l', hi, hl, rfl⟩ := move_spec h
  obtain ⟨wake, hw, rfl⟩ := listen_spec hl
  exact .heeds a i l wake ha hi (hf _ _ hw)

theorem step_spec (h : step w a = some w') : Step w a w' := by
  cases a with
  | other a =>
    obtain ⟨ha, h⟩ := Option.ite_none_left_eq_some.mp h
    obtain ⟨base, hs, h⟩ := Option.bind_eq_some_iff.mp h
    exact Option.some.inj h ▸ .other a base (Bool.eq_false_of_not_eq_true ha) hs
  | start config => exact Option.some.inj h ▸ .start config
  | claims i locked =>
    obtain ⟨l, hi, h⟩ := Option.bind_eq_some_iff.mp h
    obtain ⟨⟨hl, hw⟩, h⟩ := Option.ite_none_right_eq_some.mp h
    obtain ⟨base, hs, rfl⟩ := act_spec h
    exact .claims i locked l base hi hl (Option.isNone_iff_eq_none.mp hw) hs
  | wakes i => exact heeds_spec rfl (fun _ _ ↦ .wake) h
  | timesOut i => exact heeds_spec rfl (fun _ _ ↦ .timeOut) h
  | spawns i =>
    obtain ⟨l, l', hi, hl, rfl⟩ := move_spec h
    simp only [Loop.spawn] at hl
    split at hl
    · rename_i d pending deliveries hp
      obtain ⟨hlt, hl⟩ := Option.ite_none_right_eq_some.mp hl
      exact Option.some.inj hl ▸ .spawns i l d pending deliveries hi hp hlt
    · cases hl
  | handsOver i j outcome => exact tasks_spec rfl (fun d ↦ .handedOver outcome) h
  | records i j => exact tasks_spec rfl (fun d ↦ .recorded) h
  | fails i j => exact tasks_spec rfl (fun d ↦ .failed) h
  | joins i j =>
    obtain ⟨l, l', hi, hl, rfl⟩ := move_spec h
    simp only [Loop.join] at hl
    split at hl
    · rename_i pending deliveries hp
      obtain ⟨⟨hj, hfull⟩, hl⟩ := Option.ite_none_right_eq_some.mp hl
      exact Option.some.inj hl ▸ .joins i j l pending deliveries hi hp hj hfull
    · cases hl
  | drained i =>
    obtain ⟨l, l', hi, hl, rfl⟩ := move_spec h
    obtain ⟨hp, hl⟩ := Option.ite_none_right_eq_some.mp hl
    exact Option.some.inj hl ▸ .drained i l hi hp
  | dies i =>
    obtain ⟨l, hi, h⟩ := Option.bind_eq_some_iff.mp h
    obtain ⟨-, h⟩ := Option.ite_none_left_eq_some.mp h
    exact Option.some.inj h ▸ .dies i l hi
  | subscribes i =>
    exact heeds_spec rfl (fun _ _ he ↦ Option.some.inj he ▸ .subscribe) h
  | disconnects i =>
    exact heeds_spec rfl (fun _ _ he ↦ Option.some.inj he ▸ .disconnect) h
  | receives i => exact heeds_spec rfl (fun _ _ ↦ .receive) h

end Postbud.WorkerLoop
