import Mathlib.Data.List.Chain
import Mathlib.Data.List.Nodup

/-!
# Starting and stopping the engine, and forwarding sealed blocks

`Start` and `Stop` (engine.go, lines 532–570) switch the consensus core on and
off under `coreMu`. `Start` refuses a started engine, clears
`proposedBlockHash`, closes `commitCh` and makes a new one, and only then
starts the core, which may fail. Each `Seal` call that passes its checks
(`Propose`) records the proposed block's hash in `proposedBlockHash` and leaves
a goroutine (lines 481–500) waiting on `sb.commitCh`: a nil result is
forwarded on `sealResultCh` as nil, a block with the proposed hash is
forwarded, any other block is dropped, and the closing of its stop channel
ends the wait.

## The model

`Engine` holds `coreStarted`, `commitCh` as the index of the channel among
those `Start` made, each with whether it is closed, `proposedBlockHash`, the
forwarding goroutines (`Waiter`) and what they sent, with the successful
`core.Start` and `core.Stop` calls. A run is any sequence of `Start` and
`Stop` calls, each with the core's result, `Seal` calls, deliveries of a result
from `sb.commitCh` to one goroutine, and stop channels taken. A delivered
result may be anything: the core's `Commit`, outside the sources, sends there,
and a channel `Start` closes yields nil; a nil `commitCh` delivers nothing.
`close` of a closed channel panics: the step is `none`.

## What is proved

Over every run, from one invariant (`Engine.Inv.run`):

* `start_stop_alternate`: no `close(sb.commitCh)` panics; the successful
  `core.Start` and `core.Stop` calls alternate, a start first, and
  `coreStarted` holds exactly after a start.
* `seal_forwards_once`: every forwarding goroutine sends at most once, and
  only nil or a block with the hash its `Seal` call proposed.

Over the engine, `Miner` adds the worker's `running` flag, which
`worker.start` and `worker.stop` set before calling the engine
(`worker_running_tracks_core`): while the core calls succeed, `isRunning` says
whether the core is started, and one failing `core.Start` leaves the worker
running over a stopped core.
-/

namespace Venachain.Istanbul

/-- What `Start` and `Stop` return besides nil. -/
inductive EngineError where
  /-- `istanbul.ErrStartedEngine`. -/
  | startedEngine
  /-- `istanbul.ErrStoppedEngine`. -/
  | stoppedEngine
  /-- The core's error. -/
  | core (code : ℕ)
  deriving DecidableEq, Repr

/-- A forwarding goroutine of `Seal`: the hash of the block it proposed, and
whether it has returned. -/
structure Waiter where
  /-- `block.Hash()`. -/
  hash : ℕ
  /-- Whether it has returned. -/
  done : Bool
  deriving DecidableEq, Repr

/-- The backend's lifecycle fields, the goroutines `Seal` left, and what they
and the core did. -/
structure Engine where
  /-- `sb.coreStarted`. -/
  coreStarted : Bool
  /-- `sb.commitCh`: the index of its channel in `chans`, or nil. -/
  commitCh : Option ℕ
  /-- The channels `Start` made, in order: whether each is closed. -/
  chans : List Bool
  /-- `sb.proposedBlockHash`. -/
  proposedBlockHash : ℕ
  /-- The forwarding goroutines, in the order of their `Seal` calls. -/
  waiters : List Waiter
  /-- What they sent on `sealResultCh`: the goroutine, and the block's hash or nil. -/
  sent : List (ℕ × Option ℕ)
  /-- The successful `core.Start()` (`true`) and `core.Stop()` (`false`) calls. -/
  coreLog : List Bool

/-- `if sb.commitCh != nil { close(sb.commitCh) }`: closing a closed channel
panics. -/
def closeCommitCh (chans : List Bool) : Option ℕ → Option (List Bool)
  | none => some chans
  | some i => if chans[i]? = some false then some (chans.set i true) else none

/-- An open `commitCh`, or none, can be closed. -/
theorem closeCommitCh_isSome {chans : List Bool} {c : Option ℕ}
    (h : ∀ i, c = some i → chans[i]? = some false) : ∃ chans', closeCommitCh chans c = some chans' := by
  cases c with
  | none => exact ⟨_, rfl⟩
  | some i => exact ⟨_, if_pos (h i rfl)⟩

namespace Engine

/-- A backend before its first `Start`. -/
def init : Engine := ⟨false, none, [], 0, [], [], []⟩

/-- `Start(chain, currentBlock)`, where `core.Start()` returns `core`: the
engine and the error; `none` when closing `commitCh` panics. -/
def start (e : Engine) (core : Except ℕ Unit) : Option (Engine × Option EngineError) :=
  if e.coreStarted then some (e, some .startedEngine) else
  (closeCommitCh e.chans e.commitCh).map fun chans =>
    let e := { e with proposedBlockHash := 0, chans := chans ++ [false], commitCh := some chans.length }
    match core with
    | .error code => (e, some (.core code))
    | .ok () => ({ e with coreStarted := true, coreLog := e.coreLog ++ [true] }, none)

/-- `Stop()`, where `core.Stop()` returns `core`. -/
def stop (e : Engine) (core : Except ℕ Unit) : Engine × Option EngineError :=
  if !e.coreStarted then (e, some .stoppedEngine) else
  match core with
  | .error code => (e, some (.core code))
  | .ok () => ({ e with coreStarted := false, coreLog := e.coreLog ++ [false] }, none)

/-- A `Seal` call past its checks ("post seal"), for a block with hash `hash`:
`sb.proposedBlockHash = block.Hash()`, and its forwarding goroutine. -/
def postSeal (e : Engine) (hash : ℕ) : Engine :=
  { e with proposedBlockHash := hash, waiters := e.waiters ++ [⟨hash, false⟩] }

/-- The goroutine `i` receives `result` from `sb.commitCh`: nil is forwarded,
a block with its hash is forwarded, and either ends it; another block is
dropped. -/
def deliver (e : Engine) (i : ℕ) (result : Option ℕ) : Engine :=
  match e.waiters[i]? with
  | none => e
  | some w =>
    if w.done then e else
    match result with
    | none => { e with waiters := e.waiters.set i { w with done := true }, sent := e.sent ++ [(i, none)] }
    | some h =>
      if w.hash = h then
        { e with waiters := e.waiters.set i { w with done := true }, sent := e.sent ++ [(i, some h)] }
      else e

/-- The goroutine `i` takes `<-stop` and returns. -/
def interrupt (e : Engine) (i : ℕ) : Engine :=
  match e.waiters[i]? with
  | none => e
  | some w => { e with waiters := e.waiters.set i { w with done := true } }

end Engine

/-- One call, or one step of a forwarding goroutine. -/
inductive EngineEvent where
  /-- `Start`, with the result of `core.Start()`. -/
  | start (core : Except ℕ Unit)
  /-- `Stop`, with the result of `core.Stop()`. -/
  | stop (core : Except ℕ Unit)
  /-- A `Seal` call past its checks, for a block with this hash. -/
  | postSeal (hash : ℕ)
  /-- The goroutine `i` receives a block's hash, or nil, from `sb.commitCh`. -/
  | deliver (i : ℕ) (result : Option ℕ)
  /-- The goroutine `i` takes its closed stop channel. -/
  | interrupt (i : ℕ)

namespace Engine

/-- One event; `none` is a panic. -/
def step (e : Engine) : EngineEvent → Option Engine
  | .start core => (e.start core).map (·.1)
  | .stop core => some (e.stop core).1
  | .postSeal hash => some (e.postSeal hash)
  | .deliver i result => some (if e.commitCh = none then e else e.deliver i result)
  | .interrupt i => some (e.interrupt i)

/-- The engine after the events, or `none` if one of them panics. -/
def run (e : Engine) (evs : List EngineEvent) : Option Engine := evs.foldlM step e

theorem run_cons (e : Engine) (ev : EngineEvent) (evs : List EngineEvent) :
    e.run (ev :: evs) = (e.step ev).bind (·.run evs) := rfl

end Engine

/-- The hash a `Seal` call proposes; nothing for the other events. -/
def EngineEvent.sealHash : EngineEvent → Option ℕ
  | .postSeal hash => some hash
  | _ => none

/-! ### The forwarding goroutines -/

/-- The send `x` was made by a goroutine that has returned, and it sent nil or
a block with the goroutine's hash. -/
def SentBy (ws : List Waiter) (x : ℕ × Option ℕ) : Prop :=
  ∃ w, ws[x.1]? = some w ∧ w.done = true ∧ (x.2 = none ∨ x.2 = some w.hash)

section SetDone

variable {ws : List Waiter} {i : ℕ} {w : Waiter}

/-- Marking the goroutine `i` as returned changes it alone. -/
theorem getElem?_set_done (hw : ws[i]? = some w) (j : ℕ) :
    (ws.set i { w with done := true })[j]? = if i = j then some { w with done := true } else ws[j]? := by
  split
  · subst j
    rw [List.getElem?_set_self', hw]
    rfl
  · exact List.getElem?_set_ne ‹_›

/-- Marking the goroutine `i` as returned keeps every send it and the others made. -/
theorem SentBy.set_done (hw : ws[i]? = some w) {x : ℕ × Option ℕ} (hx : SentBy ws x) :
    SentBy (ws.set i { w with done := true }) x := by
  obtain ⟨w', hw', hd, hr⟩ := hx
  rw [SentBy, getElem?_set_done hw]
  split
  · subst i
    obtain rfl := Option.some.inj (hw.symm.trans hw')
    exact ⟨_, rfl, rfl, hr⟩
  · exact ⟨w', hw', hd, hr⟩

/-- Marking a goroutine as returned keeps every goroutine's hash. -/
theorem map_hash_set_done (hw : ws[i]? = some w) :
    (ws.set i { w with done := true }).map (·.hash) = ws.map (·.hash) :=
  List.ext_getElem? fun j => by
    rw [List.getElem?_map, List.getElem?_map, getElem?_set_done hw]
    split
    · subst j
      rw [hw]
      rfl
    · rfl

end SetDone

/-- What a delivery does: nothing, or the goroutine `i`, still waiting, takes
nil or a block with its hash, sends it, and returns. -/
theorem Engine.deliver_cases (e : Engine) (i : ℕ) (r : Option ℕ) :
    e.deliver i r = e ∨ ∃ w, e.waiters[i]? = some w ∧ w.done = false ∧ (r = none ∨ r = some w.hash) ∧
      e.deliver i r = { e with waiters := e.waiters.set i { w with done := true }, sent := e.sent ++ [(i, r)] } := by
  unfold Engine.deliver
  split
  · exact .inl rfl
  · rename_i w hw
    split
    · exact .inl rfl
    · rename_i hd
      cases r with
      | none => exact .inr ⟨w, hw, by simpa using hd, .inl rfl, rfl⟩
      | some h =>
        by_cases hh : w.hash = h
        · exact .inr ⟨w, hw, by simpa using hd, .inr (by rw [hh]), by simp [hh]⟩
        · exact .inl (if_neg hh)

/-! ### The invariant -/

/-- What holds of the engine after any run from `init` whose `Seal` calls
proposed the hashes `hashes`. -/
structure Engine.Inv (hashes : List ℕ) (e : Engine) : Prop where
  /-- `sb.commitCh`, when set, is open. -/
  commitCh_open : ∀ i, e.commitCh = some i → e.chans[i]? = some false
  /-- The core's successful starts and stops alternate, a start first. -/
  log_alternates : e.coreLog = (List.range e.coreLog.length).map (· % 2 == 0)
  /-- `coreStarted` holds exactly after a start. -/
  started_parity : e.coreStarted = (e.coreLog.length % 2 == 1)
  /-- The goroutines are those of the `Seal` calls. -/
  waiter_hashes : e.waiters.map (·.hash) = hashes
  /-- No goroutine sent twice. -/
  sent_nodup : (e.sent.map (·.1)).Nodup
  /-- Each send is nil or a block with the hash of its goroutine, which has returned. -/
  sent_by : ∀ x ∈ e.sent, SentBy e.waiters x

theorem Engine.init_inv : Engine.init.Inv [] :=
  ⟨by simp [init], rfl, rfl, rfl, List.nodup_nil, by simp [init]⟩

namespace Engine.Inv

variable {hashes : List ℕ} {e : Engine}

/-- A successful `core.Start` or `core.Stop` extends the log with the next
parity, and `coreStarted` follows. -/
theorem log_snoc {log : List Bool} (h : log = (List.range log.length).map (· % 2 == 0)) :
    log ++ [log.length % 2 == 0] = (List.range (log ++ [log.length % 2 == 0]).length).map (· % 2 == 0) := by
  rw [List.length_append, List.length_singleton, List.range_succ, List.map_append, ← h]
  rfl

/-- `Start` never panics, and keeps the invariant. -/
theorem start (hi : e.Inv hashes) (core : Except ℕ Unit) :
    ∃ r, e.start core = some r ∧ r.1.Inv hashes := by
  by_cases hs : e.coreStarted = true
  · exact ⟨_, if_pos hs, hi⟩
  obtain ⟨chans, hc⟩ := closeCommitCh_isSome hi.commitCh_open
  have hopen : ∀ i, some chans.length = some i → (chans ++ [false])[i]? = some false := by
    rintro i ⟨⟩
    simp
  refine ⟨_, by rw [Engine.start, if_neg hs, hc]; rfl, ?_⟩
  cases core with
  | error code => exact { hi with commitCh_open := hopen }
  | ok u =>
    have heven : e.coreLog.length % 2 = 0 := by
      have := hi.started_parity
      simp [hs] at this
      omega
    have hlog := log_snoc hi.log_alternates
    rw [heven] at hlog
    exact { hi with
      commitCh_open := hopen, log_alternates := hlog
      started_parity := by simp; omega }

/-- `Stop` keeps the invariant. -/
theorem stop (hi : e.Inv hashes) (core : Except ℕ Unit) : (e.stop core).1.Inv hashes := by
  unfold Engine.stop
  by_cases hs : e.coreStarted = true
  · cases core with
    | error code => simpa [hs] using hi
    | ok u =>
      have hodd : e.coreLog.length % 2 = 1 := by
        have := hi.started_parity
        simp [hs] at this
        omega
      have hlog := log_snoc hi.log_alternates
      rw [hodd] at hlog
      simp only [hs, Bool.not_true]
      exact { hi with log_alternates := hlog, started_parity := by simp; omega }
  · simpa [hs] using hi

/-- A `Seal` call adds a waiting goroutine and keeps the invariant. -/
theorem postSeal (hi : e.Inv hashes) (hash : ℕ) : (e.postSeal hash).Inv (hashes ++ [hash]) := by
  refine { hi with waiter_hashes := by simp [Engine.postSeal, hi.waiter_hashes], sent_by := ?_ }
  rintro x hx
  obtain ⟨w, hw, hd, hr⟩ := hi.sent_by x hx
  refine ⟨w, ?_, hd, hr⟩
  rw [Engine.postSeal, List.getElem?_append_left (List.getElem?_eq_some_iff.mp hw).1, hw]

/-- A waiting goroutine has not sent. -/
theorem not_sent (hi : e.Inv hashes) {i : ℕ} {w : Waiter} (hw : e.waiters[i]? = some w)
    (hd : w.done = false) : i ∉ e.sent.map (·.1) := by
  simp only [List.mem_map]
  rintro ⟨x, hx, rfl⟩
  obtain ⟨w', hw', hd', -⟩ := hi.sent_by x hx
  rw [hw] at hw'
  cases hw'
  simp_all

/-- A delivery keeps the invariant. -/
theorem deliver (hi : e.Inv hashes) (i : ℕ) (r : Option ℕ) : (e.deliver i r).Inv hashes := by
  rcases e.deliver_cases i r with h | ⟨w, hw, hd, hr, h⟩
  · rwa [h]
  rw [h]
  refine { hi with
    waiter_hashes := (map_hash_set_done hw).trans hi.waiter_hashes
    sent_nodup := ?_
    sent_by := ?_ }
  · rw [List.map_append, List.map_singleton]
    exact hi.sent_nodup.append (List.nodup_singleton _) (List.disjoint_singleton.mpr (hi.not_sent hw hd))
  · simp only [List.mem_append, List.mem_singleton]
    rintro x (hx | rfl)
    · exact (hi.sent_by x hx).set_done hw
    · exact ⟨{ w with done := true }, by rw [getElem?_set_done hw, if_pos rfl], rfl, hr⟩

/-- A goroutine taking its stop channel keeps the invariant. -/
theorem interrupt (hi : e.Inv hashes) (i : ℕ) : (e.interrupt i).Inv hashes := by
  unfold Engine.interrupt
  split
  · exact hi
  · rename_i w hw
    exact { hi with
      waiter_hashes := (map_hash_set_done hw).trans hi.waiter_hashes
      sent_by := fun x hx => (hi.sent_by x hx).set_done hw }

/-- No event panics, and each keeps the invariant. -/
theorem step (hi : e.Inv hashes) (ev : EngineEvent) :
    ∃ e', e.step ev = some e' ∧ e'.Inv (hashes ++ ev.sealHash.toList) := by
  cases ev with
  | start core =>
    obtain ⟨r, hr, hr'⟩ := hi.start core
    exact ⟨r.1, by simp [Engine.step, hr], by simpa [EngineEvent.sealHash] using hr'⟩
  | stop core => exact ⟨_, rfl, by simpa [EngineEvent.sealHash] using hi.stop core⟩
  | postSeal hash => exact ⟨_, rfl, hi.postSeal hash⟩
  | deliver i r =>
    refine ⟨_, rfl, ?_⟩
    simp only [EngineEvent.sealHash, Option.toList_none, List.append_nil]
    split
    · exact hi
    · exact hi.deliver i r
  | interrupt i => exact ⟨_, rfl, by simpa [EngineEvent.sealHash] using hi.interrupt i⟩

/-- No run panics, and every run keeps the invariant. -/
theorem run (hi : e.Inv hashes) (evs : List EngineEvent) :
    ∃ e', e.run evs = some e' ∧ e'.Inv (hashes ++ evs.filterMap EngineEvent.sealHash) := by
  induction evs generalizing e hashes with
  | nil => exact ⟨e, rfl, by simpa using hi⟩
  | cons ev evs ih =>
    obtain ⟨e₁, h₁, hi₁⟩ := hi.step ev
    obtain ⟨e', h', hi'⟩ := ih hi₁
    refine ⟨e', by rw [Engine.run_cons, h₁]; exact h', ?_⟩
    cases ev <;> simpa [EngineEvent.sealHash] using hi'

end Engine.Inv

/-! ### Whole runs -/

/-- Over any run of `Start`, `Stop`, `Seal` calls and goroutine steps, no
`close(sb.commitCh)` panics; the core's successful starts and stops alternate,
a start first; and `coreStarted` holds exactly after an odd number of them, so
after a start. -/
theorem start_stop_alternate (evs : List EngineEvent) :
    ∃ e, Engine.init.run evs = some e ∧
      e.coreLog = (List.range e.coreLog.length).map (· % 2 == 0) ∧
      (e.coreStarted = true ↔ e.coreLog.length % 2 = 1) := by
  obtain ⟨e, he, hi⟩ := Engine.init_inv.run evs
  exact ⟨e, he, hi.log_alternates, by rw [hi.started_parity]; simp⟩

/-- Over any run, every goroutine `Seal` leaves sends on `sealResultCh` at
most once, and only nil or a block with the hash its `Seal` call proposed. -/
theorem seal_forwards_once (evs : List EngineEvent) :
    ∃ e, Engine.init.run evs = some e ∧ (e.sent.map (·.1)).Nodup ∧
      ∀ x ∈ e.sent, ∃ h, (evs.filterMap EngineEvent.sealHash)[x.1]? = some h ∧
        (x.2 = none ∨ x.2 = some h) := by
  obtain ⟨e, he, hi⟩ := Engine.init_inv.run evs
  refine ⟨e, he, hi.sent_nodup, fun x hx => ?_⟩
  obtain ⟨w, hw, -, hr⟩ := hi.sent_by x hx
  refine ⟨w.hash, ?_, hr⟩
  rw [← List.nil_append (List.filterMap _ _), ← hi.waiter_hashes, List.getElem?_map, hw]
  rfl

/-! ### The worker drives the engine

`worker.start` (worker.go, lines 289–296) sets `running` and calls the engine's
`Start`; `worker.stop` (lines 299–306) clears it and calls `Stop`. Both drop the
engine's error. The worker is the only caller of `Start` and `Stop`, and each
of its calls is taken to finish before the next begins. -/

/-- The worker's `running` flag and the engine it drives. -/
structure Miner where
  /-- `w.running`, as `isRunning` reads it. -/
  running : Bool
  /-- The Istanbul backend. -/
  engine : Engine

/-- A call of `worker.start` or `worker.stop`, with what `core.Start` or
`core.Stop` returns, or an event of the engine's `Seal` calls and goroutines. -/
inductive MinerEvent where
  /-- `worker.start`. -/
  | start (core : Except ℕ Unit)
  /-- `worker.stop`. -/
  | stop (core : Except ℕ Unit)
  /-- A `Seal` call past its checks. -/
  | postSeal (hash : ℕ)
  /-- A forwarding goroutine receives from `sb.commitCh`. -/
  | deliver (i : ℕ) (result : Option ℕ)
  /-- A forwarding goroutine takes its stop channel. -/
  | interrupt (i : ℕ)

namespace MinerEvent

/-- What the event does to the engine. -/
def toEngine : MinerEvent → EngineEvent
  | .start core => .start core
  | .stop core => .stop core
  | .postSeal hash => .postSeal hash
  | .deliver i result => .deliver i result
  | .interrupt i => .interrupt i

/-- The `running` flag after the event: `start` stores 1, `stop` stores 0. -/
def running (running : Bool) : MinerEvent → Bool
  | .start _ => true
  | .stop _ => false
  | _ => running

/-- The core call of the event, if any, succeeds. -/
def coreOk : MinerEvent → Bool
  | .start core => core.isOk
  | .stop core => core.isOk
  | _ => true

end MinerEvent

namespace Miner

/-- A worker before its first `start`. -/
def init : Miner := ⟨false, Engine.init⟩

/-- One event; `none` is a panic of the engine. -/
def step (m : Miner) (ev : MinerEvent) : Option Miner :=
  (m.engine.step ev.toEngine).map (Miner.mk (ev.running m.running))

/-- The worker after the events, or `none` if one of them panics. -/
def run (m : Miner) (evs : List MinerEvent) : Option Miner := evs.foldlM step m

end Miner

/-- `Start` leaves the core started if it was, or if `core.Start` succeeds. -/
theorem Engine.start_coreStarted {e : Engine} {core : Except ℕ Unit} {r : Engine × Option EngineError}
    (h : e.start core = some r) : r.1.coreStarted = (e.coreStarted || core.isOk) := by
  unfold Engine.start at h
  split at h
  · cases h
    simp_all
  · obtain ⟨chans, -, rfl⟩ := Option.map_eq_some'.mp h
    cases core <;> simp_all [Except.isOk, Except.toBool]

/-- `Stop` leaves the core started only if it was and `core.Stop` fails. -/
theorem Engine.stop_coreStarted (e : Engine) (core : Except ℕ Unit) :
    (e.stop core).1.coreStarted = (e.coreStarted && !core.isOk) := by
  unfold Engine.stop
  by_cases hs : e.coreStarted = true <;> cases core <;> simp [hs, Except.isOk, Except.toBool]

/-- The engine's `coreStarted` moves with the worker's flag on every event
whose core call succeeds. -/
theorem Engine.coreStarted_step {e e' : Engine} {ev : MinerEvent} (hok : ev.coreOk = true)
    (he : e.step ev.toEngine = some e') {running : Bool} (hr : running = e.coreStarted) :
    ev.running running = e'.coreStarted := by
  cases ev with
  | start core =>
    obtain ⟨r, hs, rfl⟩ := Option.map_eq_some'.mp he
    simp [MinerEvent.running, Engine.start_coreStarted hs, show core.isOk = true from hok]
  | stop core =>
    cases he
    simp [MinerEvent.running, Engine.stop_coreStarted, show core.isOk = true from hok]
  | postSeal hash =>
    cases he
    exact hr
  | deliver i result =>
    cases he
    split
    · exact hr
    · rcases e.deliver_cases i result with h | ⟨w, -, -, -, h⟩ <;> rw [h] <;> exact hr
  | interrupt i =>
    cases he
    unfold Engine.interrupt
    split <;> exact hr

/-- No run of the worker panics, and while every core call succeeds the flag
keeps following `coreStarted`. -/
theorem Miner.run_tracks {m : Miner} {hashes : List ℕ} (hi : m.engine.Inv hashes) (evs : List MinerEvent) :
    ∃ m', m.run evs = some m' ∧ (∃ hashes', m'.engine.Inv hashes') ∧
      ((∀ ev ∈ evs, ev.coreOk = true) → m.running = m.engine.coreStarted →
        m'.running = m'.engine.coreStarted) := by
  induction evs generalizing m hashes with
  | nil => exact ⟨m, rfl, ⟨hashes, hi⟩, fun _ h => h⟩
  | cons ev evs ih =>
    obtain ⟨e₁, he₁, hi₁⟩ := hi.step ev.toEngine
    obtain ⟨m', hm', hinv', hr'⟩ := @ih ⟨ev.running m.running, e₁⟩ _ hi₁
    refine ⟨m', by simp only [Miner.run, List.foldlM_cons, Miner.step, he₁]; exact hm', hinv',
      fun hok hr => hr' (fun ev' h => hok ev' (List.mem_cons_of_mem _ h)) ?_⟩
    exact Engine.coreStarted_step (hok ev (List.mem_cons_self _ _)) he₁ hr

/-- Over every run of `worker.start`, `worker.stop`, `Seal` calls and goroutine
steps, nothing panics. While every `core.Start` and `core.Stop` succeeds,
`isRunning` says whether the core is started. A `core.Start` that fails breaks
this: from every reachable state with the core stopped, `worker.start` leaves
`isRunning` true with the core still stopped. -/
theorem worker_running_tracks_core (evs : List MinerEvent) :
    ∃ m, Miner.init.run evs = some m ∧
      ((∀ ev ∈ evs, ev.coreOk = true) → (m.running = true ↔ m.engine.coreStarted = true)) ∧
      (m.engine.coreStarted = false → ∀ code, ∃ m', m.step (.start (.error code)) = some m' ∧
        m'.running = true ∧ m'.engine.coreStarted = false) := by
  obtain ⟨m, hm, ⟨hashes, hi⟩, hr⟩ := @Miner.run_tracks Miner.init [] Engine.init_inv evs
  refine ⟨m, hm, fun hok => by rw [hr hok rfl], fun hs code => ?_⟩
  obtain ⟨r, hstart, -⟩ := hi.start (.error code)
  refine ⟨_, by simp only [Miner.step, MinerEvent.toEngine, Engine.step, hstart]; rfl, rfl, ?_⟩
  simpa [hs, Except.isOk, Except.toBool] using Engine.start_coreStarted hstart

end Venachain.Istanbul
