import Venachain.Miner.Worker
import Mathlib.Data.List.Chain
import Mathlib.Data.List.Nodup

/-!
# The sealing pipeline

`commit` hands each sealing task to `taskLoop` (miner/worker.go, lines
481–541) over `taskCh`. `taskLoop` drops a task whose seal hash is the one it
took last, interrupts the running `Seal` by closing its stop channel, records
the task in `pendingTasks` unless its block is empty and empty blocks are not
produced, and calls `engine.Seal` with a fresh stop channel. The engine sends
sealed blocks back on `resultCh`, and `resultLoop` (lines 543–615) writes each
one into the chain with the receipts and state of the pending task filed
under its seal hash, unless the chain has the block already. `newWorkLoop`'s
`clearPending` (lines 360–369), called on `startCh` and on every new chain
head, drops the tasks `staleThreshold` blocks behind.

## The model

The three goroutines share `pendingTasks`, each access under `pendingMu`, and
the chain. A run is any interleaving of their `select` cases, one `Event`
each, with blocks the chain gets from other components in between. What a case
does not decide — the block received on `resultCh`, whether
`WriteBlockWithState` succeeds, what `common.SysCfg.IsProduceEmptyBlock()`
returns — is a parameter of its event, so every run of the code is a run of
the model. `close` of a closed channel panics: the step is `none`.

`taskLoop`'s locals `stopCh` and `prev` are a `TaskLoop`, with the stop
channels it made and the `Seal` calls it made; the chain's successful writes
are recorded as they are made (`written`). The test hooks `newTaskHook` and
`skipSealHook`, nil outside tests, the update of the logs' block hashes and the
events posted after a write are left out. `resultLoop` and `newWorkLoop` do
nothing on `exitCh` but return; `mainLoop`'s `prepareResultCh` case only reads
`pendingTasks`.

## What is proved

For every run from the start, whatever the interleaving, no step panics, and:

* every block `resultLoop` wrote was written with the receipts and state of a
  task `commit` sent, with the block's seal hash, and with transactions unless
  empty blocks were produced then (`written_blocks_admitted`);
* no block is written twice, nor one the chain had at the start
  (`blocks_written_once`);
* at most one `Seal` call is running, that is, has an open stop channel, and
  none after `taskLoop` returns (`one_seal_in_flight`);
* two `Seal` calls in a row are for different seal hashes
  (`consecutive_seals_differ`);
* after `clearPending(number)`, no task `staleThreshold` blocks behind `number`
  is pending until `taskLoop` receives a new task (`clearPending_durable`).
-/

namespace Venachain.Miner

/-- `staleThreshold`: how many blocks behind the head a pending task is dropped. -/
def staleThreshold : ℕ := 7

/-- What the sealing loops read of a `*types.Block`. -/
structure BlockView where
  /-- `block.Hash()`. -/
  hash : ℕ
  /-- `w.engine.SealHash(block.Header())`. -/
  sealHash : ℕ
  /-- `block.NumberU64()`. -/
  number : ℕ
  /-- `block.Transactions().Len()`. -/
  txCount : ℕ
  deriving DecidableEq, Repr

/-- What `w.chain.HasBlock(block.Hash(), block.NumberU64())` looks a block up by. -/
def BlockView.key (b : BlockView) : ℕ × ℕ := (b.hash, b.number)

/-- `task`: a block to seal, with the receipts and state `commit` made for it.
`createdAt` is only logged. -/
structure Task where
  /-- `receipts`. -/
  receipts : List Receipt
  /-- `state`. -/
  state : StateDB
  /-- `block`. -/
  block : BlockView
  deriving DecidableEq, Repr

/-- `!isEmpty || isProduceEmptyBlock`: whether `taskLoop` records the task as
pending, when `IsProduceEmptyBlock()` returns `produceEmpty`. -/
def Task.recorded (task : Task) (produceEmpty : Bool) : Bool :=
  !(task.block.txCount == 0) || produceEmpty

/-- `clearPending(number)`: delete every task whose block number plus
`staleThreshold`, in `uint64` arithmetic, is at most `number`. -/
def clearPending (pendingTasks : ℕ → Option Task) (number : ℕ) : ℕ → Option Task :=
  fun h => (pendingTasks h).filter fun t => !decide ((t.block.number + staleThreshold) % 2 ^ 64 ≤ number)

theorem clearPending_eq_some {p : ℕ → Option Task} {number h : ℕ} {t : Task} :
    clearPending p number h = some t ↔ p h = some t ∧ number < (t.block.number + staleThreshold) % 2 ^ 64 := by
  simp [clearPending, Option.filter_eq_some]

/-- `close(ch)` on the `i`th stop channel: closing a closed channel panics. -/
def closeStop (stops : List Bool) (i : ℕ) : Option (List Bool) :=
  if stops[i]? = some false then some (stops.set i true) else none

/-! ### `taskLoop` -/

/-- `taskLoop`'s locals, with the stop channels and the `Seal` calls it made. -/
structure TaskLoop where
  /-- `stopCh`: the index of its channel in `stops`, or nil. -/
  stopCh : Option ℕ
  /-- `prev`: the seal hash of the last task taken. -/
  prev : ℕ
  /-- The stop channels made, in order: whether each is closed. -/
  stops : List Bool
  /-- The `engine.Seal` calls made: the block, and its stop channel. -/
  sealed : List (BlockView × ℕ)
  /-- Whether `taskLoop` has returned. -/
  done : Bool

namespace TaskLoop

/-- `taskLoop` before its first task: `stopCh` nil, `prev` the zero hash. -/
def init : TaskLoop := ⟨none, 0, [], [], false⟩

/-- `interrupt`: close the stop channel of the running `Seal`, if any. -/
def interrupt (l : TaskLoop) : Option TaskLoop :=
  match l.stopCh with
  | none => some l
  | some i => (closeStop l.stops i).map fun stops => { l with stops := stops, stopCh := none }

/-- `stopCh, prev = make(chan struct{}), sealHash`, then
`w.engine.Seal(w.chain, task.block, w.resultCh, stopCh)`. -/
def startSeal (l : TaskLoop) (block : BlockView) : TaskLoop :=
  { l with stopCh := some l.stops.length, prev := block.sealHash, stops := l.stops ++ [false],
           sealed := l.sealed ++ [(block, l.stops.length)] }

/-- What `taskLoop` keeps true: only the current stop channel is open, each
`Seal` call has a channel of its own, and `prev` is the last call's seal hash. -/
structure Inv (l : TaskLoop) : Prop where
  open_current : ∀ i, l.stops[i]? = some false → l.stopCh = some i
  current_open : ∀ i, l.stopCh = some i → l.stops[i]? = some false
  sealed_lt : ∀ x ∈ l.sealed, x.2 < l.stops.length
  sealed_nodup : (l.sealed.map (·.2)).Nodup
  prev_last : l.prev = (l.sealed.getLast?.map (·.1.sealHash)).getD 0
  seals_differ : (l.sealed.map (·.1.sealHash)).Chain' (· ≠ ·)
  done_closed : l.done = true → l.stopCh = none

theorem init_inv : init.Inv :=
  ⟨by simp [init], by simp [init], by simp [init], by simp [init], rfl, List.chain'_nil, fun h => by simp [init] at h⟩

variable {l : TaskLoop}

/-- `interrupt` never panics, and leaves no channel open. -/
theorem Inv.interrupt (hl : l.Inv) :
    ∃ l', l.interrupt = some l' ∧ l'.Inv ∧ l'.stopCh = none ∧ l'.prev = l.prev ∧ l'.done = l.done := by
  cases hc : l.stopCh with
  | none => exact ⟨l, by simp [TaskLoop.interrupt, hc], hl, hc, rfl, rfl⟩
  | some i =>
    have ho := hl.current_open i hc
    refine ⟨{ l with stops := l.stops.set i true, stopCh := none },
      by simp [TaskLoop.interrupt, hc, closeStop, ho], ⟨fun j hj => ?_, by simp, ?_, hl.sealed_nodup,
        hl.prev_last, hl.seals_differ, fun _ => rfl⟩, rfl, rfl, rfl⟩
    · rw [List.getElem?_set] at hj
      split_ifs at hj with hij
      · simp at hj
      · exact absurd (Option.some.inj ((hl.open_current j hj).symm.trans hc)) (Ne.symm hij)
    · simpa using hl.sealed_lt

/-- A `Seal` call after `interrupt`, for a task whose seal hash is not `prev`. -/
theorem Inv.startSeal (hl : l.Inv) (hc : l.stopCh = none) (hd : l.done = false) {block : BlockView}
    (hb : block.sealHash ≠ l.prev) : (l.startSeal block).Inv where
  open_current i hi := by
    simp only [TaskLoop.startSeal] at hi ⊢
    rcases lt_trichotomy i l.stops.length with h | rfl | h
    · rw [List.getElem?_append_left h] at hi
      simp [hl.open_current i hi] at hc
    · rfl
    · rw [List.getElem?_eq_none (by simp; omega)] at hi
      cases hi
  current_open i hi := by
    simp only [TaskLoop.startSeal, Option.some.injEq] at hi ⊢
    simp [← hi]
  sealed_lt x hx := by
    simp only [TaskLoop.startSeal, List.mem_append, List.mem_singleton, List.length_append, List.length_singleton] at hx ⊢
    rcases hx with hx | rfl
    · exact Nat.lt_succ_of_lt (hl.sealed_lt x hx)
    · exact Nat.lt_succ_self _
  sealed_nodup := by
    simp only [TaskLoop.startSeal, List.map_append, List.map_singleton]
    refine hl.sealed_nodup.append (List.nodup_singleton _) (List.disjoint_singleton.mpr fun hm => ?_)
    obtain ⟨x, hx, he⟩ := List.mem_map.mp hm
    exact absurd (he ▸ hl.sealed_lt x hx) (lt_irrefl _)
  prev_last := by simp [TaskLoop.startSeal]
  seals_differ := by
    simp only [TaskLoop.startSeal, List.map_append, List.map_singleton]
    refine List.chain'_append.mpr ⟨hl.seals_differ, List.chain'_singleton _, fun x hx y hy => ?_⟩
    rw [List.getLast?_map] at hx
    obtain rfl : block.sealHash = y := by simpa using hy
    have : l.prev = x := by rw [hl.prev_last, Option.mem_def.mp hx, Option.getD_some]
    exact this ▸ hb.symm
  done_closed h := absurd h (by simp [TaskLoop.startSeal, hd])

/-- `taskLoop` returning, after `interrupt`. -/
theorem Inv.exit (hl : l.Inv) (hc : l.stopCh = none) : { l with done := true }.Inv :=
  { hl with done_closed := fun _ => hc }

/-- At most one `Seal` call has an open stop channel. -/
theorem Inv.running_le_one (hl : l.Inv) :
    (l.sealed.filter fun x => l.stops[x.2]? = some false).length ≤ 1 := by
  set F := l.sealed.filter fun x => l.stops[x.2]? = some false
  have hF : ∀ x ∈ F, l.stopCh = some x.2 := fun x hx =>
    hl.open_current _ (by simpa using (List.mem_filter.mp hx).2)
  cases hc : l.stopCh with
  | none =>
    have : F = [] := List.eq_nil_iff_forall_not_mem.mpr fun x hx => by simpa [hc] using hF x hx
    simp [this]
  | some i =>
    have hnd : (F.map (·.2)).Nodup := hl.sealed_nodup.sublist ((List.filter_sublist _).map _)
    have hrep : F.map (·.2) = List.replicate F.length i :=
      List.eq_replicate_iff.mpr ⟨List.length_map _ _, fun j hj => by
        obtain ⟨x, hx, rfl⟩ := List.mem_map.mp hj
        exact Option.some.inj ((hF x hx).symm.trans hc)⟩
    rwa [hrep, List.nodup_replicate] at hnd

/-- Once `taskLoop` has returned, every `Seal` call's stop channel is closed. -/
theorem Inv.closed_of_done (hl : l.Inv) (hd : l.done = true) :
    ∀ x ∈ l.sealed, l.stops[x.2]? = some true := by
  intro x hx
  rcases hb : l.stops[x.2]? with _ | _ | _
  · exact absurd (List.getElem?_eq_none_iff.mp hb) (not_le.mpr (hl.sealed_lt x hx))
  · simpa [hl.done_closed hd] using hl.open_current _ hb
  · rfl

end TaskLoop

/-! ### The loops together -/

/-- The worker's sealing state: `taskLoop`'s, the pending tasks, and the chain. -/
structure Pipeline where
  /-- `taskLoop`'s locals. -/
  loop : TaskLoop
  /-- `w.pendingTasks`, keyed by seal hash. -/
  pendingTasks : ℕ → Option Task
  /-- The blocks the chain has, by hash and number. -/
  chain : List (ℕ × ℕ)
  /-- The successful `WriteBlockWithState(block, task.receipts, task.state, false)`
  calls: the block and the task. -/
  written : List (BlockView × Task)

/-- One `select` case of one of the loops, or a block the chain gets elsewhere. -/
inductive Event where
  /-- `taskLoop` receives `task` on `taskCh`; `IsProduceEmptyBlock()` returns
  `produceEmpty`. -/
  | task (task : Task) (produceEmpty : Bool)
  /-- `taskLoop` receives on `exitCh`. -/
  | exit
  /-- `resultLoop` receives `block` on `resultCh` (`none`: nil);
  `WriteBlockWithState` succeeds when `writeOk`. -/
  | result (block : Option BlockView) (writeOk : Bool)
  /-- `newWorkLoop` receives on `startCh` or `chainHeadCh` and calls
  `clearPending(number)`. -/
  | newHead (number : ℕ)
  /-- Another component writes the block with this hash and number into the chain. -/
  | imported (key : ℕ × ℕ)
  deriving DecidableEq, Repr

namespace Pipeline

/-- The loops when they start, on a chain with the blocks `chain`. -/
def init (chain : List (ℕ × ℕ)) : Pipeline := ⟨TaskLoop.init, fun _ => none, chain, []⟩

/-- `taskLoop` on `task := <-w.taskCh`. -/
def onTask (s : Pipeline) (task : Task) (produceEmpty : Bool) : Option Pipeline :=
  if task.block.sealHash = s.loop.prev then some s else
  s.loop.interrupt.map fun l => { s with
    loop := l.startSeal task.block,
    pendingTasks := if task.recorded produceEmpty then
      Function.update s.pendingTasks task.block.sealHash (some task) else s.pendingTasks }

/-- `resultLoop` on `block := <-w.resultCh`. -/
def onResult (s : Pipeline) : Option BlockView → Bool → Pipeline
  | none, _ => s
  | some block, writeOk =>
    if block.key ∈ s.chain then s else
    match s.pendingTasks block.sealHash with
    | none => s
    | some task =>
      if writeOk then { s with chain := s.chain ++ [block.key], written := s.written ++ [(block, task)] }
      else s

/-- One event; `none` when it panics. A `taskLoop` case after `taskLoop` has
returned is not received. -/
def step (s : Pipeline) : Event → Option Pipeline
  | .task task produceEmpty => if s.loop.done then some s else s.onTask task produceEmpty
  | .exit => if s.loop.done then some s else
      s.loop.interrupt.map fun l => { s with loop := { l with done := true } }
  | .result block writeOk => some (s.onResult block writeOk)
  | .newHead number => some { s with pendingTasks := clearPending s.pendingTasks number }
  | .imported key => some (if key ∈ s.chain then s else { s with chain := s.chain ++ [key] })

/-- The state after the events, or `none` if one of them panics. -/
def run (s : Pipeline) (evs : List Event) : Option Pipeline := evs.foldlM step s

theorem run_append (s : Pipeline) (evs evs' : List Event) :
    s.run (evs ++ evs') = (s.run evs).bind (·.run evs') := List.foldlM_append _ _ _ _

theorem run_cons (s : Pipeline) (e : Event) (evs : List Event) :
    s.run (e :: evs) = (s.step e).bind (·.run evs) := rfl

/-- `resultLoop` either changes nothing or writes a block the chain lacks, with
the pending task filed under its seal hash. -/
theorem onResult_cases (s : Pipeline) (b : Option BlockView) (ok : Bool) :
    s.onResult b ok = s ∨ ∃ block task, block.key ∉ s.chain ∧ s.pendingTasks block.sealHash = some task ∧
      s.onResult b ok = { s with chain := s.chain ++ [block.key], written := s.written ++ [(block, task)] } := by
  rcases b with _ | block
  · exact .inl rfl
  simp only [onResult]
  by_cases hc : block.key ∈ s.chain
  · exact .inl (if_pos hc)
  rw [if_neg hc]
  cases hp : s.pendingTasks block.sealHash with
  | none => exact .inl rfl
  | some task =>
    cases ok
    · exact .inl rfl
    · exact .inr ⟨block, task, hc, hp, rfl⟩

theorem onResult_pendingTasks (s : Pipeline) (b : Option BlockView) (ok : Bool) :
    (s.onResult b ok).pendingTasks = s.pendingTasks := by
  rcases onResult_cases s b ok with h | ⟨_, _, _, _, h⟩ <;> rw [h]

end Pipeline

/-! ### What every run keeps -/

/-- `commit` sent `task` when `taskLoop` would record it. -/
def Admitted (evs : List Event) (task : Task) : Prop :=
  ∃ produceEmpty, Event.task task produceEmpty ∈ evs ∧ task.recorded produceEmpty = true

theorem Admitted.snoc {evs : List Event} {task : Task} (h : Admitted evs task) (e : Event) :
    Admitted (evs ++ [e]) task :=
  let ⟨pe, hm, hr⟩ := h
  ⟨pe, List.mem_append_left _ hm, hr⟩

namespace Pipeline

/-- What a run from a chain with the blocks `chain₀` through the events `evs`
keeps: `taskLoop`'s invariant; each pending task filed under its seal hash and
sent by `commit`; each written block written with such a task, into the chain,
once, and not one the chain had. -/
structure Inv (chain₀ : List (ℕ × ℕ)) (evs : List Event) (s : Pipeline) : Prop where
  loop : s.loop.Inv
  key : ∀ h t, s.pendingTasks h = some t → t.block.sealHash = h
  admitted : ∀ h t, s.pendingTasks h = some t → Admitted evs t
  written_task : ∀ x ∈ s.written, x.2.block.sealHash = x.1.sealHash ∧ Admitted evs x.2
  chain_mono : ∀ k ∈ chain₀, k ∈ s.chain
  written_chain : ∀ x ∈ s.written, x.1.key ∈ s.chain ∧ x.1.key ∉ chain₀
  written_nodup : (s.written.map (·.1.key)).Nodup

variable {chain₀ : List (ℕ × ℕ)} {evs : List Event} {s : Pipeline}

theorem init_inv (chain₀ : List (ℕ × ℕ)) : (init chain₀).Inv chain₀ [] :=
  ⟨TaskLoop.init_inv, by simp [init], by simp [init], by simp [init], fun _ => id, by simp [init],
    List.nodup_nil⟩

/-- The invariant still holds once more events have happened. -/
theorem Inv.snoc (hs : s.Inv chain₀ evs) (e : Event) : s.Inv chain₀ (evs ++ [e]) :=
  { hs with
    admitted := fun h t ht => (hs.admitted h t ht).snoc e
    written_task := fun x hx => ⟨(hs.written_task x hx).1, (hs.written_task x hx).2.snoc e⟩ }

/-- What `taskLoop` leaves in the table after it records `task`, or does not. -/
theorem recordTask_eq_some {p : ℕ → Option Task} {task : Task} {r : Bool} {h : ℕ} {t : Task}
    (ht : (if r then Function.update p task.block.sealHash (some task) else p) h = some t) :
    p h = some t ∨ (r = true ∧ h = task.block.sealHash ∧ t = task) := by
  split_ifs at ht with hr
  · rw [Function.update_apply] at ht
    split_ifs at ht with hh
    · exact .inr ⟨hr, hh, (Option.some.inj ht).symm⟩
    · exact .inl ht
  · exact .inl ht

/-- `taskLoop` takes a task: it never panics. -/
theorem Inv.onTask (hs : s.Inv chain₀ evs) (hd : s.loop.done = false) (task : Task) (pe : Bool) :
    ∃ s', s.onTask task pe = some s' ∧ s'.Inv chain₀ (evs ++ [.task task pe]) := by
  by_cases hp : task.block.sealHash = s.loop.prev
  · exact ⟨s, if_pos hp, hs.snoc _⟩
  obtain ⟨l, hi, hl, hc, hprev, hdone⟩ := hs.loop.interrupt
  refine ⟨_, by rw [Pipeline.onTask, if_neg hp, hi]; rfl, ?_⟩
  refine { hs.snoc (.task task pe) with
    loop := hl.startSeal hc (hdone ▸ hd) (hprev ▸ hp), key := ?_, admitted := ?_ }
  · intro h t ht
    rcases recordTask_eq_some ht with ht | ⟨-, rfl, rfl⟩
    · exact hs.key h t ht
    · rfl
  · intro h t ht
    rcases recordTask_eq_some ht with ht | ⟨hr, -, rfl⟩
    · exact (hs.admitted h t ht).snoc _
    · exact ⟨pe, List.mem_append_right _ (List.mem_singleton_self _), hr⟩

/-- `taskLoop` returns: it never panics. -/
theorem Inv.exit (hs : s.Inv chain₀ evs) :
    ∃ s', (s.loop.interrupt.map fun l => { s with loop := { l with done := true } }) = some s' ∧
      s'.Inv chain₀ (evs ++ [.exit]) := by
  obtain ⟨l, hi, hl, hc, -, -⟩ := hs.loop.interrupt
  refine ⟨_, by rw [hi]; rfl, ?_⟩
  exact { hs.snoc .exit with loop := hl.exit hc }

/-- `resultLoop` takes a block. -/
theorem Inv.onResult (hs : s.Inv chain₀ evs) (b : Option BlockView) (ok : Bool) :
    (s.onResult b ok).Inv chain₀ (evs ++ [.result b ok]) := by
  have hs' := hs.snoc (.result b ok)
  rcases onResult_cases s b ok with h | ⟨block, task, hc, hp, h⟩
  · rwa [h]
  rw [h]
  refine { hs' with written_task := ?_, chain_mono := ?_, written_chain := ?_, written_nodup := ?_ }
  · intro x hx
    rcases List.mem_append.mp hx with hx | hx
    · exact hs'.written_task x hx
    · obtain rfl := List.mem_singleton.mp hx
      exact ⟨hs.key _ _ hp, hs'.admitted _ _ hp⟩
  · exact fun k hk => List.mem_append_left _ (hs.chain_mono k hk)
  · intro x hx
    rcases List.mem_append.mp hx with hx | hx
    · exact ⟨List.mem_append_left _ (hs.written_chain x hx).1, (hs.written_chain x hx).2⟩
    · obtain rfl := List.mem_singleton.mp hx
      exact ⟨List.mem_append_right _ (List.mem_singleton_self _), fun h₀ => hc (hs.chain_mono _ h₀)⟩
  · simp only [List.map_append, List.map_singleton]
    refine hs.written_nodup.append (List.nodup_singleton _) (List.disjoint_singleton.mpr fun hm => hc ?_)
    obtain ⟨x, hx, he⟩ := List.mem_map.mp hm
    exact he ▸ (hs.written_chain x hx).1

/-- `newWorkLoop` calls `clearPending`. -/
theorem Inv.newHead (hs : s.Inv chain₀ evs) (number : ℕ) :
    { s with pendingTasks := clearPending s.pendingTasks number }.Inv chain₀ (evs ++ [Event.newHead number]) :=
  { hs.snoc _ with
    key := fun h t ht => hs.key h t (clearPending_eq_some.mp ht).1
    admitted := fun h t ht => (hs.admitted h t (clearPending_eq_some.mp ht).1).snoc _ }

/-- The chain gets a block from elsewhere. -/
theorem Inv.imported (hs : s.Inv chain₀ evs) (key : ℕ × ℕ) :
    (if key ∈ s.chain then s else { s with chain := s.chain ++ [key] }).Inv chain₀ (evs ++ [Event.imported key]) := by
  split_ifs
  · exact hs.snoc _
  · exact { hs.snoc _ with
      chain_mono := fun k hk => List.mem_append_left _ (hs.chain_mono k hk)
      written_chain := fun x hx => ⟨List.mem_append_left _ (hs.written_chain x hx).1, (hs.written_chain x hx).2⟩ }

/-- No step panics, and each keeps the invariant. -/
theorem Inv.step (hs : s.Inv chain₀ evs) (e : Event) :
    ∃ s', s.step e = some s' ∧ s'.Inv chain₀ (evs ++ [e]) := by
  cases e with
  | task task pe =>
    cases hd : s.loop.done
    · simpa only [Pipeline.step, hd, Bool.false_eq_true, if_false] using hs.onTask hd task pe
    · exact ⟨s, by simp only [Pipeline.step, hd, if_true], hs.snoc _⟩
  | exit =>
    cases hd : s.loop.done
    · simpa only [Pipeline.step, hd, Bool.false_eq_true, if_false] using hs.exit
    · exact ⟨s, by simp only [Pipeline.step, hd, if_true], hs.snoc _⟩
  | result b ok => exact ⟨_, rfl, hs.onResult b ok⟩
  | newHead number => exact ⟨_, rfl, hs.newHead number⟩
  | imported key => exact ⟨_, rfl, hs.imported key⟩

/-- Every run from the start completes, and keeps the invariant. -/
theorem run_inv (chain₀ : List (ℕ × ℕ)) (evs : List Event) :
    ∃ s, (init chain₀).run evs = some s ∧ s.Inv chain₀ evs := by
  induction evs using List.reverseRecOn with
  | nil => exact ⟨_, rfl, init_inv chain₀⟩
  | append_singleton evs e ih =>
    obtain ⟨s, hr, hs⟩ := ih
    obtain ⟨s', he, hs'⟩ := hs.step e
    exact ⟨s', by rw [run_append, hr]; simpa [Pipeline.run] using he, hs'⟩

/-- A step other than `taskLoop` taking a task adds nothing to the table. -/
theorem step_pendingTasks {s s' : Pipeline} {e : Event} (he : ∀ task pe, e ≠ .task task pe)
    (hs : s.step e = some s') {h : ℕ} {t : Task} (ht : s'.pendingTasks h = some t) :
    s.pendingTasks h = some t := by
  cases e with
  | task task pe => exact absurd rfl (he task pe)
  | exit =>
    simp only [Pipeline.step] at hs
    split_ifs at hs
    · cases hs; exact ht
    · obtain ⟨l, -, rfl⟩ := Option.map_eq_some'.mp hs
      exact ht
  | result b ok => cases hs; rwa [onResult_pendingTasks] at ht
  | newHead number => cases hs; exact (clearPending_eq_some.mp ht).1
  | imported key => cases hs; split_ifs at ht <;> exact ht

/-- Nor does a run in which `taskLoop` takes no task. -/
theorem run_pendingTasks {s s' : Pipeline} {evs : List Event} (hno : ∀ e ∈ evs, ∀ task pe, e ≠ .task task pe)
    (hr : s.run evs = some s') {h : ℕ} {t : Task} (ht : s'.pendingTasks h = some t) :
    s.pendingTasks h = some t := by
  induction evs generalizing s with
  | nil => cases hr; exact ht
  | cons e evs ih =>
    obtain ⟨s₁, h₁, h₂⟩ := Option.bind_eq_some.mp hr
    exact step_pendingTasks (hno e (List.mem_cons_self _ _)) h₁
      (ih (fun e he => hno e (List.mem_cons_of_mem _ he)) h₂)

end Pipeline

/-! ### Over every run -/

open Pipeline

/-- Every run completes without a panic, and each block `resultLoop` wrote was
written with the receipts and state of a task `commit` sent, filed under the
block's seal hash, and with transactions unless empty blocks were produced then. -/
theorem written_blocks_admitted (chain₀ : List (ℕ × ℕ)) (evs : List Event) :
    ∃ s, (Pipeline.init chain₀).run evs = some s ∧
      ∀ x ∈ s.written, x.2.block.sealHash = x.1.sealHash ∧ Admitted evs x.2 :=
  let ⟨s, hr, hs⟩ := run_inv chain₀ evs
  ⟨s, hr, hs.written_task⟩

/-- Every run completes without a panic, no block is written twice, and none
is written that the chain had at the start. -/
theorem blocks_written_once (chain₀ : List (ℕ × ℕ)) (evs : List Event) :
    ∃ s, (Pipeline.init chain₀).run evs = some s ∧
      (s.written.map (·.1.key)).Nodup ∧ ∀ x ∈ s.written, x.1.key ∉ chain₀ :=
  let ⟨s, hr, hs⟩ := run_inv chain₀ evs
  ⟨s, hr, hs.written_nodup, fun x hx => (hs.written_chain x hx).2⟩

/-- No run closes a stop channel twice; at most one `Seal` call has an open
stop channel, and none has once `taskLoop` has returned. -/
theorem one_seal_in_flight (chain₀ : List (ℕ × ℕ)) (evs : List Event) :
    ∃ s, (Pipeline.init chain₀).run evs = some s ∧
      (s.loop.sealed.filter fun x => s.loop.stops[x.2]? = some false).length ≤ 1 ∧
      (s.loop.done = true → ∀ x ∈ s.loop.sealed, s.loop.stops[x.2]? = some true) :=
  let ⟨s, hr, hs⟩ := run_inv chain₀ evs
  ⟨s, hr, hs.loop.running_le_one, hs.loop.closed_of_done⟩

/-- In every run, two `Seal` calls in a row are for different seal hashes. -/
theorem consecutive_seals_differ (chain₀ : List (ℕ × ℕ)) (evs : List Event) :
    ∃ s, (Pipeline.init chain₀).run evs = some s ∧ (s.loop.sealed.map (·.1.sealHash)).Chain' (· ≠ ·) :=
  let ⟨s, hr, hs⟩ := run_inv chain₀ evs
  ⟨s, hr, hs.loop.seals_differ⟩

/-- After `clearPending(number)`, as long as `taskLoop` takes no task, no task
whose block is `staleThreshold` blocks behind `number` is pending. -/
theorem clearPending_durable (chain₀ : List (ℕ × ℕ)) (evs evs' : List Event) (number : ℕ)
    (hno : ∀ e ∈ evs', ∀ task pe, e ≠ .task task pe) :
    ∃ s, (Pipeline.init chain₀).run (evs ++ .newHead number :: evs') = some s ∧
      ∀ h t, s.pendingTasks h = some t → number < (t.block.number + staleThreshold) % 2 ^ 64 := by
  obtain ⟨s, hr, -⟩ := run_inv chain₀ (evs ++ .newHead number :: evs')
  refine ⟨s, hr, fun h t ht => ?_⟩
  rw [run_append] at hr
  obtain ⟨s₁, -, hr⟩ := Option.bind_eq_some.mp hr
  rw [run_cons] at hr
  obtain ⟨s₂, h₂, hr⟩ := Option.bind_eq_some.mp hr
  obtain rfl := Option.some.inj h₂
  exact (clearPending_eq_some.mp (run_pendingTasks hno hr ht)).2

/-- A task for block 1 is recorded, the head moves to block 8, and a sealed
block for the task comes back. -/
theorem clearPending_durable_after_result :
    (∀ e ∈ [Event.result (some ⟨9, 3, 1, 2⟩) true], ∀ task pe, e ≠ .task task pe) ∧
    ∃ s, (Pipeline.init []).run ([.task ⟨[], ⟨0, 0, 0⟩, ⟨5, 3, 1, 2⟩⟩ false] ++
        .newHead 8 :: [.result (some ⟨9, 3, 1, 2⟩) true]) = some s ∧
      ∀ h t, s.pendingTasks h = some t → 8 < (t.block.number + staleThreshold) % 2 ^ 64 :=
  have hno : ∀ e ∈ [Event.result (some ⟨9, 3, 1, 2⟩) true], ∀ task pe, e ≠ .task task pe := by simp
  ⟨hno, clearPending_durable [] _ _ 8 hno⟩

end Venachain.Miner
