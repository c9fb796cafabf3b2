import Venachain.Miner.Recommit
import Mathlib.Data.List.Basic

/-!
# The interrupt flags of work requests

`newWorkLoop` (miner/worker.go, lines 319–437) sends work requests on
`newWorkCh`, each with an interrupt flag of its own: a fresh `*int32` at
`commitInterruptNone`. Its `commit` first stores a signal in the flag of the
request before: `commitInterruptNewHead` when the worker starts (`startCh`),
`commitInterruptResubmit` when the recommit timer fires while the worker runs
and the engine `ShouldSeal`. `commitTransactionsWithHeader` (lines 672–782)
loads its request's flag at each iteration and returns once it is set. A new
chain head interrupts nothing: its `commit` is commented out, and the case only
clears stale pending tasks (`Pipeline`) and the block-chain cache.

## The model

`WorkLoop` holds the flags of the requests sent, oldest first, with the
durations of `Recommit`. A `WorkEvent` is one case of the loop's `select`; the
timer's case carries what `isRunning()` and `ShouldSeal()` return. The loop
never panics and never returns an error, so a run is a fold.

## What is proved

* `superseded_requests_interrupted`: after every run, the flag of each
  request but the newest holds the signal of the request after it, and the
  newest request's flag is `commitInterruptNone`; so at most one request's
  transaction loop runs on, and a flag, once set, stays as it is over every
  continuation.
* `worker_recommit_bounded`: over every run of the loop whose adjustments
  the worker's transaction loop sent, on headers with a gas limit and with
  `ApplyTransaction` spending gas, the interval stays at least the user's floor
  or `maxRecommitInterval`, the smaller, in exact arithmetic. The durations
  follow `Resubmit.run` over the interval and adjustment events alone
  (`WorkLoop.run_resubmit_eq`), so the bounds of `Recommit` carry over.
-/

namespace Venachain.Miner

/-- `atomic.StoreInt32(interrupt, s)` on the newest request's flag, when there
is a request. -/
def storeLast (flags : List Interrupt) (s : Interrupt) : List Interrupt :=
  if flags = [] then [] else flags.dropLast ++ [s]

@[simp] theorem storeLast_nil (s : Interrupt) : storeLast [] s = [] := rfl

@[simp] theorem storeLast_concat (flags : List Interrupt) (x s : Interrupt) :
    storeLast (flags ++ [x]) s = flags ++ [s] := by
  simp [storeLast]

/-- The state of `newWorkLoop`: the flags of the requests it sent, oldest first,
and the resubmit durations. -/
structure WorkLoop where
  /-- The interrupt flag of each request sent on `newWorkCh`. -/
  flags : List Interrupt
  /-- `minRecommit` and `recommit`. -/
  resubmit : Resubmit

/-- One case of `newWorkLoop`'s `select`. -/
inductive WorkEvent where
  /-- `<-w.startCh`. -/
  | start
  /-- `<-w.chainHeadCh`. -/
  | chainHead
  /-- `<-timer.C`, with what `w.isRunning()` and `eng.ShouldSeal()` return. -/
  | timer (running shouldSeal : Bool)
  /-- `<-w.resubmitIntervalCh` or `<-w.resubmitAdjustCh`. -/
  | resubmit (ev : ResubmitEvent)

/-- The signal with which an event commits a new request, if it does. -/
def WorkEvent.signal : WorkEvent → Option Interrupt
  | .start => some .newHead
  | .timer true true => some .resubmit
  | _ => none

/-- The event of `Recommit` an event is, if it is one. -/
def WorkEvent.resubmitEvent : WorkEvent → Option ResubmitEvent
  | .resubmit ev => some ev
  | _ => none

namespace WorkLoop

/-- The loop as it starts: no request yet, the durations of `newWorker`. -/
def init (recommit : ℤ) : WorkLoop := ⟨[], Resubmit.init recommit⟩

/-- `commit(s, baseBlock)`: signal the newest request, then send a new one with
a fresh flag. -/
def commit (wl : WorkLoop) (s : Interrupt) : WorkLoop :=
  { wl with flags := storeLast wl.flags s ++ [.none] }

/-- One case of the `select`. -/
def step (wl : WorkLoop) : WorkEvent → WorkLoop
  | .start => wl.commit .newHead
  | .chainHead => wl
  | .timer running shouldSeal => if running && shouldSeal then wl.commit .resubmit else wl
  | .resubmit ev => { wl with resubmit := wl.resubmit.handle ev }

/-- The loop after the events. -/
def run (wl : WorkLoop) (evs : List WorkEvent) : WorkLoop := evs.foldl step wl

theorem run_append (wl : WorkLoop) (evs evs' : List WorkEvent) :
    wl.run (evs ++ evs') = (wl.run evs).run evs' := List.foldl_append _ _ _ _

/-- What one event does to the flags: a signal stored in the newest flag and a
fresh one after it, or nothing. -/
theorem step_flags (wl : WorkLoop) (ev : WorkEvent) :
    (wl.step ev).flags = match ev.signal with
      | some s => storeLast wl.flags s ++ [.none]
      | none => wl.flags := by
  cases ev with
  | start => rfl
  | chainHead => rfl
  | timer running shouldSeal => cases running <;> cases shouldSeal <;> rfl
  | resubmit ev => rfl

/-- The flags as a function of the signals committed: each request's flag is
the signal of the request after it, and the newest one's is none. -/
def flagsOf (signals : List Interrupt) : List Interrupt :=
  if signals = [] then [] else signals.tail ++ [.none]

theorem flagsOf_concat (signals : List Interrupt) (s : Interrupt) :
    flagsOf (signals ++ [s]) = storeLast (flagsOf signals) s ++ [.none] := by
  cases signals with
  | nil => rfl
  | cons x rest => simp [flagsOf]

theorem run_flags (recommit : ℤ) (evs : List WorkEvent) :
    ((init recommit).run evs).flags = flagsOf (evs.filterMap WorkEvent.signal) := by
  induction evs using List.reverseRecOn with
  | nil => rfl
  | append_singleton evs ev ih =>
    rw [run_append, List.filterMap_append]
    simp only [run, List.foldl_cons, List.foldl_nil] at ih ⊢
    rw [step_flags, ih]
    cases h : ev.signal with
    | none => simp [h]
    | some s => simp [h, flagsOf_concat]

/-- A signal stored in a flag stays there whatever is committed after. -/
theorem flagsOf_stable {cs ds : List Interrupt} {i : ℕ} {s : Interrupt} (h : (flagsOf cs)[i]? = some s)
    (hs : s ≠ .none) : (flagsOf (cs ++ ds))[i]? = some s := by
  unfold flagsOf at h ⊢
  split at h
  · simp at h
  rename_i hne
  have hlt : i < cs.tail.length := by
    by_contra hle
    rw [List.getElem?_append_right (not_lt.mp hle)] at h
    exact hs (List.mem_singleton.mp (List.getElem?_mem h))
  rw [List.getElem?_append_left hlt] at h
  rw [if_neg (by simp [hne]), List.tail_append_of_ne_nil hne, List.append_assoc,
    List.getElem?_append_left hlt, h]

/-- The durations after a run are those `Resubmit.run` gives over the interval
and adjustment events alone. -/
theorem run_resubmit_eq (wl : WorkLoop) (evs : List WorkEvent) :
    (wl.run evs).resubmit = wl.resubmit.run (evs.filterMap WorkEvent.resubmitEvent) := by
  induction evs generalizing wl with
  | nil => rfl
  | cons ev evs ih =>
    rw [show wl.run (ev :: evs) = (wl.step ev).run evs from rfl, ih]
    cases ev with
    | timer running shouldSeal => cases running <;> cases shouldSeal <;> rfl
    | _ => rfl

end WorkLoop

/-! ### The interval over whole runs of the loop -/

variable {apply : ApplyTx}

/-- The interval and adjustment events of a run whose adjustments the worker
sent are events of the worker: each increase carries a ratio in `[0.1, 1]`. -/
theorem resubmitEvents_valid (hsp : apply.Spends) {evs : List WorkEvent}
    (hw : ∀ a, WorkEvent.resubmit (.adjust a) ∈ evs → SentByWorker apply a) :
    ∀ ev ∈ evs.filterMap WorkEvent.resubmitEvent, ev.Valid := by
  intro ev hev
  obtain ⟨wev, hmem, hwev⟩ := List.mem_filterMap.mp hev
  cases wev with
  | resubmit ev' =>
    cases hwev
    cases ev with
    | setInterval _ => trivial
    | adjust a => exact (hw a hmem).valid hsp
  | _ => cases hwev

/-- Over every run of `newWorkLoop`'s `select` from the constructor's interval
whose adjustments the transaction loop of the worker's cycles sent, on headers
with a gas limit and with `ApplyTransaction` spending gas, the interval is at
least the user's floor or `maxRecommitInterval`, whichever is smaller, and the
floor is at least `minRecommitInterval`. -/
theorem worker_recommit_bounded (hsp : apply.Spends) (recommit : ℤ) {evs : List WorkEvent}
    (hw : ∀ a, WorkEvent.resubmit (.adjust a) ∈ evs → SentByWorker apply a) :
    min ((WorkLoop.init recommit).run evs).resubmit.minRecommit maxRecommitInterval ≤
        ((WorkLoop.init recommit).run evs).resubmit.recommit ∧
      minRecommitInterval ≤ ((WorkLoop.init recommit).run evs).resubmit.minRecommit := by
  rw [WorkLoop.run_resubmit_eq]
  exact run_recommit_bounded recommit (resubmitEvents_valid hsp hw)

/-- The worker starts, the user sets 20 s, the timer resubmits, and the cycle's
loop meets the resubmit interrupt before any transaction, on a gas limit of
100000: it sends an increase at ratio 0.1. A chain head follows. -/
theorem worker_recommit_bounded_resubmit :
    leastGasApply.Spends ∧
    (∀ a, WorkEvent.resubmit (.adjust a) ∈ [WorkEvent.start, .resubmit (.setInterval 20000000000),
        .timer true true, .resubmit (.adjust ⟨1 / 10, true⟩), .chainHead] →
      SentByWorker leastGasApply a) ∧
    min ((WorkLoop.init 3000000000).run [.start, .resubmit (.setInterval 20000000000),
          .timer true true, .resubmit (.adjust ⟨1 / 10, true⟩), .chainHead]).resubmit.minRecommit
          maxRecommitInterval ≤
        ((WorkLoop.init 3000000000).run [.start, .resubmit (.setInterval 20000000000),
          .timer true true, .resubmit (.adjust ⟨1 / 10, true⟩), .chainHead]).resubmit.recommit ∧
      minRecommitInterval ≤ ((WorkLoop.init 3000000000).run [.start, .resubmit (.setInterval 20000000000),
          .timer true true, .resubmit (.adjust ⟨1 / 10, true⟩), .chainHead]).resubmit.minRecommit := by
  have hsp : leastGasApply.Spends := fun pool _ _ _ => Nat.sub_le pool txGas
  have hratio : resubmitRatio
      (Environment.withGasPool ⟨⟨0, 0, 0⟩, 0, none, ⟨100000, 0⟩, [], []⟩) = 1 / 10 := by
    norm_num [resubmitRatio, Environment.withGasPool]
  have hsent : SentByWorker leastGasApply ⟨1 / 10, true⟩ := by
    refine ⟨_, true, ⟨[]⟩, false, _, _,
      @CycleReach.makeCurrent leastGasApply (.ok ⟨0, 0, 0⟩) ⟨100000, 0⟩ _ rfl, by decide,
      ⟨_, _, @Loops.last leastGasApply true _ (some .resubmit) _ rfl rfl (fun _ h => by cases h),
        rfl, rfl, rfl⟩, ?_⟩
    simp [iteration, hratio]
  have hw : ∀ a, WorkEvent.resubmit (.adjust a) ∈ [WorkEvent.start, .resubmit (.setInterval 20000000000),
      .timer true true, .resubmit (.adjust ⟨1 / 10, true⟩), .chainHead] → SentByWorker leastGasApply a := by
    intro a ha
    simp only [List.mem_cons, reduceCtorEq, WorkEvent.resubmit.injEq, ResubmitEvent.adjust.injEq,
      List.mem_nil_iff, or_false, false_or] at ha
    exact ha ▸ hsent
  exact ⟨hsp, hw, worker_recommit_bounded hsp 3000000000 hw⟩

/-- The signals of `newWorkLoop` are never `commitInterruptNone`. -/
theorem signal_ne_none {ev : WorkEvent} {s : Interrupt} (h : ev.signal = some s) : s ≠ .none := by
  cases ev with
  | start => cases h; decide
  | chainHead => cases h
  | timer running shouldSeal => cases running <;> cases shouldSeal <;> cases h; decide
  | resubmit ev => cases h

/-- Over every run of `newWorkLoop`, the flag of each request but the newest
holds the signal of the request after it, and the newest one's is
`commitInterruptNone`: at most one request runs uninterrupted. Whatever events
follow, a flag once set keeps its signal. -/
theorem superseded_requests_interrupted (recommit : ℤ) (evs evs' : List WorkEvent) :
    ((WorkLoop.init recommit).run evs).flags =
        (if evs.filterMap WorkEvent.signal = [] then []
          else (evs.filterMap WorkEvent.signal).tail ++ [.none]) ∧
      (((WorkLoop.init recommit).run evs).flags.filter (· = .none)).length ≤ 1 ∧
      ∀ (i : ℕ) (s : Interrupt), ((WorkLoop.init recommit).run evs).flags[i]? = some s → s ≠ .none →
        ((WorkLoop.init recommit).run (evs ++ evs')).flags[i]? = some s := by
  have hsig : ∀ s ∈ evs.filterMap WorkEvent.signal, s ≠ .none := by
    intro s hs
    obtain ⟨ev, -, hev⟩ := List.mem_filterMap.mp hs
    exact signal_ne_none hev
  refine ⟨WorkLoop.run_flags recommit evs, ?_, fun i s hi hs => ?_⟩
  · rw [WorkLoop.run_flags, WorkLoop.flagsOf]
    split
    · simp
    · have : (evs.filterMap WorkEvent.signal).tail.filter (· = .none) = [] :=
        List.filter_eq_nil_iff.mpr fun s hs => by
          simpa using hsig s (List.mem_of_mem_tail hs)
      simp [List.filter_append, this]
  · rw [WorkLoop.run_flags] at hi ⊢
    rw [List.filterMap_append]
    exact WorkLoop.flagsOf_stable hi hs

end Venachain.Miner
