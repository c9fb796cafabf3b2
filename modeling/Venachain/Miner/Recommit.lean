import Venachain.Miner.Worker
import Mathlib.Data.Rat.Floor
import Mathlib.Tactic.Linarith
import Mathlib.Tactic.NormNum

/-!
# The recommit interval

`newWorkLoop` (miner/worker.go, lines 319–437) keeps two durations: the user's
floor `minRecommit` and the current resubmit interval `recommit`. An explicit
interval on `resubmitIntervalCh` sets both, after raising it to
`minRecommitInterval`; an adjustment on `resubmitAdjustCh` recomputes
`recommit` by `recalcRecommit`, a moving average towards
`recommit / ratio + bias` capped at `maxRecommitInterval` (an increase), or
towards `minRecommit - bias` floored at `minRecommit` (a decrease).
`newWorker` sanitizes the constructor's interval the same way (lines 229–236).

Durations are `int64` nanoseconds, here integers; the float arithmetic of
`recalcRecommit` is taken exactly, in rationals, and `time.Duration(int64(next))`
truncates towards zero. So neither a NaN ratio nor an `int64` overflow is
modelled: the results hold of exact arithmetic.

What is proved: `minRecommit ≤ recommit` does not survive every run
(`recommit_below_floor`): after an interval above `maxRecommitInterval`, an
increase caps `recommit` below the floor, which the code's comments call the
user's minimum. What does hold after every event of every run whose increases
carry a ratio in `[0.1, 1]` is `min(minRecommit, maxRecommitInterval) ≤
recommit`, with `minRecommitInterval ≤ minRecommit` (`run_recommit_bounded`).

The adjustments come from `commitTransactionsWithHeader`, which sends the share
of the gas limit used, at least 0.1, on a resubmit interrupt, and a decrease
after its loop breaks. When `ApplyTransaction` never adds to the gas pool, the
pool stays within the gas limit through every cycle, the `uint64` difference
`GasLimit - gasPool.Gas()` does not wrap, and every increase the loop sends on
a header with a gas limit carries a ratio in `[0.1, 1]` (`SentByWorker.valid`).
`WorkLoop` carries this to every run of `newWorkLoop`.
-/

namespace Venachain.Miner

/-- `minRecommitInterval`: 1 s. -/
def minRecommitInterval : ℤ := 1000000000

/-- `maxRecommitInterval`: 15 s. -/
def maxRecommitInterval : ℤ := 15000000000

/-- `intervalAdjustRatio`: the weight of a new sample. -/
def intervalAdjustRatio : ℚ := 1 / 10

/-- `intervalAdjustBias`: 200 ms. -/
def intervalAdjustBias : ℚ := 200 * 1000 * 1000

/-- `time.Duration(int64(next))`: the conversion truncates towards zero. -/
def truncate (q : ℚ) : ℤ := if 0 ≤ q then ⌊q⌋ else ⌈q⌉

/-- The two durations of `newWorkLoop`. -/
structure Resubmit where
  /-- `minRecommit`, the interval the user set. -/
  minRecommit : ℤ
  /-- `recommit`, the current interval. -/
  recommit : ℤ
  deriving DecidableEq, Repr

/-- An interval below `minRecommitInterval` raised to it. -/
def sanitize (interval : ℤ) : ℤ :=
  if interval < minRecommitInterval then minRecommitInterval else interval

/-- `newWorker` sanitizes the interval it is given, and `newWorkLoop(recommit)`
starts with `minRecommit = recommit`. -/
def Resubmit.init (recommit : ℤ) : Resubmit := ⟨sanitize recommit, sanitize recommit⟩

/-- `recalcRecommit(target, inc)`. -/
def recalcRecommit (s : Resubmit) (target : ℚ) (inc : Bool) : Resubmit :=
  let prev : ℚ := s.recommit
  let next :=
    if inc then
      let next := prev * (1 - intervalAdjustRatio) + intervalAdjustRatio * (target + intervalAdjustBias)
      if next > maxRecommitInterval then (maxRecommitInterval : ℚ) else next
    else
      let next := prev * (1 - intervalAdjustRatio) + intervalAdjustRatio * (target - intervalAdjustBias)
      if next < s.minRecommit then (s.minRecommit : ℚ) else next
  { s with recommit := truncate next }

/-- What `newWorkLoop` receives that changes the interval. -/
inductive ResubmitEvent where
  /-- An interval on `resubmitIntervalCh`. -/
  | setInterval (interval : ℤ)
  /-- An adjustment on `resubmitAdjustCh`. -/
  | adjust (a : IntervalAdjust)

/-- One event handled by `newWorkLoop`. -/
def Resubmit.handle (s : Resubmit) : ResubmitEvent → Resubmit
  | .setInterval interval => ⟨sanitize interval, sanitize interval⟩
  | .adjust a =>
    if a.inc then recalcRecommit s ((s.recommit : ℚ) / a.ratio) true
    else recalcRecommit s s.minRecommit false

/-- The durations after a run of events. -/
def Resubmit.run (s : Resubmit) (evs : List ResubmitEvent) : Resubmit := evs.foldl handle s

/-- An event of the worker: an increase carries a ratio in `[0.1, 1]`. -/
def ResubmitEvent.Valid : ResubmitEvent → Prop
  | .setInterval _ => True
  | .adjust a => a.inc = true → 1 / 10 ≤ a.ratio ∧ a.ratio ≤ 1

/-! ### One event -/

theorem truncate_ge {q : ℚ} {z : ℤ} (hz : 0 ≤ z) (h : (z : ℚ) ≤ q) : z ≤ truncate q := by
  have hq : 0 ≤ q := le_trans (by exact_mod_cast hz) h
  rw [truncate, if_pos hq]
  exact Int.le_floor.mpr h

theorem sanitize_ge (interval : ℤ) : minRecommitInterval ≤ sanitize interval := by
  unfold sanitize; split_ifs <;> omega

/-- What holds after every event: the floor is at least `minRecommitInterval`,
and the interval is at least the floor or `maxRecommitInterval`, the smaller. -/
structure Resubmit.Inv (s : Resubmit) : Prop where
  min_ge : minRecommitInterval ≤ s.minRecommit
  recommit_ge : min s.minRecommit maxRecommitInterval ≤ s.recommit

theorem Resubmit.Inv.init (recommit : ℤ) : (Resubmit.init recommit).Inv :=
  ⟨sanitize_ge _, min_le_left _ _⟩

/-- An increase moves the interval up, or caps it at `maxRecommitInterval`. -/
theorem Resubmit.Inv.inc {s : Resubmit} (hs : s.Inv) {ratio : ℚ} (h₁ : 1 / 10 ≤ ratio)
    (h₂ : ratio ≤ 1) : (recalcRecommit s ((s.recommit : ℚ) / ratio) true).Inv := by
  refine ⟨hs.min_ge, ?_⟩
  have hr : (0 : ℚ) ≤ s.recommit := by
    have := hs.recommit_ge; have := hs.min_ge
    exact_mod_cast (show (0 : ℤ) ≤ s.recommit by
      simp only [minRecommitInterval, maxRecommitInterval] at *; omega)
  have htarget : (s.recommit : ℚ) ≤ s.recommit / ratio := by
    rw [le_div_iff₀ (by linarith)]; nlinarith
  simp only [recalcRecommit, if_true]
  split_ifs with hmax
  · exact (min_le_right _ _).trans (truncate_ge (by decide) le_rfl)
  · refine hs.recommit_ge.trans (truncate_ge (by exact_mod_cast hr) ?_)
    simp only [intervalAdjustRatio, intervalAdjustBias]
    linarith

/-- A decrease never goes below the floor. -/
theorem Resubmit.Inv.dec {s : Resubmit} (hs : s.Inv) :
    (recalcRecommit s (s.minRecommit : ℚ) false).Inv := by
  refine ⟨hs.min_ge, ?_⟩
  have hm : (0 : ℤ) ≤ s.minRecommit := le_trans (by decide) hs.min_ge
  simp only [recalcRecommit, Bool.false_eq_true, if_false]
  refine (min_le_left _ _).trans (truncate_ge hm ?_)
  split_ifs with h
  · exact le_rfl
  · exact not_lt.mp h

theorem Resubmit.Inv.handle {s : Resubmit} (hs : s.Inv) {ev : ResubmitEvent} (hv : ev.Valid) :
    (s.handle ev).Inv := by
  cases ev with
  | setInterval interval => exact ⟨sanitize_ge _, min_le_left _ _⟩
  | adjust a =>
    dsimp only [Resubmit.handle]
    split_ifs with hinc
    · exact hs.inc (hv hinc).1 (hv hinc).2
    · exact hs.dec

/-! ### Runs -/

theorem Resubmit.Inv.run {s : Resubmit} (hs : s.Inv) {evs : List ResubmitEvent}
    (hv : ∀ ev ∈ evs, ev.Valid) : (s.run evs).Inv := by
  induction evs generalizing s with
  | nil => exact hs
  | cons ev evs ih =>
    exact ih (hs.handle (hv ev (List.mem_cons_self _ _))) fun e he => hv e (List.mem_cons_of_mem _ he)

/-- After every run of `newWorkLoop` from the constructor's interval, whose
increases carry a ratio in `[0.1, 1]`, the interval is at least the user's
floor or `maxRecommitInterval`, whichever is smaller, and the floor is at least
`minRecommitInterval`. -/
theorem run_recommit_bounded (recommit : ℤ) {evs : List ResubmitEvent}
    (hv : ∀ ev ∈ evs, ev.Valid) :
    min ((Resubmit.init recommit).run evs).minRecommit maxRecommitInterval ≤
        ((Resubmit.init recommit).run evs).recommit ∧
      minRecommitInterval ≤ ((Resubmit.init recommit).run evs).minRecommit :=
  have h := (Resubmit.Inv.init recommit).run hv
  ⟨h.recommit_ge, h.min_ge⟩

/-- The user sets 20 s, above `maxRecommitInterval`; an increase at ratio 1
then caps the interval at 15 s, below the floor of 20 s. -/
theorem recommit_below_floor :
    (Resubmit.init 3000000000).run [.setInterval 20000000000, .adjust ⟨1, true⟩] =
      ⟨20000000000, 15000000000⟩ := by
  simp only [Resubmit.run, List.foldl, Resubmit.handle, recalcRecommit, sanitize, truncate,
    minRecommitInterval, maxRecommitInterval, intervalAdjustRatio, intervalAdjustBias]
  norm_num

/-! ### The adjustments the transaction loop sends -/

/-- `core.ApplyTransaction` never adds to the gas pool: it takes the
transaction's gas limit from the pool and gives back what is left unused. -/
def ApplyTx.Spends (apply : ApplyTx) : Prop :=
  ∀ pool st hd tx, (apply pool st hd tx).gasPool ≤ pool

/-- The gas pool holds at most the header's gas limit (a nil pool, none). -/
def Environment.PoolWithin (env : Environment) : Prop :=
  env.gasPool.getD 0 ≤ env.header.gasLimit

/-- The adjustments some `commitTransactionsWithHeader` call of some cycle, on
a header with a gas limit, sends on `resubmitAdjustCh`. At a zero gas limit the
ratio is Go's `0/0`, a NaN that `recalcRecommit` turns into an `int64` Go leaves
to the implementation; the model has no NaN (`resubmitRatio`), so it speaks of
gas limits above zero only. -/
def SentByWorker (apply : ApplyTx) (a : IntervalAdjust) : Prop :=
  ∃ env flagged txs ret env' adjusts, CycleReach apply env ∧ 0 < env.header.gasLimit ∧
    CommitTxs apply flagged env txs ret env' adjusts ∧ a ∈ adjusts

/-- The loop's invariant: the pool within the gas limit, and every adjustment
sent so far an event of the worker. -/
structure Loop.Paced (l : Loop) : Prop where
  pool : l.env.PoolWithin
  adjusts : ∀ a ∈ l.adjusts, (ResubmitEvent.adjust a).Valid

variable {apply : ApplyTx}

theorem resubmitRatio_ge (env : Environment) : 1 / 10 ≤ resubmitRatio env := by
  dsimp only [resubmitRatio]
  split_ifs with h
  · exact le_rfl
  · exact not_lt.mp h

/-- With the pool within the gas limit, the `uint64` difference does not wrap,
and the share used is at most one. -/
theorem resubmitRatio_le_one {env : Environment} (h : env.PoolWithin) : resubmitRatio env ≤ 1 := by
  have hused : (env.header.gasLimit + 2 ^ 64 - env.gasPool.getD 0) % 2 ^ 64 ≤
      env.header.gasLimit :=
    calc _ = (env.header.gasLimit - env.gasPool.getD 0) % 2 ^ 64 := by
          rw [Nat.sub_add_comm h, Nat.add_mod_right]
      _ ≤ env.header.gasLimit - env.gasPool.getD 0 := Nat.mod_le _ _
      _ ≤ env.header.gasLimit := Nat.sub_le _ _
  dsimp only [resubmitRatio]
  split_ifs
  · norm_num
  · exact div_le_one_of_le₀ (by exact_mod_cast hused) (Nat.cast_nonneg _)

theorem resubmitAdjust_valid {env : Environment} (h : env.PoolWithin) :
    (ResubmitEvent.adjust ⟨resubmitRatio env, true⟩).Valid :=
  fun _ => ⟨resubmitRatio_ge env, resubmitRatio_le_one h⟩

theorem commitTransaction_poolWithin (hsp : apply.Spends) {env : Environment} {tx : Tx}
    (h : env.PoolWithin) : (commitTransaction apply env tx).2.PoolWithin := by
  have hpool := (hsp (env.gasPool.getD 0) env.state env.header tx).trans h
  simp only [commitTransaction]
  split <;> exact hpool

/-- One iteration keeps the pool within the gas limit, and the adjustment a
resubmit interrupt sends is an event of the worker. -/
theorem iteration_paced (hsp : apply.Spends) {l : Loop} (hl : l.Paced) (read : Option Interrupt) :
    (iteration apply read l).loop.Paced := by
  unfold iteration
  split
  · exact hl
  · refine ⟨hl.pool, fun a ha => ?_⟩
    rcases List.mem_append.mp ha with ha | ha
    · exact hl.adjusts a ha
    · rw [List.mem_singleton.mp ha]; exact resubmitAdjust_valid hl.pool
  split_ifs
  · exact hl
  split
  · exact hl
  rename_i tx _
  have key := @commitTransaction_poolWithin apply hsp
    { l.env with state := l.env.state.prepare tx.hash l.env.tcount } tx hl.pool
  dsimp only
  split <;> rename_i heq <;> rw [heq] at key <;> exact ⟨key, hl.adjusts⟩

theorem Loops.paced (hsp : apply.Spends) {flagged : Bool} {l : Loop} {r : Iter}
    (h : Loops apply flagged l r) (hl : l.Paced) : r.loop.Paced := by
  induction h with
  | @last l read r _ hi _ => exact hi ▸ iteration_paced hsp hl read
  | @next l l' read r _ hi _ ih =>
    exact ih (by simpa [hi, Iter.loop] using iteration_paced hsp hl read)

theorem CommitTxs.paced (hsp : apply.Spends) {env env' : Environment} {flagged : Bool}
    {txs : TxQueue} {ret : Bool} {adjusts : List IntervalAdjust}
    (h : CommitTxs apply flagged env txs ret env' adjusts) (hc : env.PoolWithin) :
    env'.PoolWithin ∧ ∀ a ∈ adjusts, (ResubmitEvent.adjust a).Valid := by
  obtain ⟨r, l, hl, ha, rfl, rfl⟩ := h
  have hw : env.withGasPool.PoolWithin := by
    unfold Environment.withGasPool
    split_ifs
    · exact le_rfl
    · exact hc
  have hr := hl.paced hsp ⟨hw, fun _ h => by cases h⟩
  cases r <;> simp only [afterLoop, Prod.mk.injEq] at ha <;> obtain ⟨-, rfl⟩ := ha
  · exact ⟨hr.pool, hr.adjusts⟩
  · exact ⟨hr.pool, hr.adjusts⟩
  · split_ifs
    · refine ⟨hr.pool, fun a ha => ?_⟩
      rcases List.mem_append.mp ha with ha | ha
      · exact hr.adjusts a ha
      · rw [List.mem_singleton.mp ha]; exact fun h => absurd h Bool.false_ne_true
    · exact ⟨hr.pool, hr.adjusts⟩

theorem CycleReach.poolWithin (hsp : apply.Spends) {env : Environment} (h : CycleReach apply env) :
    env.PoolWithin := by
  induction h with
  | makeCurrent h =>
    rename_i stateAt _ _
    cases stateAt with
    | error e => cases h
    | ok st => cases h; exact Nat.zero_le _
  | commitTxs _ hc ih => exact (hc.paced hsp ih).1

/-- Every adjustment the transaction loop sends is an event of the worker: an
increase carries a ratio in `[0.1, 1]`. -/
theorem SentByWorker.valid (hsp : apply.Spends) {a : IntervalAdjust} (h : SentByWorker apply a) :
    (ResubmitEvent.adjust a).Valid := by
  obtain ⟨env, _, _, _, _, _, hreach, -, hc, ha⟩ := h
  exact (hc.paced hsp (hreach.poolWithin hsp)).2 a ha

end Venachain.Miner
