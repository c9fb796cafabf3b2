import Mathlib.Algebra.Order.Field.Rat

/-!
# The miner's block-building cycle

`commitNewWork` (miner/worker.go, lines 785–893) builds a candidate block in
an `environment`: `makeCurrent` (lines 617–639) makes a fresh one,
`commitTransactionsWithHeader` (lines 672–782) executes pending transactions
into it through `commitTransaction` (lines 658–670), and `commit` (lines
897–936) finalizes the block and sums its fees.

The collaborators are parameters. `core.ApplyTransaction` is any function of
the gas pool, the state, the header and the transaction (`ApplyTx`), so every
outcome it can have is covered. The interrupt flag, which `newWorkLoop` stores
into concurrently, is read afresh at each iteration and may hold any value
(`Reads`); it is stored at most once, so the loads of one iteration agree.
`types.TransactionsByPriceAndNonce` is not part of the sources and is modelled
from the spec.

What is proved (`CycleReach.consistent`, `cycle_receipts_consistent`): through
`makeCurrent` and any number of `commitTransactionsWithHeader` calls, whatever
their interrupts and transaction outcomes, `tcount = len(txs) = len(receipts)`
and `receipts[i]` is the receipt `ApplyTransaction` returned for `txs[i]` on a
state `Prepare`d with index `i`; so `commit`'s fee loop never reads past the
receipts.

Logs, the pending-logs event, the monitoring calls and the signer are left
out: nothing modelled reads them.
-/

namespace Venachain.Miner

/-- A transaction: its hash and its gas price. -/
structure Tx where
  /-- `tx.Hash()`. -/
  hash : ℕ
  /-- `tx.GasPrice()`. -/
  gasPrice : ℕ
  deriving DecidableEq, Repr

/-- A receipt: the gas its transaction used and its logs. -/
structure Receipt where
  /-- `GasUsed`. -/
  gasUsed : ℕ
  /-- `Logs`. -/
  logs : List ℕ
  deriving DecidableEq, Repr

/-- The state database as the worker uses it: the transaction hash and index
`Prepare` records for the next transaction's logs, and the rest of the state. -/
structure StateDB where
  /-- `thash`. -/
  thash : ℕ
  /-- `txIndex`. -/
  txIndex : ℕ
  /-- The accounts and storage. -/
  world : ℕ
  deriving DecidableEq, Repr

/-- `state.Prepare(thash, common.Hash{}, ti)`. -/
def StateDB.prepare (st : StateDB) (thash ti : ℕ) : StateDB := { st with thash := thash, txIndex := ti }

/-- The header fields the cycle reads and writes: `GasLimit`, and `GasUsed`,
which `ApplyTransaction` advances. -/
structure WorkHeader where
  /-- `GasLimit`. -/
  gasLimit : ℕ
  /-- `GasUsed`. -/
  gasUsed : ℕ
  deriving DecidableEq, Repr

/-- The errors of `core.ApplyTransaction` the loop tells apart, and any other. -/
inductive TxError where
  | gasLimitReached
  | nonceTooLow
  | nonceTooHigh
  | other (code : ℕ)
  deriving DecidableEq, Repr

/-- What `core.ApplyTransaction` returns and leaves: the receipt or the error,
the gas left in the pool, the state, and the header's gas used. -/
structure Applied where
  /-- The receipt, or the error. -/
  result : Except TxError Receipt
  /-- `gasPool.Gas()` afterwards. -/
  gasPool : ℕ
  /-- The state afterwards. -/
  state : StateDB
  /-- `header.GasUsed` afterwards. -/
  gasUsed : ℕ

/-- `core.ApplyTransaction(config, chain, &coinbase, gasPool, state, header, tx,
&header.GasUsed, vm.Config{})`, as a function of the gas pool, the state, the
header and the transaction. -/
abbrev ApplyTx := ℕ → StateDB → WorkHeader → Tx → Applied

/-- `environment`: the state, the transaction count, the gas pool (nil until
`commitTransactionsWithHeader` sets it), the header, the transactions and their
receipts. -/
structure Environment where
  /-- `state`. -/
  state : StateDB
  /-- `tcount`. -/
  tcount : ℕ
  /-- `gasPool.Gas()`, or nil. -/
  gasPool : Option ℕ
  /-- `header`. -/
  header : WorkHeader
  /-- `txs`. -/
  txs : List Tx
  /-- `receipts`. -/
  receipts : List Receipt

/-- `makeCurrent(parent, header)`: the state `StateAt(parent.Root())` gives,
which may fail, and an empty environment. -/
def makeCurrent (stateAt : Except ℕ StateDB) (header : WorkHeader) : Except ℕ Environment :=
  stateAt.map fun state => ⟨state, 0, none, header, [], []⟩

variable (apply : ApplyTx)

/-- `commitTransaction(tx, coinbase)`: `ApplyTransaction` on the current state;
on an error the state goes back to the snapshot taken before, and otherwise the
transaction and its receipt are appended. -/
def commitTransaction (env : Environment) (tx : Tx) : Except TxError (List ℕ) × Environment :=
  let snap := env.state
  let a := apply (env.gasPool.getD 0) env.state env.header tx
  let env := { env with gasPool := some a.gasPool, header := { env.header with gasUsed := a.gasUsed } }
  match a.result with
  | .error e => (.error e, { env with state := snap })
  | .ok receipt =>
    (.ok receipt.logs,
      { env with state := a.state, txs := env.txs ++ [tx], receipts := env.receipts ++ [receipt] })

/-! ### Pending transactions -/

/-- Modelled from the spec: `types.TransactionsByPriceAndNonce`, the pending
transactions of each account in nonce order, the accounts by the gas price of
their next transaction, highest first ("in priority+nonce order"). -/
structure TxQueue where
  /-- Each account's transactions. -/
  accounts : List (List Tx)

namespace TxQueue

/-- Modelled from the spec: an account's queue put back in price order. -/
def insert (tx : Tx) (txs : List Tx) : List (List Tx) → List (List Tx)
  | [] => [tx :: txs]
  | acc :: accs =>
    if ((acc.head?.map Tx.gasPrice).getD 0) < tx.gasPrice then (tx :: txs) :: acc :: accs
    else acc :: insert tx txs accs

/-- Modelled from the spec: `Peek()`, the next transaction. -/
def peek (q : TxQueue) : Option Tx := q.accounts.head?.bind List.head?

/-- Modelled from the spec: `Shift()`, the account's next transaction in the
place of its first. -/
def shift (q : TxQueue) : TxQueue :=
  match q.accounts with
  | (_ :: tx :: txs) :: accs => ⟨insert tx txs accs⟩
  | _ :: accs => ⟨accs⟩
  | [] => ⟨[]⟩

/-- Modelled from the spec: `Pop()`, the account dropped. -/
def pop (q : TxQueue) : TxQueue := ⟨q.accounts.tail⟩

end TxQueue

/-! ### `commitTransactionsWithHeader` -/

/-- The values of the interrupt flag: `commitInterruptNone`, `…NewHead`, `…Resubmit`. -/
inductive Interrupt where
  | none
  | newHead
  | resubmit
  deriving DecidableEq, Repr

/-- `params.TxGas`, the least gas a transaction costs. -/
def txGas : ℕ := 21000

/-- `intervalAdjust`, a message to `newWorkLoop` on `resubmitAdjustCh`. -/
structure IntervalAdjust where
  /-- `ratio`. -/
  ratio : ℚ
  /-- `inc`. -/
  inc : Bool

/-- The ratio sent with a resubmit interrupt: the share of the gas limit used,
`float64(GasLimit - gasPool.Gas()) / float64(GasLimit)` (a `uint64`
difference), at least 0.1, in exact arithmetic. At a zero gas limit Go divides
`0/0`, a NaN that passes `ratio < 0.1` and is sent; here `x / 0 = 0` gives 0.1
instead, so what is said of the ratio is said for gas limits above zero. -/
def resubmitRatio (env : Environment) : ℚ :=
  let used : ℕ := (env.header.gasLimit + 2 ^ 64 - env.gasPool.getD 0) % 2 ^ 64
  let ratio := (used : ℚ) / env.header.gasLimit
  if ratio < 1 / 10 then 1 / 10 else ratio

/-- The loop's state: the environment, the pending transactions, and the
adjustments sent to `newWorkLoop`. -/
structure Loop where
  /-- `w.current`. -/
  env : Environment
  /-- `txs`. -/
  txs : TxQueue
  /-- The messages sent on `resubmitAdjustCh`. -/
  adjusts : List IntervalAdjust

/-- How an iteration ends: on to the next one, `return`, or `break`. -/
inductive Iter where
  | next (l : Loop)
  | ret (b : Bool) (l : Loop)
  | brk (l : Loop)

/-- One iteration of the loop, given what it reads from the flag (`none`: there
is no flag). -/
def iteration (read : Option Interrupt) (l : Loop) : Iter :=
  match read with
  | some .newHead => .ret true l
  | some .resubmit => .ret false { l with adjusts := l.adjusts ++ [⟨resubmitRatio l.env, true⟩] }
  | _ =>
  if l.env.gasPool.getD 0 < txGas then .brk l else
  match l.txs.peek with
  | none => .brk l
  | some tx =>
    let env := { l.env with state := l.env.state.prepare tx.hash l.env.tcount }
    match commitTransaction apply env tx with
    | (.error .gasLimitReached, env) => .next ⟨env, l.txs.pop, l.adjusts⟩
    | (.error .nonceTooLow, env) => .next ⟨env, l.txs.shift, l.adjusts⟩
    | (.error .nonceTooHigh, env) => .next ⟨env, l.txs.pop, l.adjusts⟩
    | (.ok _, env) => .next ⟨{ env with tcount := env.tcount + 1 }, l.txs.shift, l.adjusts⟩
    | (.error (.other _), env) => .next ⟨env, l.txs.shift, l.adjusts⟩

/-- A read of the flag: nothing without a flag, any value with one. -/
def Reads (flagged : Bool) (read : Option Interrupt) : Prop :=
  if flagged then read.isSome else read = none

/-- The loop run to its end, each iteration reading the flag afresh. -/
inductive Loops (flagged : Bool) : Loop → Iter → Prop
  | last {l : Loop} {read : Option Interrupt} {r : Iter} : Reads flagged read →
      iteration apply read l = r → (∀ l', r ≠ .next l') → Loops flagged l r
  | next {l l' : Loop} {read : Option Interrupt} {r : Iter} : Reads flagged read →
      iteration apply read l = .next l' → Loops flagged l' r → Loops flagged l r

/-- The gas pool, set to the gas limit if it is nil. -/
def Environment.withGasPool (env : Environment) : Environment :=
  if env.gasPool = none then { env with gasPool := some env.header.gasLimit } else env

/-- What `commitTransactionsWithHeader` does after its loop: a `return` is
passed on; after a `break` a decrease goes to `newWorkLoop` if there is a
flag, and the result is false. -/
def afterLoop (flagged : Bool) : Iter → Bool × Loop
  | .ret b l => (b, l)
  | .brk l => (false, if flagged then { l with adjusts := l.adjusts ++ [⟨0, false⟩] } else l)
  | .next l => (false, l)

/-- The runs of `commitTransactionsWithHeader(header, txs, coinbase, interrupt)`
on the environment `env` (`flagged`: `interrupt` is not nil): the result, the
environment left, the adjustments sent. -/
def CommitTxs (flagged : Bool) (env : Environment) (txs : TxQueue) (ret : Bool)
    (env' : Environment) (adjusts : List IntervalAdjust) : Prop :=
  ∃ r l, Loops apply flagged ⟨env.withGasPool, txs, []⟩ r ∧ afterLoop flagged r = (ret, l) ∧
    l.env = env' ∧ l.adjusts = adjusts

/-- The environments of a cycle: `makeCurrent`, then any number of
`commitTransactionsWithHeader` calls. -/
inductive CycleReach : Environment → Prop
  | makeCurrent {stateAt : Except ℕ StateDB} {header : WorkHeader} {env : Environment} :
      makeCurrent stateAt header = .ok env → CycleReach env
  | commitTxs {env env' : Environment} {flagged : Bool} {txs : TxQueue} {ret : Bool}
      {adjusts : List IntervalAdjust} :
      CycleReach env → CommitTxs apply flagged env txs ret env' adjusts → CycleReach env'

/-! ### `commit` -/

/-- A finalized block: its header, transactions and receipts. -/
structure Block where
  /-- The header. -/
  header : WorkHeader
  /-- `block.Transactions()`. -/
  txs : List Tx
  /-- The receipts. -/
  receipts : List Receipt

/-- `Finalize` of the istanbul backend (engine.go, lines 409–425): the VRF
election, which may fail, then `types.NewBlock(header, txs, receipts)`. -/
def finalize (vrfElection : Except ℕ Unit) (env : Environment) : Except ℕ Block :=
  vrfElection.map fun _ => ⟨env.header, env.txs, env.receipts⟩

/-- `commit`'s fee loop, `feesWei.Add(feesWei, receipts[i].GasUsed * tx.GasPrice())`
over the block's transactions; `none` when `receipts[i]` is out of range, a
panic. -/
def feesWei (receipts : List Receipt) : ℕ → ℕ → List Tx → Option ℕ
  | _, fees, [] => some fees
  | i, fees, tx :: txs =>
    match receipts[i]? with
    | none => none
    | some r => feesWei receipts (i + 1) (fees + r.gasUsed * tx.gasPrice) txs

/-- How `commit` ends. -/
inductive CommitResult where
  /-- `Finalize` failed. -/
  | failed (code : ℕ)
  /-- No task was sent: the worker is not running, or it is exiting. -/
  | noTask
  /-- The task was sent, with the block's fees. -/
  | committed (fees : ℕ)
  /-- The fee loop indexed past the receipts. -/
  | panicked
  deriving DecidableEq

/-- `commit`: the receipts copied, `Finalize`, and, when the task is sent
(`taskSent`: the worker runs and `select` sends it), the fee loop. -/
def commit (vrfElection : Except ℕ Unit) (taskSent : Bool) (env : Environment) : CommitResult :=
  let receipts := env.receipts
  match finalize vrfElection env with
  | .error e => .failed e
  | .ok block =>
    if taskSent then
      match feesWei receipts 0 0 block.txs with
      | some fees => .committed fees
      | none => .panicked
    else .noTask

/-! ### Receipts stay aligned with transactions -/

/-- `tx` was executed by `ApplyTransaction` on a state `Prepare`d with its hash
and the index `i`, and `r` is the receipt that execution returned. -/
def AppliedAt (tx : Tx) (i : ℕ) (r : Receipt) : Prop :=
  ∃ pool st hd, st.thash = tx.hash ∧ st.txIndex = i ∧ (apply pool st hd tx).result = .ok r

/-- The environment's bookkeeping: `tcount = len(txs) = len(receipts)`, and each
receipt is the one its transaction's execution at its position returned. -/
structure Environment.Consistent (env : Environment) : Prop where
  tcount_eq : env.tcount = env.txs.length
  receipts_length : env.receipts.length = env.txs.length
  applied : ∀ i tx r, env.txs[i]? = some tx → env.receipts[i]? = some r → AppliedAt apply tx i r

variable {apply} {env env' : Environment} {tx : Tx}

theorem Environment.Consistent.frame (hc : env.Consistent apply) (ht : env'.tcount = env.tcount)
    (htx : env'.txs = env.txs) (hr : env'.receipts = env.receipts) : env'.Consistent apply := by
  obtain ⟨h₁, h₂, h₃⟩ := hc
  exact ⟨ht ▸ htx ▸ h₁, hr ▸ htx ▸ h₂, htx ▸ hr ▸ h₃⟩

/-- A transaction applied at the next position, with its receipt, keeps the
bookkeeping consistent. -/
theorem Environment.Consistent.append (hc : env.Consistent apply) {r : Receipt}
    (ha : AppliedAt apply tx env.txs.length r) (ht : env'.tcount = env.tcount + 1)
    (htx : env'.txs = env.txs ++ [tx]) (hr : env'.receipts = env.receipts ++ [r]) :
    env'.Consistent apply := by
  refine ⟨by simp [ht, htx, hc.tcount_eq], by simp [hr, htx, hc.receipts_length], ?_⟩
  intro i tx' r' h₁ h₂
  rw [htx] at h₁
  rw [hr] at h₂
  rcases Nat.lt_or_ge i env.txs.length with hi | hi
  · rw [List.getElem?_append_left hi] at h₁
    rw [List.getElem?_append_left (hc.receipts_length ▸ hi)] at h₂
    exact hc.applied i tx' r' h₁ h₂
  · rw [List.getElem?_append_right hi] at h₁
    rw [List.getElem?_append_right (hc.receipts_length ▸ hi), hc.receipts_length] at h₂
    obtain ⟨k, hk⟩ : ∃ k, i = env.txs.length + k := ⟨i - env.txs.length, by omega⟩
    cases k with
    | zero => simp only [hk, Nat.add_zero, Nat.sub_self] at h₁ h₂ ⊢; cases h₁; cases h₂; exact ha
    | succ k => simp [hk] at h₁

theorem Environment.Consistent.makeCurrent {stateAt : Except ℕ StateDB} {header : WorkHeader}
    (h : makeCurrent stateAt header = .ok env) : env.Consistent apply := by
  cases stateAt with
  | error e => cases h
  | ok st => cases h; exact ⟨rfl, rfl, by simp⟩

/-- A failed `commitTransaction` leaves the count, transactions and receipts. -/
theorem commitTransaction_error {e : TxError} (h : commitTransaction apply env tx = (.error e, env')) :
    env'.tcount = env.tcount ∧ env'.txs = env.txs ∧ env'.receipts = env.receipts := by
  simp only [commitTransaction] at h
  cases hr : (apply (env.gasPool.getD 0) env.state env.header tx).result <;>
    simp only [hr, Prod.mk.injEq, reduceCtorEq, false_and] at h
  obtain ⟨-, rfl⟩ := h
  exact ⟨rfl, rfl, rfl⟩

/-- A successful `commitTransaction` appends the transaction and the receipt
`ApplyTransaction` returned on the environment's state. -/
theorem commitTransaction_ok {logs : List ℕ} (h : commitTransaction apply env tx = (.ok logs, env')) :
    ∃ r, (apply (env.gasPool.getD 0) env.state env.header tx).result = .ok r ∧
      env'.tcount = env.tcount ∧ env'.txs = env.txs ++ [tx] ∧ env'.receipts = env.receipts ++ [r] := by
  simp only [commitTransaction] at h
  cases hr : (apply (env.gasPool.getD 0) env.state env.header tx).result <;>
    simp only [hr, Prod.mk.injEq, reduceCtorEq, false_and] at h
  obtain ⟨-, rfl⟩ := h
  exact ⟨_, rfl, rfl, rfl, rfl⟩

/-- Executing `tx` on the state `Prepare`d with the count keeps the bookkeeping
consistent, whatever the outcome: on success the count advances with the
transaction and its receipt, which was returned at its position. -/
theorem commitTransaction_consistent (hc : env.Consistent apply) :
    match commitTransaction apply { env with state := env.state.prepare tx.hash env.tcount } tx with
    | (.ok _, env') => ({ env' with tcount := env'.tcount + 1 }).Consistent apply
    | (.error _, env') => env'.Consistent apply := by
  rcases h : commitTransaction apply { env with state := env.state.prepare tx.hash env.tcount } tx
    with ⟨_ | logs, env'⟩
  · obtain ⟨ht, htx, hrs⟩ := commitTransaction_error h
    exact hc.frame ht htx hrs
  · obtain ⟨r, hr, ht, htx, hrs⟩ := commitTransaction_ok h
    exact hc.append ⟨_, _, _, rfl, hc.tcount_eq, hr⟩ (by simp [ht]) htx hrs

/-- The loop state an iteration ends in. -/
def Iter.loop : Iter → Loop
  | .next l | .ret _ l | .brk l => l

/-- One iteration keeps the bookkeeping consistent, whatever it reads from the
flag and whatever the transaction's outcome. -/
theorem iteration_consistent {l : Loop} (hc : l.env.Consistent apply) (read : Option Interrupt) :
    (iteration apply read l).loop.env.Consistent apply := by
  unfold iteration
  split
  · exact hc
  · exact hc
  split_ifs
  · exact hc
  split
  · exact hc
  rename_i tx _
  have key := @commitTransaction_consistent apply l.env tx hc
  dsimp only
  split <;> rename_i heq <;> rw [heq] at key <;> exact key

theorem Loops.consistent {flagged : Bool} {l : Loop} {r : Iter} (h : Loops apply flagged l r)
    (hc : l.env.Consistent apply) : r.loop.env.Consistent apply := by
  induction h with
  | @last l read r _ hi _ => exact hi ▸ iteration_consistent hc read
  | @next l l' read r _ hi _ ih =>
    exact ih (by simpa [hi, Iter.loop] using iteration_consistent hc read)

theorem CommitTxs.consistent {flagged : Bool} {txs : TxQueue} {ret : Bool}
    {adjusts : List IntervalAdjust} (h : CommitTxs apply flagged env txs ret env' adjusts)
    (hc : env.Consistent apply) : env'.Consistent apply := by
  obtain ⟨r, l, hl, ha, rfl, -⟩ := h
  have hw : env.withGasPool.Consistent apply := by
    unfold Environment.withGasPool
    split_ifs
    · exact hc.frame rfl rfl rfl
    · exact hc
  have := hl.consistent hw
  cases r <;> simp only [afterLoop, Prod.mk.injEq] at ha <;> obtain ⟨-, rfl⟩ := ha <;>
    first | exact this | (split_ifs <;> exact this)

theorem CycleReach.consistent (h : CycleReach apply env) : env.Consistent apply := by
  induction h with
  | makeCurrent h => exact .makeCurrent h
  | commitTxs _ hc ih => exact hc.consistent ih

/-- The fee loop stays within the receipts when there is one for every
transaction from index `i` on. -/
theorem feesWei_isSome {receipts : List Receipt} {i fees : ℕ} {txs : List Tx}
    (h : i + txs.length ≤ receipts.length) : (feesWei receipts i fees txs).isSome := by
  induction txs generalizing i fees with
  | nil => rfl
  | cons tx txs ih =>
    simp only [List.length_cons] at h
    rw [feesWei, List.getElem?_eq_getElem (by omega)]
    exact ih (by omega)

theorem commit_ne_panicked (hc : env.Consistent apply) (vrfElection : Except ℕ Unit)
    (taskSent : Bool) : commit vrfElection taskSent env ≠ .panicked := by
  cases vrfElection with
  | error e => simp [commit, finalize, Except.map]
  | ok u =>
    have := @feesWei_isSome env.receipts 0 0 env.txs (by simp [hc.receipts_length])
    cases taskSent <;> simp only [commit, finalize, Except.map, if_true, Bool.false_eq_true,
      if_false, ne_eq, reduceCtorEq, not_false_eq_true]
    obtain ⟨fees, hf⟩ := Option.isSome_iff_exists.mp this
    simp [hf]

/-- In every cycle, through `makeCurrent` and any number of
`commitTransactionsWithHeader` calls, whatever their interrupts and
transaction outcomes, `tcount = len(txs) = len(receipts)`, `receipts[i]` is
the receipt `ApplyTransaction` returned for `txs[i]` on a state `Prepare`d with
index `i`, and `commit`'s fee loop never indexes past the receipts. -/
theorem cycle_receipts_consistent (h : CycleReach apply env) :
    env.tcount = env.txs.length ∧ env.receipts.length = env.txs.length ∧
    (∀ i tx r, env.txs[i]? = some tx → env.receipts[i]? = some r → AppliedAt apply tx i r) ∧
    ∀ vrfElection taskSent, commit vrfElection taskSent env ≠ .panicked :=
  have hc := h.consistent
  ⟨hc.tcount_eq, hc.receipts_length, hc.applied, commit_ne_panicked hc⟩

/-- An `ApplyTransaction` under which every transaction succeeds and uses the
least gas. -/
def leastGasApply : ApplyTx := fun pool st hd _ =>
  ⟨.ok ⟨txGas, []⟩, pool - txGas, st, hd.gasUsed + txGas⟩

/-- An `ApplyTransaction` under which a transaction priced 0 fails, and any
other succeeds, using the least gas and logging its hash. -/
def mixedApply : ApplyTx := fun pool st hd tx =>
  if tx.gasPrice = 0 then ⟨.error (.other 1), pool, st, hd.gasUsed⟩
  else ⟨.ok ⟨txGas, [tx.hash]⟩, pool - txGas, { st with world := st.world + 1 }, hd.gasUsed + txGas⟩

/-- A cycle of two calls. The first, with a flag, applies one account's two
transactions, the second of which fails, and then reads a resubmit interrupt;
the second, without a flag, applies one more transaction, at index 1. -/
theorem cycle_receipts_consistent_interrupted :
    ∃ env, CycleReach mixedApply env ∧ env.txs = [⟨1, 5⟩, ⟨3, 7⟩] ∧
      (env.tcount = env.txs.length ∧ env.receipts.length = env.txs.length ∧
      (∀ i tx r, env.txs[i]? = some tx → env.receipts[i]? = some r →
        AppliedAt mixedApply tx i r) ∧
      ∀ vrfElection taskSent, commit vrfElection taskSent env ≠ .panicked) := by
  have h₀ : makeCurrent (.ok ⟨0, 0, 0⟩) ⟨100000, 0⟩ = .ok ⟨⟨0, 0, 0⟩, 0, none, ⟨100000, 0⟩, [], []⟩ := rfl
  have h₁ := @CycleReach.commitTxs mixedApply _ _ true ⟨[[⟨1, 5⟩, ⟨2, 0⟩]]⟩ false _ (.makeCurrent h₀)
    ⟨_, _, @Loops.next mixedApply true _ _ (some .none) _ rfl rfl
      (@Loops.next mixedApply true _ _ (some .none) _ rfl rfl
        (@Loops.last mixedApply true _ (some .resubmit) _ rfl rfl (by intro _ h; cases h))),
    rfl, rfl, rfl⟩
  obtain ⟨env, h₂, htxs⟩ : ∃ env, CycleReach mixedApply env ∧ env.txs = [⟨1, 5⟩, ⟨3, 7⟩] :=
    ⟨_, @CycleReach.commitTxs mixedApply _ _ false ⟨[[⟨3, 7⟩]]⟩ false _ h₁
      ⟨_, _, @Loops.next mixedApply false _ _ none _ rfl rfl
        (@Loops.last mixedApply false _ none _ rfl rfl (by intro _ h; cases h)), rfl, rfl, rfl⟩, rfl⟩
  exact ⟨env, h₂, htxs, cycle_receipts_consistent h₂⟩

end Venachain.Miner
