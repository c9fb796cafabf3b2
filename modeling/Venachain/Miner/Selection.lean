import Venachain.Miner.Worker
import Mathlib.Data.List.Perm.Subperm

/-!
# Which transactions a cycle applies

`commitTransactionsWithHeader` (miner/worker.go, lines 686–759) takes the next
transaction from `types.TransactionsByPriceAndNonce`, executes it, and then
calls `Pop`, which drops the transaction's account, after
`ErrGasLimitReached` and `ErrNonceTooHigh`, or `Shift`, which advances the
account to its next transaction, after `ErrNonceTooLow`, any other error and
success. `commitNewWork` (lines 855–889) runs it on the local accounts'
transactions and then, unless that call returned true, on the remote ones.

The queue is modelled from the spec (`TxQueue`): each account's transactions
in nonce order, the accounts by the price of their next transaction. A run of
the loop is `Attempts`, the run `Loops` describes together with the
transactions it attempted.

What is proved, for every pending map, every sequence of `ApplyTransaction`
outcomes and every sequence of interrupt values:

* `attempts_in_queue_order`: one call attempts each account's transactions in
  its queue's order; after `ErrNonceTooHigh` or `ErrGasLimitReached` it
  attempts none of that account's transactions again, and after any other
  outcome the account's next transaction heads its queue.
* `fillBlock_applies_once`: the local/remote split partitions the pending
  accounts, the two calls of `commitNewWork` together apply each pending
  transaction at most once, so at most as many times as there are pending
  transactions, and the loop terminates: each iteration that applies a
  transaction removes it from the queue.
-/

namespace Venachain.Miner

/-! ### The queue's contents -/

namespace TxQueue

/-- The transactions the queue holds, account after account. -/
def all (q : TxQueue) : List Tx := q.accounts.flatten

theorem insert_perm (tx : Tx) (txs : List Tx) (accs : List (List Tx)) :
    (insert tx txs accs).Perm ((tx :: txs) :: accs) := by
  induction accs with
  | nil => exact .rfl
  | cons acc accs ih =>
    unfold insert
    split_ifs
    · exact .rfl
    · exact (ih.cons acc).trans (.swap _ _ _)

/-- Putting an account back by price changes nothing a filter sees, when the
filter keeps transactions of that account only or of no other. -/
theorem filter_insert (p : Tx → Bool) {tx : Tx} {txs : List Tx} {accs : List (List Tx)}
    (hp : ∀ acc ∈ accs, (tx :: txs).filter p = [] ∨ acc.filter p = []) :
    (insert tx txs accs).flatten.filter p = (tx :: txs).filter p ++ accs.flatten.filter p := by
  induction accs with
  | nil => simp [insert]
  | cons acc accs ih =>
    unfold insert
    split_ifs
    · rw [List.flatten_cons, List.filter_append]
    · rw [List.flatten_cons, List.filter_append, ih fun a ha => hp a (List.mem_cons_of_mem _ ha),
        List.flatten_cons, List.filter_append]
      rcases hp acc (List.mem_cons_self _ _) with h | h <;> simp [h]

theorem peek_eq_some {q : TxQueue} {tx : Tx} (h : q.peek = some tx) :
    ∃ rest accs, q.accounts = (tx :: rest) :: accs := by
  obtain ⟨accounts⟩ := q
  rcases accounts with _ | ⟨_ | ⟨tx', rest⟩, accs⟩ <;> simp [peek] at h
  exact ⟨rest, accs, by rw [h]⟩

section Head

variable {q : TxQueue} {tx : Tx} {rest : List Tx} {accs : List (List Tx)}

theorem pop_accounts (h : q.accounts = (tx :: rest) :: accs) : q.pop.accounts = accs := by
  simp [pop, h]

theorem shift_accounts (h : q.accounts = (tx :: rest) :: accs) :
    q.shift.accounts = match rest with
      | [] => accs
      | tx' :: txs => insert tx' txs accs := by
  rcases rest with _ | ⟨tx', txs⟩ <;> simp [shift, h]

/-- `Shift` removes the head transaction and keeps the rest. -/
theorem shift_perm (h : q.accounts = (tx :: rest) :: accs) : (tx :: q.shift.all).Perm q.all := by
  rw [all, all, h, shift_accounts h, List.flatten_cons, List.cons_append]
  refine .cons tx ?_
  rcases rest with _ | ⟨tx', txs⟩
  · exact .rfl
  · exact (insert_perm tx' txs accs).flatten

/-- `Pop` removes the head transaction and the rest of its account. -/
theorem pop_subperm (h : q.accounts = (tx :: rest) :: accs) : (tx :: q.pop.all).Subperm q.all := by
  rw [all, all, h, pop_accounts h, List.flatten_cons, List.cons_append]
  exact (List.subperm_cons tx).mpr (List.sublist_append_right _ _).subperm

end Head

/-! ### Accounts -/

section Accounts

variable (sender : Tx → ℕ)

/-- The queue's accounts are accounts of `sender`: each holds transactions of
one sender, and no two hold the same sender's. -/
structure WellFormed (q : TxQueue) : Prop where
  one_sender : ∀ acc ∈ q.accounts, ∀ tx ∈ acc, ∀ tx' ∈ acc, sender tx = sender tx'
  disjoint : q.accounts.Pairwise fun acc acc' => ∀ tx ∈ acc, ∀ tx' ∈ acc', sender tx ≠ sender tx'

/-- The transactions of sender `a` still in the queue, in the queue's order. -/
def ofSender (q : TxQueue) (a : ℕ) : List Tx := q.all.filter fun tx => sender tx = a

variable {sender} {q : TxQueue} {tx : Tx} {rest : List Tx} {accs : List (List Tx)} {a : ℕ}

theorem filter_sender_nil {l : List Tx} (h : ∀ y ∈ l, sender y ≠ a) :
    l.filter (fun y => sender y = a) = [] :=
  List.filter_eq_nil_iff.mpr fun y hy => by simpa using h y hy

theorem filter_sender_self {l : List Tx} (h : ∀ y ∈ l, sender y = a) :
    l.filter (fun y => sender y = a) = l :=
  List.filter_eq_self.mpr fun y hy => by simpa using h y hy

theorem filter_sender_flatten_nil (h : ∀ acc ∈ accs, ∀ y ∈ acc, sender y ≠ a) :
    accs.flatten.filter (fun y => sender y = a) = [] :=
  filter_sender_nil fun y hy => by
    obtain ⟨acc, hacc, hy⟩ := List.mem_flatten.mp hy
    exact h acc hacc y hy

/-- In a well-formed queue whose first account is `tx :: rest`, the rest of the
account is the sender's, and no other account holds any of the sender's. -/
theorem WellFormed.head (hq : q.WellFormed sender) (h : q.accounts = (tx :: rest) :: accs) :
    (∀ y ∈ tx :: rest, sender y = sender tx) ∧ ∀ acc ∈ accs, ∀ y ∈ acc, sender y ≠ sender tx := by
  have hd := hq.disjoint
  rw [h] at hd
  exact ⟨fun y hy => hq.one_sender _ (h ▸ List.mem_cons_self _ _) _ hy _ (List.mem_cons_self _ _),
    fun acc hacc y hy => (List.rel_of_pairwise_cons hd hacc tx (List.mem_cons_self _ _) y hy).symm⟩

theorem ofSender_head (hq : q.WellFormed sender) (h : q.accounts = (tx :: rest) :: accs) :
    q.ofSender sender a =
      if a = sender tx then tx :: rest else accs.flatten.filter fun y => sender y = a := by
  obtain ⟨hrest, haccs⟩ := hq.head h
  rw [ofSender, all, h, List.flatten_cons, List.filter_append]
  split_ifs with ha
  · subst ha
    rw [filter_sender_self hrest, filter_sender_flatten_nil haccs, List.append_nil]
  · rw [filter_sender_nil fun y hy => (hrest y hy).symm ▸ Ne.symm ha, List.nil_append]

/-- `Pop` empties the head account's sender and leaves every other sender. -/
theorem ofSender_pop (hq : q.WellFormed sender) (h : q.accounts = (tx :: rest) :: accs) :
    q.pop.ofSender sender a = if a = sender tx then [] else q.ofSender sender a := by
  rw [ofSender_head hq h, ofSender, all, pop_accounts h]
  split_ifs with ha
  · exact filter_sender_flatten_nil (ha ▸ (hq.head h).2)
  · rfl

/-- Putting back an account of sender `b` by price: sender `b`'s transactions
are that account, and every other sender's are unchanged. -/
theorem ofSender_insert {txs : List Tx} {b : ℕ} (htxs : ∀ y ∈ tx :: txs, sender y = b)
    (haccs : ∀ acc ∈ accs, ∀ y ∈ acc, sender y ≠ b) :
    (⟨insert tx txs accs⟩ : TxQueue).ofSender sender a =
      if a = b then tx :: txs else (⟨accs⟩ : TxQueue).ofSender sender a := by
  rw [ofSender, all]
  split_ifs with ha
  · subst ha
    rw [filter_insert _ fun acc hacc => .inr (filter_sender_nil (haccs acc hacc)),
      filter_sender_self htxs, filter_sender_flatten_nil haccs, List.append_nil]
  · have hnil := filter_sender_nil fun y hy => (htxs y hy).symm ▸ Ne.symm ha
    rw [filter_insert _ fun _ _ => .inl hnil, hnil, List.nil_append]
    rfl

/-- `Shift` advances the head account's sender to its next transaction and
leaves every other sender. -/
theorem ofSender_shift (hq : q.WellFormed sender) (h : q.accounts = (tx :: rest) :: accs) :
    q.shift.ofSender sender a = if a = sender tx then rest else q.ofSender sender a := by
  obtain ⟨hrest, haccs⟩ := hq.head h
  have hs : q.shift = ⟨q.shift.accounts⟩ := rfl
  rw [ofSender_head hq h, hs, shift_accounts h]
  rcases rest with _ | ⟨tx', txs⟩
  · split_ifs with ha
    · exact filter_sender_flatten_nil (ha ▸ haccs)
    · rfl
  · rw [ofSender_insert (fun y hy => hrest y (List.mem_cons_of_mem _ hy)) haccs]
    split_ifs <;> rfl

/-- In a well-formed queue a sender's transactions, when it has any, are one
of the queue's accounts, so the first of them is the account's head. -/
theorem WellFormed.ofSender_mem (hq : q.WellFormed sender) (h : q.ofSender sender a = tx :: rest) :
    tx :: rest ∈ q.accounts := by
  obtain ⟨accounts⟩ := q
  induction accounts with
  | nil => cases h
  | cons acc accs ih =>
    have hd := hq.disjoint
    rw [ofSender, all, List.flatten_cons, List.filter_append] at h
    by_cases ha : ∀ y ∈ acc, sender y ≠ a
    · rw [filter_sender_nil ha, List.nil_append] at h
      exact List.mem_cons_of_mem _ <|
        ih ⟨fun acc' h' => hq.one_sender acc' (List.mem_cons_of_mem _ h'), hd.of_cons⟩ h
    · push_neg at ha
      obtain ⟨y, hy, rfl⟩ := ha
      have hself : ∀ z ∈ acc, sender z = sender y := fun z hz =>
        hq.one_sender acc (List.mem_cons_self _ _) z hz y hy
      have hothers : ∀ acc' ∈ accs, ∀ z ∈ acc', sender z ≠ sender y := fun acc' h' z hz =>
        (List.rel_of_pairwise_cons hd h' y hy z hz).symm
      rw [filter_sender_self hself, filter_sender_flatten_nil hothers, List.append_nil] at h
      exact h ▸ List.mem_cons_self _ _

theorem WellFormed.pop (hq : q.WellFormed sender) : q.pop.WellFormed sender :=
  ⟨fun acc hacc => hq.one_sender acc (List.mem_of_mem_tail hacc),
    hq.disjoint.sublist (List.tail_sublist _)⟩

/-- Putting back an account of sender `a` by price keeps the queue well formed
when no other account holds the sender's transactions. -/
theorem WellFormed.insert (hq : WellFormed sender ⟨accs⟩) (htxs : ∀ y ∈ tx :: rest, sender y = a)
    (haccs : ∀ acc ∈ accs, ∀ y ∈ acc, sender y ≠ a) : WellFormed sender ⟨insert tx rest accs⟩ := by
  have hperm := insert_perm tx rest accs
  constructor
  · intro acc hacc
    rcases List.mem_cons.mp (hperm.mem_iff.mp hacc) with rfl | hacc
    · intro y hy z hz; rw [htxs y hy, htxs z hz]
    · exact hq.one_sender acc hacc
  · refine (hperm.pairwise_iff fun h y hy z hz => (h z hz y hy).symm).mpr
      (List.pairwise_cons.mpr ⟨fun acc hacc y hy z hz => ?_, hq.disjoint⟩)
    rw [htxs y hy]; exact (haccs acc hacc z hz).symm

theorem WellFormed.shift (hq : q.WellFormed sender) (h : q.accounts = (tx :: rest) :: accs) :
    q.shift.WellFormed sender := by
  obtain ⟨hrest, haccs⟩ := hq.head h
  have hd := hq.disjoint
  rw [h] at hd
  have htail : WellFormed sender ⟨accs⟩ :=
    ⟨fun acc hacc => hq.one_sender acc (h ▸ List.mem_cons_of_mem _ hacc), hd.of_cons⟩
  have hs : q.shift = ⟨q.shift.accounts⟩ := rfl
  rcases rest with _ | ⟨tx', txs⟩ <;> rw [hs, shift_accounts h]
  · exact htail
  · exact htail.insert (fun y hy => hrest y (List.mem_cons_of_mem _ hy)) haccs
end Accounts

/-! ### The pending map -/

/-- Modelled from the spec: `NewTransactionsByPriceAndNonce(signer, txs)`, each
account's transactions behind its first, the accounts put in by the price of
their first transaction. -/
def ofPending (p : List (ℕ × List Tx)) : TxQueue :=
  ⟨p.foldr (fun e accs => match e.2 with
    | [] => accs
    | tx :: txs => insert tx txs accs) []⟩

theorem ofPending_cons (p : List (ℕ × List Tx)) (b : ℕ) (tx : Tx) (txs : List Tx) :
    ofPending ((b, tx :: txs) :: p) = ⟨insert tx txs (ofPending p).accounts⟩ := rfl

theorem all_ofPending (p : List (ℕ × List Tx)) : (ofPending p).all.Perm (p.flatMap Prod.snd) := by
  induction p with
  | nil => exact .rfl
  | cons e p ih =>
    obtain ⟨a, _ | ⟨tx, txs⟩⟩ := e
    · exact ih
    · exact (insert_perm tx txs _).flatten.trans (ih.append_left _)

end TxQueue

/-- `pending` of `commitNewWork`, the result of `PendingLimited()`: the pending
transactions of each account, in nonce order. -/
abbrev Pending := List (ℕ × List Tx)

/-- What `PendingLimited()` promises of `pending`: it is a Go map, so no account
stands twice, and the transactions listed under an account are sent from it. -/
structure Pending.Valid (sender : Tx → ℕ) (p : Pending) : Prop where
  nodup : (p.map Prod.fst).Nodup
  sender_eq : ∀ e ∈ p, ∀ tx ∈ e.2, sender tx = e.1

theorem Pending.lookup_cons (p : Pending) (b a : ℕ) (txs : List Tx) :
    ((b, txs) :: p).lookup a = if a = b then some txs else p.lookup a := by
  by_cases h : a = b
  · simp [h]
  · simp [List.lookup_cons, beq_false_of_ne h, h]

/-- With no account twice, the entry of a key can be taken out to the front. -/
theorem Pending.perm_of_lookup {p : Pending} {a : ℕ} {txs : List Tx} (hk : (p.map Prod.fst).Nodup)
    (h : p.lookup a = some txs) : p.Perm ((a, txs) :: p.filter fun e => e.1 != a) := by
  induction p with
  | nil => cases h
  | cons e p ih =>
    obtain ⟨b, v⟩ := e
    obtain ⟨hb, hk⟩ := List.nodup_cons.mp hk
    rw [Pending.lookup_cons] at h
    split_ifs at h with hab
    · cases h
      subst hab
      rw [List.filter_cons_of_neg (by simp), List.filter_eq_self.mpr fun e he =>
        bne_iff_ne.mpr fun heq => hb (List.mem_map.mpr ⟨e, he, heq⟩)]
    · have hf : ((b, v) :: p).filter (fun e => e.1 != a) = (b, v) :: p.filter fun e => e.1 != a :=
        List.filter_cons_of_pos (bne_iff_ne.mpr (Ne.symm hab))
      rw [hf]
      exact ((ih hk h).cons _).trans (.swap _ _ _)

theorem Pending.Valid.of_cons {sender : Tx → ℕ} {p : Pending} {b : ℕ} {txs : List Tx}
    (hp : Pending.Valid sender ((b, txs) :: p)) : Pending.Valid sender p :=
  ⟨(List.nodup_cons.mp hp.nodup).2, fun e he => hp.sender_eq e (List.mem_cons_of_mem _ he)⟩

namespace TxQueue

section Pending

variable {sender : Tx → ℕ} {p : Pending} {b : ℕ} {txs : List Tx}

/-- No transaction of the rest of a valid map is sent from its first account. -/
theorem sender_ne_of_mem_ofPending (hp : Pending.Valid sender ((b, txs) :: p)) :
    ∀ y ∈ (ofPending p).all, sender y ≠ b := by
  intro y hy hb
  obtain ⟨e, he, hye⟩ := List.mem_flatMap.mp ((all_ofPending p).mem_iff.mp hy)
  rw [hp.sender_eq e (List.mem_cons_of_mem _ he) y hye] at hb
  exact (List.nodup_cons.mp hp.nodup).1 (List.mem_map.mpr ⟨e, he, hb⟩)

/-- The queue of a valid map is well formed. -/
theorem WellFormed.ofPending (hp : Pending.Valid sender p) : (ofPending p).WellFormed sender := by
  induction p with
  | nil => exact ⟨fun _ h => (List.not_mem_nil _ h).elim, .nil⟩
  | cons e p ih =>
    obtain ⟨b, _ | ⟨tx, txs⟩⟩ := e
    · exact ih hp.of_cons
    · refine (ih hp.of_cons).insert (hp.sender_eq _ (List.mem_cons_self _ _)) fun acc hacc y hy =>
        sender_ne_of_mem_ofPending hp y (List.mem_flatten.mpr ⟨acc, hacc, hy⟩)

/-- The transactions of sender `a` in the queue of a valid map are the ones
the map lists under `a`. -/
theorem ofSender_ofPending (hp : Pending.Valid sender p) (a : ℕ) :
    (ofPending p).ofSender sender a = (p.lookup a).getD [] := by
  induction p with
  | nil => rfl
  | cons e p ih =>
    obtain ⟨b, txs⟩ := e
    have hrest := sender_ne_of_mem_ofPending hp
    rw [Pending.lookup_cons]
    rcases txs with _ | ⟨tx, txs⟩
    · split_ifs with ha
      · exact filter_sender_nil (ha ▸ hrest)
      · exact ih hp.of_cons
    · rw [ofPending_cons, ofSender_insert (hp.sender_eq _ (List.mem_cons_self _ _))
        fun acc hacc y hy => hrest y (List.mem_flatten.mpr ⟨acc, hacc, hy⟩)]
      split_ifs
      · rfl
      · exact ih hp.of_cons

end Pending

end TxQueue

/-! ### The loop and the transactions it attempts -/

/-- The outcomes after which the loop calls `Pop`: `ErrGasLimitReached` and
`ErrNonceTooHigh`; after the others it calls `Shift`. -/
def Pops : Except TxError (List ℕ) → Bool
  | .error .gasLimitReached | .error .nonceTooHigh => true
  | _ => false

theorem pops_iff {res : Except TxError (List ℕ)} :
    Pops res ↔ res = .error .gasLimitReached ∨ res = .error .nonceTooHigh := by
  rcases res with (_ | _ | _ | _) | _ <;> simp [Pops]

/-- A transaction the loop attempted: the transaction, what `commitTransaction`
returned, and the queue the iteration left. -/
structure Attempt where
  /-- The transaction `Peek` returned. -/
  tx : Tx
  /-- The logs, or the error. -/
  result : Except TxError (List ℕ)
  /-- The pending transactions after `Pop` or `Shift`. -/
  txs : TxQueue

variable (apply : ApplyTx)

/-- The runs of `Loops`, with the transactions the iterations attempted. -/
inductive Attempts (flagged : Bool) : Loop → List Attempt → Iter → Prop
  | last {l : Loop} {read : Option Interrupt} {r : Iter} : Reads flagged read →
      iteration apply read l = r → (∀ l', r ≠ .next l') → Attempts flagged l [] r
  | next {l l' : Loop} {read : Option Interrupt} {tx : Tx} {tr : List Attempt} {r : Iter} :
      Reads flagged read → iteration apply read l = .next l' → l.txs.peek = some tx →
      Attempts flagged l' tr r →
      Attempts flagged l (⟨tx, (commitTransaction apply
        { l.env with state := l.env.state.prepare tx.hash l.env.tcount } tx).1, l'.txs⟩ :: tr) r

/-- The transactions of sender `a` among the attempts, in order. -/
def attemptedBy (sender : Tx → ℕ) (a : ℕ) (tr : List Attempt) : List Tx :=
  (tr.map Attempt.tx).filter fun tx => sender tx = a

variable {apply} {flagged : Bool} {l l' : Loop} {tr : List Attempt} {r : Iter}

/-- An iteration that goes on to the next one applied the queue's next
transaction, and then called `Pop` or `Shift` as its outcome says. -/
theorem iteration_eq_next {read : Option Interrupt} (h : iteration apply read l = .next l') :
    ∃ tx, l.txs.peek = some tx ∧
      l'.txs = if Pops (commitTransaction apply
        { l.env with state := l.env.state.prepare tx.hash l.env.tcount } tx).1
        then l.txs.pop else l.txs.shift := by
  unfold iteration at h
  split at h
  · cases h
  · cases h
  split_ifs at h
  generalize hp : l.txs.peek = p at h
  cases p with
  | none => cases h
  | some tx =>
    refine ⟨tx, rfl, ?_⟩
    dsimp only at h
    split at h <;> rename_i heq <;> cases h <;> simp [heq, Pops]

/-- An iteration that goes on removes the transaction it applied from the queue. -/
theorem iteration_next_subperm {read : Option Interrupt} (h : iteration apply read l = .next l') :
    ∃ tx, l.txs.peek = some tx ∧ (tx :: l'.txs.all).Subperm l.txs.all := by
  obtain ⟨tx, hpeek, hl'⟩ := iteration_eq_next h
  obtain ⟨rest, accs, hacc⟩ := TxQueue.peek_eq_some hpeek
  refine ⟨tx, hpeek, ?_⟩
  rw [hl']
  split_ifs
  · exact TxQueue.pop_subperm hacc
  · exact (TxQueue.shift_perm hacc).subperm

/-- The loop terminates: no sequence of iterations goes on forever. -/
theorem iteration_wellFounded :
    WellFounded fun l' l : Loop => ∃ read, iteration apply read l = .next l' :=
  Subrelation.wf (fun ⟨_, h⟩ => by obtain ⟨_, _, hs⟩ := iteration_next_subperm h; exact hs.length_le)
    (measure fun l : Loop => l.txs.all.length).wf

theorem Attempts.loops (h : Attempts apply flagged l tr r) : Loops apply flagged l r := by
  induction h with
  | last hr hi hn => exact .last hr hi hn
  | next hr hi _ _ ih => exact .next hr hi ih

/-- Every run of the loop has its attempts. -/
theorem Loops.attempts (h : Loops apply flagged l r) : ∃ tr, Attempts apply flagged l tr r := by
  induction h with
  | last hr hi hn => exact ⟨[], .last hr hi hn⟩
  | next hr hi _ ih =>
    obtain ⟨tr, htr⟩ := ih
    obtain ⟨tx, hpeek, -⟩ := iteration_eq_next hi
    exact ⟨_, .next hr hi hpeek htr⟩

/-- A run attempts each transaction of the queue at most once. -/
theorem Attempts.subperm (h : Attempts apply flagged l tr r) : (tr.map Attempt.tx).Subperm l.txs.all := by
  induction h with
  | last => exact List.nil_subperm
  | next _ hi hpeek _ ih =>
    obtain ⟨tx, hpeek', hs⟩ := iteration_next_subperm hi
    cases hpeek.symm.trans hpeek'
    exact ((List.subperm_cons _).mpr ih).trans hs

section Order

variable {sender : Tx → ℕ} {a : ℕ}

@[simp] theorem attemptedBy_nil : attemptedBy sender a [] = [] := rfl

theorem attemptedBy_cons (x : Attempt) (tr : List Attempt) :
    attemptedBy sender a (x :: tr) =
      if sender x.tx = a then x.tx :: attemptedBy sender a tr else attemptedBy sender a tr := by
  by_cases h : sender x.tx = a <;> simp [attemptedBy, h]

theorem mem_attemptedBy {pre post : List Attempt} {x : Attempt} (ha : sender x.tx = a) :
    x.tx ∈ attemptedBy sender a (pre ++ x :: post) := by
  simp [attemptedBy, ha]

/-- One iteration on a well-formed queue: the queue it leaves is well formed,
the attempted transaction heads its sender's transactions, and its sender
loses them all after `Pop` and the first after `Shift`. -/
theorem Attempts.next_step {read : Option Interrupt} {tx : Tx}
    (hq : l.txs.WellFormed sender) (hi : iteration apply read l = .next l')
    (hpeek : l.txs.peek = some tx) :
    l'.txs.WellFormed sender ∧
    ∃ rest, l.txs.ofSender sender (sender tx) = tx :: rest ∧
      ∀ b, l'.txs.ofSender sender b = if b = sender tx then
        (if Pops (commitTransaction apply
          { l.env with state := l.env.state.prepare tx.hash l.env.tcount } tx).1 then [] else rest)
        else l.txs.ofSender sender b := by
  obtain ⟨tx', hpeek', hl'⟩ := iteration_eq_next hi
  cases hpeek.symm.trans hpeek'
  obtain ⟨rest, accs, hacc⟩ := TxQueue.peek_eq_some hpeek
  refine ⟨?_, rest, by rw [TxQueue.ofSender_head hq hacc, if_pos rfl], fun b => ?_⟩ <;> rw [hl']
  · split_ifs
    · exact hq.pop
    · exact hq.shift hacc
  · split_ifs with hp hb hb <;>
      simp only [TxQueue.ofSender_pop hq hacc, TxQueue.ofSender_shift hq hacc, hb, if_true, if_false]

/-- Every queue a run from a well-formed queue leaves is well formed. -/
theorem Attempts.wellFormed (h : Attempts apply flagged l tr r) (hq : l.txs.WellFormed sender) :
    ∀ x ∈ tr, x.txs.WellFormed sender := by
  induction h with
  | last => exact fun _ h => (List.not_mem_nil _ h).elim
  | next _ hi hpeek _ ih =>
    have hq' := (Attempts.next_step hq hi hpeek).1
    exact List.forall_mem_cons.mpr ⟨hq', ih hq'⟩

variable (a) in
/-- Over a run from a well-formed queue, sender `a`'s attempts are its first
transactions in the queue's order. -/
theorem Attempts.attemptedBy_prefix (h : Attempts apply flagged l tr r)
    (hq : l.txs.WellFormed sender) : attemptedBy sender a tr <+: l.txs.ofSender sender a := by
  induction h with
  | last => exact List.nil_prefix
  | @next l l' read tx tr r _ hi hpeek _ ih =>
    obtain ⟨hq', rest, hhead, hstep⟩ := Attempts.next_step hq hi hpeek
    have ih := ih hq'
    rw [hstep] at ih
    rw [attemptedBy_cons]
    by_cases ha : sender tx = a
    · subst ha
      rw [if_pos rfl, hhead, List.prefix_cons_inj]
      rw [if_pos rfl] at ih
      split_ifs at ih
      · rw [List.prefix_nil.mp ih]; exact List.nil_prefix
      · exact ih
    · rw [if_neg ha]
      rwa [if_neg (Ne.symm ha)] at ih

variable (a) in
/-- After an attempt the loop answers with `Pop`, the sender has nothing left
and is not attempted again. -/
theorem Attempts.ofSender_pop (h : Attempts apply flagged l tr r) (hq : l.txs.WellFormed sender) :
    ∀ pre x post, tr = pre ++ x :: post → sender x.tx = a → Pops x.result →
      x.txs.ofSender sender a = [] ∧ attemptedBy sender a post = [] := by
  induction h with
  | last => intro pre _ _ h; simp at h
  | @next l l' read tx tr r _ hi hpeek hrun ih =>
    obtain ⟨hq', _, -, hstep⟩ := Attempts.next_step hq hi hpeek
    rintro (_ | ⟨y, pre⟩) x post htr hx hp
    · obtain ⟨rfl, rfl⟩ := List.cons.inj htr
      subst hx
      have hnil : l'.txs.ofSender sender (sender tx) = [] := by rw [hstep, if_pos rfl, if_pos hp]
      exact ⟨hnil, List.prefix_nil.mp (hnil ▸ hrun.attemptedBy_prefix _ hq')⟩
    · exact ih hq' pre x post (List.cons.inj htr).2 hx hp

variable (a) in
/-- After an attempt the loop answers with `Shift`, the sender's transactions
left are those after the ones attempted so far. -/
theorem Attempts.ofSender_shift (h : Attempts apply flagged l tr r) (hq : l.txs.WellFormed sender) :
    ∀ pre x post, tr = pre ++ x :: post → sender x.tx = a → Pops x.result = false →
      x.txs.ofSender sender a =
        (l.txs.ofSender sender a).drop ((attemptedBy sender a pre).length + 1) := by
  induction h with
  | last => intro pre _ _ h; simp at h
  | @next l l' read tx tr r _ hi hpeek hrun ih =>
    obtain ⟨hq', rest, hhead, hstep⟩ := Attempts.next_step hq hi hpeek
    rintro (_ | ⟨y, pre⟩) x post htr hx hp
    · obtain ⟨rfl, rfl⟩ := List.cons.inj htr
      subst hx
      dsimp only at hp
      rw [hstep, if_pos rfl, if_neg (by simp [hp]), hhead]
      rfl
    · simp only [List.cons_append, List.cons.injEq] at htr
      obtain ⟨rfl, htr⟩ := htr
      rw [ih hq' pre x post htr hx hp, attemptedBy_cons, hstep]
      dsimp only
      by_cases ha : sender tx = a
      · subst ha
        rw [if_pos rfl, if_pos rfl]
        split_ifs with hpop
        · have hnil := hrun.attemptedBy_prefix (sender tx) hq'
          rw [hstep, if_pos rfl, if_pos hpop, List.prefix_nil, htr] at hnil
          exact absurd hnil (List.ne_nil_of_mem (mem_attemptedBy hx))
        · rw [hhead]; rfl
      · rw [if_neg ha, if_neg (Ne.symm ha)]

/-- For every valid pending map, every sequence of `ApplyTransaction` outcomes
and every sequence of interrupt reads, one `commitTransactionsWithHeader` call
attempts each sender's transactions in the order the map lists them; after
`ErrNonceTooHigh` or `ErrGasLimitReached` none of the sender's transactions is
left or attempted again; after any other outcome the sender's remaining
transactions are the listed ones after those attempted, and head an account
of the queue. -/
theorem attempts_in_queue_order {sender : Tx → ℕ} {pending : Pending} (hp : pending.Valid sender)
    {flagged : Bool} {env : Environment} {tr : List Attempt} {r : Iter}
    (h : Attempts apply flagged ⟨env.withGasPool, TxQueue.ofPending pending, []⟩ tr r) (a : ℕ) :
    attemptedBy sender a tr <+: (pending.lookup a).getD [] ∧
    (∀ pre x post, tr = pre ++ x :: post → sender x.tx = a →
      (x.result = .error .nonceTooHigh ∨ x.result = .error .gasLimitReached) →
      x.txs.ofSender sender a = [] ∧ attemptedBy sender a post = []) ∧
    (∀ pre x post, tr = pre ++ x :: post → sender x.tx = a →
      x.result ≠ .error .nonceTooHigh → x.result ≠ .error .gasLimitReached →
      x.txs.ofSender sender a = ((pending.lookup a).getD []).drop ((attemptedBy sender a pre).length + 1) ∧
      ∀ tx rest, x.txs.ofSender sender a = tx :: rest → tx :: rest ∈ x.txs.accounts) := by
  have hq := TxQueue.WellFormed.ofPending hp
  have h₁ := h.attemptedBy_prefix a hq
  have h₃ := h.ofSender_shift a hq
  rw [TxQueue.ofSender_ofPending hp] at h₁ h₃
  refine ⟨h₁, fun pre x post htr hx hres => h.ofSender_pop a hq pre x post htr hx (pops_iff.mpr hres.symm),
    fun pre x post htr hx hr₁ hr₂ => ⟨h₃ pre x post htr hx
      (Bool.eq_false_iff.mpr fun hp => (pops_iff.mp hp).elim hr₂ hr₁), fun tx rest hrest => ?_⟩⟩
  exact (h.wellFormed hq x (htr ▸ List.mem_append_right _ (List.mem_cons_self _ _))).ofSender_mem hrest

/-- An `ApplyTransaction` under which the transaction with hash 11 has a nonce
too high, the one with hash 20 a nonce too low, and every other succeeds. -/
def nonceApply : ApplyTx := fun pool st hd tx =>
  if tx.hash = 11 then ⟨.error .nonceTooHigh, pool, st, hd.gasUsed⟩
  else if tx.hash = 20 then ⟨.error .nonceTooLow, pool, st, hd.gasUsed⟩
  else ⟨.ok ⟨txGas, []⟩, pool - txGas, st, hd.gasUsed + txGas⟩

/-- Account 1 with three transactions at price 5, account 2 with two at prices
7 and 3; a transaction is sent from the tens of its hash. -/
def twoAccounts : Pending := [(1, [⟨10, 5⟩, ⟨11, 5⟩, ⟨12, 5⟩]), (2, [⟨20, 7⟩, ⟨21, 3⟩])]

/-- Account 2's first transaction fails with its nonce too low, and `Shift`
brings its second behind account 1; account 1's first succeeds and `Shift`
brings its second, whose nonce is too high: `Pop` drops the account, and its
third transaction is never attempted. -/
theorem attempts_in_queue_order_two_accounts :
    Pending.Valid (·.hash / 10) twoAccounts ∧
    ∃ tr r, Attempts nonceApply false
        ⟨Environment.withGasPool ⟨⟨0, 0, 0⟩, 0, none, ⟨100000, 0⟩, [], []⟩,
          TxQueue.ofPending twoAccounts, []⟩ tr r ∧
      tr.map Attempt.tx = [⟨20, 7⟩, ⟨10, 5⟩, ⟨11, 5⟩, ⟨21, 3⟩] ∧
      ∀ a, attemptedBy (·.hash / 10) a tr <+: (twoAccounts.lookup a).getD [] ∧
        (∀ pre x post, tr = pre ++ x :: post → x.tx.hash / 10 = a →
          (x.result = .error .nonceTooHigh ∨ x.result = .error .gasLimitReached) →
          x.txs.ofSender (·.hash / 10) a = [] ∧ attemptedBy (·.hash / 10) a post = []) ∧
        (∀ pre x post, tr = pre ++ x :: post → x.tx.hash / 10 = a →
          x.result ≠ .error .nonceTooHigh → x.result ≠ .error .gasLimitReached →
          x.txs.ofSender (·.hash / 10) a =
            ((twoAccounts.lookup a).getD []).drop ((attemptedBy (·.hash / 10) a pre).length + 1) ∧
          ∀ tx rest, x.txs.ofSender (·.hash / 10) a = tx :: rest → tx :: rest ∈ x.txs.accounts) := by
  have hv : Pending.Valid (·.hash / 10) twoAccounts := ⟨by decide, by decide⟩
  have ha : Attempts nonceApply false ⟨Environment.withGasPool ⟨⟨0, 0, 0⟩, 0, none, ⟨100000, 0⟩, [], []⟩,
      TxQueue.ofPending twoAccounts, []⟩ _ _ :=
    @Attempts.next nonceApply false _ _ none _ _ _ rfl rfl rfl <|
    @Attempts.next nonceApply false _ _ none _ _ _ rfl rfl rfl <|
    @Attempts.next nonceApply false _ _ none _ _ _ rfl rfl rfl <|
    @Attempts.next nonceApply false _ _ none _ _ _ rfl rfl rfl <|
    @Attempts.last nonceApply false _ none _ rfl rfl (by intro _ h; cases h)
  exact ⟨hv, _, _, ha, rfl, attempts_in_queue_order hv ha⟩

end Order

/-! ### `commitNewWork` -/

/-- One turn of the loop over `Locals()`, lines 869–874: a local account with
pending transactions moves from the remote map to the local one. -/
def splitLocal (lr : Pending × Pending) (account : ℕ) : Pending × Pending :=
  match lr.2.lookup account with
  | some txs =>
    if txs.length > 0 then (lr.1 ++ [(account, txs)], lr.2.filter fun e => e.1 != account) else lr
  | none => lr

/-- Lines 868–874: the local and the remote transactions. -/
def splitLocals (locals : List ℕ) (pending : Pending) : Pending × Pending :=
  locals.foldl splitLocal ([], pending)

variable (apply) in
/-- Lines 878–882 and 884–888: when the map has accounts, the call
`commitTransactionsWithHeader(header, NewTransactionsByPriceAndNonce(txs), ...)`,
with the transactions it attempted; otherwise nothing. -/
inductive CommitBatch (flagged : Bool) (env : Environment) (batch : Pending) :
    Bool → Environment → List IntervalAdjust → List Attempt → Prop
  | empty : batch = [] → CommitBatch flagged env batch false env [] []
  | call {tr : List Attempt} {r : Iter} {ret : Bool} {l : Loop} : batch ≠ [] →
      Attempts apply flagged ⟨env.withGasPool, TxQueue.ofPending batch, []⟩ tr r →
      afterLoop flagged r = (ret, l) → CommitBatch flagged env batch ret l.env l.adjusts tr

variable (apply) in
/-- Lines 863–889 of `commitNewWork`, up to its last `commit`: the local
transactions, and then, unless that call returned true, the remote ones. The
result is true when `commitNewWork` returns there without committing. -/
inductive FillBlock (flagged : Bool) (locals : List ℕ) (pending : Pending) (env : Environment) :
    Bool → Environment → List IntervalAdjust → List Attempt → Prop
  | localReturn {env₁ : Environment} {adj₁ : List IntervalAdjust} {tr₁ : List Attempt} :
      CommitBatch apply flagged env (splitLocals locals pending).1 true env₁ adj₁ tr₁ →
      FillBlock flagged locals pending env true env₁ adj₁ tr₁
  | remote {ret : Bool} {env₁ env₂ : Environment} {adj₁ adj₂ : List IntervalAdjust}
      {tr₁ tr₂ : List Attempt} :
      CommitBatch apply flagged env (splitLocals locals pending).1 false env₁ adj₁ tr₁ →
      CommitBatch apply flagged env₁ (splitLocals locals pending).2 ret env₂ adj₂ tr₂ →
      FillBlock flagged locals pending env ret env₂ (adj₁ ++ adj₂) (tr₁ ++ tr₂)

/-- A call on a non-empty map is a run of `commitTransactionsWithHeader`. -/
theorem CommitBatch.commitTxs {env env' : Environment} {batch : Pending} {ret : Bool}
    {adjusts : List IntervalAdjust} (h : CommitBatch apply flagged env batch ret env' adjusts tr)
    (hb : batch ≠ []) : CommitTxs apply flagged env (TxQueue.ofPending batch) ret env' adjusts := by
  cases h with
  | empty h => exact absurd h hb
  | call _ ha hr => exact ⟨_, _, ha.loops, hr, rfl, rfl⟩

theorem CommitBatch.subperm {env env' : Environment} {batch : Pending} {ret : Bool}
    {adjusts : List IntervalAdjust} (h : CommitBatch apply flagged env batch ret env' adjusts tr) :
    (tr.map Attempt.tx).Subperm (batch.flatMap Prod.snd) := by
  cases h with
  | empty => exact List.nil_subperm
  | call _ ha => exact ha.subperm.trans (TxQueue.all_ofPending batch).subperm

theorem splitLocal_perm {lr : Pending × Pending} (h : (lr.2.map Prod.fst).Nodup) (account : ℕ) :
    ((splitLocal lr account).1 ++ (splitLocal lr account).2).Perm (lr.1 ++ lr.2) ∧
    ((splitLocal lr account).2.map Prod.fst).Nodup := by
  unfold splitLocal
  split
  · rename_i txs hl
    split_ifs
    · refine ⟨?_, h.sublist ((List.filter_sublist _).map Prod.fst)⟩
      rw [List.append_assoc, List.singleton_append]
      exact (Pending.perm_of_lookup h hl).symm.append_left _
    · exact ⟨.rfl, h⟩
  · exact ⟨.rfl, h⟩

/-- The split partitions the pending accounts. -/
theorem splitLocals_perm {pending : Pending} (hk : (pending.map Prod.fst).Nodup) (locals : List ℕ) :
    ((splitLocals locals pending).1 ++ (splitLocals locals pending).2).Perm pending := by
  suffices ∀ lr : Pending × Pending, (lr.2.map Prod.fst).Nodup →
      ((locals.foldl splitLocal lr).1 ++ (locals.foldl splitLocal lr).2).Perm (lr.1 ++ lr.2) from
    this ([], pending) hk
  induction locals with
  | nil => exact fun _ _ => .rfl
  | cons a locals ih =>
    intro lr h
    obtain ⟨hp, hn⟩ := splitLocal_perm h a
    exact (ih _ hn).trans hp

/-- For every pending map, every list of local accounts, every sequence of
`ApplyTransaction` outcomes and every sequence of interrupt reads: the split
partitions the accounts, the two calls together attempt each pending
transaction at most once, so at most as many times as there are pending
transactions, every iteration that applies a transaction then calls `Pop` or
`Shift`, and the loop terminates. -/
theorem fillBlock_applies_once {pending : Pending} (hk : (pending.map Prod.fst).Nodup)
    {locals : List ℕ} {ret : Bool} {env env' : Environment} {adjusts : List IntervalAdjust}
    (h : FillBlock apply flagged locals pending env ret env' adjusts tr) :
    ((splitLocals locals pending).1 ++ (splitLocals locals pending).2).Perm pending ∧
    (tr.map Attempt.tx).Subperm (pending.flatMap Prod.snd) ∧
    tr.length ≤ (pending.flatMap Prod.snd).length ∧
    (∀ read l l', iteration apply read l = .next l' →
      ∃ tx, l.txs.peek = some tx ∧ (l'.txs = l.txs.pop ∨ l'.txs = l.txs.shift)) ∧
    WellFounded fun l' l : Loop => ∃ read, iteration apply read l = .next l' := by
  have hsplit := splitLocals_perm hk locals
  have hsub : (tr.map Attempt.tx).Subperm (pending.flatMap Prod.snd) := by
    refine .trans ?_ (hsplit.flatMap_right Prod.snd).subperm
    rw [List.flatMap_append]
    cases h with
    | localReturn h₁ => exact h₁.subperm.trans (List.sublist_append_left _ _).subperm
    | remote h₁ h₂ =>
      rw [List.map_append]
      exact ((List.subperm_append_right _).mpr h₁.subperm).trans
        ((List.subperm_append_left _).mpr h₂.subperm)
  refine ⟨hsplit, hsub, by simpa using hsub.length_le, fun read l l' hi => ?_, iteration_wellFounded⟩
  obtain ⟨tx, hpeek, hl'⟩ := iteration_eq_next hi
  refine ⟨tx, hpeek, ?_⟩
  split_ifs at hl'
  exacts [.inl hl', .inr hl']

/-- A local and a remote account with one transaction each: both calls run,
and each applies its account's transaction. -/
theorem fillBlock_applies_once_two_accounts :
    (([(1, [⟨1, 5⟩]), (2, [⟨2, 7⟩])] : Pending).map Prod.fst).Nodup ∧
    ∃ ret env' adjusts tr, FillBlock leastGasApply false [2] [(1, [⟨1, 5⟩]), (2, [⟨2, 7⟩])]
        ⟨⟨0, 0, 0⟩, 0, none, ⟨100000, 0⟩, [], []⟩ ret env' adjusts tr ∧
      tr.map Attempt.tx = [⟨2, 7⟩, ⟨1, 5⟩] ∧ tr.length ≤ 2 := by
  have hk : (([(1, [⟨1, 5⟩]), (2, [⟨2, 7⟩])] : Pending).map Prod.fst).Nodup := by decide
  have h₁ : CommitBatch leastGasApply false ⟨⟨0, 0, 0⟩, 0, none, ⟨100000, 0⟩, [], []⟩
      (splitLocals [2] [(1, [⟨1, 5⟩]), (2, [⟨2, 7⟩])]).1 false _ _ _ :=
    .call (List.cons_ne_nil _ _)
      (@Attempts.next leastGasApply false _ _ none _ _ _ (by simp [Reads]) rfl rfl
        (@Attempts.last leastGasApply false _ none _ (by simp [Reads]) rfl (by intro _ h; cases h))) rfl
  have h := FillBlock.remote h₁ (.call (List.cons_ne_nil _ _)
      (@Attempts.next leastGasApply false _ _ none _ _ _ (by simp [Reads]) rfl rfl
        (@Attempts.last leastGasApply false _ none _ (by simp [Reads]) rfl (by intro _ h; cases h))) rfl)
  exact ⟨hk, _, _, _, _, h, rfl, (fillBlock_applies_once hk h).2.2.1⟩

end Venachain.Miner
