import Mathlib.Data.Finset.Card
import Mathlib.Data.List.Range

/-!
# A peer's known hashes

The `peer` of the eth protocol handler (unnamed/part_000, lines 90–430) keeps
the hashes of the transactions and blocks the remote node is known to have,
so that they are not sent to it again: `knownTxs` and `knownBlocks`, with the
comments' bounds `maxKnownTxs` and `maxKnownBlocks` "to prevent DOS".
`MarkBlock` and `MarkTransaction` evict arbitrary hashes (`Pop`) until there
is room for one more, and `SendPooledTransactionsRLP` until there is room for
the hashes it adds; the other sending functions add their hashes without
evicting any. An asynchronous send adds its hashes only when its queue takes
the item.

What is proved: a marking call keeps each set within its bound, and so does
`SendPooledTransactionsRLP` with at most `maxKnownTxs` hashes, so a peer that
receives only these calls stays bounded (`Bounded.run`); but the sets are not
bounded over every run (`known_sets_unbounded`): one
`SendTransactions` of `maxKnownTxs + 1` transactions, or one
`SendNewBlockHashes` of `maxKnownBlocks + 1` hashes, from a new peer leaves a
set above its bound.

The peer's other fields, the messages written to the remote node and the
queues' contents are left out: no bound reads them.
-/

namespace Venachain.Eth

/-- `maxKnownTxs`. -/
def maxKnownTxs : ℕ := 32768

/-- `maxKnownBlocks`. -/
def maxKnownBlocks : ℕ := 1024

/-- The hash sets of a `peer`. -/
structure Peer where
  /-- `knownTxs`. -/
  knownTxs : Finset ℕ
  /-- `knownBlocks`. -/
  knownBlocks : Finset ℕ

/-- `newPeer`: both sets empty. -/
def Peer.new : Peer := ⟨∅, ∅⟩

/-- `for cond(set.Cardinality()) { set.Pop() }`: `Pop` removes an arbitrary
hash, so the loop may end in any of several sets. -/
inductive EvictWhile (cond : ℕ → Prop) : Finset ℕ → Finset ℕ → Prop
  | stop {s : Finset ℕ} : ¬ cond s.card → EvictWhile cond s s
  | pop {s s' : Finset ℕ} {a : ℕ} : cond s.card → a ∈ s → EvictWhile cond (s.erase a) s' →
      EvictWhile cond s s'

/-- The calls that change a peer's sets, with their arguments; `queued` says
whether an asynchronous send's queue took the item. -/
inductive Call where
  | markBlock (hash : ℕ)
  | markTransaction (hash : ℕ)
  | sendTransactions (hashes : List ℕ)
  | asyncSendTransactions (hashes : List ℕ) (queued : Bool)
  | sendPooledTransactionHashes (hashes : List ℕ)
  | asyncSendPooledTransactionHashes (hashes : List ℕ) (queued : Bool)
  | sendNewBlockHashes (hashes : List ℕ)
  | asyncSendNewBlockHash (hash : ℕ) (queued : Bool)
  | sendNewBlock (hash : ℕ)
  | asyncSendNewBlock (hash : ℕ) (queued : Bool)
  | sendPooledTransactionsRLP (hashes : List ℕ)

/-- The hashes added to a set, one `Add` each. -/
def addAll (s : Finset ℕ) (hashes : List ℕ) : Finset ℕ := s ∪ hashes.toFinset

/-- What each call does to the sets. -/
inductive Step : Peer → Call → Peer → Prop
  | markBlock {p : Peer} {s : Finset ℕ} {hash : ℕ} :
      EvictWhile (maxKnownBlocks ≤ ·) p.knownBlocks s →
      Step p (.markBlock hash) { p with knownBlocks := insert hash s }
  | markTransaction {p : Peer} {s : Finset ℕ} {hash : ℕ} :
      EvictWhile (maxKnownTxs ≤ ·) p.knownTxs s →
      Step p (.markTransaction hash) { p with knownTxs := insert hash s }
  | sendTransactions {p : Peer} {hashes : List ℕ} :
      Step p (.sendTransactions hashes) { p with knownTxs := addAll p.knownTxs hashes }
  | asyncSendTransactions {p : Peer} {hashes : List ℕ} {queued : Bool} :
      Step p (.asyncSendTransactions hashes queued)
        (if queued then { p with knownTxs := addAll p.knownTxs hashes } else p)
  | sendPooledTransactionHashes {p : Peer} {hashes : List ℕ} :
      Step p (.sendPooledTransactionHashes hashes) { p with knownTxs := addAll p.knownTxs hashes }
  | asyncSendPooledTransactionHashes {p : Peer} {hashes : List ℕ} {queued : Bool} :
      Step p (.asyncSendPooledTransactionHashes hashes queued)
        (if queued then { p with knownTxs := addAll p.knownTxs hashes } else p)
  | sendNewBlockHashes {p : Peer} {hashes : List ℕ} :
      Step p (.sendNewBlockHashes hashes) { p with knownBlocks := addAll p.knownBlocks hashes }
  | asyncSendNewBlockHash {p : Peer} {hash : ℕ} {queued : Bool} :
      Step p (.asyncSendNewBlockHash hash queued)
        (if queued then { p with knownBlocks := insert hash p.knownBlocks } else p)
  | sendNewBlock {p : Peer} {hash : ℕ} :
      Step p (.sendNewBlock hash) { p with knownBlocks := insert hash p.knownBlocks }
  | asyncSendNewBlock {p : Peer} {hash : ℕ} {queued : Bool} :
      Step p (.asyncSendNewBlock hash queued)
        (if queued then { p with knownBlocks := insert hash p.knownBlocks } else p)
  | sendPooledTransactionsRLP {p : Peer} {s : Finset ℕ} {hashes : List ℕ} :
      EvictWhile (maxKnownTxs - hashes.length < ·) p.knownTxs s →
      Step p (.sendPooledTransactionsRLP hashes) { p with knownTxs := addAll s hashes }

/-- A run of calls. -/
inductive Run : Peer → List Call → Peer → Prop
  | nil {p : Peer} : Run p [] p
  | cons {p q r : Peer} {c : Call} {cs : List Call} : Step p c q → Run q cs r → Run p (c :: cs) r

/-- Both sets within their bounds. -/
structure Bounded (p : Peer) : Prop where
  txs_le : p.knownTxs.card ≤ maxKnownTxs
  blocks_le : p.knownBlocks.card ≤ maxKnownBlocks

/-! ### Eviction -/

/-- The eviction loop ends in a subset of the set it started from, for which
its condition fails. -/
theorem EvictWhile.spec {cond : ℕ → Prop} {s s' : Finset ℕ} (h : EvictWhile cond s s') :
    s' ⊆ s ∧ ¬ cond s'.card := by
  induction h with
  | stop h => exact ⟨subset_rfl, h⟩
  | pop _ _ _ ih => exact ⟨ih.1.trans (Finset.erase_subset _ _), ih.2⟩

/-- Evicting while a set holds `n` hashes or more, then adding one, leaves at
most `n`. -/
theorem card_insert_evicted {n : ℕ} {s s' : Finset ℕ} (h : EvictWhile (n ≤ ·) s s') (hash : ℕ) :
    (insert hash s').card ≤ n :=
  (Finset.card_insert_le hash s').trans (Nat.succ_le_of_lt (not_le.mp h.spec.2))

/-- `SendPooledTransactionsRLP` evicts until its hashes fit: with at most
`maxKnownTxs` of them, `knownTxs` stays within its bound. -/
theorem card_addAll_evicted {s s' : Finset ℕ} {hashes : List ℕ}
    (h : EvictWhile (maxKnownTxs - hashes.length < ·) s s') (hlen : hashes.length ≤ maxKnownTxs) :
    (addAll s' hashes).card ≤ maxKnownTxs :=
  calc (addAll s' hashes).card ≤ s'.card + hashes.toFinset.card := Finset.card_union_le _ _
    _ ≤ (maxKnownTxs - hashes.length) + hashes.length :=
        Nat.add_le_add (not_lt.mp h.spec.2) (List.toFinset_card_le hashes)
    _ = maxKnownTxs := Nat.sub_add_cancel hlen

/-- The calls that evict before they add: the marking calls, and
`SendPooledTransactionsRLP` with at most `maxKnownTxs` hashes. -/
def Call.Evicting : Call → Prop
  | .markBlock _ | .markTransaction _ => True
  | .sendPooledTransactionsRLP hashes => hashes.length ≤ maxKnownTxs
  | _ => False

/-- An evicting call keeps both sets within their bounds. -/
theorem Bounded.step {p q : Peer} (hp : Bounded p) {c : Call} (hc : c.Evicting)
    (hs : Step p c q) : Bounded q := by
  cases hs with
  | markBlock he => exact ⟨hp.txs_le, card_insert_evicted he _⟩
  | markTransaction he => exact ⟨card_insert_evicted he _, hp.blocks_le⟩
  | sendPooledTransactionsRLP he => exact ⟨card_addAll_evicted he hc, hp.blocks_le⟩
  | _ => cases hc

/-- A peer that receives only evicting calls stays within both bounds. -/
theorem Bounded.run {p q : Peer} (hp : Bounded p) {cs : List Call} (hc : ∀ c ∈ cs, c.Evicting)
    (hr : Run p cs q) : Bounded q := by
  induction hr with
  | nil => exact hp
  | cons hs _ ih =>
    exact ih (hp.step (hc _ (List.mem_cons_self _ _)) hs) fun c h => hc c (List.mem_cons_of_mem _ h)

/-! ### An unbounded run -/

theorem card_range_toFinset (n : ℕ) : (List.range n).toFinset.card = n := by
  rw [List.toFinset_card_of_nodup (List.nodup_range n), List.length_range]

/-- From a new peer, one `SendTransactions` of `maxKnownTxs + 1` transactions
leaves `knownTxs` above `maxKnownTxs`, and one `SendNewBlockHashes` of
`maxKnownBlocks + 1` hashes leaves `knownBlocks` above `maxKnownBlocks`. -/
theorem known_sets_unbounded :
    (∃ q, Run Peer.new [.sendTransactions (List.range (maxKnownTxs + 1))] q ∧
      maxKnownTxs < q.knownTxs.card) ∧
    (∃ q, Run Peer.new [.sendNewBlockHashes (List.range (maxKnownBlocks + 1))] q ∧
      maxKnownBlocks < q.knownBlocks.card) := by
  refine ⟨⟨_, .cons .sendTransactions .nil, ?_⟩, ⟨_, .cons .sendNewBlockHashes .nil, ?_⟩⟩ <;>
    simp [addAll, Peer.new, card_range_toFinset]

end Venachain.Eth
