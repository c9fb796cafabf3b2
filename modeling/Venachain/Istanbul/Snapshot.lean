import Venachain.Istanbul.Validator

/-!
# The snapshot engine

`snapshot(chain, number, hash, parents)` (engine.go, lines 572–670) walks
back from `(number, hash)`, gathering headers, until it finds a base
snapshot: in `sb.recents`, in the database when `number` is a checkpoint, or,
at block zero, the one-validator snapshot built from `FirstValidatorNode`.
It then replays the gathered headers, oldest first, on the base, caches the
result by hash, and saves it when it is a checkpoint.

One iteration of the `for snap == nil` loop is `walkStep`, which returns the
base it found or the walk's next position. The loop is `walk`, run with fuel;
`snapshot` gives it `number + 1` iterations, and `walk_eq_of_le` shows that
this is as good as any more: the only iteration that neither ends the loop
nor moves it back one block is the genesis branch's `continue`, which leaves
everything as it was, so a walk still running after `number + 1` iterations
runs forever (`Error.nonTermination`).

`Snapshot.apply` (snapshot.go, not among the sources) is modelled from the
spec as the left fold of `Backend.applyHeader` over the headers, each step
also recording the header's number and hash.
-/

namespace Venachain.Istanbul

variable (b : Backend)

/-- Modelled from the spec: `Snapshot.apply` on one header ("apply each
header's votes sequentially"): the vote transition, then the header's number
and hash recorded. -/
def Snapshot.applyOne (s : Snapshot) (h : Header) : Snapshot :=
  { b.applyHeader s h with number := u64 h.number, hash := b.crypto.hash h }

/-- Modelled from the spec: `snap.apply(chain, sb, headers)`, the left fold of
`applyOne` over the headers, oldest first. -/
def Snapshot.apply (s : Snapshot) (headers : List Header) : Snapshot :=
  headers.foldl (Snapshot.applyOne b) s

variable {b} in
@[simp] theorem Snapshot.applyOne_number (s : Snapshot) (h : Header) :
    (s.applyOne b h).number = u64 h.number := rfl

variable {b} in
@[simp] theorem Snapshot.applyOne_hash (s : Snapshot) (h : Header) :
    (s.applyOne b h).hash = b.crypto.hash h := rfl

variable {b} in
@[simp] theorem Snapshot.apply_nil (s : Snapshot) : s.apply b [] = s := rfl

variable {b} in
@[simp] theorem Snapshot.apply_singleton (s : Snapshot) (h : Header) :
    s.apply b [h] = s.applyOne b h := rfl

/-- `sb.VerifyHeader(chain, genesis, false)` in the genesis branch. `genesis` is
`GetHeaderByNumber(0)`, numbered 0 (`Chain.getHeaderByNumber_number`), so
`Number.Uint64() <= Pivot` holds and `VerifyHeader` returns nil at once
(`VerifyHeader_genesis` in `Verify`); a nil header panics. -/
def verifyGenesis : Option Header → Except Error Header
  | none => .error .nilHeader
  | some g => .ok g

/-- The genesis snapshot: block 0's hash and the validator of `pubKey`, the key
`FirstValidatorNode`'s id unmarshals to. -/
def genesisSnapshot (genesis : Header) (pubKey : Pubkey) : Snapshot :=
  newSnapshot 0 (b.crypto.hash genesis) [b.crypto.pubkeyToAddress pubKey]

/-- `snap.store(sb.db)`: one write to the database, which saves the snapshot
under its hash or fails with the database's error and saves nothing. -/
def Snapshot.store (snap : Snapshot) : M Unit := do
  let s ← get
  match s.db.writeErr s.db.writes with
  | some e =>
    set { s with db := s.db.next }
    throw (.external e)
  | none => set { s with db := (s.db.save snap).next }

theorem Snapshot.store_eq (snap : Snapshot) (s : State) :
    snap.store s = match s.db.writeErr s.db.writes with
      | some e => .error (.external e) { s with db := s.db.next }
      | none => .ok () { s with db := (s.db.save snap).next } := by
  simp only [Snapshot.store, run_bind, run_get]
  cases s.db.writeErr s.db.writes <;> rfl

/-- Where the walk of `snapshot` stands: the block it looks at, the explicit
parents left, and the headers gathered so far, newest first. -/
structure Walk where
  /-- `number`. -/
  number : ℕ
  /-- `hash`. -/
  hash : Hash
  /-- `parents`. -/
  parents : List Header
  /-- `headers`. -/
  headers : List Header

/-- One iteration of `for snap == nil`: the base snapshot found (`.inl`), or the
walk's position for the next iteration (`.inr`). -/
def walkStep (chain : Chain b.crypto) (w : Walk) : M (Snapshot ⊕ Walk) := do
  let s ← get
  match s.recents.get w.hash with
  | some snap => return .inl snap
  | none =>
  match (if w.number % checkpointInterval = 0 then s.db.saved w.hash else none) with
  | some snap => return .inl snap
  | none =>
  if w.number = 0 then
    let genesis ← liftExcept (verifyGenesis (chain.getHeaderByNumber 0))
    match b.crypto.unmarshalPubkey (4 :: b.config.firstValidatorNode) with
    | .error _ => return .inr w
    | .ok pubKey =>
      let snap := genesisSnapshot b genesis pubKey
      snap.store
      return .inl snap
  else
  match w.parents.getLast? with
  | some header =>
    if b.crypto.hash header ≠ w.hash ∨ u64 header.number ≠ w.number then
      throw .unknownAncestor
    return .inr ⟨w.number - 1, header.parentHash, w.parents.dropLast, w.headers ++ [header]⟩
  | none =>
    match chain.getHeader w.hash w.number with
    | none => throw .unknownAncestor
    | some header => return .inr ⟨w.number - 1, header.parentHash, [], w.headers ++ [header]⟩

/-- At most `fuel` iterations of the walk: the base found and where the walk
stopped, or `none` while it is still running. -/
def walk (chain : Chain b.crypto) : ℕ → Walk → M (Option (Snapshot × Walk))
  | 0, _ => pure none
  | fuel + 1, w => do
    match ← walkStep b chain w with
    | .inl snap => pure (some (snap, w))
    | .inr w' => walk chain fuel w'

/-- `snapshot(chain, number, hash, parents)`. -/
def snapshot (chain : Chain b.crypto) (number : ℕ) (hash : Hash) (parents : List Header) :
    M Snapshot := do
  match ← walk b chain (number + 1) ⟨number, hash, parents, []⟩ with
  | none => throw .nonTermination
  | some (base, w) =>
    let headers := w.headers.reverse
    let snap := base.apply b headers
    modify fun s => { s with recents := s.recents.add snap.hash snap }
    if snap.number % checkpointInterval = 0 ∧ 0 < headers.length then
      snap.store
    return snap

/-! ### One iteration -/

section Step

variable {b} {chain : Chain b.crypto} {w : Walk} {s : State}

/-- Neither `sb.recents` nor, at a checkpoint, the database has a snapshot for
the walk's hash. -/
def Misses (s : State) (w : Walk) : Prop :=
  s.recents.get w.hash = none ∧ (w.number % checkpointInterval = 0 → s.db.saved w.hash = none)

variable (b chain) in
/-- What one iteration of the walk can do, branch by branch of the loop body. -/
inductive WalkStepSpec (w : Walk) (s : State) : EStateM.Result Error State (Snapshot ⊕ Walk) → Prop
  /-- A snapshot in `sb.recents`. -/
  | recent {snap : Snapshot} : s.recents.get w.hash = some snap →
      WalkStepSpec w s (.ok (.inl snap) s)
  /-- A checkpoint snapshot in the database. -/
  | checkpoint {snap : Snapshot} : s.recents.get w.hash = none →
      w.number % checkpointInterval = 0 → s.db.saved w.hash = some snap →
      WalkStepSpec w s (.ok (.inl snap) s)
  /-- Block zero, and `GetHeaderByNumber(0)` is nil: `VerifyHeader` panics. -/
  | nilGenesis : Misses s w → w.number = 0 → chain.getHeaderByNumber 0 = none →
      WalkStepSpec w s (.error .nilHeader s)
  /-- Block zero, and the first validator's id does not unmarshal: `continue`. -/
  | unmarshalFailed {g : Header} {e : ℕ} : Misses s w → w.number = 0 →
      chain.getHeaderByNumber 0 = some g →
      b.crypto.unmarshalPubkey (4 :: b.config.firstValidatorNode) = .error e →
      WalkStepSpec w s (.ok (.inr w) s)
  /-- Block zero: the genesis snapshot, saved to the database. -/
  | genesis {g : Header} {pk : Pubkey} : Misses s w → w.number = 0 →
      chain.getHeaderByNumber 0 = some g →
      b.crypto.unmarshalPubkey (4 :: b.config.firstValidatorNode) = .ok pk →
      s.db.writeErr s.db.writes = none →
      WalkStepSpec w s (.ok (.inl (genesisSnapshot b g pk))
        { s with db := (s.db.save (genesisSnapshot b g pk)).next })
  /-- Block zero, and saving the genesis snapshot fails. -/
  | storeFailed {g : Header} {pk : Pubkey} {e : ℕ} : Misses s w → w.number = 0 →
      chain.getHeaderByNumber 0 = some g →
      b.crypto.unmarshalPubkey (4 :: b.config.firstValidatorNode) = .ok pk →
      s.db.writeErr s.db.writes = some e →
      WalkStepSpec w s (.error (.external e) { s with db := s.db.next })
  /-- The last explicit parent is not `(number, hash)`. -/
  | parentMismatch {header : Header} : Misses s w → w.number ≠ 0 →
      w.parents.getLast? = some header →
      (b.crypto.hash header ≠ w.hash ∨ u64 header.number ≠ w.number) →
      WalkStepSpec w s (.error .unknownAncestor s)
  /-- The last explicit parent is `(number, hash)`: gather it, step back. -/
  | parent {header : Header} : Misses s w → w.number ≠ 0 →
      w.parents.getLast? = some header →
      b.crypto.hash header = w.hash → u64 header.number = w.number →
      WalkStepSpec w s
        (.ok (.inr ⟨w.number - 1, header.parentHash, w.parents.dropLast, w.headers ++ [header]⟩) s)
  /-- No parents left, and the chain has no header `(hash, number)`. -/
  | unknownAncestor : Misses s w → w.number ≠ 0 → w.parents = [] →
      chain.getHeader w.hash w.number = none →
      WalkStepSpec w s (.error .unknownAncestor s)
  /-- No parents left: gather the chain's header, step back. -/
  | ancestor {header : Header} : Misses s w → w.number ≠ 0 → w.parents = [] →
      chain.getHeader w.hash w.number = some header →
      WalkStepSpec w s
        (.ok (.inr ⟨w.number - 1, header.parentHash, [], w.headers ++ [header]⟩) s)

theorem walkStep_spec (w : Walk) (s : State) :
    WalkStepSpec b chain w s (walkStep b chain w s) := by
  simp only [walkStep, run_bind, run_get]
  cases hr : s.recents.get w.hash with
  | some snap => exact .recent hr
  | none =>
  cases hd : (if w.number % checkpointInterval = 0 then s.db.saved w.hash else none) with
  | some snap =>
    split_ifs at hd with hc
    exact .checkpoint hr hc hd
  | none =>
  have hm : Misses s w := ⟨hr, fun hc => by simpa [hc] using hd⟩
  split_ifs with h0
  · cases hg : chain.getHeaderByNumber 0 with
    | none => simpa [verifyGenesis] using WalkStepSpec.nilGenesis hm h0 hg
    | some g =>
      cases hu : b.crypto.unmarshalPubkey (4 :: b.config.firstValidatorNode) with
      | error e => simpa [verifyGenesis] using WalkStepSpec.unmarshalFailed hm h0 hg hu
      | ok pk =>
        simp only [verifyGenesis, run_bind, run_liftExcept_ok, hu, Snapshot.store_eq]
        cases hw : s.db.writeErr s.db.writes with
        | none => exact WalkStepSpec.genesis hm h0 hg hu hw
        | some e => exact WalkStepSpec.storeFailed hm h0 hg hu hw
  · cases hp : w.parents.getLast? with
    | some header =>
      by_cases hk : b.crypto.hash header ≠ w.hash ∨ u64 header.number ≠ w.number
      · simpa [hk] using WalkStepSpec.parentMismatch hm h0 hp hk
      · push_neg at hk
        simpa [hk] using WalkStepSpec.parent hm h0 hp hk.1 hk.2
    | none =>
      have hnil : w.parents = [] := List.getLast?_eq_none_iff.mp hp
      cases hc : chain.getHeader w.hash w.number with
      | none => simpa using WalkStepSpec.unknownAncestor hm h0 hnil hc
      | some header => simpa using WalkStepSpec.ancestor hm h0 hnil hc

theorem walk_succ (fuel : ℕ) (w : Walk) (s : State) :
    walk b chain (fuel + 1) w s = match walkStep b chain w s with
      | .ok (.inl snap) s' => .ok (some (snap, w)) s'
      | .ok (.inr w') s' => walk b chain fuel w' s'
      | .error e s' => .error e s' := by
  simp only [walk, run_bind]
  rcases walkStep b chain w s with ⟨snap | w', s'⟩ | ⟨e, s'⟩ <;> rfl

/-- The genesis branch's `continue` leaves walk and state as they were, so the
walk runs forever. -/
theorem walk_stuck (h : walkStep b chain w s = .ok (.inr w) s) (fuel : ℕ) :
    walk b chain fuel w s = .ok none s := by
  induction fuel with
  | zero => rfl
  | succ n ih => rw [walk_succ, h]; exact ih

/-- `number + 1` iterations are as good as any more: after them the walk has
ended, or it is in the genesis branch's `continue` for good. -/
theorem walk_eq_of_le {fuel : ℕ} (hf : w.number + 1 ≤ fuel) :
    walk b chain fuel w s = walk b chain (w.number + 1) w s := by
  obtain ⟨k, hk⟩ : ∃ k, w.number = k := ⟨_, rfl⟩
  induction k generalizing w s fuel with
  | zero =>
    obtain ⟨f, rfl⟩ : ∃ f, fuel = f + 1 := ⟨fuel - 1, by omega⟩
    rw [walk_succ, hk, walk_succ]
    generalize hr : walkStep b chain w s = r
    cases hr ▸ walkStep_spec w s with
    | unmarshalFailed => exact walk_stuck hr f
    | parent _ h0 | ancestor _ h0 => exact absurd hk h0
    | _ => rfl
  | succ k ih =>
    obtain ⟨f, rfl⟩ : ∃ f, fuel = f + 1 := ⟨fuel - 1, by omega⟩
    rw [walk_succ, hk, walk_succ]
    generalize hr : walkStep b chain w s = r
    cases hr ▸ walkStep_spec w s with
    | unmarshalFailed _ h0 => omega
    | parent | ancestor =>
      refine (ih ?_ ?_).trans ?_ <;> simp only [hk, Nat.add_sub_cancel]; omega
    | _ => rfl

/-- At block zero with nothing cached or saved, when the first validator's id
does not unmarshal the iteration ends in `continue`, exactly where it began. -/
theorem walkStep_continue {g : Header} {e : ℕ} (hm : Misses s w) (h0 : w.number = 0)
    (hg : chain.getHeaderByNumber 0 = some g)
    (hu : b.crypto.unmarshalPubkey (4 :: b.config.firstValidatorNode) = .error e) :
    walkStep b chain w s = .ok (.inr w) s := by
  generalize hr : walkStep b chain w s = r
  cases hr ▸ walkStep_spec w s <;> simp_all [Misses]

/-- When the first validator's id unmarshals, the walk ends within `number + 1`
iterations: each iteration finds a base, fails, or steps back one block. -/
theorem walk_ends {pk : Pubkey}
    (hu : b.crypto.unmarshalPubkey (4 :: b.config.firstValidatorNode) = .ok pk) (s' : State) :
    walk b chain (w.number + 1) w s ≠ .ok none s' := by
  obtain ⟨k, hk⟩ : ∃ k, w.number = k := ⟨_, rfl⟩
  induction k generalizing w s with
  | zero =>
    rw [walk_succ]
    generalize hr : walkStep b chain w s = r
    cases hr ▸ walkStep_spec w s with
    | unmarshalFailed _ _ _ he => simp [hu] at he
    | parent _ h0 | ancestor _ h0 => exact absurd hk h0
    | _ => intro h; cases h
  | succ k ih =>
    rw [walk_succ]
    generalize hr : walkStep b chain w s = r
    cases hr ▸ walkStep_spec w s with
    | unmarshalFailed _ h0 => omega
    | parent | ancestor =>
      simp only [hk, Nat.add_sub_cancel]
      exact ih rfl
    | _ => intro h; cases h

/-- When the first validator's id does not unmarshal, a walk that reaches block
zero with nothing cached or saved there never ends: the genesis branch's
`continue` repeats for good. -/
theorem walk_genesis_never_ends {g : Header} {e : ℕ} (hm : Misses s w) (h0 : w.number = 0)
    (hg : chain.getHeaderByNumber 0 = some g)
    (hu : b.crypto.unmarshalPubkey (4 :: b.config.firstValidatorNode) = .error e) (fuel : ℕ) :
    walk b chain fuel w s = .ok none s :=
  walk_stuck (walkStep_continue hm h0 hg hu) fuel

/-- The walk changes only the snapshot database. -/
theorem walkStep_frame :
    (endState (walkStep b chain w s)).recents = s.recents ∧
    (endState (walkStep b chain w s)).recentAddresses = s.recentAddresses ∧
    (endState (walkStep b chain w s)).recentPubkeys = s.recentPubkeys := by
  generalize hr : walkStep b chain w s = r
  cases hr ▸ walkStep_spec w s <;> exact ⟨rfl, rfl, rfl⟩

theorem walk_frame (fuel : ℕ) :
    (endState (walk b chain fuel w s)).recents = s.recents ∧
    (endState (walk b chain fuel w s)).recentAddresses = s.recentAddresses ∧
    (endState (walk b chain fuel w s)).recentPubkeys = s.recentPubkeys := by
  induction fuel generalizing w s with
  | zero => exact ⟨rfl, rfl, rfl⟩
  | succ f ih =>
    rw [walk_succ]
    have hf := @walkStep_frame b chain w s
    generalize walkStep b chain w s = r at hf ⊢
    rcases r with ⟨snap | w', s'⟩ | ⟨e, s'⟩
    · exact hf
    · obtain ⟨h1, h2, h3⟩ := @ih w' s'
      exact ⟨h1.trans hf.1, h2.trans hf.2.1, h3.trans hf.2.2⟩
    · exact hf

/-- The walk fails only on a missing ancestor, a nil genesis header, or a
failed write of the genesis snapshot. -/
theorem walkStep_error {e : Error} {s' : State} (h : walkStep b chain w s = .error e s') :
    e = .nilHeader ∨ e = .unknownAncestor ∨ ∃ c, e = .external c := by
  generalize hr : walkStep b chain w s = r at h
  cases hr ▸ walkStep_spec w s <;> cases h <;> simp

theorem walk_error {fuel : ℕ} {e : Error} {s' : State} (h : walk b chain fuel w s = .error e s') :
    e = .nilHeader ∨ e = .unknownAncestor ∨ ∃ c, e = .external c := by
  induction fuel generalizing w s with
  | zero => cases h
  | succ f ih =>
    rw [walk_succ] at h
    rcases hr : walkStep b chain w s with ⟨snap | w', t⟩ | ⟨e', t⟩ <;> rw [hr] at h
    · cases h
    · exact ih h
    · cases h; exact walkStep_error hr

end Step

/-! ### What a call does -/

section Call

variable {b} {chain : Chain b.crypto} {n : ℕ} {h : Hash} {parents : List Header} {s s₁ : State}

/-- A walk still running after `number + 1` iterations: `snapshot` never returns. -/
theorem snapshot_of_walk_none (hr : walk b chain (n + 1) ⟨n, h, parents, []⟩ s = .ok none s₁) :
    snapshot b chain n h parents s = .error .nonTermination s₁ := by
  simp [snapshot, hr]

theorem snapshot_of_walk_error {e : Error}
    (hr : walk b chain (n + 1) ⟨n, h, parents, []⟩ s = .error e s₁) :
    snapshot b chain n h parents s = .error e s₁ := by
  simp [snapshot, hr]

/-- A walk that found `base`: `snapshot` replays the gathered headers on it,
caches the result and, at a checkpoint, saves it, which may fail; nothing else
changes. -/
theorem snapshot_of_walk_some {base : Snapshot} {w : Walk}
    (hr : walk b chain (n + 1) ⟨n, h, parents, []⟩ s = .ok (some (base, w)) s₁) :
    ∃ s₂, (snapshot b chain n h parents s = .ok (base.apply b w.headers.reverse) s₂ ∨
        ∃ c, snapshot b chain n h parents s = .error (.external c) s₂) ∧
      s₂.recents = s₁.recents.add (base.apply b w.headers.reverse).hash
        (base.apply b w.headers.reverse) ∧
      s₂.recentAddresses = s₁.recentAddresses ∧ s₂.recentPubkeys = s₁.recentPubkeys ∧
      (s₂.db.saved = s₁.db.saved ∨ s₂.db = (s₁.db.save (base.apply b w.headers.reverse)).next) := by
  simp only [snapshot, run_bind, hr, run_modify]
  split_ifs
  · simp only [run_bind, Snapshot.store_eq]
    cases s₁.db.writeErr s₁.db.writes
    · exact ⟨_, .inl rfl, rfl, rfl, rfl, .inr rfl⟩
    · exact ⟨_, .inr ⟨_, rfl⟩, rfl, rfl, rfl, .inl rfl⟩
  · exact ⟨_, .inl rfl, rfl, rfl, rfl, .inl rfl⟩

/-- `snapshot` changes neither cache of recovered signers and keys. -/
theorem snapshot_frame :
    (endState (snapshot b chain n h parents s)).recentAddresses = s.recentAddresses ∧
    (endState (snapshot b chain n h parents s)).recentPubkeys = s.recentPubkeys := by
  have hf := @walk_frame b chain ⟨n, h, parents, []⟩ s (n + 1)
  generalize hr : walk b chain (n + 1) ⟨n, h, parents, []⟩ s = r at hf
  rcases r with ⟨_ | ⟨base, w⟩, s₁⟩ | ⟨e, s₁⟩
  · rw [snapshot_of_walk_none hr]; exact ⟨hf.2.1, hf.2.2⟩
  · obtain ⟨s₂, he | ⟨c, he⟩, -, h2, h3, -⟩ := snapshot_of_walk_some hr <;>
      rw [he] <;> exact ⟨h2.trans hf.2.1, h3.trans hf.2.2⟩
  · rw [snapshot_of_walk_error hr]; exact ⟨hf.2.1, hf.2.2⟩

/-- `snapshot` fails only on a missing ancestor, a nil genesis header, a walk
that never ends, or a failed write to the database. -/
theorem snapshot_error {e : Error} (he : snapshot b chain n h parents s = .error e s₁) :
    e = .nilHeader ∨ e = .unknownAncestor ∨ e = .nonTermination ∨ ∃ c, e = .external c := by
  rcases hr : walk b chain (n + 1) ⟨n, h, parents, []⟩ s with ⟨_ | ⟨base, w⟩, t⟩ | ⟨e', t⟩
  · rw [snapshot_of_walk_none hr] at he; cases he; simp
  · obtain ⟨s₂, hs | ⟨c, hs⟩, -⟩ := snapshot_of_walk_some hr <;> rw [hs] at he <;> cases he
    simp
  · rw [snapshot_of_walk_error hr] at he; cases he
    rcases walk_error hr with rfl | rfl | ⟨c, rfl⟩ <;> simp

end Call

/-! ### A first validator that is not a public key -/

/-- Block 0 of `zeroIdChain`. -/
def zeroIdGenesis : Header := ⟨0, 0, 0, [], [], 0⟩

/-- Collaborators under which the first validator's id, 64 zero bytes, is not a
public key, as `crypto.UnmarshalPubkey` finds of `0x04` followed by zeros (the
point is not on the curve); headers hash to their number. -/
def zeroIdCrypto : Crypto where
  hash h := h.number
  sigHash _ := []
  extractIstanbulExtra _ := .error 0
  getSignatureAddress _ _ := .error 0
  getSignaturePubkey _ _ := .error 0
  prepareCommittedSeal _ := []
  verifyVrf _ _ _ := .ok ()
  unmarshalPubkey bs := if bs = 4 :: List.replicate 64 0 then .error 0 else .ok 1
  pubkeyToAddress k := k

/-- A backend configured with the zero first-validator id. -/
def zeroIdBackend : Backend := ⟨⟨1, List.replicate 64 0, 0, 0, 0⟩, zeroIdCrypto, fun s _ => s⟩

/-- A chain holding only block 0. -/
def zeroIdChain : Chain zeroIdCrypto where
  getHeader h n := if h = 0 ∧ n = 0 then some zeroIdGenesis else none
  getHeaderByNumber n := if n = 0 then some zeroIdGenesis else none
  getHeader_key := by
    intro h n H hH
    dsimp only at hH
    split_ifs at hH with h1
    cases hH
    exact ⟨h1.1.symm, h1.2.symm⟩
  getHeaderByNumber_number := by
    intro n H hH
    dsimp only at hH
    split_ifs at hH with h1
    cases hH
    exact h1.symm

/-- `snapshot(chain, 0, genesis.Hash(), nil)` on empty caches, with a first
validator id that is not a public key: the walk's loop runs forever. -/
theorem snapshot_walk_never_ends_on_zero_id (fuel : ℕ) :
    walk zeroIdBackend zeroIdChain fuel ⟨0, 0, [], []⟩ State.init = .ok none State.init := by
  refine walk_genesis_never_ends ?_ rfl rfl (show zeroIdBackend.crypto.unmarshalPubkey
    (4 :: zeroIdBackend.config.firstValidatorNode) = .error 0 from rfl) fuel
  exact ⟨rfl, fun _ => rfl⟩

end Venachain.Istanbul
