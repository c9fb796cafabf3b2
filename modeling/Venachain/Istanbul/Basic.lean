import Mathlib.Data.List.Basic
import Mathlib.Algebra.Group.Nat.Basic

/-!
# The istanbul backend: data model

The values the header verifier and the snapshot engine of
`consensus/istanbul/backend/engine.go` read and write, and the collaborators
they call without defining.

Addresses, hashes and public keys are numbers; byte strings are lists of
bytes. A header keeps the fields the engine reads (`ParentHash`, `Number`,
`Time`, `Extra`, `Nonce`) and, in one field, everything else that enters its
hash. `Number` and `Time` are `*big.Int`: headers are RLP-decoded, so both are
present and non-negative, and the engine reads them either exactly (`Cmp`)
or through `Uint64()`, which keeps the low 64 bits (`u64`).

The collaborators the engine calls, `Header.Hash`, `sigHash`,
`types.ExtractIstanbulExtra`, signature and public-key recovery, VRF checking
and public-key unmarshalling, are the fields of `Crypto`; `Snapshot.apply`,
whose file is not part of the sources, is the per-header transition
`Backend.applyHeader`. The chain reader is `Chain`, which returns a header
only under its own hash and number.

The engine's mutable state is `State`: the in-memory snapshot cache
`sb.recents`, the snapshot database, and the two package-level caches of
recovered signers and public keys. What the code leaves to its libraries, which
entries an `lru.ARCCache` evicts and which database writes fail, is left open
(`Choices`): the caches and the database carry it, and the theorems about runs
start from empty caches under any choice (`State.fresh`). The engine's functions run in
`M = EStateM Error State`: an error keeps the state changes made before it,
as a Go `return nil, err` does. Two values of `Error` are not Go errors:
`nilHeader` and `nilPubkey` are runtime panics (a nil pointer dereferenced),
and `nonTermination` is the value of a loop that never exits.
-/

namespace Venachain.Istanbul

/-- A 20-byte account address, `common.Address`. -/
abbrev Address := ℕ

/-- A 32-byte hash, `common.Hash`. -/
abbrev Hash := ℕ

/-- A public key, `ecdsa.PublicKey`. -/
abbrev Pubkey := ℕ

/-- A byte string, `[]byte`. -/
abbrev Bytes := List UInt8

/-- `x.Uint64()` of a non-negative `*big.Int`: its low 64 bits. -/
def u64 (x : ℕ) : ℕ := x % 2 ^ 64

theorem u64_of_lt {x : ℕ} (h : x < 2 ^ 64) : u64 x = x := Nat.mod_eq_of_lt h

theorem u64_lt (x : ℕ) : u64 x < 2 ^ 64 := Nat.mod_lt _ (Nat.two_pow_pos 64)

/-- The errors the engine returns: its own (`errInvalidSignature`, …), the two
of the `consensus` package, one for any error of a collaborator, and three
outcomes that are not error values (see the module header). -/
inductive Error where
  | invalidProposal
  | invalidSignature
  | unknownBlock
  | unauthorized
  | invalidDifficulty
  | invalidExtraDataFormat
  | invalidMixDigest
  | invalidNonce
  | invalidUncleHash
  | inconsistentValidatorSet
  | invalidTimestamp
  | invalidVotingChain
  | invalidVote
  | invalidCommittedSeals
  | emptyCommittedSeals
  | mismatchTxhashes
  /-- `consensus.ErrFutureBlock`. -/
  | futureBlock
  /-- `consensus.ErrUnknownAncestor`. -/
  | unknownAncestor
  /-- An error a collaborator returns (RLP decoding, recovery, VRF, the database). -/
  | external (code : ℕ)
  /-- Runtime panic: `VerifyHeader` called on the nil header `GetHeaderByNumber(0)` gave. -/
  | nilHeader
  /-- Runtime panic: `*pubkey` on the nil key `GetSignaturePubkey` returns with its error. -/
  | nilPubkey
  /-- The call never returns: a loop of the engine does not exit. -/
  | nonTermination
  deriving DecidableEq, Repr

/-- The text each of the engine's own errors is created with (`errors.New`);
the others are declared outside the engine. -/
def Error.message : Error → String
  | .invalidProposal => "invalid proposal"
  | .invalidSignature => "invalid signature"
  | .unknownBlock => "unknown block"
  | .unauthorized => "unauthorized"
  | .invalidDifficulty => "invalid difficulty"
  | .invalidExtraDataFormat => "invalid extra data format"
  | .invalidMixDigest => "invalid Istanbul mix digest"
  | .invalidNonce => "invalid nonce"
  | .invalidUncleHash => "non empty uncle hash"
  | .inconsistentValidatorSet => "non empty uncle hash"
  | .invalidTimestamp => "invalid timestamp"
  | .invalidVotingChain => "invalid voting chain"
  | .invalidVote => "vote nonce not 0x00..0 or 0xff..f"
  | .invalidCommittedSeals => "invalid committed seals"
  | .emptyCommittedSeals => "zero committed seals"
  | .mismatchTxhashes => "mismatch transcations hashes"
  | _ => ""

/-- A block header, `types.Header`. -/
structure Header where
  /-- `ParentHash`. -/
  parentHash : Hash
  /-- `Number`. -/
  number : ℕ
  /-- `Time`, in milliseconds. -/
  time : ℕ
  /-- `Extra`: the 32-byte vanity, then the RLP of an `IstanbulExtra`. -/
  extra : Bytes
  /-- `Nonce`, eight bytes. -/
  nonce : Bytes
  /-- The fields the engine does not read (roots, bloom, gas, coinbase, mix
  digest), which still enter the header's hash. -/
  rest : ℕ
  deriving DecidableEq, Repr

/-- `types.IstanbulExtra`, the payload of the extra-data. -/
structure IstanbulExtra where
  /-- `Validators`. -/
  validators : List Address
  /-- `Seal`: the proposer's signature over `sigHash` (`seal` is a keyword). -/
  proposerSeal : Bytes
  /-- `CommittedSeal`: the validators' signatures over `PrepareCommittedSeal(hash)`. -/
  committedSeal : List Bytes
  deriving DecidableEq, Repr

/-- A vote snapshot: the validator set as of block `number`, whose hash is `hash`. -/
structure Snapshot where
  /-- `Number`. -/
  number : ℕ
  /-- `Hash`. -/
  hash : Hash
  /-- `ValSet`, the validators in the set's order. -/
  valSet : List Address
  deriving DecidableEq, Repr

/-- `newSnapshot(number, hash, valSet)`. -/
def newSnapshot (number : ℕ) (hash : Hash) (valSet : List Address) : Snapshot :=
  ⟨number, hash, valSet⟩

/-- The settings the engine reads: `sb.config` and `common.SysCfg`, and the clock. -/
structure Config where
  /-- `sb.config.BlockPeriod`. -/
  blockPeriod : ℕ
  /-- The 64 bytes of `sb.config.FirstValidatorNode.ID`. -/
  firstValidatorNode : Bytes
  /-- `common.SysCfg.ReplayParam.Pivot`. -/
  pivot : ℕ
  /-- `common.SysCfg.SysParam.VRF.ElectionEpoch`. -/
  electionEpoch : ℕ
  /-- `now().UnixNano()/1e6`, the clock in milliseconds. -/
  now : ℕ

/-- The collaborators the engine calls: hashing, extra-data decoding, signature
and key recovery, VRF checking, key unmarshalling. Their errors are codes, which
the engine returns as `Error.external`. -/
structure Crypto where
  /-- `header.Hash()`. -/
  hash : Header → Hash
  /-- `sigHash(header).Bytes()`, the bytes the proposer signs. -/
  sigHash : Header → Bytes
  /-- `types.ExtractIstanbulExtra`, on the header's `Extra`. -/
  extractIstanbulExtra : Bytes → Except ℕ IstanbulExtra
  /-- `istanbul.GetSignatureAddress(data, sig)`. -/
  getSignatureAddress : Bytes → Bytes → Except ℕ Address
  /-- `istanbul.GetSignaturePubkey(data, sig)`: a key, or the nil key and an error. -/
  getSignaturePubkey : Bytes → Bytes → Except ℕ Pubkey
  /-- `istanbulCore.PrepareCommittedSeal(hash)`, the bytes committed seals sign. -/
  prepareCommittedSeal : Hash → Bytes
  /-- `sb.VerifyVrf(pubkey, parentNonce, nonce)`. -/
  verifyVrf : Pubkey → Bytes → Bytes → Except ℕ Unit
  /-- `crypto.UnmarshalPubkey`. -/
  unmarshalPubkey : Bytes → Except ℕ Pubkey
  /-- `crypto.PubkeyToAddress`. -/
  pubkeyToAddress : Pubkey → Address

/-- The backend `sb`: its settings, its collaborators, and `Snapshot.apply`'s
transition for one header (the votes it carries). -/
structure Backend where
  /-- Settings and clock. -/
  config : Config
  /-- Collaborators. -/
  crypto : Crypto
  /-- The vote transition of one header; `Snapshot.apply` also records the
  header's number and hash (`Snapshot.applyOne`). -/
  applyHeader : Snapshot → Header → Snapshot

/-- A chain reader, `consensus.ChainReader`: `GetHeader(hash, number)` finds a
header only under its own hash and number, and `GetHeaderByNumber(n)` only a
header numbered `n`. -/
structure Chain (c : Crypto) where
  /-- `GetHeader(hash, number)`. -/
  getHeader : Hash → ℕ → Option Header
  /-- `GetHeaderByNumber(number)`. -/
  getHeaderByNumber : ℕ → Option Header
  getHeader_key : ∀ {h n H}, getHeader h n = some H → c.hash H = h ∧ H.number = n
  getHeaderByNumber_number : ∀ {n H}, getHeaderByNumber n = some H → H.number = n

/-! ### Caches and state -/

/-- `checkpointInterval`: snapshots of multiples of it are saved to the database. -/
def checkpointInterval : ℕ := 1024

/-- `inmemorySnapshots`, the capacity of `sb.recents`. -/
def inmemorySnapshots : ℕ := 128

/-- `inmemoryAddresses`, the capacity of `recentAddresses` and `recentPubkeys`. -/
def inmemoryAddresses : ℕ := 20

/-- A bounded cache keyed by hash (`lru.ARCCache`), newest entry first. Which
entries an `Add` evicts, `lru.ARCCache` decides by its recency and frequency
lists; the model leaves that choice open: the `n`-th `Add` drops the entries
whose keys `evicts n` marks, and then the oldest entries beyond the capacity. A
lookup does not reorder entries. -/
structure Cache (V : Type) where
  /-- The entries, newest first. -/
  entries : List (Hash × V)
  /-- The capacity. -/
  size : ℕ
  /-- How many times `Add` has been called. -/
  adds : ℕ
  /-- Whether the `n`-th `Add` evicts the entry of a key. -/
  evicts : ℕ → Hash → Bool

namespace Cache

variable {V : Type}

/-- `cache.Get(key)`. -/
def get (c : Cache V) (k : Hash) : Option V := c.entries.lookup k

/-- `cache.Add(key, value)`: the entry goes first, replacing an older one for
the same key; the entries this `Add` evicts are dropped, and so are the oldest
ones beyond the capacity. -/
def add (c : Cache V) (k : Hash) (v : V) : Cache V :=
  { c with
    entries := ((k, v) :: c.entries.filter (fun e => e.1 != k && !c.evicts c.adds e.1)).take c.size
    adds := c.adds + 1 }

/-- An empty cache of capacity `n` (`lru.NewARC(n)`), whose `Add`s evict as
`evicts` says. -/
def empty (n : ℕ) (evicts : ℕ → Hash → Bool) : Cache V := ⟨[], n, 0, evicts⟩

theorem mem_of_lookup {l : List (Hash × V)} {k : Hash} {v : V} (h : l.lookup k = some v) :
    (k, v) ∈ l := by
  induction l with
  | nil => simp at h
  | cons e es ih =>
    obtain ⟨k', v'⟩ := e
    by_cases hk : k = k'
    · subst hk; simp_all
    · simp only [List.lookup_cons, show (k == k') = false from beq_false_of_ne hk] at h
      exact List.mem_cons_of_mem _ (ih h)

theorem mem_of_get {c : Cache V} {k : Hash} {v : V} (h : c.get k = some v) :
    (k, v) ∈ c.entries :=
  mem_of_lookup h

theorem mem_add {c : Cache V} {k k' : Hash} {v v' : V} (h : (k', v') ∈ (c.add k v).entries) :
    (k', v') = (k, v) ∨ (k', v') ∈ c.entries := by
  rcases List.mem_cons.mp (List.mem_of_mem_take h) with h | h
  · exact .inl h
  · exact .inr (List.mem_of_mem_filter h)

@[simp] theorem get_empty (n : ℕ) (evicts : ℕ → Hash → Bool) (k : Hash) :
    (empty n evicts : Cache V).get k = none := rfl

/-- Every entry of the cache satisfies `P`. -/
def All (P : Hash → V → Prop) (c : Cache V) : Prop := ∀ k v, (k, v) ∈ c.entries → P k v

theorem All.get {P : Hash → V → Prop} {c : Cache V} (h : c.All P) {k : Hash} {v : V}
    (hg : c.get k = some v) : P k v :=
  h k v (mem_of_get hg)

theorem All.add {P : Hash → V → Prop} {c : Cache V} (h : c.All P) {k : Hash} {v : V}
    (hkv : P k v) : (c.add k v).All P := by
  intro k' v' hm
  rcases mem_add hm with he | hm
  · cases he; exact hkv
  · exact h k' v' hm

@[simp] theorem All.empty (P : Hash → V → Prop) (n : ℕ) (evicts : ℕ → Hash → Bool) :
    (Cache.empty n evicts : Cache V).All P :=
  fun _ _ h => by simp [Cache.empty] at h

end Cache

/-- The snapshot database, `sb.db`: the snapshots saved under their hash
(`loadSnapshot`), and its answers to writes. `snap.store(sb.db)` marshals the
snapshot and `Put`s it, and either may fail; which writes fail is the
database's, so the model leaves it open: `writeErr n` is the error of the
`n`-th write, if it fails. -/
structure SnapDB where
  /-- The saved snapshots. -/
  saved : Hash → Option Snapshot
  /-- How many writes have been made. -/
  writes : ℕ
  /-- The error of each write, by its number. -/
  writeErr : ℕ → Option ℕ

/-- The snapshot saved under its hash. -/
def SnapDB.save (db : SnapDB) (snap : Snapshot) : SnapDB :=
  { db with saved := Function.update db.saved snap.hash (some snap) }

/-- One more write made. -/
def SnapDB.next (db : SnapDB) : SnapDB := { db with writes := db.writes + 1 }

@[simp] theorem SnapDB.next_saved (db : SnapDB) : db.next.saved = db.saved := rfl

/-- The engine's mutable state. -/
structure State where
  /-- `sb.recents`, the in-memory snapshots. -/
  recents : Cache Snapshot
  /-- `sb.db`, the snapshot database. -/
  db : SnapDB
  /-- `recentAddresses`, the signers `ecrecover` recovered. -/
  recentAddresses : Cache Address
  /-- `recentPubkeys`, the keys `recoverPubkey` recovered. -/
  recentPubkeys : Cache Pubkey

/-- What the model leaves open of the engine's environment: which entries each
`Add` of the three caches evicts, and which writes to the database fail. -/
structure Choices where
  /-- The evictions of `sb.recents`. -/
  recentsEvicts : ℕ → Hash → Bool
  /-- The evictions of `recentAddresses`. -/
  addressesEvicts : ℕ → Hash → Bool
  /-- The evictions of `recentPubkeys`. -/
  pubkeysEvicts : ℕ → Hash → Bool
  /-- The errors of the database's writes. -/
  writeErr : ℕ → Option ℕ

/-- Empty caches and an empty snapshot database, under the choices `ch`. -/
def State.fresh (ch : Choices) : State :=
  ⟨.empty inmemorySnapshots ch.recentsEvicts, ⟨fun _ => none, 0, ch.writeErr⟩,
    .empty inmemoryAddresses ch.addressesEvicts, .empty inmemoryAddresses ch.pubkeysEvicts⟩

/-- Empty caches and an empty snapshot database whose writes all succeed, the
caches evicting only beyond their capacity. -/
def State.init : State :=
  State.fresh ⟨fun _ _ => false, fun _ _ => false, fun _ _ => false, fun _ => none⟩

/-- The engine's functions: they read and change the state and may fail. -/
abbrev M := EStateM Error State

/-- The state a run of `M` ends in, whether it returned or failed. -/
def endState {α : Type} : EStateM.Result Error State α → State
  | .ok _ s => s
  | .error _ s => s

@[simp] theorem endState_error {α : Type} (e : Error) (s : State) :
    endState (.error e s : EStateM.Result Error State α) = s := rfl

/-- A result that may be an engine error, in `M`. -/
def liftExcept {α : Type} : Except Error α → M α
  | .ok a => pure a
  | .error e => throw e

/-- A collaborator's result, in `M`: its error code is an external error. -/
def liftExt {α : Type} : Except ℕ α → M α
  | .ok a => pure a
  | .error e => throw (.external e)

/-! ### Running `M` -/

section Run

variable {α β : Type} (s : State)

@[simp] theorem run_pure (a : α) : (pure a : M α) s = .ok a s := rfl

@[simp] theorem run_bind (x : M α) (f : α → M β) :
    (x >>= f) s = match x s with
      | .ok a s' => f a s'
      | .error e s' => .error e s' := by
  show EStateM.bind x f s = _
  unfold EStateM.bind
  cases x s <;> rfl

@[simp] theorem run_map (f : α → β) (x : M α) :
    (f <$> x) s = match x s with
      | .ok a s' => .ok (f a) s'
      | .error e s' => .error e s' := by
  show EStateM.map f x s = _
  unfold EStateM.map
  cases x s <;> rfl

@[simp] theorem run_throw (e : Error) : (throw e : M α) s = .error e s := rfl

@[simp] theorem run_get : (get : M State) s = .ok s s := rfl

@[simp] theorem run_modify (f : State → State) : (modify f : M Unit) s = .ok () (f s) := rfl

@[simp] theorem run_set (s' : State) : (set s' : M PUnit) s = .ok ⟨⟩ s' := rfl

@[simp] theorem run_liftExcept_ok (a : α) : liftExcept (.ok a) s = .ok a s := rfl

@[simp] theorem run_liftExcept_error (e : Error) :
    (liftExcept (.error e) : M α) s = .error e s := rfl

@[simp] theorem run_liftExt_ok (a : α) : liftExt (.ok a) s = .ok a s := rfl

@[simp] theorem run_liftExt_error (e : ℕ) :
    (liftExt (.error e) : M α) s = .error (.external e) s := rfl

variable {s} {s' : State}

theorem run_bind_eq_ok {x : M α} {f : α → M β} {b : β} :
    (x >>= f) s = .ok b s' ↔ ∃ a t, x s = .ok a t ∧ f a t = .ok b s' := by
  rw [run_bind]; cases x s <;> simp [and_assoc]

theorem run_bind_eq_error {x : M α} {f : α → M β} {e : Error} :
    (x >>= f) s = .error e s' ↔ x s = .error e s' ∨ ∃ a t, x s = .ok a t ∧ f a t = .error e s' := by
  rw [run_bind]; cases x s <;> simp [and_assoc]

theorem run_liftExt_eq_ok {r : Except ℕ α} {a : α} :
    liftExt r s = .ok a s' ↔ r = .ok a ∧ s' = s := by
  cases r <;> simp [liftExt, eq_comm]

theorem run_liftExcept_eq_ok {r : Except Error α} {a : α} :
    liftExcept r s = .ok a s' ↔ r = .ok a ∧ s' = s := by
  cases r <;> simp [liftExcept, eq_comm]

theorem run_liftExcept_eq_error {r : Except Error α} {e : Error} :
    liftExcept r s = .error e s' ↔ r = .error e ∧ s' = s := by
  cases r <;> simp [liftExcept, eq_comm]

end Run

/-! ### Invariants of the engine's functions -/

section Keeps

variable {α β : Type} {P : State → Prop}

/-- `x` keeps `P`: started where `P` holds, it ends, returned or failed, where
`P` holds. -/
def Keeps (P : State → Prop) (x : M α) : Prop := ∀ s, P s → P (endState (x s))

theorem keeps_pure (a : α) : Keeps P (pure a) := fun _ h => h

theorem keeps_throw (e : Error) : Keeps P (throw e : M α) := fun _ h => h

theorem keeps_throw_bind (e : Error) (f : α → M β) : Keeps P (throw e >>= f) := fun _ h => h

theorem keeps_liftExt (r : Except ℕ α) : Keeps P (liftExt r) := by
  cases r <;> exact fun _ h => h

theorem keeps_liftExcept (r : Except Error α) : Keeps P (liftExcept r) := by
  cases r <;> exact fun _ h => h

theorem Keeps.bind {x : M α} {f : α → M β} (hx : Keeps P x) (hf : ∀ a, Keeps P (f a)) :
    Keeps P (x >>= f) := by
  intro s hs
  have := hx s hs
  rw [run_bind]
  cases hr : x s with
  | ok a t => rw [hr] at this; exact hf a t this
  | error e t => rw [hr] at this; exact this

theorem keeps_get_bind {f : State → M β} (hf : ∀ s, Keeps P (f s)) : Keeps P (get >>= f) :=
  fun s hs => hf s s hs

theorem keeps_ite {c : Prop} [Decidable c] {x y : M α} (hx : Keeps P x) (hy : Keeps P y) :
    Keeps P (if c then x else y) := by
  split_ifs <;> assumption

theorem Keeps.of_ok {x : M α} (hk : Keeps P x) {s t : State} {a : α} (hs : P s)
    (h : x s = .ok a t) : P t := by
  simpa [h] using hk s hs

end Keeps

/-! ### Errors the engine's functions never return -/

section Avoids

variable {α β : Type} {P : State → Prop} {e : Error}

/-- From a state where `P` holds, `x` never fails with `e`. -/
def Avoids (P : State → Prop) (e : Error) (x : M α) : Prop := ∀ s s', P s → x s ≠ .error e s'

theorem avoids_pure (a : α) : Avoids P e (pure a) := fun _ _ _ h => by cases h

theorem avoids_throw {e' : Error} (h : e' ≠ e) : Avoids P e (throw e' : M α) :=
  fun _ _ _ h' => h (by cases h'; rfl)

theorem avoids_throw_bind {e' : Error} (h : e' ≠ e) (f : α → M β) :
    Avoids P e (throw e' >>= f) :=
  avoids_throw h

theorem avoids_liftExt (h : ∀ n, Error.external n ≠ e) (r : Except ℕ α) :
    Avoids P e (liftExt r) := by
  cases r
  · exact avoids_throw (h _)
  · exact avoids_pure _

theorem avoids_liftExcept {r : Except Error α} (h : r ≠ .error e) : Avoids P e (liftExcept r) := by
  cases r
  · exact avoids_throw fun he => h (he ▸ rfl)
  · exact avoids_pure _

/-- `x >>= f` avoids `e` when `x` does and `f` does after every return of `x`. -/
theorem Avoids.bind {x : M α} {f : α → M β} (hx : Avoids P e x)
    (hf : ∀ s a t, P s → x s = .ok a t → ∀ t', f a t ≠ .error e t') : Avoids P e (x >>= f) := by
  intro s s' hs h
  rcases run_bind_eq_error.mp h with h | ⟨a, t, hr, h⟩
  · exact hx s s' hs h
  · exact hf s a t hs hr s' h

theorem Avoids.bind_keeps {x : M α} {f : α → M β} (hx : Avoids P e x) (hk : Keeps P x)
    (hf : ∀ a, Avoids P e (f a)) : Avoids P e (x >>= f) :=
  hx.bind fun _ a _ hs hr t' => hf a _ t' (hk.of_ok hs hr)

theorem avoids_ite {c : Prop} [Decidable c] {x y : M α} (hx : Avoids P e x) (hy : Avoids P e y) :
    Avoids P e (if c then x else y) := by
  split_ifs <;> assumption

end Avoids

end Venachain.Istanbul
