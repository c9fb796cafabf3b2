import Venachain.Istanbul.CommittedSeal
import Venachain.Istanbul.Snapshot

/-!
# Header verification

`VerifyHeader`, `verifyHeader`, `verifyCascadingFields`, `verifySigner`,
`verifyVRF` and `verifyCommittedSeals` (engine.go, lines 146–346), with the
signature caches `ecrecover` and `recoverPubkey` (lines 689–729) they go
through.

Two things are proved here about a header checked against a parent snapshot.

* The committed-seal check (`verifyCommittedSeals_ok_iff`): it passes exactly
  when the seals are not empty and recover to at least `S - F` distinct
  validators of the snapshot, and otherwise fails with one of its three
  errors; two headers it accepts against one validator set share `F + 1`
  signers (`verifyCommittedSeals_quorum_inter`).
* No nil key is dereferenced (`verifyCascadingFields_no_nil_pubkey`):
  `recoverPubkey` dereferences the nil key `GetSignaturePubkey` returns with
  an error, but `verifyVRF` only runs after `verifySigner` has recovered the
  signer from the same seal and signing hash, directly or through
  `recentAddresses`, whose entries were all recovered from a header with
  their hash (`AddressesRecovered`, kept by every engine function).

A header's `Number` is never nil here (headers are RLP-decoded), so
`verifyHeader`'s first check is not modelled; its call of
`ExtractIstanbulExtra`, whose error is ignored, has no effect and is left out,
and so is the byte copy of the snapshot's validators in
`verifyCascadingFields`, which nothing reads.
-/

namespace Venachain.Istanbul

/-- `ecrecover(header)`: the signer, from `recentAddresses` or recovered from
the seal over `sigHash(header)` and then cached. -/
def ecrecover (c : Crypto) (header : Header) : M Address := do
  let hash := c.hash header
  let s ← get
  match s.recentAddresses.get hash with
  | some addr => return addr
  | none =>
    let istanbulExtra ← liftExt (c.extractIstanbulExtra header.extra)
    let addr ← liftExt (c.getSignatureAddress (c.sigHash header) istanbulExtra.proposerSeal)
    modify fun s => { s with recentAddresses := s.recentAddresses.add hash addr }
    return addr

/-- `recoverPubkey(header)`: the signer's key, from `recentPubkeys` or recovered
from the seal. When recovery fails, `return *pubkey, err` dereferences the nil
key: a panic. -/
def recoverPubkey (c : Crypto) (header : Header) : M Pubkey := do
  let hash := c.hash header
  let s ← get
  match s.recentPubkeys.get hash with
  | some pubkey => return pubkey
  | none =>
    let istanbulExtra ← liftExt (c.extractIstanbulExtra header.extra)
    match c.getSignaturePubkey (c.sigHash header) istanbulExtra.proposerSeal with
    | .error _ => throw .nilPubkey
    | .ok pubkey =>
      modify fun s => { s with recentPubkeys := s.recentPubkeys.add hash pubkey }
      return pubkey

variable (b : Backend) (chain : Chain b.crypto)

/-- `verifySigner`: the signer is in the parent snapshot's validator set. -/
def verifySigner (header : Header) (parents : List Header) : M Unit := do
  let number := u64 header.number
  if number = 0 then throw .unknownBlock
  let snap ← snapshot b chain (number - 1) header.parentHash parents
  let signer ← ecrecover b.crypto header
  if (ValSet.getByAddress snap.valSet signer).isNone then throw .unauthorized

/-- `verifyVRF`: the nonce is a VRF output of the signer's key over the parent's
nonce; the parent comes from the chain only. -/
def verifyVRF (header : Header) : M Unit := do
  let number := u64 header.number
  if number = 0 then throw .unknownBlock
  match chain.getHeader header.parentHash (number - 1) with
  | none => throw .unknownAncestor
  | some parent =>
    let pubkey ← recoverPubkey b.crypto header
    liftExt (b.crypto.verifyVrf pubkey parent.nonce header.nonce)

/-- `verifyCommittedSeals`: the committed seals against the parent snapshot. -/
def verifyCommittedSeals (header : Header) (parents : List Header) : M Unit := do
  let number := u64 header.number
  if number = 0 then return ()
  let snap ← snapshot b chain (number - 1) header.parentHash parents
  let extra ← liftExt (b.crypto.extractIstanbulExtra header.extra)
  liftExcept (checkCommittedSeals b.crypto header snap.valSet extra)

/-- `verifyCascadingFields`: the checks against the parent, taken from `parents`
when there are any and from the chain otherwise. `BlockPeriod` is a `uint64`
and the sum with the parent's time wraps. -/
def verifyCascadingFields (header : Header) (parents : List Header) : M Unit := do
  let number := u64 header.number
  if number = 0 then return ()
  let parent := parents.getLast?.or (chain.getHeader header.parentHash (number - 1))
  match parent with
  | none => throw .unknownAncestor
  | some parent =>
    if u64 parent.number ≠ number - 1 ∨ b.crypto.hash parent ≠ header.parentHash then
      throw .unknownAncestor
    if u64 (u64 parent.time + b.config.blockPeriod) > u64 header.time then
      throw .invalidTimestamp
    let _snap ← snapshot b chain (number - 1) header.parentHash parents
    verifySigner b chain header parents
    if b.config.electionEpoch ≠ 0 then verifyVRF b chain header
    verifyCommittedSeals b chain header parents

/-- `verifyHeader`: not from the future, then the cascading checks. -/
def verifyHeader (header : Header) (parents : List Header) : M Unit := do
  if header.time > b.config.now + 30000 then throw .futureBlock
  verifyCascadingFields b chain header parents

/-- `VerifyHeader`: headers up to the replay pivot pass unchecked. -/
def VerifyHeader (header : Header) : M Unit := do
  if u64 header.number ≤ b.config.pivot then return ()
  verifyHeader b chain header []

/-! ### The signature caches -/

section Caches

variable {c : Crypto} {header : Header} {s s' : State}

/-- What `ecrecover` can do, branch by branch. -/
inductive EcrecoverSpec (c : Crypto) (header : Header) (s : State) :
    EStateM.Result Error State Address → Prop
  /-- The signer is in `recentAddresses`. -/
  | cached {a : Address} : s.recentAddresses.get (c.hash header) = some a →
      EcrecoverSpec c header s (.ok a s)
  /-- The extra-data does not parse. -/
  | badExtra {e : ℕ} : s.recentAddresses.get (c.hash header) = none →
      c.extractIstanbulExtra header.extra = .error e →
      EcrecoverSpec c header s (.error (.external e) s)
  /-- The seal does not recover. -/
  | badSeal {extra : IstanbulExtra} {e : ℕ} : s.recentAddresses.get (c.hash header) = none →
      c.extractIstanbulExtra header.extra = .ok extra →
      c.getSignatureAddress (c.sigHash header) extra.proposerSeal = .error e →
      EcrecoverSpec c header s (.error (.external e) s)
  /-- The signer is recovered and cached under the header's hash. -/
  | recovered {extra : IstanbulExtra} {a : Address} :
      s.recentAddresses.get (c.hash header) = none →
      c.extractIstanbulExtra header.extra = .ok extra →
      c.getSignatureAddress (c.sigHash header) extra.proposerSeal = .ok a →
      EcrecoverSpec c header s
        (.ok a { s with recentAddresses := s.recentAddresses.add (c.hash header) a })

theorem ecrecover_spec (c : Crypto) (header : Header) (s : State) :
    EcrecoverSpec c header s (ecrecover c header s) := by
  simp only [ecrecover, run_bind, run_get]
  cases hg : s.recentAddresses.get (c.hash header) with
  | some a => exact .cached hg
  | none =>
  cases hx : c.extractIstanbulExtra header.extra with
  | error e => exact .badExtra hg hx
  | ok extra =>
  simp only [run_bind, run_liftExt_ok]
  cases ha : c.getSignatureAddress (c.sigHash header) extra.proposerSeal with
  | error e => exact .badSeal hg hx ha
  | ok a => exact .recovered hg hx ha

/-- What `recoverPubkey` can do, branch by branch. -/
inductive RecoverPubkeySpec (c : Crypto) (header : Header) (s : State) :
    EStateM.Result Error State Pubkey → Prop
  /-- The key is in `recentPubkeys`. -/
  | cached {k : Pubkey} : s.recentPubkeys.get (c.hash header) = some k →
      RecoverPubkeySpec c header s (.ok k s)
  /-- The extra-data does not parse. -/
  | badExtra {e : ℕ} : s.recentPubkeys.get (c.hash header) = none →
      c.extractIstanbulExtra header.extra = .error e →
      RecoverPubkeySpec c header s (.error (.external e) s)
  /-- The seal does not recover: `*pubkey` dereferences the nil key. -/
  | nilKey {extra : IstanbulExtra} {e : ℕ} : s.recentPubkeys.get (c.hash header) = none →
      c.extractIstanbulExtra header.extra = .ok extra →
      c.getSignaturePubkey (c.sigHash header) extra.proposerSeal = .error e →
      RecoverPubkeySpec c header s (.error .nilPubkey s)
  /-- The key is recovered and cached under the header's hash. -/
  | recovered {extra : IstanbulExtra} {k : Pubkey} :
      s.recentPubkeys.get (c.hash header) = none →
      c.extractIstanbulExtra header.extra = .ok extra →
      c.getSignaturePubkey (c.sigHash header) extra.proposerSeal = .ok k →
      RecoverPubkeySpec c header s
        (.ok k { s with recentPubkeys := s.recentPubkeys.add (c.hash header) k })

theorem recoverPubkey_spec (c : Crypto) (header : Header) (s : State) :
    RecoverPubkeySpec c header s (recoverPubkey c header s) := by
  simp only [recoverPubkey, run_bind, run_get]
  cases hg : s.recentPubkeys.get (c.hash header) with
  | some k => exact .cached hg
  | none =>
  cases hx : c.extractIstanbulExtra header.extra with
  | error e => exact .badExtra hg hx
  | ok extra =>
  simp only [run_bind, run_liftExt_ok]
  cases hk : c.getSignaturePubkey (c.sigHash header) extra.proposerSeal with
  | error e => exact .nilKey hg hx hk
  | ok k => exact .recovered hg hx hk

/-- `header`'s extra-data parses and its seal recovers to `a` over its signing hash. -/
def SignedBy (c : Crypto) (header : Header) (a : Address) : Prop :=
  ∃ extra, c.extractIstanbulExtra header.extra = .ok extra ∧
    c.getSignatureAddress (c.sigHash header) extra.proposerSeal = .ok a

/-- Every signer in `recentAddresses` was recovered from a header with its hash. -/
def AddressesRecovered (c : Crypto) (s : State) : Prop :=
  s.recentAddresses.All fun k a => ∃ H, c.hash H = k ∧ SignedBy c H a

theorem AddressesRecovered.fresh (ch : Choices) : AddressesRecovered c (State.fresh ch) :=
  Cache.All.empty _ _ _

theorem ecrecover_keeps : Keeps (AddressesRecovered c) (ecrecover c header) := by
  intro s hs
  generalize hr : ecrecover c header s = r
  cases hr ▸ ecrecover_spec c header s with
  | recovered _ hx ha => exact Cache.All.add hs ⟨header, rfl, _, hx, ha⟩
  | _ => exact hs

/-- A signer `ecrecover` returns was recovered from a header with the same hash. -/
theorem ecrecover_signed {a : Address} (hs : AddressesRecovered c s)
    (h : ecrecover c header s = .ok a s') : ∃ H, c.hash H = c.hash header ∧ SignedBy c H a := by
  generalize hr : ecrecover c header s = r at h
  cases hr ▸ ecrecover_spec c header s with
  | cached hg => cases h; exact Cache.All.get hs hg
  | recovered _ hx ha => cases h; exact ⟨header, rfl, _, hx, ha⟩
  | _ => cases h

theorem ecrecover_avoids {P : State → Prop} : Avoids P .nilPubkey (ecrecover c header) := by
  intro s s' _ h
  generalize hr : ecrecover c header s = r at h
  cases hr ▸ ecrecover_spec c header s <;> cases h

theorem recoverPubkey_keeps : Keeps (AddressesRecovered c) (recoverPubkey c header) := by
  intro s hs
  generalize hr : recoverPubkey c header s = r
  cases hr ▸ recoverPubkey_spec c header s <;> exact hs

/-- The assumptions under which the two caches agree: `GetSignatureAddress`
and `GetSignaturePubkey` fail on the same inputs, and a header's hash
determines its signing hash and its proposer seal. -/
structure Crypto.SealsCoherent (c : Crypto) : Prop where
  recover_isOk : ∀ d sig, (c.getSignatureAddress d sig).isOk = (c.getSignaturePubkey d sig).isOk
  sigHash_eq : ∀ {H H'}, c.hash H = c.hash H' → c.sigHash H = c.sigHash H'
  seal_eq : ∀ {H H' e e'}, c.hash H = c.hash H' → c.extractIstanbulExtra H.extra = .ok e →
    c.extractIstanbulExtra H'.extra = .ok e' → e.proposerSeal = e'.proposerSeal

/-- Once a header with `header`'s hash had its signer recovered, recovering
`header`'s key never dereferences the nil key. -/
theorem recoverPubkey_avoids {P : State → Prop} (hc : c.SealsCoherent) {H : Header} {a : Address}
    (hH : c.hash H = c.hash header) (hsig : SignedBy c H a) :
    Avoids P .nilPubkey (recoverPubkey c header) := by
  intro s s' _ h
  generalize hr : recoverPubkey c header s = r at h
  cases hr ▸ recoverPubkey_spec c header s with
  | @nilKey extra _ _ hx hk =>
    obtain ⟨extra', hx', ha⟩ := hsig
    rw [hc.sigHash_eq hH, hc.seal_eq hH hx' hx] at ha
    have := hc.recover_isOk (c.sigHash header) extra.proposerSeal
    rw [ha, hk] at this
    cases this
  | _ => cases h

end Caches

/-! ### The recovered-signer cache over whole runs -/

section Keeps

variable {b} {chain} {header : Header} {parents : List Header}

theorem snapshot_keeps {n : ℕ} {h : Hash} :
    Keeps (AddressesRecovered b.crypto) (snapshot b chain n h parents) := by
  intro s hs
  unfold AddressesRecovered
  rw [(@snapshot_frame b chain n h parents s).1]
  exact hs

theorem verifySigner_keeps :
    Keeps (AddressesRecovered b.crypto) (verifySigner b chain header parents) :=
  keeps_ite (keeps_throw_bind _ _) ((keeps_pure _).bind fun _ => snapshot_keeps.bind fun _ =>
    ecrecover_keeps.bind fun _ => keeps_ite (keeps_throw _) (keeps_pure _))

theorem verifyVRF_keeps : Keeps (AddressesRecovered b.crypto) (verifyVRF b chain header) := by
  refine keeps_ite (keeps_throw_bind _ _) ((keeps_pure _).bind fun _ => ?_)
  split
  · exact keeps_throw _
  · exact recoverPubkey_keeps.bind fun _ => keeps_liftExt _

theorem verifyCommittedSeals_keeps :
    Keeps (AddressesRecovered b.crypto) (verifyCommittedSeals b chain header parents) :=
  keeps_ite (keeps_pure _) ((keeps_pure _).bind fun _ => snapshot_keeps.bind fun _ =>
    (keeps_liftExt _).bind fun _ => keeps_liftExcept _)

theorem verifyCascadingFields_keeps :
    Keeps (AddressesRecovered b.crypto) (verifyCascadingFields b chain header parents) := by
  simp only [verifyCascadingFields]
  refine keeps_ite (keeps_pure _) ((keeps_pure _).bind fun _ => ?_)
  split
  · exact keeps_throw _
  · refine keeps_ite (keeps_throw_bind _ _) ((keeps_pure _).bind fun _ => ?_)
    refine keeps_ite (keeps_throw_bind _ _) ((keeps_pure _).bind fun _ => ?_)
    exact snapshot_keeps.bind fun _ => verifySigner_keeps.bind fun _ =>
      keeps_ite (verifyVRF_keeps.bind fun _ => verifyCommittedSeals_keeps)
        ((keeps_pure _).bind fun _ => verifyCommittedSeals_keeps)

theorem verifyHeader_keeps :
    Keeps (AddressesRecovered b.crypto) (verifyHeader b chain header parents) :=
  keeps_ite (keeps_throw_bind _ _) ((keeps_pure _).bind fun _ => verifyCascadingFields_keeps)

theorem VerifyHeader_keeps : Keeps (AddressesRecovered b.crypto) (VerifyHeader b chain header) :=
  keeps_ite (keeps_pure _) ((keeps_pure _).bind fun _ => verifyHeader_keeps)

end Keeps

variable {b}

/-- The states the engine reaches from empty caches and an empty database,
whatever the caches evict and whichever writes fail, by calls of its entry
points, each with any chain reader and arguments: `VerifyHeader`,
`verifyHeader` (one header of `VerifyHeaders`), `snapshot` (for the engine's
other callers), `ecrecover` (`Author`) and `recoverPubkey`. -/
inductive EngineReachable (b : Backend) : State → Prop
  | init (ch : Choices) : EngineReachable b (State.fresh ch)
  | VerifyHeader {s : State} (chain : Chain b.crypto) (header : Header) :
      EngineReachable b s → EngineReachable b (endState (VerifyHeader b chain header s))
  | verifyHeader {s : State} (chain : Chain b.crypto) (header : Header) (parents : List Header) :
      EngineReachable b s → EngineReachable b (endState (verifyHeader b chain header parents s))
  | snapshot {s : State} (chain : Chain b.crypto) (n : ℕ) (h : Hash) (parents : List Header) :
      EngineReachable b s → EngineReachable b (endState (snapshot b chain n h parents s))
  | ecrecover {s : State} (header : Header) :
      EngineReachable b s → EngineReachable b (endState (ecrecover b.crypto header s))
  | recoverPubkey {s : State} (header : Header) :
      EngineReachable b s → EngineReachable b (endState (recoverPubkey b.crypto header s))

theorem EngineReachable.addressesRecovered {s : State} (hr : EngineReachable b s) :
    AddressesRecovered b.crypto s := by
  induction hr with
  | init ch => exact AddressesRecovered.fresh ch
  | VerifyHeader _ _ _ ih => exact VerifyHeader_keeps _ ih
  | verifyHeader _ _ _ _ ih => exact verifyHeader_keeps _ ih
  | snapshot _ _ _ _ _ ih => exact snapshot_keeps _ ih
  | ecrecover _ _ ih => exact ecrecover_keeps _ ih
  | recoverPubkey _ _ ih => exact recoverPubkey_keeps _ ih

/-! ### A one-validator network

The network the instances of this module's theorems run on: its only validator
is the key 7, a header's extra-data parses to one committed seal, and every
signature recovers to 7. -/

/-- Collaborators under which a header hashes to its time times 1000 plus its
number plus 100. -/
def soloCrypto : Crypto where
  hash H := H.time * 1000 + H.number + 100
  sigHash _ := []
  extractIstanbulExtra bs := .ok ⟨[], [], [bs]⟩
  getSignatureAddress _ _ := .ok 7
  getSignaturePubkey _ _ := .ok 7
  prepareCommittedSeal _ := []
  verifyVrf _ _ _ := .ok ()
  unmarshalPubkey _ := .ok 7
  pubkeyToAddress k := k

/-- A backend with VRF election on and a block period of 1. -/
def soloBackend : Backend := ⟨⟨1, [], 0, 1, 1000000⟩, soloCrypto, fun s _ => s⟩

/-- Block 0 of `soloChain`. -/
def soloGenesis : Header := ⟨0, 0, 0, [], [], 0⟩

/-- A child of block 0 made at time `t`. -/
def soloBlock (t : ℕ) : Header := ⟨100, 1, t, [], [], 0⟩

/-- The chain of block 0 alone. -/
def soloChain : Chain soloCrypto where
  getHeader h n := if n = 0 ∧ h = 100 then some soloGenesis else none
  getHeaderByNumber n := if n = 0 then some soloGenesis else none
  getHeader_key := by
    intro h n H hH
    dsimp only at hH
    split_ifs at hH with h0
    cases hH
    exact ⟨h0.2.symm, h0.1.symm⟩
  getHeaderByNumber_number := by
    intro n H hH
    dsimp only at hH
    split_ifs at hH with h0
    cases hH
    exact h0.symm

theorem soloCrypto_sealsCoherent : soloCrypto.SealsCoherent where
  recover_isOk _ _ := rfl
  sigHash_eq _ := rfl
  seal_eq _ h h' := by cases h; cases h'; rfl

/-! ### A four-validator network

Block 1 installs the validators 1, 2, 3 and 4, so `F = 1` and a header needs
`S - F = 3` committed seals. A header's extra-data is its proposer seal, one
byte, then its committed seals, one byte each; a seal `[a]` recovers to `a`,
except `[0]`, which recovers to nothing. A header hashes to its number and its
proposer seal, so its hash determines the seal. -/

/-- Recovery of a one-byte signature: its byte, unless it is 0. -/
def quorumRecover : Bytes → Except ℕ Address
  | [a] => if a = 0 then .error 1 else .ok a.toNat
  | _ => .error 1

/-- Collaborators of the four-validator network. -/
def quorumCrypto : Crypto where
  hash H := H.number * 256 + (H.extra.headD 0).toNat
  sigHash _ := []
  extractIstanbulExtra bs := match bs with
    | s :: seals => .ok ⟨[], [s], seals.map fun a => [a]⟩
    | [] => .error 0
  getSignatureAddress _ sig := quorumRecover sig
  getSignaturePubkey _ sig := quorumRecover sig
  prepareCommittedSeal _ := []
  verifyVrf _ _ _ := .ok ()
  unmarshalPubkey _ := .ok 1
  pubkeyToAddress k := k

/-- A backend with VRF election on, whose vote transition installs the four
validators. -/
def quorumBackend : Backend :=
  ⟨⟨1, [], 0, 1, 1000000⟩, quorumCrypto, fun s _ => { s with valSet := [1, 2, 3, 4] }⟩

/-- Block 0 of `quorumChain`. -/
def quorumGenesis : Header := ⟨0, 0, 0, [], [], 0⟩

/-- Block 1 of `quorumChain`, sealed by 1. -/
def quorumOne : Header := ⟨0, 1, 10, [1], [], 0⟩

/-- A block 2, child of block 1, with the extra-data `extra`. -/
def quorumBlock (extra : Bytes) : Header := ⟨257, 2, 20, extra, [], 0⟩

/-- The chain of blocks 0 and 1. -/
def quorumChain : Chain quorumCrypto where
  getHeader h n :=
    if n = 0 ∧ h = 0 then some quorumGenesis else if n = 1 ∧ h = 257 then some quorumOne else none
  getHeaderByNumber n := if n = 0 then some quorumGenesis else if n = 1 then some quorumOne else none
  getHeader_key := by
    intro h n H hH
    dsimp only at hH
    split_ifs at hH with h1 h2 <;> cases hH
    · exact ⟨h1.2.symm, h1.1.symm⟩
    · exact ⟨h2.2.symm, h2.1.symm⟩
  getHeaderByNumber_number := by
    intro n H hH
    dsimp only at hH
    split_ifs at hH with h1 h2 <;> cases hH
    · exact h1.symm
    · exact h2.symm

theorem quorumCrypto_sealsCoherent : quorumCrypto.SealsCoherent where
  recover_isOk _ _ := rfl
  sigHash_eq _ := rfl
  seal_eq {H H' _ _} hh hx hx' := by
    rcases H with ⟨_, n, _, _ | ⟨a, _⟩, _, _⟩ <;> rcases H' with ⟨_, n', _, _ | ⟨a', _⟩, _, _⟩ <;>
      cases hx <;> cases hx'
    have hh : n * 256 + a.toNat = n' * 256 + a'.toNat := hh
    have ha : a.toNat = a'.toNat := by
      have := UInt8.toNat_lt_size a
      have := UInt8.toNat_lt_size a'
      simp only [UInt8.size] at *; omega
    rw [UInt8.toNat.inj ha]

/-! ### No nil key is dereferenced -/

section NilPubkey

variable {chain : Chain b.crypto} {header : Header} {parents : List Header}

/-- A header `verifySigner` accepts had its signer recovered, from itself or
from a header with its hash whose signer `recentAddresses` held. -/
theorem verifySigner_signed {s s' : State} (hs : AddressesRecovered b.crypto s)
    (h : verifySigner b chain header parents s = .ok () s') :
    ∃ H a, b.crypto.hash H = b.crypto.hash header ∧ SignedBy b.crypto H a := by
  unfold verifySigner at h
  split_ifs at h
  · cases h
  · obtain ⟨_, t, ht, h⟩ := run_bind_eq_ok.mp h
    cases ht
    obtain ⟨snap, t₁, hsnap, h⟩ := run_bind_eq_ok.mp h
    obtain ⟨a, t₂, hrec, -⟩ := run_bind_eq_ok.mp h
    obtain ⟨H, hH, hsig⟩ := ecrecover_signed (snapshot_keeps.of_ok hs hsnap) hrec
    exact ⟨H, a, hH, hsig⟩

variable {P : State → Prop}

theorem snapshot_avoids {n : ℕ} {h : Hash} : Avoids P .nilPubkey (snapshot b chain n h parents) := by
  intro s s' _ he
  rcases snapshot_error he with h | h | h | ⟨_, h⟩ <;> cases h

theorem verifySigner_avoids :
    Avoids (AddressesRecovered b.crypto) .nilPubkey (verifySigner b chain header parents) :=
  avoids_ite (avoids_throw_bind (by decide) _) ((avoids_pure _).bind_keeps (keeps_pure _) fun _ =>
    snapshot_avoids.bind_keeps snapshot_keeps fun _ => ecrecover_avoids.bind_keeps ecrecover_keeps
      fun _ => avoids_ite (avoids_throw (by decide)) (avoids_pure _))

theorem verifyVRF_avoids (hc : b.crypto.SealsCoherent) {H : Header} {a : Address}
    (hH : b.crypto.hash H = b.crypto.hash header) (hsig : SignedBy b.crypto H a) :
    Avoids (AddressesRecovered b.crypto) .nilPubkey (verifyVRF b chain header) := by
  refine avoids_ite (avoids_throw_bind (by decide) _)
    ((avoids_pure _).bind_keeps (keeps_pure _) fun _ => ?_)
  split
  · exact avoids_throw (by decide)
  · exact (recoverPubkey_avoids hc hH hsig).bind_keeps recoverPubkey_keeps fun _ =>
      avoids_liftExt (fun _ h => by cases h) _

theorem verifyCommittedSeals_avoids :
    Avoids (AddressesRecovered b.crypto) .nilPubkey (verifyCommittedSeals b chain header parents) :=
  avoids_ite (avoids_pure _) ((avoids_pure _).bind_keeps (keeps_pure _) fun _ =>
    snapshot_avoids.bind_keeps snapshot_keeps fun _ =>
      (avoids_liftExt (fun _ h => by cases h) _).bind_keeps (keeps_liftExt _) fun _ =>
        avoids_liftExcept fun h => by rcases checkCommittedSeals_error h with h | h | h <;> cases h)

theorem verifyCascadingFields_avoids (hc : b.crypto.SealsCoherent) :
    Avoids (AddressesRecovered b.crypto) .nilPubkey
      (verifyCascadingFields b chain header parents) := by
  simp only [verifyCascadingFields]
  refine avoids_ite (avoids_pure _) ((avoids_pure _).bind_keeps (keeps_pure _) fun _ => ?_)
  split
  · exact avoids_throw (by decide)
  refine avoids_ite (avoids_throw_bind (by decide) _)
    ((avoids_pure _).bind_keeps (keeps_pure _) fun _ => ?_)
  refine avoids_ite (avoids_throw_bind (by decide) _)
    ((avoids_pure _).bind_keeps (keeps_pure _) fun _ => ?_)
  refine snapshot_avoids.bind_keeps snapshot_keeps fun _ => verifySigner_avoids.bind ?_
  intro t _ t₁ ht hv t'
  obtain ⟨H, a, hH, hsig⟩ := verifySigner_signed ht hv
  exact avoids_ite
    ((verifyVRF_avoids hc hH hsig).bind_keeps verifyVRF_keeps fun _ => verifyCommittedSeals_avoids)
    ((avoids_pure _).bind_keeps (keeps_pure _) fun _ => verifyCommittedSeals_avoids)
    t₁ t' (verifySigner_keeps.of_ok ht hv)

theorem verifyHeader_avoids (hc : b.crypto.SealsCoherent) :
    Avoids (AddressesRecovered b.crypto) .nilPubkey (verifyHeader b chain header parents) :=
  avoids_ite (avoids_throw_bind (by decide) _)
    ((avoids_pure _).bind_keeps (keeps_pure _) fun _ => verifyCascadingFields_avoids hc)

/-- From every state the engine reaches, `verifyCascadingFields`, and so
`verifyHeader` and `VerifyHeader`, never dereference the nil key
`GetSignaturePubkey` returns with its error: `verifyVRF` recovers the key only
after `verifySigner` has recovered the signer from the same seal and signing
hash. -/
theorem verifyCascadingFields_no_nil_pubkey (hc : b.crypto.SealsCoherent) {s : State}
    (hr : EngineReachable b s) (s' : State) :
    verifyCascadingFields b chain header parents s ≠ .error .nilPubkey s' ∧
    verifyHeader b chain header parents s ≠ .error .nilPubkey s' ∧
    VerifyHeader b chain header s ≠ .error .nilPubkey s' :=
  have hs := hr.addressesRecovered
  ⟨verifyCascadingFields_avoids hc s s' hs, verifyHeader_avoids hc s s' hs,
    avoids_ite (avoids_pure _) ((avoids_pure _).bind_keeps (keeps_pure _) fun _ =>
      verifyHeader_avoids hc) s s' hs⟩

/-- On the four-validator network, from empty caches: a block 2 whose proposer
seal `[0]` recovers neither to an address nor to a key. `verifySigner` fails on
it before `verifyVRF` would take the nil key. -/
theorem verifyCascadingFields_no_nil_pubkey_bad_seal :
    quorumBackend.crypto.SealsCoherent ∧ EngineReachable quorumBackend State.init ∧
      quorumCrypto.getSignaturePubkey [] [0] = .error 1 ∧
      (∃ t, verifyCascadingFields quorumBackend quorumChain (quorumBlock [0, 1, 2, 3]) [] State.init =
        .error (.external 1) t) ∧
      (verifyCascadingFields quorumBackend quorumChain (quorumBlock [0, 1, 2, 3]) [] State.init ≠
          .error .nilPubkey State.init ∧
        verifyHeader quorumBackend quorumChain (quorumBlock [0, 1, 2, 3]) [] State.init ≠
          .error .nilPubkey State.init ∧
        VerifyHeader quorumBackend quorumChain (quorumBlock [0, 1, 2, 3]) State.init ≠
          .error .nilPubkey State.init) :=
  ⟨quorumCrypto_sealsCoherent, .init _, rfl, ⟨_, rfl⟩,
    verifyCascadingFields_no_nil_pubkey quorumCrypto_sealsCoherent (.init _) State.init⟩

end NilPubkey

/-! ### Committed seals against the parent snapshot -/

section Seals

variable {chain : Chain b.crypto} {parents : List Header} {s s₁ : State} {snap : Snapshot}

/-- The addresses `header`'s committed seals recover to, over
`PrepareCommittedSeal(header.Hash())`. -/
def committedSigners (c : Crypto) (header : Header) : Except ℕ (List Address) := do
  let extra ← c.extractIstanbulExtra header.extra
  extra.committedSeal.mapM (c.getSignatureAddress (c.prepareCommittedSeal (c.hash header)))

/-- Past block zero, once the parent snapshot is found, `verifyCommittedSeals`
parses the extra-data and makes the seal checks. -/
theorem verifyCommittedSeals_of_snapshot {header : Header} (hn : u64 header.number ≠ 0)
    (hsnap : snapshot b chain (u64 header.number - 1) header.parentHash parents s = .ok snap s₁) :
    verifyCommittedSeals b chain header parents s =
      (liftExt (b.crypto.extractIstanbulExtra header.extra) >>= fun extra =>
        liftExcept (checkCommittedSeals b.crypto header snap.valSet extra)) s₁ := by
  simp only [verifyCommittedSeals, hn, if_false, run_bind, run_pure, hsnap]

/-- Against a parent snapshot whose validators are distinct, and for a header
whose extra-data parses, `verifyCommittedSeals` returns nil exactly on valid
committed seals, and otherwise fails with `errEmptyCommittedSeals`,
`errInvalidSignature` or `errInvalidCommittedSeals`. -/
theorem verifyCommittedSeals_ok_iff {header : Header} (hn : u64 header.number ≠ 0)
    (hsnap : snapshot b chain (u64 header.number - 1) header.parentHash parents s = .ok snap s₁)
    {extra : IstanbulExtra} (hextra : b.crypto.extractIstanbulExtra header.extra = .ok extra)
    (hvs : snap.valSet.Nodup) :
    (verifyCommittedSeals b chain header parents s = .ok () s₁ ↔
      SealsValid b.crypto header snap.valSet extra) ∧
    ∀ e s₂, verifyCommittedSeals b chain header parents s = .error e s₂ →
      e = .emptyCommittedSeals ∨ e = .invalidSignature ∨ e = .invalidCommittedSeals := by
  have heq : verifyCommittedSeals b chain header parents s =
      liftExcept (checkCommittedSeals b.crypto header snap.valSet extra) s₁ := by
    rw [verifyCommittedSeals_of_snapshot hn hsnap, run_bind, hextra, run_liftExt_ok]
  rw [heq, run_liftExcept_eq_ok, ← checkCommittedSeals_ok_iff hvs]
  exact ⟨and_iff_left rfl, fun e s₂ h => checkCommittedSeals_error (run_liftExcept_eq_error.mp h).1⟩

/-- Three blocks 2 of the four-validator network, against the parent snapshot
of block 1: committed by 1, 2 and 3, which is valid; by 1 twice and 2, a
repeated seal; and by 1 and 2, one seal short of `S - F = 3`. -/
theorem verifyCommittedSeals_ok_iff_four :
    ∃ s₁, snapshot quorumBackend quorumChain 1 257 [] State.init = .ok ⟨1, 257, [1, 2, 3, 4]⟩ s₁ ∧
      verifyCommittedSeals quorumBackend quorumChain (quorumBlock [1, 1, 2, 3]) [] State.init = .ok () s₁ ∧
      verifyCommittedSeals quorumBackend quorumChain (quorumBlock [1, 1, 1, 2]) [] State.init =
        .error .invalidCommittedSeals s₁ ∧
      verifyCommittedSeals quorumBackend quorumChain (quorumBlock [1, 1, 2]) [] State.init =
        .error .invalidCommittedSeals s₁ ∧
      (verifyCommittedSeals quorumBackend quorumChain (quorumBlock [1, 1, 2, 3]) [] State.init = .ok () s₁ ↔
        SealsValid quorumCrypto (quorumBlock [1, 1, 2, 3]) [1, 2, 3, 4] ⟨[], [1], [[1], [2], [3]]⟩) ∧
      (verifyCommittedSeals quorumBackend quorumChain (quorumBlock [1, 1, 1, 2]) [] State.init = .ok () s₁ ↔
        SealsValid quorumCrypto (quorumBlock [1, 1, 1, 2]) [1, 2, 3, 4] ⟨[], [1], [[1], [1], [2]]⟩) ∧
      (verifyCommittedSeals quorumBackend quorumChain (quorumBlock [1, 1, 2]) [] State.init = .ok () s₁ ↔
        SealsValid quorumCrypto (quorumBlock [1, 1, 2]) [1, 2, 3, 4] ⟨[], [1], [[1], [2]]⟩) := by
  obtain ⟨s₁, h⟩ : ∃ s₁, snapshot quorumBackend quorumChain 1 257 [] State.init =
      .ok ⟨1, 257, [1, 2, 3, 4]⟩ s₁ := ⟨_, rfl⟩
  have hs : ∀ x, snapshot quorumBackend quorumChain (u64 (quorumBlock x).number - 1)
      (quorumBlock x).parentHash [] State.init = .ok ⟨1, 257, [1, 2, 3, 4]⟩ s₁ := fun _ => h
  have key : ∀ x extra, quorumCrypto.extractIstanbulExtra (quorumBlock x).extra = .ok extra →
      (verifyCommittedSeals quorumBackend quorumChain (quorumBlock x) [] State.init = .ok () s₁ ↔
        SealsValid quorumCrypto (quorumBlock x) [1, 2, 3, 4] extra) := fun x _ hx =>
    (verifyCommittedSeals_ok_iff (show u64 2 ≠ 0 by decide) (hs x) hx (by decide)).1
  refine ⟨s₁, h, ?_, ?_, ?_, key _ _ rfl, key _ _ rfl, key _ _ rfl⟩ <;>
    rw [verifyCommittedSeals_of_snapshot (by decide) (hs _)] <;> rfl

/-- The signers of a header `verifyCommittedSeals` accepts: validators of the
parent snapshot, at least `Size() - F()` of them. -/
theorem verifyCommittedSeals_signers {header : Header} (hn : u64 header.number ≠ 0)
    (hsnap : snapshot b chain (u64 header.number - 1) header.parentHash parents s = .ok snap s₁)
    (hvs : snap.valSet.Nodup) {t : State} (hv : verifyCommittedSeals b chain header parents s = .ok () t) :
    ∃ A, committedSigners b.crypto header = .ok A ∧ A.toFinset ⊆ snap.valSet.toFinset ∧
      A.toFinset.Nonempty ∧
      snap.valSet.toFinset.card - (snap.valSet.toFinset.card - 1) / 3 ≤ A.toFinset.card := by
  rw [verifyCommittedSeals_of_snapshot hn hsnap, run_bind_eq_ok] at hv
  obtain ⟨extra, t₁, hx, hc⟩ := hv
  obtain ⟨hex, rfl⟩ := run_liftExt_eq_ok.mp hx
  obtain ⟨A, hA, hsub, hne, hq⟩ := checkCommittedSeals_signers hvs (run_liftExcept_eq_ok.mp hc).1
  exact ⟨A, by rw [committedSigners, hex]; exact hA, hsub, hne, hq⟩

/-- Two headers `verifyCommittedSeals` accepts against one validator set `V`
of distinct members (two conflicting blocks of one height, say) were committed
by validators of `V` of whom at least `F + 1` committed to both: at least one
validator that is not faulty. -/
theorem verifyCommittedSeals_quorum_inter {h₁ h₂ : Header} {parents₁ parents₂ : List Header}
    {s₂ t₁ t₂ u₁ u₂ : State} {snap₁ snap₂ : Snapshot}
    (hn₁ : u64 h₁.number ≠ 0) (hn₂ : u64 h₂.number ≠ 0)
    (hs₁ : snapshot b chain (u64 h₁.number - 1) h₁.parentHash parents₁ s = .ok snap₁ t₁)
    (hs₂ : snapshot b chain (u64 h₂.number - 1) h₂.parentHash parents₂ s₂ = .ok snap₂ t₂)
    (hV : snap₂.valSet = snap₁.valSet) (hvs : snap₁.valSet.Nodup)
    (hv₁ : verifyCommittedSeals b chain h₁ parents₁ s = .ok () u₁)
    (hv₂ : verifyCommittedSeals b chain h₂ parents₂ s₂ = .ok () u₂) :
    ∃ A₁ A₂, committedSigners b.crypto h₁ = .ok A₁ ∧ committedSigners b.crypto h₂ = .ok A₂ ∧
      A₁.toFinset ⊆ snap₁.valSet.toFinset ∧ A₂.toFinset ⊆ snap₁.valSet.toFinset ∧
      ValSet.f snap₁.valSet + 1 ≤ (A₁.toFinset ∩ A₂.toFinset).card := by
  obtain ⟨A₁, hA₁, hsub₁, hne, hq₁⟩ := verifyCommittedSeals_signers hn₁ hs₁ hvs hv₁
  obtain ⟨A₂, hA₂, hsub₂, -, hq₂⟩ := verifyCommittedSeals_signers hn₂ hs₂ (hV ▸ hvs) hv₂
  rw [hV] at hsub₂ hq₂
  have hinter := quorum_inter hsub₁ hsub₂ hne hq₁ hq₂
  rw [List.toFinset_card_of_nodup hvs] at hinter
  exact ⟨A₁, A₂, hA₁, hA₂, hsub₁, hsub₂, hinter⟩

/-- Two blocks 2 of the four-validator network, committed by 1, 2, 3 and by 2,
3, 4: they share 2 and 3, `F + 1` signers. -/
theorem verifyCommittedSeals_quorum_inter_four :
    ∃ A₁ A₂, committedSigners quorumCrypto (quorumBlock [1, 1, 2, 3]) = .ok A₁ ∧
      committedSigners quorumCrypto (quorumBlock [2, 2, 3, 4]) = .ok A₂ ∧
      A₁.toFinset ⊆ [1, 2, 3, 4].toFinset ∧ A₂.toFinset ⊆ [1, 2, 3, 4].toFinset ∧
      ValSet.f [1, 2, 3, 4] + 1 ≤ (A₁.toFinset ∩ A₂.toFinset).card := by
  obtain ⟨t, h⟩ : ∃ t, snapshot quorumBackend quorumChain 1 257 [] State.init =
      .ok ⟨1, 257, [1, 2, 3, 4]⟩ t := ⟨_, rfl⟩
  have hs : ∀ x, snapshot quorumBackend quorumChain (u64 (quorumBlock x).number - 1)
      (quorumBlock x).parentHash [] State.init = .ok ⟨1, 257, [1, 2, 3, 4]⟩ t := fun _ => h
  obtain ⟨u₁, hv₁⟩ : ∃ u, verifyCommittedSeals quorumBackend quorumChain (quorumBlock [1, 1, 2, 3]) []
      State.init = .ok () u := ⟨_, rfl⟩
  obtain ⟨u₂, hv₂⟩ : ∃ u, verifyCommittedSeals quorumBackend quorumChain (quorumBlock [2, 2, 3, 4]) []
      State.init = .ok () u := ⟨_, rfl⟩
  exact verifyCommittedSeals_quorum_inter (by decide) (by decide) (hs _) (hs _) rfl (by decide) hv₁ hv₂

end Seals

end Venachain.Istanbul
