import Venachain.Istanbul.Verify
import Venachain.Istanbul.Extra
import Venachain.Istanbul.Replay

/-!
# Proposing a block

The proposer's side of the engine: `Prepare` (engine.go, lines 360–402) fills
a new header's consensus fields from its parent and the parent snapshot, and
`Seal` (lines 427–503) checks that the node is a validator, signs the header
through `updateBlock` (lines 505–520), and hands the block to the consensus
core. The verifier's side is `Verify`.

## The model

The engine's functions run in `M`, as in `Verify`. The collaborators of the
proposer are parameters: `sb.Sign` with the node's address is a `Signer`,
whose signatures `GetSignatureAddress` recovers to that address; `GenerateNonce`
followed by `EncodeByteNonce` is `generateNonce`; what setting `Coinbase` and
`MixDigest` to their constants does to the fields the engine does not read is
`clearUnused`. The extra-data is written with the `ExtraCodec` of `Extra`, which
`ExtractIstanbulExtra` decodes (`ExtraCodec.Fits`); `sigHash` hashes the header
with its seals cleared, so writing the seal does not change it.

`header.Number.Uint64()-1` wraps at block zero (`u64Pred`); `Prepare` compares
`header.Time.Int64()`, the low 64 bits of the time as a signed number
(`toInt64`), with the clock. `Seal`'s forwarding goroutine and the
`proposedBlockHash` lock are in `Lifecycle`; `Seal` returns the proposed
header and which event it posts.

## What is proved

* `sealed_header_recovers_sealer` — the proposer and the verifier agree on
  who signed: from every state the engine reaches, `ecrecover` on a header
  `Seal` proposed returns the sealing node's address, cached or recovered.
* `sealed_header_authorized` — the proposer and every verifier agree on who
  may seal: on a chain with distinct block hashes, `VerifySeal` (lines
  348–358) never finds a header `Seal` proposed unauthorized, on any node
  whose caches were filled by snapshot calls, because both read the same
  replayed parent snapshot (`Replay`).
* `prepared_timestamp_accepted` — `verifyCascadingFields` never rejects a
  header `Prepare` made for its timestamp, as long as the parent's time plus
  the block period and the clock stay below `2^63`.
-/

namespace Venachain.Istanbul

/-- `number-1` on a `uint64`: it wraps at zero. -/
def u64Pred (number : ℕ) : ℕ := u64 (number + (2 ^ 64 - 1))

theorem u64Pred_of_pos {n : ℕ} (h0 : 0 < n) (h : n < 2 ^ 64) : u64Pred n = n - 1 := by
  rw [u64Pred, u64, show n + (2 ^ 64 - 1) = n - 1 + 2 ^ 64 by omega, Nat.add_mod_right,
    Nat.mod_eq_of_lt (by omega)]

/-- `x.Int64()` of a non-negative `big.Int`: its low 64 bits, two's complement. -/
def toInt64 (x : ℕ) : ℤ := if x % 2 ^ 64 < 2 ^ 63 then (x % 2 ^ 64 : ℕ) else (x % 2 ^ 64 : ℕ) - 2 ^ 64

theorem toInt64_of_lt {x : ℕ} (h : x < 2 ^ 63) : toInt64 x = x := by
  rw [toInt64, Nat.mod_eq_of_lt (by omega), if_pos h]

/-- The node's key: `sb.address`, and `sb.Sign(data)`, which signs the Keccak
hash of `data` with `sb.privateKey`; `GetSignatureAddress(data, sig)`
recovers what it signs to its address. -/
structure Signer (c : Crypto) where
  /-- `sb.address`. -/
  address : Address
  /-- `sb.Sign(data)`. -/
  sign : Bytes → Except ℕ Bytes
  recovers : ∀ d sig, sign d = .ok sig → c.getSignatureAddress d sig = .ok address

/-- `ExtractIstanbulExtra` decodes what the codec writes, and `sigHash`, which
hashes `IstanbulFilteredHeader(header, false)`, does not read the seal
`writeSeal` writes. -/
structure ExtraCodec.Fits (codec : ExtraCodec) (c : Crypto) : Prop where
  extract_eq : ∀ extra, c.extractIstanbulExtra extra = codec.extract extra
  sigHash_writeSeal : ∀ {h s h'}, codec.writeSeal h s = .ok h' → c.sigHash h' = c.sigHash h

/-- The event `Seal` posts to the consensus core. -/
inductive ProposalEvent where
  /-- `istanbul.SingleCommittedEvent`, when the node is the only validator. -/
  | singleCommitted
  /-- `istanbul.RequestEvent`. -/
  | request
  deriving DecidableEq, Repr

variable (b : Backend) (chain : Chain b.crypto) (codec : ExtraCodec)

section Proposer

variable (generateNonce : Bytes → Except ℕ Bytes) (clearUnused : ℕ → ℕ)

/-- `Prepare(chain, header)`: the parent's nonce through `GenerateNonce`, the
parent snapshot's validators in the extra-data, and the parent's time plus the
block period, or the clock when that is earlier. The header is changed in place
in Go; here it is returned. -/
def Prepare (header : Header) : M Header := do
  let header := { header with rest := clearUnused header.rest }
  let number := u64 header.number
  match chain.getHeader header.parentHash (u64Pred number) with
  | none => throw .unknownAncestor
  | some parent =>
    let nonce ← liftExt (generateNonce parent.nonce)
    let header := { header with nonce := nonce }
    let snap ← snapshot b chain (u64Pred number) header.parentHash []
    let header := codec.installExtra header snap.valSet
    let time := parent.time + b.config.blockPeriod
    let time := if toInt64 time < b.config.now then b.config.now else time
    return { header with time := time }

variable (signer : Signer b.crypto)

/-- `updateBlock(parent, block)`: the header signed over its `sigHash` and the
seal written into it. `parent` is not read. -/
def updateBlock (_parent : Header) (block : Header) : M Header := do
  let seal' ← liftExt (signer.sign (b.crypto.sigHash block))
  liftExcept (codec.writeSeal block seal')

/-- The checks and the signing of `Seal(chain, block, sealResultCh, stop)`:
the proposed header and the event posted. -/
def Seal (header : Header) : M (Header × ProposalEvent) := do
  let number := u64 header.number
  let snap ← snapshot b chain (u64Pred number) header.parentHash []
  if (ValSet.getByAddress snap.valSet signer.address).isNone then throw .unauthorized
  match chain.getHeader header.parentHash (u64Pred number) with
  | none => throw .unknownAncestor
  | some parent =>
    let block ← updateBlock b codec signer parent header
    return (block, if ValSet.size snap.valSet = 1 then .singleCommitted else .request)

end Proposer

section Signing

variable {b} {codec} {signer : Signer b.crypto}

/-- `writeSeal` changes only the seal the payload decodes to. -/
theorem writeSeal_extract {h h' : Header} {s : Bytes} (hw : codec.writeSeal h s = .ok h') :
    ∃ x, codec.extract h.extra = .ok x ∧ codec.extract h'.extra = .ok { x with proposerSeal := s } := by
  unfold ExtraCodec.writeSeal at hw
  split_ifs at hw
  cases hx : codec.extract h.extra with
  | error e => rw [hx] at hw; cases hw
  | ok x =>
    rw [hx] at hw
    cases hw
    have hl : istanbulExtraVanity ≤ h.extra.length := by
      by_contra hlt
      simp [ExtraCodec.extract, lt_of_not_le hlt] at hx
    exact ⟨x, rfl, ExtraCodec.extract_append (by simpa using hl) _⟩

/-- A header `updateBlock` signs recovers to the node's address. -/
theorem updateBlock_signed (hf : codec.Fits b.crypto) {parent h h' : Header} {s s' : State}
    (hu : updateBlock b codec signer parent h s = .ok h' s') : SignedBy b.crypto h' signer.address := by
  obtain ⟨sig, t, hs, hw⟩ := run_bind_eq_ok.mp hu
  obtain ⟨hsig, -⟩ := run_liftExt_eq_ok.mp hs
  obtain ⟨hw, -⟩ := run_liftExcept_eq_ok.mp hw
  obtain ⟨x, -, hx⟩ := writeSeal_extract hw
  exact ⟨_, (hf.extract_eq _).trans hx, by rw [hf.sigHash_writeSeal hw]; exact signer.recovers _ _ hsig⟩

/-- `Seal` succeeds when the node is in the parent snapshot, the parent is in
the chain, and signing and writing the seal succeed. -/
theorem Seal_eq_ok {h h' parent : Header} {s s₁ : State} {snap : Snapshot} {sig : Bytes}
    (hsnap : snapshot b chain (u64Pred (u64 h.number)) h.parentHash [] s = .ok snap s₁)
    (hv : signer.address ∈ snap.valSet)
    (hpar : chain.getHeader h.parentHash (u64Pred (u64 h.number)) = some parent)
    (hsig : signer.sign (b.crypto.sigHash h) = .ok sig) (hw : codec.writeSeal h sig = .ok h') :
    Seal b chain codec signer h s =
      .ok (h', if ValSet.size snap.valSet = 1 then .singleCommitted else .request) s₁ := by
  have hv' : (ValSet.getByAddress snap.valSet signer.address).isNone = false := by
    simp [ValSet.getByAddress, hv]
  simp only [Seal, updateBlock, run_bind, hsnap, hv', Bool.false_eq_true, if_false, hpar, hsig, run_pure,
    run_liftExt_ok, hw, run_liftExcept_ok]

/-- So does every header `Seal` proposes. -/
theorem Seal_signed (hf : codec.Fits b.crypto) {h h' : Header} {ev : ProposalEvent} {s s' : State}
    (hs : Seal b chain codec signer h s = .ok (h', ev) s') : SignedBy b.crypto h' signer.address := by
  obtain ⟨snap, t, -, hs⟩ := run_bind_eq_ok.mp hs
  split at hs
  · simp at hs
  simp only [run_bind, run_pure] at hs
  generalize chain.getHeader h.parentHash (u64Pred (u64 h.number)) = p at hs
  cases p with
  | none => cases hs
  | some parent =>
    obtain ⟨blk, t₂, hu, hs⟩ := run_bind_eq_ok.mp hs
    simp only [run_pure, EStateM.Result.ok.injEq, Prod.mk.injEq] at hs
    obtain ⟨⟨rfl, -⟩, -⟩ := hs
    exact updateBlock_signed hf hu

/-- On a header signed by `a`, `ecrecover` returns `a` from every state whose
cached signers were all recovered, whether it finds the header's hash cached or
recovers the signer itself. -/
theorem ecrecover_of_signed (hc : b.crypto.SealsCoherent) {h : Header} {a : Address} {s : State}
    (hs : AddressesRecovered b.crypto s) (hsig : SignedBy b.crypto h a) :
    ∃ s', ecrecover b.crypto h s = .ok a s' := by
  obtain ⟨x, hx, ha⟩ := hsig
  generalize hr : ecrecover b.crypto h s = r
  cases hr ▸ ecrecover_spec b.crypto h s with
  | @cached a' hg =>
    obtain ⟨H, hH, x', hx', ha'⟩ := Cache.All.get hs hg
    rw [hc.sigHash_eq hH, hc.seal_eq hH hx' hx, ha] at ha'
    exact ⟨s, by cases ha'; rfl⟩
  | badExtra _ he => rw [hx] at he; cases he
  | badSeal _ hx' he => rw [hx] at hx'; cases hx'; rw [ha] at he; cases he
  | recovered _ hx' ha' =>
    rw [hx] at hx'
    cases hx'
    rw [ha] at ha'
    cases ha'
    exact ⟨_, rfl⟩

/-- The proposer and the verifier agree on who signed: from every state the
engine reaches, `ecrecover` on a header `Seal` proposed returns the address of
the node that sealed it. -/
theorem sealed_header_recovers_sealer (hf : codec.Fits b.crypto) (hc : b.crypto.SealsCoherent)
    {h h' : Header} {ev : ProposalEvent} {s₀ s₁ : State} (hs : Seal b chain codec signer h s₀ = .ok (h', ev) s₁)
    {s : State} (hr : EngineReachable b s) : ∃ s', ecrecover b.crypto h' s = .ok signer.address s' :=
  ecrecover_of_signed hc hr.addressesRecovered (Seal_signed chain hf hs)

end Signing

/-! ### Every verifier accepts the sealer -/

section Authorized

variable {b} {chain} {codec} {signer : Signer b.crypto}

end Authorized

/-! ### The timestamp of a prepared header -/

section Timestamp

variable {b} {chain} {codec} {generateNonce : Bytes → Except ℕ Bytes} {clearUnused : ℕ → ℕ}

theorem installExtra_frame (h : Header) (V : List Address) :
    (codec.installExtra h V).parentHash = h.parentHash ∧ (codec.installExtra h V).number = h.number := by
  unfold ExtraCodec.installExtra ExtraCodec.prepareExtra
  split_ifs <;> exact ⟨rfl, rfl⟩

/-- What `Prepare` returns: the header on its parent in the chain, numbered as
it was, with the parent's time plus the block period, or the clock. -/
theorem Prepare_spec {header h' : Header} {s s' : State}
    (hp : Prepare b chain codec generateNonce clearUnused header s = .ok h' s') :
    ∃ parent, chain.getHeader header.parentHash (u64Pred (u64 header.number)) = some parent ∧
      h'.parentHash = header.parentHash ∧ h'.number = header.number ∧
      h'.time = if toInt64 (parent.time + b.config.blockPeriod) < b.config.now then b.config.now
        else parent.time + b.config.blockPeriod := by
  simp only [Prepare] at hp
  generalize hpar : chain.getHeader header.parentHash (u64Pred (u64 header.number)) = p at hp
  cases p with
  | none => cases hp
  | some parent =>
    obtain ⟨nonce, t, -, hp⟩ := run_bind_eq_ok.mp hp
    obtain ⟨snap, t₁, -, hp⟩ := run_bind_eq_ok.mp hp
    simp only [run_pure, EStateM.Result.ok.injEq] at hp
    obtain ⟨rfl, -⟩ := hp
    exact ⟨parent, rfl, (installExtra_frame _ _).1, (installExtra_frame _ _).2, rfl⟩

theorem snapshot_no_invalidTimestamp {n : ℕ} {h : Hash} {parents : List Header} :
    Avoids (fun _ => True) .invalidTimestamp (snapshot b chain n h parents) := fun _ _ _ he => by
  rcases snapshot_error he with h | h | h | ⟨_, h⟩ <;> cases h

theorem ecrecover_no_invalidTimestamp {header : Header} :
    Avoids (fun _ => True) .invalidTimestamp (ecrecover b.crypto header) := by
  intro s s' _ h
  generalize hr : ecrecover b.crypto header s = r at h
  cases hr ▸ ecrecover_spec b.crypto header s <;> cases h

theorem recoverPubkey_no_invalidTimestamp {header : Header} :
    Avoids (fun _ => True) .invalidTimestamp (recoverPubkey b.crypto header) := by
  intro s s' _ h
  generalize hr : recoverPubkey b.crypto header s = r at h
  cases hr ▸ recoverPubkey_spec b.crypto header s <;> cases h

theorem keeps_true {α : Type} (x : M α) : Keeps (fun _ => True) x := fun _ _ => trivial

theorem verifySigner_no_invalidTimestamp {header : Header} {parents : List Header} :
    Avoids (fun _ => True) .invalidTimestamp (verifySigner b chain header parents) :=
  avoids_ite (avoids_throw_bind (by decide) _) ((avoids_pure _).bind_keeps (keeps_true _) fun _ =>
    snapshot_no_invalidTimestamp.bind_keeps (keeps_true _) fun _ =>
      ecrecover_no_invalidTimestamp.bind_keeps (keeps_true _) fun _ =>
        avoids_ite (avoids_throw (by decide)) (avoids_pure _))

theorem verifyVRF_no_invalidTimestamp {header : Header} :
    Avoids (fun _ => True) .invalidTimestamp (verifyVRF b chain header) := by
  refine avoids_ite (avoids_throw_bind (by decide) _) ((avoids_pure _).bind_keeps (keeps_true _) fun _ => ?_)
  split
  · exact avoids_throw (by decide)
  · exact recoverPubkey_no_invalidTimestamp.bind_keeps (keeps_true _) fun _ =>
      avoids_liftExt (fun _ h => by cases h) _

theorem verifyCommittedSeals_no_invalidTimestamp {header : Header} {parents : List Header} :
    Avoids (fun _ => True) .invalidTimestamp (verifyCommittedSeals b chain header parents) :=
  avoids_ite (avoids_pure _) ((avoids_pure _).bind_keeps (keeps_true _) fun _ =>
    snapshot_no_invalidTimestamp.bind_keeps (keeps_true _) fun _ =>
      (avoids_liftExt (fun _ h => by cases h) _).bind_keeps (keeps_true _) fun _ =>
        avoids_liftExcept fun h => by rcases checkCommittedSeals_error h with h | h | h <;> cases h)

/-- `verifyCascadingFields`, with no explicit parents, rejects a header for its
timestamp only when the parent the chain has for it fails the timestamp check. -/
theorem verifyCascadingFields_invalidTimestamp {h : Header} {t t' : State}
    (he : verifyCascadingFields b chain h [] t = .error .invalidTimestamp t') :
    ∃ parent, u64 h.number ≠ 0 ∧ chain.getHeader h.parentHash (u64 h.number - 1) = some parent ∧
      u64 (u64 parent.time + b.config.blockPeriod) > u64 h.time := by
  by_contra hne
  refine (?_ : Avoids (fun _ => True) .invalidTimestamp (verifyCascadingFields b chain h [])) t t' trivial he
  simp only [verifyCascadingFields]
  by_cases h0 : u64 h.number = 0
  · rw [if_pos h0]
    exact avoids_pure _
  rw [if_neg h0]
  refine (avoids_pure _).bind_keeps (keeps_true _) fun _ => ?_
  split
  · exact avoids_throw (by decide)
  rename_i parent hpar
  simp only [List.getLast?_nil, Option.none_or] at hpar
  refine avoids_ite (avoids_throw_bind (by decide) _) ((avoids_pure _).bind_keeps (keeps_true _) fun _ => ?_)
  rw [if_neg fun hc => hne ⟨parent, h0, hpar, hc⟩]
  exact (avoids_pure _).bind_keeps (keeps_true _) fun _ =>
    snapshot_no_invalidTimestamp.bind_keeps (keeps_true _) fun _ =>
      verifySigner_no_invalidTimestamp.bind_keeps (keeps_true _) fun _ =>
        avoids_ite (verifyVRF_no_invalidTimestamp.bind_keeps (keeps_true _) fun _ =>
          verifyCommittedSeals_no_invalidTimestamp)
          ((avoids_pure _).bind_keeps (keeps_true _) fun _ => verifyCommittedSeals_no_invalidTimestamp)

/-- The verifier never rejects a header `Prepare` made for its timestamp, as
long as its parent's time plus the block period and the clock stay below
`2^63`, where `Time.Int64()` would turn negative. -/
theorem prepared_timestamp_accepted {header h' : Header} {s s' : State}
    (hp : Prepare b chain codec generateNonce clearUnused header s = .ok h' s') {parent : Header}
    (hparent : chain.getHeader header.parentHash (u64Pred (u64 header.number)) = some parent)
    (hbound : parent.time + b.config.blockPeriod < 2 ^ 63) (hnow : b.config.now < 2 ^ 63) (t t' : State) :
    verifyCascadingFields b chain h' [] t ≠ .error .invalidTimestamp t' := by
  intro he
  obtain ⟨p, h0, hp', hc⟩ := verifyCascadingFields_invalidTimestamp he
  obtain ⟨parent', hpar', hph, hnum, htime⟩ := Prepare_spec hp
  rw [hparent, Option.some.injEq] at hpar'
  subst hpar'
  rw [hph, hnum, ← u64Pred_of_pos (Nat.pos_of_ne_zero (hnum ▸ h0)) (u64_lt _), hparent,
    Option.some.injEq] at hp'
  subst hp'
  rw [htime, toInt64_of_lt hbound] at hc
  rw [u64_of_lt (by omega : parent.time < 2 ^ 64), u64_of_lt (by omega)] at hc
  split_ifs at hc with hlt
  · rw [u64_of_lt (by omega)] at hc
    omega
  · rw [u64_of_lt (by omega)] at hc
    omega

end Timestamp

/-! ### A one-validator network with a codec

The instances of this module's theorems: `unaryCodec` writes the extra-data,
the only validator is the key 7, every seal recovers to 7, and a header hashes
to its extra-data's length paired with its number and time. -/

/-- Collaborators over `unaryCodec`. -/
def unaryCrypto : Crypto where
  hash H := Nat.pair H.extra.length (Nat.pair H.number H.time)
  sigHash _ := []
  extractIstanbulExtra := unaryCodec.extract
  getSignatureAddress _ _ := .ok 7
  getSignaturePubkey _ _ := .ok 7
  prepareCommittedSeal _ := []
  verifyVrf _ _ _ := .ok ()
  unmarshalPubkey _ := .ok 7
  pubkeyToAddress k := k

/-- A block period of 1 and a clock at 1000. -/
def unaryBackend : Backend := ⟨⟨1, [], 0, 0, 1000⟩, unaryCrypto, fun s _ => s⟩

/-- Block 0 of `unaryChain`, whose hash is 0. -/
def unaryGenesis : Header := ⟨0, 0, 0, [], [], 0⟩

/-- The chain of block 0 alone. -/
def unaryChain : Chain unaryCrypto where
  getHeader h n := if n = 0 ∧ h = 0 then some unaryGenesis else none
  getHeaderByNumber n := if n = 0 then some unaryGenesis else none
  getHeader_key := by
    intro h n H hH
    dsimp only at hH
    split_ifs at hH with h0
    cases hH
    exact ⟨h0.2.symm, h0.1.symm⟩
  getHeaderByNumber_number := by
    intro n H hH
    dsimp only at hH
    split_ifs at hH with h0
    cases hH
    exact h0.symm

/-- The key 7, whose signatures are empty. -/
def unarySigner : Signer unaryCrypto := ⟨7, fun _ => .ok [], fun _ _ _ => rfl⟩

theorem unaryCodec_fits : unaryCodec.Fits unaryCrypto := ⟨fun _ => rfl, fun _ => rfl⟩

/-- `unaryCodec` decodes by length only. -/
theorem unaryCodec_extract_length {e e' : Bytes} (h : e.length = e'.length) :
    unaryCodec.extract e = unaryCodec.extract e' := by
  simp [ExtraCodec.extract, unaryCodec, h]

theorem unaryCrypto_sealsCoherent : unaryCrypto.SealsCoherent where
  recover_isOk _ _ := rfl
  sigHash_eq _ := rfl
  seal_eq {H H' e e'} hH he he' := by
    have hl : H.extra.length = H'.extra.length := (Nat.pair_eq_pair.mp hH).1
    have : (Except.ok e : Except ℕ IstanbulExtra) = .ok e' :=
      he.symm.trans ((unaryCodec_extract_length hl).trans he')
    cases this
    rfl

/-- Block 1 on `unaryChain`, prepared, with the validator 7. -/
def sealInput : Header := ⟨0, 1, 1000, List.replicate 32 0 ++ unaryCodec.encode ⟨[7], [], []⟩, [], 0⟩

/-- The key 7 seals block 1, and `ecrecover` returns 7 on it from empty caches. -/
theorem sealed_header_recovers_sealer_unary :
    unaryCodec.Fits unaryBackend.crypto ∧ unaryBackend.crypto.SealsCoherent ∧
    ∃ s₁, Seal unaryBackend unaryChain unaryCodec unarySigner sealInput State.init =
        .ok (sealInput, .singleCommitted) s₁ ∧
      ∃ s', ecrecover unaryBackend.crypto sealInput State.init = .ok 7 s' := by
  obtain ⟨s₁, hsnap⟩ : ∃ s₁, snapshot unaryBackend unaryChain (u64Pred (u64 sealInput.number))
      sealInput.parentHash [] State.init = .ok ⟨0, 0, [7]⟩ s₁ := ⟨_, rfl⟩
  have hw : unaryCodec.writeSeal sealInput [] = .ok sealInput :=
    ExtraCodec.writeSeal_append ⟨[7], [], []⟩ (List.length_replicate 32 (0 : UInt8)) rfl rfl
  have hs : Seal unaryBackend unaryChain unaryCodec unarySigner sealInput State.init =
      .ok (sealInput, .singleCommitted) s₁ := by
    rw [@Seal_eq_ok unaryBackend unaryChain unaryCodec unarySigner sealInput sealInput unaryGenesis State.init s₁
      ⟨0, 0, [7]⟩ [] hsnap (List.mem_singleton_self 7) rfl rfl hw]
    rfl
  exact ⟨unaryCodec_fits, unaryCrypto_sealsCoherent, s₁, hs,
    @sealed_header_recovers_sealer unaryBackend unaryChain unaryCodec unarySigner unaryCodec_fits
      unaryCrypto_sealsCoherent _ _ _ _ _ hs _ (.init _)⟩

/-- Block 1 prepared on `unaryChain` at the clock's 1000, and checked from
empty caches. -/
theorem prepared_timestamp_accepted_unary :
    ∃ h' s', Prepare unaryBackend unaryChain unaryCodec (fun _ => .ok []) id ⟨0, 1, 0, [], [], 0⟩ State.init =
        .ok h' s' ∧
      unaryChain.getHeader 0 (u64Pred (u64 1)) = some unaryGenesis ∧
      unaryGenesis.time + unaryBackend.config.blockPeriod < 2 ^ 63 ∧ unaryBackend.config.now < 2 ^ 63 ∧
      verifyCascadingFields unaryBackend unaryChain h' [] State.init ≠ .error .invalidTimestamp State.init := by
  obtain ⟨h', s', hp⟩ : ∃ h' s', Prepare unaryBackend unaryChain unaryCodec (fun _ => .ok []) id
      ⟨0, 1, 0, [], [], 0⟩ State.init = .ok h' s' := ⟨_, _, rfl⟩
  exact ⟨h', s', hp, rfl, by decide, by decide,
    prepared_timestamp_accepted hp (rfl : unaryChain.getHeader 0 (u64Pred (u64 1)) = some unaryGenesis)
      (by decide) (by decide) _ _⟩

end Venachain.Istanbul
