import Mathlib.Data.List.Basic

/-!
# The status handshake

`Handshake` (unnamed/part_000, lines 473–522) opens an eth connection. One
goroutine sends the local status: `json.Marshal` of the old system contracts,
then `p2p.Send` of a `StatusMsg`. Another reads the remote status with
`readStatus` (lines 524–550). The call waits for both on `errc` and returns
the first error, or `DiscReadTimeout` when the timer fires first. `readStatus`
rejects, in order, a read error, a first message that is not `StatusMsg`, one
above `ProtocolMaxMsgSize`, one that does not decode, and a status whose
genesis block, network id or protocol version differs from the local one.
Only after both goroutines succeeded does the peer take the remote number,
head and replay parameters; the old system contracts are unmarshalled last,
and that may still fail.

## The model

`Wire` holds what the protocol and its codecs fix outside the sources: the
`StatusMsg` code, `ProtocolMaxMsgSize`, the RLP encoding and decoding of
`statusData`, and the JSON of the contract map. `Local` is what a node says
about itself. A `Schedule` is one interleaving of `Handshake`'s wait: which
goroutine's result reaches `errc` first, and how many receives happen before
the timer fires. `handshake` returns the peer's fields after the call and its
error. Two nodes are connected by giving each the message the other sent.

## What is proved

* `handshake_agreement`: for two nodes whose statuses cross the link intact
  and within the size limit, and whose timers let both results through, each
  side's handshake succeeds exactly when genesis, network and version agree.
  Each side then holds the number, head and replay parameters the other sent.
-/

namespace Venachain.Eth

/-- `common.ReplayParam`: the replay pivot, the old super admin, and the old
system contracts by address. -/
structure ReplayParam where
  /-- `Pivot`. -/
  pivot : ℕ
  /-- `OldSuperAdmin`. -/
  oldSuperAdmin : ℕ
  /-- `OldSysContracts`. -/
  oldSysContracts : List (ℕ × String)
  deriving DecidableEq, Repr

/-- `statusData`, the handshake message. -/
structure StatusData where
  /-- `ProtocolVersion`. -/
  protocolVersion : ℕ
  /-- `NetworkId`. -/
  networkId : ℕ
  /-- `BN`. -/
  bn : ℕ
  /-- `CurrentBlock`. -/
  currentBlock : ℕ
  /-- `GenesisBlock`. -/
  genesisBlock : ℕ
  /-- `ReplayPovit`. -/
  replayPovit : ℕ
  /-- `ReplayOldSuperAdmin`. -/
  replayOldSuperAdmin : ℕ
  /-- `ReplayOldSysContracts`: the JSON of the contract map. -/
  replayOldSysContracts : List ℕ
  deriving DecidableEq, Repr

/-- A `p2p.Msg`: its code, its size and its payload. -/
structure Msg where
  /-- `Code`. -/
  code : ℕ
  /-- `Size`. -/
  size : ℕ
  /-- The payload bytes. -/
  payload : List ℕ
  deriving DecidableEq, Repr

/-- What `Handshake` returns besides nil. The `errResp` texts format the
arguments kept here. -/
inductive HandshakeError where
  /-- `json.Marshal`'s error. -/
  | marshal
  /-- `json.Unmarshal`'s error. -/
  | unmarshal
  /-- An error of `p2p.Send` or `p.rw.ReadMsg()`. -/
  | transport (code : ℕ)
  /-- `ErrNoStatusMsg`: "first msg has code %x (!= %x)". -/
  | noStatusMsg (code statusMsg : ℕ)
  /-- `ErrMsgTooLarge`: "%v > %v". -/
  | msgTooLarge (size protocolMaxMsgSize : ℕ)
  /-- `ErrDecode`. -/
  | decode
  /-- `ErrGenesisBlockMismatch`: "%x (!= %x)". -/
  | genesisBlockMismatch (theirs ours : ℕ)
  /-- `ErrNetworkIdMismatch`: "%d (!= %d)". -/
  | networkIdMismatch (theirs ours : ℕ)
  /-- `ErrProtocolVersionMismatch`: "%d (!= %d)". -/
  | protocolVersionMismatch (theirs ours : ℕ)
  /-- `p2p.DiscReadTimeout`. -/
  | discReadTimeout
  deriving DecidableEq, Repr

/-- The wire format: the `StatusMsg` code, `ProtocolMaxMsgSize`, the RLP
encoding `p2p.Send` writes and `msg.Decode` reads, and the JSON of the
contract map (none of them in the sources). -/
structure Wire where
  /-- `StatusMsg`. -/
  statusMsg : ℕ
  /-- `ProtocolMaxMsgSize`. -/
  protocolMaxMsgSize : ℕ
  /-- The RLP encoding of a `statusData`. -/
  encode : StatusData → List ℕ
  /-- `msg.Decode(&status)`. -/
  decode : List ℕ → Option StatusData
  /-- `json.Marshal` of the contract map. -/
  marshal : List (ℕ × String) → Option (List ℕ)
  /-- `json.Unmarshal` into the contract map. -/
  unmarshal : List ℕ → Option (List (ℕ × String))

/-- What a node says about itself: `p.version`, the network id, its head's
number and hash, its genesis, and `common.SysCfg.ReplayParam`. -/
structure Local where
  /-- `p.version`. -/
  version : ℕ
  /-- `network`. -/
  network : ℕ
  /-- `bn`. -/
  bn : ℕ
  /-- `head`. -/
  head : ℕ
  /-- `genesis`. -/
  genesis : ℕ
  /-- `common.SysCfg.ReplayParam`. -/
  replayParam : ReplayParam

/-- The fields of a `peer` that `Handshake` sets. -/
structure PeerHead where
  /-- `p.bn`. -/
  bn : ℕ
  /-- `p.head`. -/
  head : ℕ
  /-- `p.replayParam`. -/
  replayParam : ReplayParam
  deriving DecidableEq, Repr

/-- One interleaving of `Handshake`'s wait: whether the read goroutine's result
reaches `errc` first, and how many receives happen before the timer fires. -/
structure Schedule where
  /-- The read goroutine's result arrives first. -/
  readFirst : Bool
  /-- The receives from `errc` before the timer. -/
  received : ℕ

section Handshake

variable (w : Wire)

/-- The `statusData` a node sends, with `scb` the JSON of its contract map. -/
def Local.status (l : Local) (scb : List ℕ) : StatusData :=
  ⟨l.version, l.network, l.bn, l.head, l.genesis, l.replayParam.pivot, l.replayParam.oldSuperAdmin, scb⟩

/-- The first goroutine's message: `json.Marshal` of the old system contracts,
then the `statusData` that `p2p.Send` writes as a `StatusMsg`. -/
def sendStatus (l : Local) : Except HandshakeError Msg :=
  match w.marshal l.replayParam.oldSysContracts with
  | none => .error .marshal
  | some scb => .ok ⟨w.statusMsg, (w.encode (l.status scb)).length, w.encode (l.status scb)⟩

/-- `readStatus(network, &status, genesis)` on what `p.rw.ReadMsg()` returned:
its checks in order, each returning its error. -/
def readStatus (l : Local) : Except HandshakeError Msg → Except HandshakeError StatusData
  | .error err => .error err
  | .ok msg =>
    if msg.code ≠ w.statusMsg then .error (.noStatusMsg msg.code w.statusMsg)
    else if msg.size > w.protocolMaxMsgSize then .error (.msgTooLarge msg.size w.protocolMaxMsgSize)
    else match w.decode msg.payload with
      | none => .error .decode
      | some status =>
        if status.genesisBlock ≠ l.genesis then
          .error (.genesisBlockMismatch status.genesisBlock l.genesis)
        else if status.networkId ≠ l.network then
          .error (.networkIdMismatch status.networkId l.network)
        else if status.protocolVersion ≠ l.version then
          .error (.protocolVersionMismatch status.protocolVersion l.version)
        else .ok status

/-- `Handshake`'s loop, `for i := 0; i < 2; i++ { select ... }`, over the
results in the order they reach `errc`, with `received` receives before the
timer fires: the first error, or `DiscReadTimeout`. -/
def awaitErrc : List (Option HandshakeError) → ℕ → Option HandshakeError
  | [], _ => none
  | _ :: _, 0 => some .discReadTimeout
  | none :: rest, k + 1 => awaitErrc rest k
  | some err :: _, _ + 1 => some err

/-- The order in which the two results reach `errc`. -/
def arrivalOrder (readFirst : Bool) (read sent : Option HandshakeError) : List (Option HandshakeError) :=
  if readFirst then [read, sent] else [sent, read]

/-- The error of a result, if any. -/
def errOf {α : Type} : Except HandshakeError α → Option HandshakeError
  | .error err => some err
  | .ok _ => none

/-- `Handshake(network, bn, head, genesis)` on the peer `p`, where `p2p.Send`
fails with `writeErr` if at all, the read returns `incoming`, and the wait
follows `sch`: the peer after the call, and its error. The status is read only
after both results arrived, and the read goroutine's error stops the wait
first, so the last `.error` case does not arise. -/
def handshake (l : Local) (p : PeerHead) (writeErr : Option ℕ)
    (incoming : Except HandshakeError Msg) (sch : Schedule) : PeerHead × Option HandshakeError :=
  let sent := (errOf (sendStatus w l)).or (writeErr.map .transport)
  let read := readStatus w l incoming
  match awaitErrc (arrivalOrder sch.readFirst (errOf read) sent) sch.received, read with
  | some err, _ => (p, some err)
  | none, .error err => (p, some err)
  | none, .ok status =>
    let replay := { p.replayParam with
      pivot := status.replayPovit, oldSuperAdmin := status.replayOldSuperAdmin }
    let p : PeerHead := ⟨status.bn, status.currentBlock, replay⟩
    match w.unmarshal status.replayOldSysContracts with
    | none => (p, some .unmarshal)
    | some m => ({ p with replayParam := { p.replayParam with oldSysContracts := m } }, none)

/-! ### The two goroutines -/

/-- `readStatus` accepts exactly a status message within the size limit that
decodes to a status with the local genesis, network and version. -/
theorem readStatus_eq_ok {l : Local} {msg : Except HandshakeError Msg} {status : StatusData} :
    readStatus w l msg = .ok status ↔ ∃ m, msg = .ok m ∧ m.code = w.statusMsg ∧
      m.size ≤ w.protocolMaxMsgSize ∧ w.decode m.payload = some status ∧
      status.genesisBlock = l.genesis ∧ status.networkId = l.network ∧
      status.protocolVersion = l.version := by
  cases msg with
  | error err => simp [readStatus]
  | ok m =>
    cases hd : w.decode m.payload with
    | none => simp [readStatus, hd, ite_eq_iff]
    | some d => rcases eq_or_ne d status with rfl | hne <;> simp [readStatus, hd, ite_eq_iff, *]

/-- The wait ends with no error exactly when every result is nil and the timer
lets them all through. -/
theorem awaitErrc_eq_none {arrivals : List (Option HandshakeError)} {k : ℕ} :
    awaitErrc arrivals k = none ↔ (∀ a ∈ arrivals, a = none) ∧ arrivals.length ≤ k := by
  induction arrivals generalizing k with
  | nil => simp [awaitErrc]
  | cons a rest ih =>
    cases k with
    | zero => simp [awaitErrc]
    | succ k =>
      cases a with
      | none => simp [awaitErrc, ih]
      | some err => simp [awaitErrc]

/-! ### The handshake -/

variable {w} {l : Local} {p : PeerHead} {writeErr : Option ℕ} {incoming : Except HandshakeError Msg}
  {sch : Schedule}

/-- A handshake returns nil only after the status was read and the own status
sent, both before the timer, and the contract map unmarshalled. -/
theorem handshake_ok (h : (handshake w l p writeErr incoming sch).2 = none) :
    ∃ status m, readStatus w l incoming = .ok status ∧
      (errOf (sendStatus w l)).or (writeErr.map .transport) = none ∧ 2 ≤ sch.received ∧
      w.unmarshal status.replayOldSysContracts = some m := by
  dsimp only [handshake] at h
  split at h
  · cases h
  · cases h
  · rename_i status hwait hr
    split at h
    · cases h
    · rename_i m hm
      obtain ⟨hall, hlen⟩ := awaitErrc_eq_none.mp hwait
      refine ⟨status, m, hr, ?_, ?_, hm⟩
      · exact hall _ (by simp [arrivalOrder]; split <;> simp)
      · simpa [arrivalOrder, apply_ite List.length] using hlen

/-- With the status read, the own status sent, the timer late enough and the map
unmarshalled, the peer takes the status's number, head and replay parameters. -/
theorem handshake_eq_of_ok {status : StatusData} {m : List (ℕ × String)}
    (hr : readStatus w l incoming = .ok status)
    (hs : (errOf (sendStatus w l)).or (writeErr.map .transport) = none) (hk : 2 ≤ sch.received)
    (hm : w.unmarshal status.replayOldSysContracts = some m) :
    handshake w l p writeErr incoming sch =
      (⟨status.bn, status.currentBlock, ⟨status.replayPovit, status.replayOldSuperAdmin, m⟩⟩, none) := by
  have hwait : awaitErrc (arrivalOrder sch.readFirst (errOf (readStatus w l incoming))
      ((errOf (sendStatus w l)).or (writeErr.map .transport))) sch.received = none := by
    rw [awaitErrc_eq_none, hr, hs, arrivalOrder]
    split <;> simp [errOf] <;> omega
  rw [hr] at hwait
  simp only [handshake, hr, hwait, hm]

/-! ### Two nodes -/

theorem sendStatus_eq_ok {m : Msg} : sendStatus w l = .ok m ↔ ∃ scb,
    w.marshal l.replayParam.oldSysContracts = some scb ∧
      m = ⟨w.statusMsg, (w.encode (l.status scb)).length, w.encode (l.status scb)⟩ := by
  cases h : w.marshal l.replayParam.oldSysContracts <;> simp [sendStatus, h, eq_comm]

section Link

variable (hcodec : ∀ s, w.decode (w.encode s) = some s) {la lb : Local} {mb : Msg}
  (hb : sendStatus w lb = .ok mb) (hsb : mb.size ≤ w.protocolMaxMsgSize)
include hcodec hb hsb

/-- Reading another node's intact status fails unless genesis, network and
version agree. -/
theorem agree_of_handshake_ok {pa : PeerHead} {writeErr : Option ℕ} {sa : Schedule}
    (h : (handshake w la pa writeErr (.ok mb) sa).2 = none) :
    la.genesis = lb.genesis ∧ la.network = lb.network ∧ la.version = lb.version := by
  obtain ⟨status, -, hr, -⟩ := handshake_ok h
  obtain ⟨scb, -, rfl⟩ := sendStatus_eq_ok.mp hb
  obtain ⟨m, hm, -, -, hd, hg, hn, hv⟩ := (readStatus_eq_ok _).mp hr
  cases hm
  rw [hcodec, Option.some.injEq] at hd
  subst hd
  exact ⟨hg.symm, hn.symm, hv.symm⟩

/-- When they agree, the handshake on the other node's intact status, with the
own status sent and both results before the timer, succeeds and the peer holds
the other node's number, head and replay parameters. -/
theorem handshake_of_agree
    (hjb : ∀ scb, w.marshal lb.replayParam.oldSysContracts = some scb →
      w.unmarshal scb = some lb.replayParam.oldSysContracts)
    {ma : Msg} (ha : sendStatus w la = .ok ma) (pa : PeerHead) {sa : Schedule} (hka : 2 ≤ sa.received)
    (hagree : la.genesis = lb.genesis ∧ la.network = lb.network ∧ la.version = lb.version) :
    handshake w la pa none (.ok mb) sa = (⟨lb.bn, lb.head, lb.replayParam⟩, none) := by
  obtain ⟨scb, hscb, rfl⟩ := sendStatus_eq_ok.mp hb
  have hr : readStatus w la (.ok ⟨w.statusMsg, (w.encode (lb.status scb)).length,
      w.encode (lb.status scb)⟩) = .ok (lb.status scb) :=
    (readStatus_eq_ok _).mpr ⟨_, rfl, rfl, hsb, hcodec _, hagree.1.symm, hagree.2.1.symm, hagree.2.2.symm⟩
  have hs : (errOf (sendStatus w la)).or ((none : Option ℕ).map .transport) = none := by
    simp [ha, errOf]
  exact handshake_eq_of_ok hr hs hka (hjb scb hscb)

end Link

/-- Two nodes each send their status and read the other's over a link that
delivers both intact. Each message is within the size limit, the codec reads
back what it writes, each contract map reads back from its JSON, and each
timer lets both results through. Then, whatever the order of arrivals, each
side's handshake succeeds exactly when genesis, network and version agree, and
each side then holds the number, head and replay parameters of the other. -/
theorem handshake_agreement (hcodec : ∀ s, w.decode (w.encode s) = some s)
    {la lb : Local} {ma mb : Msg} (ha : sendStatus w la = .ok ma) (hb : sendStatus w lb = .ok mb)
    (hja : ∀ scb, w.marshal la.replayParam.oldSysContracts = some scb →
      w.unmarshal scb = some la.replayParam.oldSysContracts)
    (hjb : ∀ scb, w.marshal lb.replayParam.oldSysContracts = some scb →
      w.unmarshal scb = some lb.replayParam.oldSysContracts)
    (hsa : ma.size ≤ w.protocolMaxMsgSize) (hsb : mb.size ≤ w.protocolMaxMsgSize)
    (pa pb : PeerHead) (sa sb : Schedule) (hka : 2 ≤ sa.received) (hkb : 2 ≤ sb.received) :
    ((handshake w la pa none (.ok mb) sa).2 = none ↔
      la.genesis = lb.genesis ∧ la.network = lb.network ∧ la.version = lb.version) ∧
    ((handshake w lb pb none (.ok ma) sb).2 = none ↔
      la.genesis = lb.genesis ∧ la.network = lb.network ∧ la.version = lb.version) ∧
    (la.genesis = lb.genesis ∧ la.network = lb.network ∧ la.version = lb.version →
      (handshake w la pa none (.ok mb) sa).1 = ⟨lb.bn, lb.head, lb.replayParam⟩ ∧
      (handshake w lb pb none (.ok ma) sb).1 = ⟨la.bn, la.head, la.replayParam⟩) := by
  have symm : la.genesis = lb.genesis ∧ la.network = lb.network ∧ la.version = lb.version ↔
      lb.genesis = la.genesis ∧ lb.network = la.network ∧ lb.version = la.version := by
    simp only [eq_comm]
  have hab := handshake_of_agree hcodec hb hsb hjb ha pa hka
  have hba := fun h => handshake_of_agree hcodec ha hsa hja hb pb hkb (symm.mp h)
  refine ⟨⟨agree_of_handshake_ok hcodec hb hsb, fun h => by rw [hab h]⟩,
    ⟨fun h => symm.mpr (agree_of_handshake_ok hcodec ha hsa h), fun h => by rw [hba h]⟩,
    fun h => ⟨by rw [hab h], by rw [hba h]⟩⟩

end Handshake

/-! ### Two nodes of one network -/

/-- A wire whose encoding lists the status's fields in order, and whose JSON
knows only the empty contract map. -/
def tupleWire : Wire where
  statusMsg := 0
  protocolMaxMsgSize := 10 * 1024 * 1024
  encode s := s.protocolVersion :: s.networkId :: s.bn :: s.currentBlock :: s.genesisBlock ::
    s.replayPovit :: s.replayOldSuperAdmin :: s.replayOldSysContracts
  decode
    | a :: b :: c :: d :: e :: f :: g :: rest => some ⟨a, b, c, d, e, f, g, rest⟩
    | _ => none
  marshal _ := some []
  unmarshal _ := some []

/-- A node at block 10 of network 1. -/
def nodeA : Local := ⟨63, 1, 10, 0xa, 0x9e, ⟨0, 0, []⟩⟩

/-- A node at block 12 of the same network. -/
def nodeB : Local := ⟨63, 1, 12, 0xb, 0x9e, ⟨0, 0, []⟩⟩

theorem handshake_agreement_tuple :
    ∃ ma mb, sendStatus tupleWire nodeA = .ok ma ∧ sendStatus tupleWire nodeB = .ok mb ∧
      (((handshake tupleWire nodeA ⟨0, 0, ⟨0, 0, []⟩⟩ none (.ok mb) ⟨true, 2⟩).2 = none ↔
        nodeA.genesis = nodeB.genesis ∧ nodeA.network = nodeB.network ∧ nodeA.version = nodeB.version) ∧
      ((handshake tupleWire nodeB ⟨0, 0, ⟨0, 0, []⟩⟩ none (.ok ma) ⟨false, 3⟩).2 = none ↔
        nodeA.genesis = nodeB.genesis ∧ nodeA.network = nodeB.network ∧ nodeA.version = nodeB.version) ∧
      (nodeA.genesis = nodeB.genesis ∧ nodeA.network = nodeB.network ∧ nodeA.version = nodeB.version →
        (handshake tupleWire nodeA ⟨0, 0, ⟨0, 0, []⟩⟩ none (.ok mb) ⟨true, 2⟩).1 =
          ⟨nodeB.bn, nodeB.head, nodeB.replayParam⟩ ∧
        (handshake tupleWire nodeB ⟨0, 0, ⟨0, 0, []⟩⟩ none (.ok ma) ⟨false, 3⟩).1 =
          ⟨nodeA.bn, nodeA.head, nodeA.replayParam⟩)) :=
  ⟨_, _, rfl, rfl, @handshake_agreement tupleWire (fun _ => rfl) nodeA nodeB _ _ rfl rfl
    (fun _ _ => rfl) (fun _ _ => rfl) (by decide) (by decide) _ _ _ _ (by decide) (by decide)⟩

end Venachain.Eth
