import Venachain.Istanbul.VerifyHeaders

/-!
# The parent checks of `verifyCascadingFields`

Two of the checks `verifyCascadingFields` (engine.go, lines 182–223) makes
against the parent, and what each guarantees.

* The timestamp check compares `parent.Time.Uint64() + BlockPeriod` with
  `header.Time.Uint64()` in `uint64` arithmetic: both times are truncated to
  their low 64 bits and the sum wraps. Where the sum wraps, the check is not
  the rule `parent.Time + BlockPeriod ≤ header.Time` (`timestamp_check_wraps`):
  a batch whose first header is made at time `2^64 - 1` gets its second
  header, made at time 10, accepted.
* The validators check is a comment ("Validators in snapshot and extraData
  should be the same") over a byte copy of the snapshot's validators that is
  never compared with anything: a header whose extra-data names other
  validators than the parent snapshot's is accepted (`validators_unchecked`).
-/

namespace Venachain.Istanbul

/-! ### The timestamp check -/

/-- `soloBackend` with VRF election off, so that the parent comes from the batch
alone. -/
def noVrfBackend : Backend := ⟨⟨1, [], 0, 0, 1000000⟩, soloCrypto, fun s _ => s⟩

/-- A block 1 made at time `2^64 - 1`. -/
def lateBlock : Header := ⟨100, 1, 2 ^ 64 - 1, [], [], 0⟩

/-- A child of `lateBlock` made at time 10. -/
def wrapChild : Header := ⟨soloCrypto.hash lateBlock, 2, 10, [], [], 0⟩

/-- With a block period of 1, `lateBlock`'s time plus the period is `2^64`, which
wraps to 0, so `verifyCascadingFields` accepts `wrapChild` although it is made
before its parent. In a batch, `lateBlock` is rejected as a future block and
`wrapChild`, checked against it, is accepted. -/
theorem timestamp_check_wraps :
    wrapChild.time < lateBlock.time + noVrfBackend.config.blockPeriod ∧
    (∃ t, verifyCascadingFields noVrfBackend soloChain wrapChild [lateBlock] State.init = .ok () t) ∧
    ∃ r, Run noVrfBackend soloChain [lateBlock, wrapChild] (.init State.init) [.send, .send] r ∧
      r.sent = [some .futureBlock, none] :=
  ⟨by decide, ⟨_, rfl⟩, ⟨_, .cons (.send rfl rfl) (.cons (.send rfl rfl) .nil), rfl⟩⟩

/-! ### The validators check -/

/-- Block 1 of the one-validator network: its extra-data names no validators,
the parent snapshot's set is `[7]`, and `verifyCascadingFields` accepts it. -/
theorem validators_unchecked :
    soloCrypto.extractIstanbulExtra (soloBlock 10).extra = .ok ⟨[], [], [[]]⟩ ∧
    (∃ t, snapshot soloBackend soloChain (u64 (soloBlock 10).number - 1) (soloBlock 10).parentHash []
      State.init = .ok ⟨0, 100, [7]⟩ t) ∧
    (⟨[], [], [[]]⟩ : IstanbulExtra).validators ≠ (⟨0, 100, [7]⟩ : Snapshot).valSet ∧
    ∃ t, verifyCascadingFields soloBackend soloChain (soloBlock 10) [] State.init = .ok () t :=
  ⟨rfl, ⟨_, rfl⟩, by decide, ⟨_, rfl⟩⟩

end Venachain.Istanbul
