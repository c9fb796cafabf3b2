import Venachain.Istanbul.Basic
import Mathlib.Data.Finset.Card

/-!
# Validator sets

The operations of `istanbul.ValidatorSet` the engine calls. The `validator`
package is not part of the sources, so they are modelled from the spec: "an
ordered set of addresses … quorum functions `Size()` and `F()` (max tolerated
faulty validators) such that quorum = `Size() - F()`. Must support: membership
test by address, copy …, removal (used transiently when tallying committed
seals)", with "fault tolerance `F = (S-1)/3`".

The one fact of Byzantine quorums the engine relies on is
`quorum_inter`: two subsets of a set of `S` validators that each have at
least `S - F` members share at least `F + 1` of them.
-/

namespace Venachain.Istanbul

/-- A validator set: its addresses, in the set's order. -/
abbrev ValSet := List Address

namespace ValSet

/-- Modelled from the spec: `Size()`, the number of validators. -/
def size (vs : ValSet) : ℕ := vs.length

/-- Modelled from the spec: `F()`, the number of faulty validators tolerated,
`(S-1)/3` for a set of `S`. -/
def f (vs : ValSet) : ℕ := (vs.size - 1) / 3

/-- Modelled from the spec: `GetByAddress(addr)` finds a validator. -/
def getByAddress (vs : ValSet) (addr : Address) : Option Address :=
  if addr ∈ vs then some addr else none

/-- Modelled from the spec: `RemoveValidator(addr)` removes the validator and
reports whether it was there. -/
def removeValidator (vs : ValSet) (addr : Address) : Bool × ValSet :=
  if addr ∈ vs then (true, vs.erase addr) else (false, vs)

theorem removeValidator_true {vs : ValSet} {addr : Address} {vs' : ValSet} :
    vs.removeValidator addr = (true, vs') ↔ addr ∈ vs ∧ vs' = vs.erase addr := by
  unfold removeValidator
  split_ifs with h <;> simp [h, eq_comm]

theorem removeValidator_false {vs : ValSet} {addr : Address} {vs' : ValSet} :
    vs.removeValidator addr = (false, vs') ↔ addr ∉ vs ∧ vs' = vs := by
  unfold removeValidator
  split_ifs with h <;> simp [h, eq_comm]

end ValSet

/-! ### Quorum intersection -/

/-- Two quorums of `S - F` members of a set of `S` validators, one of them not
empty, share at least `F + 1` validators: with `F = (S-1)/3`, `S ≥ 3F + 1`. -/
theorem quorum_inter {V A B : Finset Address} (hA : A ⊆ V) (hB : B ⊆ V) (hne : A.Nonempty)
    (hqA : V.card - (V.card - 1) / 3 ≤ A.card) (hqB : V.card - (V.card - 1) / 3 ≤ B.card) :
    (V.card - 1) / 3 + 1 ≤ (A ∩ B).card := by
  have hU : (A ∪ B).card ≤ V.card := Finset.card_le_card (Finset.union_subset hA hB)
  have hI := Finset.card_union_add_card_inter A B
  have hS : 0 < V.card := Finset.card_pos.mpr (hne.mono hA)
  omega

end Venachain.Istanbul
