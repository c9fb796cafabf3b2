import Venachain.Istanbul.Validator

/-!
# Committed seals

The checks `verifyCommittedSeals` makes once it has the parent snapshot and
the parsed extra-data (engine.go, lines 312–345):

    if len(extra.CommittedSeal) == 0 { return errEmptyCommittedSeals }
    validators := snap.ValSet.Copy()
    validSeal := 0
    proposalSeal := istanbulCore.PrepareCommittedSeal(header.Hash())
    for _, seal := range extra.CommittedSeal {
        addr, err := istanbul.GetSignatureAddress(proposalSeal, seal)
        if err != nil { return errInvalidSignature }
        if validators.RemoveValidator(addr) { validSeal += 1 } else { return errInvalidCommittedSeals }
    }
    if validSeal < snap.ValSet.Size()-snap.ValSet.F() { return errInvalidCommittedSeals }

The loop counts seals by removing each recovered signer from a copy of the
set. `countSeals_ok_iff` shows that, for a set without repeated members, this
is counting distinct members: the loop succeeds exactly when every seal
recovers, the signers are pairwise distinct and all of them are validators,
and then it counts them all. `checkCommittedSeals_ok_iff` lifts this to the
whole check: it passes exactly on `SealsValid` seals, the statement of what a
valid seal list is, and `checkCommittedSeals_signers` gives the size of the
set of signers that the quorum intersection of two accepted headers rests on.
-/

namespace Venachain.Istanbul

/-- The `for _, seal := range extra.CommittedSeal` loop: `recover` is
`GetSignatureAddress(proposalSeal, ·)`, `validators` the working copy of the
set, `validSeal` the count so far. -/
def countSeals (recover : Bytes → Except ℕ Address) :
    ValSet → ℕ → List Bytes → Except Error ℕ
  | _, validSeal, [] => .ok validSeal
  | validators, validSeal, sig :: sigs =>
    match recover sig with
    | .error _ => .error .invalidSignature
    | .ok addr =>
      match validators.removeValidator addr with
      | (true, validators') => countSeals recover validators' (validSeal + 1) sigs
      | (false, _) => .error .invalidCommittedSeals

/-- The checks of `verifyCommittedSeals` after the snapshot and the extra-data
are read: `valSet` is the parent snapshot's set. -/
def checkCommittedSeals (c : Crypto) (header : Header) (valSet : ValSet)
    (extra : IstanbulExtra) : Except Error Unit := do
  if extra.committedSeal.length = 0 then throw .emptyCommittedSeals
  let proposalSeal := c.prepareCommittedSeal (c.hash header)
  let validSeal ← countSeals (c.getSignatureAddress proposalSeal) valSet 0 extra.committedSeal
  if validSeal < valSet.size - valSet.f then throw .invalidCommittedSeals

/-- Valid committed seals of `header` against the validator set `vs`: there are
some, each recovers over `PrepareCommittedSeal(header.Hash())`, the signers are
distinct validators, and there are at least `Size() - F()` of them. -/
def SealsValid (c : Crypto) (header : Header) (vs : ValSet) (extra : IstanbulExtra) : Prop :=
  extra.committedSeal ≠ [] ∧
  ∃ addrs, extra.committedSeal.mapM
      (c.getSignatureAddress (c.prepareCommittedSeal (c.hash header))) = .ok addrs ∧
    addrs.Nodup ∧ (∀ a ∈ addrs, a ∈ vs) ∧ vs.size - vs.f ≤ addrs.length

section Loop

variable {recover : Bytes → Except ℕ Address}

theorem mapM_cons_ok {sig : Bytes} {sigs : List Bytes} {addrs : List Address} :
    (sig :: sigs).mapM recover = .ok addrs ↔
      ∃ a as, recover sig = .ok a ∧ sigs.mapM recover = .ok as ∧ addrs = a :: as := by
  simp only [List.mapM_cons]
  cases recover sig <;> cases sigs.mapM recover <;>
    simp [bind, Except.bind, pure, Except.pure, eq_comm]

theorem length_of_mapM_ok {sigs : List Bytes} {addrs : List Address}
    (h : sigs.mapM recover = .ok addrs) : addrs.length = sigs.length := by
  induction sigs generalizing addrs with
  | nil => simp only [List.mapM_nil, pure, Except.pure, Except.ok.injEq] at h; simp [← h]
  | cons sig sigs ih =>
    obtain ⟨a, as, -, has, rfl⟩ := mapM_cons_ok.mp h
    simp [ih has]

/-- The loop fails only with `errInvalidSignature` or `errInvalidCommittedSeals`. -/
theorem countSeals_error {vs : ValSet} {n : ℕ} {sigs : List Bytes} {e : Error}
    (h : countSeals recover vs n sigs = .error e) :
    e = .invalidSignature ∨ e = .invalidCommittedSeals := by
  induction sigs generalizing vs n with
  | nil => simp [countSeals] at h
  | cons sig sigs ih =>
    unfold countSeals at h
    split at h
    · exact .inl (Except.error.inj h).symm
    · split at h
      · exact ih h
      · exact .inr (Except.error.inj h).symm

/-- Counting by removal is counting distinct members: on a set without repeated
members the loop succeeds exactly when every seal recovers to a validator and
no two seals have the same signer, and then it counts every seal. -/
theorem countSeals_ok_iff {vs : ValSet} (hvs : vs.Nodup) {n m : ℕ} {sigs : List Bytes} :
    countSeals recover vs n sigs = .ok m ↔
      ∃ addrs, sigs.mapM recover = .ok addrs ∧ addrs.Nodup ∧ (∀ a ∈ addrs, a ∈ vs) ∧
        m = n + addrs.length := by
  induction sigs generalizing vs n with
  | nil =>
    simp only [countSeals, List.mapM_nil, pure, Except.pure, Except.ok.injEq]
    constructor
    · rintro rfl; exact ⟨[], rfl, List.nodup_nil, by simp, rfl⟩
    · rintro ⟨_, rfl, -, -, rfl⟩; rfl
  | cons sig sigs ih =>
    simp only [mapM_cons_ok]
    unfold countSeals
    cases hr : recover sig with
    | error e => simp
    | ok a =>
      by_cases ha : a ∈ vs
      · have hrem : vs.removeValidator a = (true, vs.erase a) :=
          ValSet.removeValidator_true.mpr ⟨ha, rfl⟩
        simp only [hrem, ih (hvs.erase a), hvs.mem_erase_iff]
        constructor
        · rintro ⟨as, has, hnd, hmem, rfl⟩
          refine ⟨a :: as, ⟨a, as, rfl, has, rfl⟩, ?_, ?_, by simp; omega⟩
          · exact List.nodup_cons.mpr ⟨fun h => (hmem a h).1 rfl, hnd⟩
          · simpa [ha] using fun x hx => (hmem x hx).2
        · rintro ⟨_, ⟨a', as, ha', has, rfl⟩, hnd, hmem, rfl⟩
          cases Except.ok.inj ha'
          obtain ⟨hna, hnd⟩ := List.nodup_cons.mp hnd
          refine ⟨as, has, hnd, fun x hx => ⟨?_, hmem x (by simp [hx])⟩, by simp; omega⟩
          rintro rfl; exact hna hx
      · have hrem : vs.removeValidator a = (false, vs) :=
          ValSet.removeValidator_false.mpr ⟨ha, rfl⟩
        simp only [hrem, reduceCtorEq, false_iff]
        rintro ⟨_, ⟨a', as, ha', -, rfl⟩, -, hmem, -⟩
        cases Except.ok.inj ha'
        exact ha (hmem a (by simp))

end Loop

theorem checkCommittedSeals_eq (c : Crypto) (header : Header) (vs : ValSet)
    (extra : IstanbulExtra) :
    checkCommittedSeals c header vs extra =
      if extra.committedSeal = [] then .error .emptyCommittedSeals else
      match countSeals (c.getSignatureAddress (c.prepareCommittedSeal (c.hash header)))
          vs 0 extra.committedSeal with
      | .error e => .error e
      | .ok k => if k < vs.size - vs.f then .error .invalidCommittedSeals else .ok () := by
  unfold checkCommittedSeals
  by_cases he : extra.committedSeal = []
  · simp [he, bind, Except.bind, throw, throwThe, MonadExceptOf.throw]
  · have hlen : extra.committedSeal.length ≠ 0 := by simpa using he
    simp only [hlen, he, if_false, pure, Except.pure, bind, Except.bind]
    split <;> rename_i hc <;> simp [hc, throw, throwThe, MonadExceptOf.throw]

/-- On a set without repeated members, the committed-seal check passes exactly
on valid seals. -/
theorem checkCommittedSeals_ok_iff {c : Crypto} {header : Header} {vs : ValSet} (hvs : vs.Nodup)
    {extra : IstanbulExtra} :
    checkCommittedSeals c header vs extra = .ok () ↔ SealsValid c header vs extra := by
  rw [checkCommittedSeals_eq, SealsValid]
  by_cases he : extra.committedSeal = []
  · simp [he]
  · simp only [he, if_false, ne_eq, not_false_eq_true, true_and]
    split
    · rename_i e hcount
      simp only [reduceCtorEq, false_iff]
      rintro ⟨addrs, hm, hnd, hmem, -⟩
      have := (@countSeals_ok_iff _ _ hvs 0 _ _).mpr ⟨addrs, hm, hnd, hmem, rfl⟩
      rw [hcount] at this; cases this
    · rename_i k hcount
      obtain ⟨addrs, hm, hnd, hmem, rfl⟩ := (countSeals_ok_iff hvs).mp hcount
      constructor
      · intro h
        refine ⟨addrs, hm, hnd, hmem, ?_⟩
        by_contra hlt
        simp [not_le.mp hlt] at h
      · rintro ⟨addrs', hm', -, -, hq⟩
        cases hm.symm.trans hm'
        simp [not_lt.mpr hq]

/-- The committed-seal check fails only with `errEmptyCommittedSeals`,
`errInvalidSignature` or `errInvalidCommittedSeals`. -/
theorem checkCommittedSeals_error {c : Crypto} {header : Header} {vs : ValSet}
    {extra : IstanbulExtra} {e : Error} (h : checkCommittedSeals c header vs extra = .error e) :
    e = .emptyCommittedSeals ∨ e = .invalidSignature ∨ e = .invalidCommittedSeals := by
  rw [checkCommittedSeals_eq] at h
  split_ifs at h
  · exact .inl (Except.error.inj h).symm
  · split at h
    · rename_i hcount
      cases h
      exact .inr (countSeals_error hcount)
    · split_ifs at h
      · exact .inr (.inr (Except.error.inj h).symm)

/-- The signers recovered from the committed seals of an accepted header. -/
theorem checkCommittedSeals_signers {c : Crypto} {header : Header} {vs : ValSet} (hvs : vs.Nodup)
    {extra : IstanbulExtra} (h : checkCommittedSeals c header vs extra = .ok ()) :
    ∃ addrs, extra.committedSeal.mapM
        (c.getSignatureAddress (c.prepareCommittedSeal (c.hash header))) = .ok addrs ∧
      addrs.toFinset ⊆ vs.toFinset ∧ addrs.toFinset.Nonempty ∧
      vs.toFinset.card - (vs.toFinset.card - 1) / 3 ≤ addrs.toFinset.card := by
  obtain ⟨hne, addrs, hm, hnd, hmem, hq⟩ := (checkCommittedSeals_ok_iff hvs).mp h
  refine ⟨addrs, hm, fun a ha => List.mem_toFinset.mpr (hmem a (List.mem_toFinset.mp ha)), ?_, ?_⟩
  · obtain ⟨a, ha⟩ := List.exists_mem_of_length_pos
      (by rw [length_of_mapM_ok hm]; exact List.length_pos.mpr hne)
    exact ⟨a, List.mem_toFinset.mpr ha⟩
  · rw [List.toFinset_card_of_nodup hnd, List.toFinset_card_of_nodup hvs]
    exact hq

end Venachain.Istanbul
