import Venachain.Istanbul.Basic
import Mathlib.Logic.Equiv.List

/-!
# Writing the extra-data

The proposer fills a header's extra-data in three steps (engine.go, lines
731–804):

* `Prepare` installs `prepareExtra(header, validators)`: the header's own
  first 32 bytes, zero-padded when shorter, then the RLP of an
  `IstanbulExtra` with the validators and no seals;
* `writeSeal(h, seal)` replaces the seal;
* `writeCommittedSeals(h, seals)` replaces the committed seals.

The last two re-decode the payload with `types.ExtractIstanbulExtra`, change
one field, and re-encode it after the first 32 bytes.

## The model

`rlp.EncodeToBytes` and `rlp.DecodeBytes` are an `ExtraCodec`: an encoder and
a decoder that reads back whatever the encoder wrote. `ExtractIstanbulExtra`,
whose package is not among the sources, decodes the bytes after the 32-byte
vanity. Headers are changed in place in Go; here each writer returns the new
header or the error.

## What is proved

`seal_writers_round_trip`: for every extra-data, validator list, seal whose
length is a multiple of 65, and non-empty list of 65-byte committed seals,
both orders of the two writers succeed after `prepareExtra`, and they give
the same header. Its first 32 bytes are the original ones, zero-padded, and
its payload decodes to exactly the validators, the seal and the committed
seals.
-/

namespace Venachain.Istanbul

/-- `types.IstanbulExtraVanity`: the bytes of extra-data reserved for the vanity. -/
def istanbulExtraVanity : ℕ := 32

/-- `types.IstanbulExtraSeal`: the bytes of one seal. -/
def istanbulExtraSeal : ℕ := 65

/-- Modelled from the spec: the RLP encoding of `IstanbulExtra`, "a
structurally-encoded payload", with its decoder, which reads back whatever the
encoder wrote. -/
structure ExtraCodec where
  /-- `rlp.EncodeToBytes(&istanbulExtra)`. -/
  encode : IstanbulExtra → Bytes
  /-- `rlp.DecodeBytes(b, &istanbulExtra)`. -/
  decode : Bytes → Except ℕ IstanbulExtra
  /-- The code of `ErrInvalidIstanbulHeaderExtra`. -/
  invalidHeaderExtra : ℕ
  decode_encode : ∀ x, decode (encode x) = .ok x

namespace ExtraCodec

variable (c : ExtraCodec)

/-- Modelled from the spec: `types.ExtractIstanbulExtra(h)`, the payload after
the fixed-length vanity. -/
def extract (extra : Bytes) : Except ℕ IstanbulExtra :=
  if extra.length < istanbulExtraVanity then .error c.invalidHeaderExtra
  else c.decode (extra.drop istanbulExtraVanity)

/-- `prepareExtra(header, vals)`: the header with its extra-data padded to the
vanity, and the new extra-data. The error of `rlp.EncodeToBytes` is never
returned: the encoder is total. -/
def prepareExtra (header : Header) (vals : List Address) : Header × Bytes :=
  let header := if header.extra.length < istanbulExtraVanity then
      { header with extra := header.extra ++ List.replicate (istanbulExtraVanity - header.extra.length) 0 }
    else header
  let ist : IstanbulExtra := ⟨vals, [], []⟩
  (header, header.extra.take istanbulExtraVanity ++ c.encode ist)

/-- `Prepare`'s `header.Extra = extra`, after `prepareExtra`. -/
def installExtra (header : Header) (vals : List Address) : Header :=
  { (c.prepareExtra header vals).1 with extra := (c.prepareExtra header vals).2 }

/-- `writeSeal(h, seal)` (`seal` is a keyword). -/
def writeSeal (h : Header) (seal' : Bytes) : Except Error Header :=
  if seal'.length % istanbulExtraSeal ≠ 0 then .error .invalidSignature else
  match c.extract h.extra with
  | .error e => .error (.external e)
  | .ok istanbulExtra =>
    let payload := c.encode { istanbulExtra with proposerSeal := seal' }
    .ok { h with extra := h.extra.take istanbulExtraVanity ++ payload }

/-- `writeCommittedSeals(h, committedSeals)`. -/
def writeCommittedSeals (h : Header) (committedSeals : List Bytes) : Except Error Header :=
  if committedSeals.length = 0 then .error .invalidCommittedSeals else
  if committedSeals.any (fun seal' => seal'.length != istanbulExtraSeal) then
    .error .invalidCommittedSeals else
  match c.extract h.extra with
  | .error e => .error (.external e)
  | .ok istanbulExtra =>
    let payload := c.encode { istanbulExtra with committedSeal := committedSeals }
    .ok { h with extra := h.extra.take istanbulExtraVanity ++ payload }

/-! ### The writers on extra-data in the vanity-then-payload form -/

variable {c}

theorem length_take_vanity (e : Bytes) :
    ((e ++ List.replicate (istanbulExtraVanity - e.length) 0).take istanbulExtraVanity).length =
      istanbulExtraVanity := by
  simp only [List.length_take, List.length_append, List.length_replicate]
  omega

/-- `ExtractIstanbulExtra` reads the payload after any 32-byte vanity. -/
theorem extract_append {v : Bytes} (hv : v.length = istanbulExtraVanity) (x : IstanbulExtra) :
    c.extract (v ++ c.encode x) = .ok x := by
  rw [extract, if_neg (by simp [hv]), List.drop_left' hv, c.decode_encode]

/-- `Prepare` installs the padded vanity and the payload with the validators. -/
theorem installExtra_extra (h : Header) (vals : List Address) :
    (c.installExtra h vals).extra =
      (h.extra ++ List.replicate (istanbulExtraVanity - h.extra.length) 0).take istanbulExtraVanity ++
        c.encode ⟨vals, [], []⟩ := by
  simp only [installExtra, prepareExtra]
  split_ifs with hl
  · rfl
  · rw [Nat.sub_eq_zero_of_le (not_lt.mp hl), List.replicate_zero, List.append_nil]

section Payload

variable {h : Header} {v : Bytes} (x : IstanbulExtra)

/-- `writeSeal` on a vanity and a payload: the payload with the new seal. -/
theorem writeSeal_append {s : Bytes} (hv : v.length = istanbulExtraVanity)
    (hh : h.extra = v ++ c.encode x) (hs : s.length % istanbulExtraSeal = 0) :
    c.writeSeal h s = .ok { h with extra := v ++ c.encode { x with proposerSeal := s } } := by
  rw [writeSeal, if_neg (not_not_intro hs), hh, extract_append hv, List.take_left' hv]

/-- `writeCommittedSeals` on a vanity and a payload: the payload with the new
committed seals. -/
theorem writeCommittedSeals_append {C : List Bytes} (hv : v.length = istanbulExtraVanity)
    (hh : h.extra = v ++ c.encode x) (hC : C ≠ [])
    (hC65 : ∀ seal' ∈ C, seal'.length = istanbulExtraSeal) :
    c.writeCommittedSeals h C = .ok { h with extra := v ++ c.encode { x with committedSeal := C } } := by
  have hany : C.any (fun seal' => seal'.length != istanbulExtraSeal) = false := by simpa using hC65
  rw [writeCommittedSeals, if_neg (mt List.length_eq_zero.mp hC), hany, if_neg Bool.false_ne_true, hh,
    extract_append hv, List.take_left' hv]

end Payload

end ExtraCodec

open ExtraCodec in
/-- For every extra-data, validator list, seal whose length is a multiple of 65
and non-empty list of 65-byte committed seals: after `prepareExtra`, both
orders of `writeSeal` and `writeCommittedSeals` succeed and give the same
header, whose first 32 bytes are the original ones, zero-padded, and whose
payload decodes to exactly the validators, the seal and the committed seals. -/
theorem seal_writers_round_trip (c : ExtraCodec) (h : Header) (V : List Address) (s : Bytes)
    (C : List Bytes) (hs : s.length % istanbulExtraSeal = 0) (hC : C ≠ [])
    (hC65 : ∀ seal' ∈ C, seal'.length = istanbulExtraSeal) :
    ∃ h₂ : Header, (c.writeSeal (c.installExtra h V) s >>= fun h₁ => c.writeCommittedSeals h₁ C) = .ok h₂ ∧
      (c.writeCommittedSeals (c.installExtra h V) C >>= fun h₁ => c.writeSeal h₁ s) = .ok h₂ ∧
      h₂.extra.take istanbulExtraVanity =
        (h.extra ++ List.replicate (istanbulExtraVanity - h.extra.length) 0).take istanbulExtraVanity ∧
      c.extract h₂.extra = .ok ⟨V, s, C⟩ := by
  have hv := length_take_vanity h.extra
  have h₀ := installExtra_extra (c := c) h V
  refine ⟨{ c.installExtra h V with extra := _ ++ c.encode ⟨V, s, C⟩ }, ?_, ?_,
    List.take_left' hv, extract_append hv _⟩
  · rw [writeSeal_append _ hv h₀ hs]
    exact writeCommittedSeals_append ⟨V, s, []⟩ hv rfl hC hC65
  · rw [writeCommittedSeals_append _ hv h₀ hC hC65]
    exact writeSeal_append ⟨V, [], C⟩ hv rfl hs

/-! ### A codec -/

/-- `UInt8` numbered by its value. -/
instance encodableUInt8 : Encodable UInt8 :=
  Encodable.ofLeftInverse UInt8.toNat UInt8.ofNat fun x =>
    UInt8.toNat.inj (UInt8.toNat_ofNat_of_lt x.toBitVec.isLt)

/-- `IstanbulExtra` as its three fields. -/
def IstanbulExtra.equivProd : IstanbulExtra ≃ List Address × Bytes × List Bytes where
  toFun x := (x.validators, x.proposerSeal, x.committedSeal)
  invFun p := ⟨p.1, p.2.1, p.2.2⟩
  left_inv _ := rfl
  right_inv _ := rfl

instance encodableIstanbulExtra : Encodable IstanbulExtra := Encodable.ofEquiv _ IstanbulExtra.equivProd

/-- A codec: the value's `Encodable` index, in unary. -/
def unaryCodec : ExtraCodec where
  encode x := List.replicate (Encodable.encode x) 0
  decode b := match (Encodable.decode b.length : Option IstanbulExtra) with
    | some x => .ok x
    | none => .error 0
  invalidHeaderExtra := 0
  decode_encode x := by simp [Encodable.encodek]

/-- An empty extra-data, one validator, one seal and one committed seal. -/
theorem seal_writers_round_trip_unary :
    (List.replicate 65 (0 : UInt8)).length % istanbulExtraSeal = 0 ∧
    ∃ h₂ : Header, h₂.extra.take istanbulExtraVanity = List.replicate 32 0 ∧
      unaryCodec.extract h₂.extra = .ok ⟨[7], List.replicate 65 0, [List.replicate 65 1]⟩ := by
  obtain ⟨h₂, -, -, hv, hx⟩ := seal_writers_round_trip unaryCodec ⟨0, 1, 0, [], [], 0⟩ [7]
    (List.replicate 65 0) [List.replicate 65 1] (by decide) (List.cons_ne_nil _ _) (by decide)
  exact ⟨by decide, h₂, hv, hx⟩

end Venachain.Istanbul
