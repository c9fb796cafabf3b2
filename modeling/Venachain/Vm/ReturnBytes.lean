import Mathlib.Data.List.Basic
import Mathlib.Algebra.Group.Nat.Basic

/-!
# The return value of a contract call

`MakeReturnBytes` (core/vm/util.go, lines 51–68) wraps the bytes a contract
returns for a Solidity-style caller. It rounds the size up to a multiple of
32, copies the bytes into a zeroed buffer of that size, and puts two 32-byte
words in front: `BytesToHash(Int32ToBytes(32))` and
`BytesToHash(Int64ToBytes(int64(len(ret))))`. The string and struct paths,
`toContractReturnValueStringType` and `toContractReturnValueStructType`
(lines 32–49), return it for every transaction type but the two flags.

## The model

Byte slices are lists of `UInt8`; `copy` is Go's. The file calls helpers of
the `common` package that are not among the sources:

* `Int32ToBytes` and `Int64ToBytes`: `binary.Write`, big-endian;
* `BytesToHash`: the last 32 bytes, zero-padded in front.

They are modelled here. The two flag constants and `json.Marshal` are
parameters, and `int64(len(ret))` is a `BitVec 64`. The decoder is the Solidity
ABI's rule for one dynamic `bytes` value: read the offset word, read the length
word at that offset, and take that many bytes after it.

## What is proved

`makeReturnBytes_abi`: for every `r` shorter than `2^64` bytes (every Go slice
is), `MakeReturnBytes(r)` is `64 + 32⌈|r|/32⌉` bytes long. Its first word is
the big-endian 32, its second the big-endian `|r|`, and then come `r` and
zeros. The decoder gives back `r`, also from the string and struct paths.

Not modelled: `toContractReturnValueIntType` and
`toContractReturnValueUintType`, which call `utils.Align32Bytes`,
`utils.Int64ToBytes` and `math.U256`, none of them among the sources.
-/

namespace Venachain.Vm

/-- A Go `[]byte`. -/
abbrev Bytes := List UInt8

/-! ### Go's byte helpers -/

/-- `copy(dst, src)`: `dst` with its first `min(len(dst), len(src))` bytes
replaced by those of `src`. -/
def copy (dst src : Bytes) : Bytes := src.take dst.length ++ dst.drop src.length

/-- The low `w` bytes of `n`, most significant first. -/
def bigEndian : ℕ → ℕ → Bytes
  | 0, _ => []
  | w + 1, n => bigEndian w (n / 256) ++ [UInt8.ofNat (n % 256)]

/-- The value of a big-endian byte string. -/
def ofBigEndian (b : Bytes) : ℕ := b.foldl (fun n x => n * 256 + x.toNat) 0

@[simp] theorem length_bigEndian (w n : ℕ) : (bigEndian w n).length = w := by
  induction w generalizing n with
  | zero => rfl
  | succ w ih => simp [bigEndian, ih]

theorem bigEndian_zero (w : ℕ) : bigEndian w 0 = List.replicate w 0 := by
  induction w with
  | zero => rfl
  | succ w ih => rw [bigEndian, Nat.zero_div, ih, List.replicate_succ']; rfl

/-- Zeros in front of the big-endian string of a value that fits make a longer
big-endian string of it. -/
theorem replicate_append_bigEndian (k : ℕ) {w n : ℕ} (h : n < 256 ^ w) :
    List.replicate k 0 ++ bigEndian w n = bigEndian (k + w) n := by
  induction w generalizing n with
  | zero =>
    obtain rfl : n = 0 := by simpa using h
    rw [bigEndian, List.append_nil, Nat.add_zero, bigEndian_zero]
  | succ w ih =>
    rw [bigEndian, ← List.append_assoc, ih (Nat.div_lt_of_lt_mul (by rwa [Nat.pow_succ'] at h))]
    rfl

theorem ofBigEndian_append_singleton (b : Bytes) (x : UInt8) :
    ofBigEndian (b ++ [x]) = ofBigEndian b * 256 + x.toNat := by
  simp [ofBigEndian, List.foldl_append]

/-- Reading back a big-endian string gives the value modulo its width. -/
theorem ofBigEndian_bigEndian (w n : ℕ) : ofBigEndian (bigEndian w n) = n % 256 ^ w := by
  induction w generalizing n with
  | zero => simp [ofBigEndian, bigEndian, Nat.mod_one]
  | succ w ih =>
    rw [bigEndian, ofBigEndian_append_singleton, ih, UInt8.toNat_ofNat_of_lt (Nat.mod_lt _ (by decide)),
      Nat.pow_succ', Nat.mod_mul, Nat.add_comm, Nat.mul_comm]

/-- `common.Int32ToBytes(n)`: `binary.Write(buf, binary.BigEndian, n)`. -/
def int32ToBytes (n : BitVec 32) : Bytes := bigEndian 4 n.toNat

/-- `common.Int64ToBytes(n)`: `binary.Write(buf, binary.BigEndian, n)`. -/
def int64ToBytes (n : BitVec 64) : Bytes := bigEndian 8 n.toNat

/-- `common.HashLength`. -/
def hashLength : ℕ := 32

/-- `common.Hash`, a `[HashLength]byte`. -/
structure Hash where
  /-- `h[:]`, what `Bytes()` returns. -/
  bytes : Bytes
  length_bytes : bytes.length = hashLength

/-- The first step of `SetBytes`: a slice longer than `HashLength` is cut to its
last `HashLength` bytes. -/
def hashTail (b : Bytes) : Bytes :=
  if b.length > hashLength then b.drop (b.length - hashLength) else b

theorem length_hashTail_le (b : Bytes) : (hashTail b).length ≤ hashLength := by
  unfold hashTail
  split_ifs
  · rw [List.length_drop]; omega
  · omega

/-- `common.BytesToHash(b)`: `SetBytes` copies what is left of `b` to the end
of a zeroed hash. -/
def bytesToHash (b : Bytes) : Hash :=
  ⟨List.replicate (hashLength - (hashTail b).length) 0 ++ hashTail b, by
    have := length_hashTail_le b
    simp only [List.length_append, List.length_replicate]
    omega⟩

theorem bytes_bytesToHash {b : Bytes} (h : b.length ≤ hashLength) :
    (bytesToHash b).bytes = List.replicate (hashLength - b.length) 0 ++ b := by
  have : hashTail b = b := if_neg (by omega)
  simp only [bytesToHash, this]

/-- A big-endian string of at most 32 bytes, made a hash, is the 32-byte
big-endian string of its value. -/
theorem bytesToHash_bigEndian {w n : ℕ} (hw : w ≤ 32) (hn : n < 256 ^ w) :
    (bytesToHash (bigEndian w n)).bytes = bigEndian 32 n := by
  rw [bytes_bytesToHash (by rwa [length_bigEndian]), replicate_append_bigEndian _ hn, length_bigEndian]
  congr 1
  exact Nat.sub_add_cancel hw

theorem copy_replicate {src : Bytes} {d : ℕ} (h : src.length ≤ d) :
    copy (List.replicate d 0) src = src ++ List.replicate (d - src.length) 0 := by
  simp [copy, List.take_of_length_le, h]

/-! ### `MakeReturnBytes` and its callers -/

/-- `MakeReturnBytes(ret)`. -/
def makeReturnBytes (ret : Bytes) : Bytes :=
  let dataRealSize :=
    if ret.length % 32 ≠ 0 then ret.length + (32 - ret.length % 32) else ret.length
  let dataByt := copy (List.replicate dataRealSize 0) ret
  let strHash := bytesToHash (int32ToBytes 32)
  let sizeHash := bytesToHash (int64ToBytes (BitVec.ofNat 64 ret.length))
  [] ++ strHash.bytes ++ sizeHash.bytes ++ dataByt

/-- `MakeReturnBytes(r)`, for every slice Go can hold: the word 32, the word
`len(r)`, and `r` padded with zeros to a multiple of 32 bytes. -/
theorem makeReturnBytes_eq {r : Bytes} (hr : r.length < 2 ^ 64) :
    makeReturnBytes r = bigEndian 32 32 ++ bigEndian 32 r.length ++
      (r ++ List.replicate (32 * ((r.length + 31) / 32) - r.length) 0) := by
  have hsize : (if r.length % 32 ≠ 0 then r.length + (32 - r.length % 32) else r.length) =
      32 * ((r.length + 31) / 32) := by
    split_ifs <;> omega
  have hlen : (BitVec.ofNat 64 r.length).toNat = r.length := by
    rw [BitVec.toNat_ofNat, Nat.mod_eq_of_lt hr]
  simp only [makeReturnBytes, hsize, int32ToBytes, int64ToBytes, hlen, List.nil_append]
  rw [copy_replicate (by omega), bytesToHash_bigEndian (by decide) (by decide),
    bytesToHash_bigEndian (by decide) (hr.trans_eq (by decide))]
  rfl

section Paths

variable (callContractFlag txTypeCallSollCompatibleWasm : ℤ)

/-- `toContractReturnValueStringType(txType, res)`. -/
def toContractReturnValueStringType (txType : ℤ) (res : Bytes) : Bytes :=
  if txType = callContractFlag ∨ txType = txTypeCallSollCompatibleWasm then res
  else makeReturnBytes res

/-- `json.Marshal(res)`, with `[]byte{}` on an error. -/
def marshalOrEmpty {α ε : Type} (marshal : α → Except ε Bytes) (res : α) : Bytes :=
  match marshal res with
  | .ok b => b
  | .error _ => []

/-- `toContractReturnValueStructType(txType, res)`, `json.Marshal` being
`marshal`. -/
def toContractReturnValueStructType {α ε : Type} (marshal : α → Except ε Bytes) (txType : ℤ)
    (res : α) : Bytes :=
  let b := marshalOrEmpty marshal res
  if txType = callContractFlag ∨ txType = txTypeCallSollCompatibleWasm then b
  else makeReturnBytes b

end Paths

/-! ### The ABI decoder -/

/-- The word at byte offset `i`, read big-endian, if the data holds it. -/
def wordAt (data : Bytes) (i : ℕ) : Option ℕ :=
  if i + 32 ≤ data.length then some (ofBigEndian ((data.drop i).take 32)) else none

/-- The Solidity ABI decoding of one dynamic `bytes` value: the offset word, the
length word at that offset, and that many bytes after it. -/
def abiDecodeBytes (data : Bytes) : Option Bytes := do
  let offset ← wordAt data 0
  let len ← wordAt data offset
  if offset + 32 + len ≤ data.length then some ((data.drop (offset + 32)).take len) else none

theorem wordAt_of_le {data : Bytes} {i : ℕ} (h : i + 32 ≤ data.length) :
    wordAt data i = some (ofBigEndian ((data.drop i).take 32)) :=
  if_pos h

/-- The decoder reads back the bytes of an encoding laid out as the ABI says,
whatever follows them. -/
theorem abiDecodeBytes_encoded (r pad : Bytes) (hr : r.length < 256 ^ 32) :
    abiDecodeBytes (bigEndian 32 32 ++ bigEndian 32 r.length ++ (r ++ pad)) = some r := by
  have hl : (bigEndian 32 32 ++ bigEndian 32 r.length ++ (r ++ pad)).length =
      64 + r.length + pad.length := by
    simp only [List.length_append, length_bigEndian]; omega
  have h₀ : wordAt (bigEndian 32 32 ++ bigEndian 32 r.length ++ (r ++ pad)) 0 = some 32 := by
    rw [wordAt_of_le (by omega), List.drop_zero, List.append_assoc,
      List.take_left' (length_bigEndian _ _), ofBigEndian_bigEndian, Nat.mod_eq_of_lt (by decide)]
  have h₁ : wordAt (bigEndian 32 32 ++ bigEndian 32 r.length ++ (r ++ pad)) 32 = some r.length := by
    rw [wordAt_of_le (by omega), List.append_assoc, List.drop_left' (length_bigEndian _ _),
      List.take_left' (length_bigEndian _ _), ofBigEndian_bigEndian, Nat.mod_eq_of_lt hr]
  simp only [abiDecodeBytes, h₀, h₁, Option.bind_eq_bind, Option.some_bind]
  rw [if_pos (by omega), List.drop_left' (by simp), List.take_left' rfl]

/-- For every slice `r` Go can hold, `MakeReturnBytes(r)` is `64 + 32⌈|r|/32⌉`
bytes long: the big-endian word 32, the big-endian word `|r|`, then `r` and
zeros. The ABI decoder gives back `r` from it, and so from the string and
struct return paths for every transaction type but the two flags. -/
theorem makeReturnBytes_abi (r : Bytes) (hr : r.length < 2 ^ 64) :
    (makeReturnBytes r).length = 64 + 32 * ((r.length + 31) / 32) ∧
    (makeReturnBytes r).take 32 = bigEndian 32 32 ∧
    ((makeReturnBytes r).drop 32).take 32 = bigEndian 32 r.length ∧
    (makeReturnBytes r).drop 64 = r ++ List.replicate (32 * ((r.length + 31) / 32) - r.length) 0 ∧
    abiDecodeBytes (makeReturnBytes r) = some r ∧
    ∀ callContractFlag txTypeCallSollCompatibleWasm txType : ℤ,
      txType ≠ callContractFlag → txType ≠ txTypeCallSollCompatibleWasm →
      abiDecodeBytes (toContractReturnValueStringType callContractFlag txTypeCallSollCompatibleWasm
        txType r) = some r ∧
      ∀ (α ε : Type) (marshal : α → Except ε Bytes) (res : α), marshal res = .ok r →
        abiDecodeBytes (toContractReturnValueStructType callContractFlag txTypeCallSollCompatibleWasm
          marshal txType res) = some r := by
  have hdec : abiDecodeBytes (makeReturnBytes r) = some r := by
    rw [makeReturnBytes_eq hr]
    exact abiDecodeBytes_encoded r _ (hr.trans (by decide))
  rw [makeReturnBytes_eq hr]
  refine ⟨?_, ?_, ?_, ?_, makeReturnBytes_eq hr ▸ hdec, fun c w t hc hw => ⟨?_, fun α ε m res hm => ?_⟩⟩
  · simp only [List.length_append, length_bigEndian, List.length_replicate]; omega
  · rw [List.append_assoc, List.take_left' (length_bigEndian _ _)]
  · rw [List.append_assoc, List.drop_left' (length_bigEndian _ _), List.take_left' (length_bigEndian _ _)]
  · rw [List.drop_left' (by simp)]
  · rw [toContractReturnValueStringType, if_neg (not_or.mpr ⟨hc, hw⟩), hdec]
  · rw [toContractReturnValueStructType, marshalOrEmpty, hm, if_neg (not_or.mpr ⟨hc, hw⟩), hdec]

/-- A three-byte return value: one word of data after the two header words. -/
theorem makeReturnBytes_abi_three :
    ([1, 2, 3] : Bytes).length < 2 ^ 64 ∧ (makeReturnBytes [1, 2, 3]).length = 96 ∧
      abiDecodeBytes (makeReturnBytes [1, 2, 3]) = some [1, 2, 3] :=
  ⟨by decide, (makeReturnBytes_abi [1, 2, 3] (by decide)).1,
    (makeReturnBytes_abi [1, 2, 3] (by decide)).2.2.2.2.1⟩

end Venachain.Vm
