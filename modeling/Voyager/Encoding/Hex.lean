import Mathlib.Algebra.Order.Ring.Nat
import Mathlib.Tactic.IntervalCases

/-!
# Hexadecimal byte strings

Modelled from encoding/hex: `EncodeToString` and `DecodeString` of Go's standard
library, on byte strings, as `pssPostHandler` reads its targets with them. `Encode`
writes each byte as two lower-case digits, high half first. `Decode` reads two digits
at a time, of either case, and fails at the first byte that is no digit; an odd
length fails after every byte before the last is checked.

Decoding what was encoded gives the bytes back (`decode_encode`), and what decodes is
the encoding of the bytes it decodes to, up to the case of its letters
(`encode_decode`). Both rest on the byte being its high half times sixteen plus its
low half (`toNat_join`).
-/

namespace Voyager.Hex

/-- `hextable`, `"0123456789abcdef"` as bytes. -/
def hextable : List UInt8 := [48, 49, 50, 51, 52, 53, 54, 55, 56, 57, 97, 98, 99, 100, 101, 102]

/-- `hextable[n]`. -/
def hexDigit (n : UInt8) : UInt8 := hextable.getD n.toNat 0

/-- `Encode`: `hextable[v>>4]`, then `hextable[v&0x0f]`, for each byte `v`. -/
def encode (src : List UInt8) : List UInt8 :=
  src.flatMap fun v => [hexDigit (v >>> 4), hexDigit (v &&& 0x0f)]

/-- `fromHexChar`: the value of a digit `0`-`9`, `a`-`f` or `A`-`F`. -/
def fromHexChar (c : UInt8) : Option UInt8 :=
  if 48 ≤ c ∧ c ≤ 57 then some (c - 48)
  else if 97 ≤ c ∧ c ≤ 102 then some (c - 97 + 10)
  else if 65 ≤ c ∧ c ≤ 70 then some (c - 65 + 10)
  else none

/-- `Decode`'s errors: `InvalidByteError` with the byte, and `ErrLength`. -/
inductive HexError where
  | invalidByte (c : UInt8)
  | length
  deriving DecidableEq, Repr

/-- `DecodeString`: each two digits `a`, `b` make the byte `(a << 4) | b`. A last byte
left alone is checked before `ErrLength` is reported. The bytes decoded before an
error are dropped: no caller reads them. -/
def decode : List UInt8 → Except HexError (List UInt8)
  | [] => .ok []
  | [c] => if (fromHexChar c).isSome then .error .length else .error (.invalidByte c)
  | p :: q :: rest =>
    match fromHexChar p, fromHexChar q with
    | none, _ => .error (.invalidByte p)
    | some _, none => .error (.invalidByte q)
    | some a, some b => (decode rest).map ((a <<< 4 ||| b) :: ·)

/-- A byte with `A`-`F` lowered to `a`-`f`. -/
def lowerDigit (c : UInt8) : UInt8 := if 65 ≤ c ∧ c ≤ 70 then c + 32 else c

@[simp] theorem encode_nil : encode [] = [] := rfl

@[simp] theorem encode_cons (v : UInt8) (src : List UInt8) :
    encode (v :: src) = hexDigit (v >>> 4) :: hexDigit (v &&& 0x0f) :: encode src := rfl

@[simp] theorem length_encode (src : List UInt8) : (encode src).length = 2 * src.length := by
  induction src with
  | nil => rfl
  | cons v src ih => simp only [encode_cons, List.length_cons, ih]; omega

/-! ## Halves of a byte -/

theorem toNat_shiftRight_four (v : UInt8) : (v >>> 4).toNat = v.toNat / 16 := by
  show (v.toBitVec >>> (4 : BitVec 8)).toNat = _
  rw [BitVec.ushiftRight_eq', BitVec.toNat_ushiftRight, Nat.shiftRight_eq_div_pow]
  rfl

theorem toNat_and_fifteen (v : UInt8) : (v &&& 15).toNat = v.toNat % 16 := by
  rw [UInt8.and_toNat]
  exact Nat.and_pow_two_sub_one_eq_mod v.toNat 4

/-- Two halves below sixteen join into the byte `16 * a + b`. -/
theorem toNat_join {a b : UInt8} (ha : a.toNat < 16) (hb : b.toNat < 16) :
    (a <<< 4 ||| b).toNat = 16 * a.toNat + b.toNat := by
  change a.toBitVec.toNat < 16 at ha
  change b.toBitVec.toNat < 16 at hb
  show (a.toBitVec <<< (4 : BitVec 8) ||| b.toBitVec).toNat = _
  rw [BitVec.toNat_or, BitVec.shiftLeft_eq', BitVec.toNat_shiftLeft,
    show BitVec.toNat (4 : BitVec 8) = 4 from rfl, Nat.shiftLeft_eq, Nat.mod_eq_of_lt (by omega),
    mul_comm, ← Nat.mul_add_lt_is_or (by omega)]
  rfl

theorem split_nibbles {a b : UInt8} (ha : a.toNat < 16) (hb : b.toNat < 16) :
    (a <<< 4 ||| b) >>> 4 = a ∧ (a <<< 4 ||| b) &&& 15 = b := by
  constructor <;> apply UInt8.toNat.inj
  · rw [toNat_shiftRight_four, toNat_join ha hb]; omega
  · rw [toNat_and_fifteen, toNat_join ha hb]; omega

theorem join_nibbles (v : UInt8) : (v >>> 4) <<< 4 ||| (v &&& 15) = v := by
  have hv : v.toNat < 256 := v.toNat_lt_size
  have ha : (v >>> 4).toNat < 16 := by rw [toNat_shiftRight_four]; omega
  have hb : (v &&& 15).toNat < 16 := by rw [toNat_and_fifteen]; omega
  apply UInt8.toNat.inj
  rw [toNat_join ha hb, toNat_shiftRight_four, toNat_and_fifteen]
  omega

/-! ## Digits -/

theorem ofNat_toNat (c : UInt8) : UInt8.ofNat c.toNat = c :=
  UInt8.toNat.inj (UInt8.toNat_ofNat_of_lt c.toNat_lt_size)

theorem fromHexChar_hexDigit_fin : ∀ n : Fin 16,
    fromHexChar (hexDigit (UInt8.ofNat n)) = some (UInt8.ofNat n) := by
  decide

/-- Each of the sixteen digits reads back as its value. -/
theorem fromHexChar_hexDigit {n : UInt8} (h : n.toNat < 16) : fromHexChar (hexDigit n) = some n := by
  have := fromHexChar_hexDigit_fin ⟨n.toNat, h⟩
  rwa [Fin.val_mk, ofNat_toNat] at this

/-- A digit's value is below sixteen and is written as the digit, lowered. -/
theorem hexDigit_fromHexChar {c a : UInt8} (h : fromHexChar c = some a) :
    hexDigit a = lowerDigit c ∧ a.toNat < 16 := by
  unfold fromHexChar at h
  -- one range of digits each, run through value by value
  split_ifs at h with h₁ h₂ h₃ <;> cases h
  · obtain ⟨hl, hh⟩ : 48 ≤ c.toNat ∧ c.toNat ≤ 57 := h₁
    rw [← ofNat_toNat c]
    generalize c.toNat = k at *
    interval_cases k <;> decide
  · obtain ⟨hl, hh⟩ : 97 ≤ c.toNat ∧ c.toNat ≤ 102 := h₂
    rw [← ofNat_toNat c]
    generalize c.toNat = k at *
    interval_cases k <;> decide
  · obtain ⟨hl, hh⟩ : 65 ≤ c.toNat ∧ c.toNat ≤ 70 := h₃
    rw [← ofNat_toNat c]
    generalize c.toNat = k at *
    interval_cases k <;> decide

theorem hexDigit_halves (v : UInt8) :
    fromHexChar (hexDigit (v >>> 4)) = some (v >>> 4) ∧
      fromHexChar (hexDigit (v &&& 15)) = some (v &&& 15) := by
  have hv : v.toNat < 256 := v.toNat_lt_size
  exact ⟨fromHexChar_hexDigit (by rw [toNat_shiftRight_four]; omega),
    fromHexChar_hexDigit (by rw [toNat_and_fifteen]; omega)⟩

/-! ## Round trips -/

/-- **Decoding reads back what `Encode` wrote.** -/
theorem decode_encode : ∀ src : List UInt8, decode (encode src) = .ok src
  | [] => rfl
  | v :: src => by
    obtain ⟨hhi, hlo⟩ := hexDigit_halves v
    rw [encode_cons, decode, hhi, show (0x0f : UInt8) = 15 from rfl, hlo]
    dsimp only
    rw [decode_encode src, join_nibbles]
    rfl

/-- **What decodes was written by `Encode`, up to the case of its letters.** -/
theorem encode_decode : ∀ {s bs : List UInt8}, decode s = .ok bs → encode bs = s.map lowerDigit
  | [], bs, h => by cases h; rfl
  | [c], bs, h => by
    unfold decode at h
    split at h <;> cases h
  | p :: q :: rest, bs, h => by
    unfold decode at h
    cases hp : fromHexChar p with
    | none => rw [hp] at h; cases h
    | some a =>
      cases hq : fromHexChar q with
      | none => rw [hp, hq] at h; cases h
      | some b =>
        rw [hp, hq] at h
        cases hr : decode rest with
        | error e => rw [hr] at h; cases h
        | ok bs' =>
          rw [hr] at h
          cases h
          obtain ⟨ha, hla⟩ := hexDigit_fromHexChar hp
          obtain ⟨hb, hlb⟩ := hexDigit_fromHexChar hq
          obtain ⟨hhi, hlo⟩ := split_nibbles hla hlb
          rw [encode_cons, show (0x0f : UInt8) = 15 from rfl, hhi, hlo, ha, hb, encode_decode hr]
          rfl

end Voyager.Hex
