import Mathlib.Data.List.Basic
import Mathlib.Algebra.Group.Nat.Basic
import Mathlib.Algebra.Group.Int

/-!
# Overlay addresses and their XOR metric

The `infinity` package is not in the repository; what kademlia uses of it is
modelled from the spec (§3, §4.A) and from the way `closestPeer` reads
`DistanceCmp`. An address is 32 bytes; its bits are read most significant first
(`Address.bits`), so the XOR distance is a 256-bit unsigned integer and both
proximities count leading equal bits. The one fact the balancing pass rests on is
`commonPrefix_le_of_distance_le`: a peer at most as far from a target as another
shares at least as long a prefix with it.
-/

namespace Voyager.Infinity

/-- Modelled from the spec: an overlay address (`infinity.Address`), 32 bytes. -/
structure Address where
  bytes : List UInt8
  length_bytes : bytes.length = 32
  deriving DecidableEq, Repr

/-- The address whose first byte is `b` and whose other bytes are zero. -/
def Address.ofHead (b : UInt8) : Address := ⟨b :: List.replicate 31 0, rfl⟩

/-- The bits of a byte, most significant first. -/
def byteBits (b : UInt8) : List Bool :=
  (List.range 8).map fun j => b.toNat.testBit (7 - j)

/-- The 256 bits of an address, most significant first. -/
def Address.bits (a : Address) : List Bool :=
  a.bytes.flatMap byteBits

@[simp] theorem length_byteBits (b : UInt8) : (byteBits b).length = 8 := by
  simp [byteBits]

theorem length_flatMap_byteBits (l : List UInt8) : (l.flatMap byteBits).length = 8 * l.length := by
  induction l with
  | nil => rfl
  | cons b l ih => simp only [List.flatMap_cons, List.length_append, length_byteBits, ih,
      List.length_cons]; omega

@[simp] theorem Address.length_bits (a : Address) : a.bits.length = 256 := by
  rw [Address.bits, length_flatMap_byteBits, a.length_bytes]

/-- The number of leading equal bits of two bit strings. -/
def commonPrefix : List Bool → List Bool → Nat
  | x :: xs, y :: ys => if x = y then commonPrefix xs ys + 1 else 0
  | _, _ => 0

/-- A bit string read as an unsigned integer, most significant bit first. -/
def ofBits : List Bool → Nat
  | [] => 0
  | b :: bs => b.toNat * 2 ^ bs.length + ofBits bs

/-- `distance(a, b)`: the XOR of the two addresses as a 256-bit unsigned integer. -/
def distance (a b : Address) : Nat :=
  ofBits (List.zipWith xor a.bits b.bits)

/-- Modelled from the spec: `infinity.ExtendedProximity`, the uncapped count of
leading equal bits. -/
def extendedProximity (a b : Address) : Nat :=
  commonPrefix a.bits b.bits

/-- Modelled from the spec: `infinity.Proximity`, the count of leading equal bits
capped at `MaxPO`. -/
def proximity (maxPO : Nat) (a b : Address) : Nat :=
  min (commonPrefix a.bits b.bits) maxPO

/-- Modelled from the code's use in `closestPeer`: `infinity.DistanceCmp(t, x, y)` is
`-1` when `y` is strictly closer to `t`, `1` when `x` is, `0` when they tie. -/
def distanceCmp (t x y : Address) : Int :=
  if distance t y < distance t x then -1 else if distance t x < distance t y then 1 else 0

theorem commonPrefix_comm : ∀ (xs ys : List Bool), commonPrefix xs ys = commonPrefix ys xs
  | x :: xs, y :: ys => by
    simp only [commonPrefix, commonPrefix_comm xs ys, eq_comm]
  | [], [] | [], _ :: _ | _ :: _, [] => rfl

/-- Two strings of one length that agree on their first `i` bits and differ at bit `i`
share exactly `i` leading bits. -/
theorem commonPrefix_eq_of_getD : ∀ (xs ys : List Bool) (i : Nat), i < xs.length →
    xs.length = ys.length → (∀ m < i, xs.getD m false = ys.getD m false) →
    xs.getD i false ≠ ys.getD i false → commonPrefix xs ys = i
  | [], _, _, hi, _, _, _ => by simp at hi
  | _ :: _, [], _, _, hlen, _, _ => by simp at hlen
  | x :: xs, y :: ys, 0, _, _, _, hne => by rw [commonPrefix, if_neg (by simpa using hne)]
  | x :: xs, y :: ys, i + 1, hi, hlen, heq, hne => by
    have hxy : x = y := by simpa using heq 0 (by omega)
    rw [commonPrefix, if_pos hxy, commonPrefix_eq_of_getD xs ys i (by simpa using hi)
      (by simpa using hlen) (fun m hm => by simpa using heq (m + 1) (by omega)) (by simpa using hne)]

theorem ofBits_lt : ∀ (bs : List Bool), ofBits bs < 2 ^ bs.length
  | [] => by simp [ofBits]
  | b :: bs => by
    have := ofBits_lt bs
    cases b <;> simp only [ofBits, Bool.toNat_false, Bool.toNat_true, List.length_cons,
      Nat.pow_succ] <;> omega

/-- Over strings of one length: a string whose XOR with `t` is no larger than
another's agrees with `t` on at least as many leading bits. -/
theorem commonPrefix_le_of_ofBits_le :
    ∀ (t a b : List Bool), a.length = t.length → b.length = t.length →
      ofBits (List.zipWith xor t a) ≤ ofBits (List.zipWith xor t b) →
      commonPrefix t b ≤ commonPrefix t a
  | [], _, _, _, _, _ => by simp [commonPrefix]
  | _ :: _, [], _, ha, _, _ => by simp at ha
  | _ :: _, _ :: _, [], _, hb, _ => by simp at hb
  | x :: t, y :: a, z :: b, ha, hb, h => by
    simp only [List.length_cons, Nat.add_right_cancel_iff] at ha hb
    have ih := commonPrefix_le_of_ofBits_le t a b ha hb
    have la : (List.zipWith xor t a).length = t.length := by simp [ha]
    have lb : (List.zipWith xor t b).length = t.length := by simp [hb]
    have ra := ofBits_lt (List.zipWith xor t a)
    have rb := ofBits_lt (List.zipWith xor t b)
    simp only [List.zipWith_cons_cons, ofBits, la, lb] at h ra rb
    cases x <;> cases y <;> cases z <;> simp only [commonPrefix, Bool.xor_false, Bool.xor_true,
      Bool.not_false, Bool.not_true, Bool.toNat_true, Bool.toNat_false, if_true, if_false,
      reduceCtorEq, Nat.zero_le, Nat.add_le_add_iff_right] at h ⊢ <;> omega

/-- A peer at most as far from `t` as another shares at least as long a prefix with `t`. -/
theorem commonPrefix_le_of_distance_le {t a b : Address} (h : distance t a ≤ distance t b) :
    extendedProximity b t ≤ extendedProximity a t := by
  simp only [extendedProximity, commonPrefix_comm _ t.bits]
  exact commonPrefix_le_of_ofBits_le _ _ _ (by simp) (by simp) h

theorem testBit_toNat_eq_false (x : UInt8) {i : Nat} (hi : 8 ≤ i) : x.toNat.testBit i = false :=
  Nat.testBit_lt_two_pow (lt_of_lt_of_le x.toBitVec.isLt (Nat.pow_le_pow_right (by omega) hi))

theorem byteBits_inj {x y : UInt8} (h : byteBits x = byteBits y) : x = y := by
  refine UInt8.toNat.inj (Nat.eq_of_testBit_eq fun i => ?_)
  by_cases hi : i < 8
  · have := congrArg (·[7 - i]?) h
    simpa [byteBits, List.getElem?_range (show 7 - i < 8 by omega), show 7 - (7 - i) = i by omega]
      using this
  · rw [testBit_toNat_eq_false x (by omega), testBit_toNat_eq_false y (by omega)]

theorem flatMap_byteBits_inj : ∀ {xs ys : List UInt8}, xs.length = ys.length →
    xs.flatMap byteBits = ys.flatMap byteBits → xs = ys
  | [], [], _, _ => rfl
  | x :: xs, y :: ys, hl, h => by
    rw [List.flatMap_cons, List.flatMap_cons] at h
    obtain ⟨h₁, h₂⟩ := List.append_inj h (by simp)
    rw [byteBits_inj h₁, flatMap_byteBits_inj (by simpa using hl) h₂]
  | [], _ :: _, hl, _ | _ :: _, [], hl, _ => by simp at hl

theorem ofBits_inj : ∀ {xs ys : List Bool}, xs.length = ys.length → ofBits xs = ofBits ys → xs = ys
  | [], [], _, _ => rfl
  | x :: xs, y :: ys, hl, h => by
    have hl' : xs.length = ys.length := by simpa using hl
    have hx := ofBits_lt xs
    have hy := ofBits_lt ys
    rw [ofBits, ofBits, hl'] at h
    rw [hl'] at hx
    have hxy : x = y := by
      cases x <;> cases y <;> simp only [Bool.toNat_false, Bool.toNat_true] at h ⊢ <;> omega
    subst hxy
    rw [ofBits_inj hl' (by omega)]
  | [], _ :: _, hl, _ | _ :: _, [], hl, _ => by simp at hl

theorem zipWith_xor_inj : ∀ {t xs ys : List Bool}, xs.length = t.length → ys.length = t.length →
    List.zipWith xor t xs = List.zipWith xor t ys → xs = ys
  | [], [], [], _, _, _ => rfl
  | a :: t, x :: xs, y :: ys, hx, hy, h => by
    rw [List.zipWith_cons_cons, List.zipWith_cons_cons, List.cons.injEq] at h
    rw [Bool.xor_left_inj.1 h.1, zipWith_xor_inj (by simpa using hx) (by simpa using hy) h.2]
  | [], _ :: _, _, hx, _, _ | [], _, _ :: _, _, hy, _ => by simp at *
  | _ :: _, [], _, hx, _, _ | _ :: _, _, [], _, hy, _ => by simp at *

/-- The XOR distance from `t` tells addresses apart. -/
theorem distance_inj {t a b : Address} (h : distance t a = distance t b) : a = b := by
  have hbits : a.bits = b.bits := zipWith_xor_inj (by simp) (by simp) (ofBits_inj (by simp) h)
  obtain ⟨ab, ha⟩ := a
  obtain ⟨bb, hb⟩ := b
  obtain rfl := flatMap_byteBits_inj (ha.trans hb.symm) hbits
  rfl

theorem proximity_le (maxPO : Nat) (a b : Address) : proximity maxPO a b ≤ maxPO :=
  Nat.min_le_right _ _

theorem distanceCmp_eq_neg_one {t x y : Address} :
    distanceCmp t x y = -1 ↔ distance t y < distance t x := by
  unfold distanceCmp
  split
  · simp [*]
  · split <;> simp [*]

end Voyager.Infinity
