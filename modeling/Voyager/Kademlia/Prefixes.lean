import Voyager.Infinity.Address
import Mathlib.Data.Nat.Bitwise
import Mathlib.Data.List.Nodup

/-!
# Pseudo-addresses for balanced dialing

`generateCommonBinPrefixes`, `clearBit`, `setBit` and `hasBit`
(`pkg/kademlia/kademlia_test.go:1244-1323`). Pseudo-address `j` of bin `i` is the
base address with bit `i` flipped, the next `bitSuffixLength` bits set to `j`
and the rest cleared; bits are numbered from the most significant bit of byte `0`,
and the code reaches bit `l` as bit `l % 8` of `bits.Reverse8(bytes[l / 8])`.
Go's `uint8(1) << pos` is `0` once `pos` reaches 8, which `shiftOne` keeps. An index
past the 32 bytes panics in Go; here `List.set` leaves the bytes alone.

Every bit the code touches is read back through `bitAt`, which `Address.getD_bits` ties to
`Address.bits`. One edit writes one bit (`bitAt_editBit`); each of the three loops of the body
writes a run of bits (`bitAt_foldl_range`), and together they give the layout of a
pseudo-address (`bitAt_pseudoBytes`). The suffix carries only the low 8 bits of `j`:
`bitSufixes[j]` is `uint8(j)` and `hasBit` sees no position past 7. Up to 8 suffix bits the
layout is the intended one (`generateCommonBinPrefixes_layout`); from 9 on, pseudo-addresses
`0` and `256` of a bin coincide (`generateCommonBinPrefixes_collide`).
-/

namespace Voyager.Kademlia
open Voyager.Infinity

/-- Go's `uint8(1) << pos`. -/
def shiftOne (pos : UInt8) : UInt8 := if pos < 8 then 1 <<< pos else 0

/-- `clearBit` (`kademlia_test.go:1308`). -/
def clearBit (n pos : UInt8) : UInt8 := n &&& ~~~(shiftOne pos)

/-- `setBit` (`kademlia_test.go:1315`). -/
def setBit (n pos : UInt8) : UInt8 := n ||| shiftOne pos

/-- `hasBit` (`kademlia_test.go:1320`). -/
def hasBit (n pos : UInt8) : Bool := decide (0 < n &&& shiftOne pos)

/-- `bits.Reverse8`: the bits of a byte in reverse order. -/
def reverse8 (b : UInt8) : UInt8 := UInt8.ofNat (ofBits (byteBits b).reverse)

/-- `bytes[l/8] = bits.Reverse8(op(bits.Reverse8(bytes[l/8]), uint8(l%8)))`. -/
def editBit (op : UInt8 → UInt8 → UInt8) (bytes : List UInt8) (l : Nat) : List UInt8 :=
  bytes.set (l / 8) (reverse8 (op (reverse8 (bytes.getD (l / 8) 0)) (UInt8.ofNat (l % 8))))

theorem length_editBit (op : UInt8 → UInt8 → UInt8) (bytes : List UInt8) (l : Nat) :
    (editBit op bytes l).length = bytes.length := by
  simp [editBit]

/-- The loop body of `generateCommonBinPrefixes` for bin `i` and suffix `j`
(`kademlia_test.go:1274-1302`), on a copy of the base address's bytes. -/
def pseudoBytes (base : List UInt8) (bitSuffixLength : Nat) (i j : Nat) : List UInt8 :=
  let flipped :=
    if hasBit (reverse8 (base.getD (i / 8) 0)) (UInt8.ofNat (i % 8)) then editBit clearBit base i
    else editBit setBit base i
  let suffixed := (List.range bitSuffixLength).foldl (fun bytes t =>
    if hasBit (UInt8.ofNat j) (UInt8.ofNat (bitSuffixLength - 1 - t))
    then editBit setBit bytes (i + 1 + t) else editBit clearBit bytes (i + 1 + t)) flipped
  (List.range (suffixed.length * 8 - (i + bitSuffixLength + 1))).foldl
    (fun bytes t => editBit clearBit bytes (i + bitSuffixLength + 1 + t)) suffixed

theorem length_foldl_of_length {step : List UInt8 → Nat → List UInt8}
    (hlen : ∀ bs t, (step bs t).length = bs.length) :
    ∀ (ts : List Nat) (bytes : List UInt8), (ts.foldl step bytes).length = bytes.length
  | [], _ => rfl
  | t :: ts, bytes => by rw [List.foldl_cons, length_foldl_of_length hlen ts, hlen]

theorem length_pseudoBytes (base : List UInt8) (b i j : Nat) :
    (pseudoBytes base b i j).length = base.length := by
  simp only [pseudoBytes]
  rw [length_foldl_of_length (fun _ _ => length_editBit _ _ _),
    length_foldl_of_length (fun _ _ => by split <;> exact length_editBit _ _ _)]
  split <;> exact length_editBit _ _ _

/-- Pseudo-address `j` of bin `i`. -/
def pseudoAddress (base : Address) (bitSuffixLength : Nat) (i j : Nat) : Address :=
  ⟨pseudoBytes base.bytes bitSuffixLength i j, by rw [length_pseudoBytes, base.length_bytes]⟩

/-- `generateCommonBinPrefixes` (`kademlia_test.go:1244`): for each of the `maxBins`
bins, the `2 ^ bitSuffixLength` pseudo-addresses (`math.Pow(2, bitSuffixLength)`). -/
def generateCommonBinPrefixes (base : Address) (bitSuffixLength maxBins : Nat) : List (List Address) :=
  (List.range maxBins).map fun i =>
    (List.range (2 ^ bitSuffixLength)).map fun j => pseudoAddress base bitSuffixLength i j


/-! ## Bits of a byte -/

theorem toNat_shiftOne (p : Nat) (hp : p < 256) :
    (shiftOne (UInt8.ofNat p)).toNat = if p < 8 then 2 ^ p else 0 := by
  by_cases h : p < 8
  · have low : ∀ p < 8, (shiftOne (UInt8.ofNat p)).toNat = 2 ^ p := by decide
    rw [if_pos h, low p h]
  · rw [if_neg h, shiftOne, if_neg]
    · rfl
    · show ¬ (UInt8.ofNat p).toNat < 8
      rw [UInt8.toNat_ofNat_of_lt hp]; exact h

theorem testBit_setBit (x : UInt8) (p q : Nat) (hp : p < 8) :
    (setBit x (UInt8.ofNat p)).toNat.testBit q = (decide (q = p) || x.toNat.testBit q) := by
  show (x.toBitVec ||| (shiftOne (UInt8.ofNat p)).toBitVec).toNat.testBit q = _
  rw [BitVec.toNat_or, Nat.testBit_or]
  show (x.toNat.testBit q || (shiftOne (UInt8.ofNat p)).toNat.testBit q) = _
  rw [toNat_shiftOne p (by omega), if_pos hp, Nat.testBit_two_pow]
  cases x.toNat.testBit q <;> simp [eq_comm]

theorem testBit_clearBit (x : UInt8) (p q : Nat) (hp : p < 8) :
    (clearBit x (UInt8.ofNat p)).toNat.testBit q = (!decide (q = p) && x.toNat.testBit q) := by
  rw [clearBit, UInt8.and_toNat, Nat.testBit_and]
  show (x.toNat.testBit q && (~~~(shiftOne (UInt8.ofNat p)).toBitVec).getLsbD q) = _
  rw [BitVec.getLsbD_not]
  show (x.toNat.testBit q && (decide (q < 8) && !(shiftOne (UInt8.ofNat p)).toNat.testBit q)) = _
  rw [toNat_shiftOne p (by omega), if_pos hp, Nat.testBit_two_pow]
  by_cases hq : q < 8
  · simp [hq, eq_comm, Bool.and_comm]
  · simp [testBit_toNat_eq_false x (not_lt.1 hq)]

theorem hasBit_eq (x : UInt8) (p : Nat) (hp : p < 256) :
    hasBit x (UInt8.ofNat p) = (decide (p < 8) && x.toNat.testBit p) := by
  simp only [hasBit, UInt8.lt_def, BitVec.lt_def]
  show decide (0 < (x.toNat &&& (shiftOne (UInt8.ofNat p)).toNat)) = _
  rw [toNat_shiftOne p hp]
  split
  · rename_i h; rw [Nat.and_two_pow]; cases x.toNat.testBit p <;> simp [h, Nat.two_pow_pos]
  · simp [*]

theorem testBit_ofBits : ∀ (bs : List Bool) (k : Nat),
    (ofBits bs).testBit k = (decide (k < bs.length) && bs.getD (bs.length - 1 - k) false)
  | [], k => by simp [ofBits]
  | b :: bs, k => by
    rw [ofBits, Nat.mul_comm, Nat.testBit_mul_pow_two_add _ (ofBits_lt bs), testBit_ofBits bs,
      List.length_cons]
    by_cases hk : k < bs.length
    · -- a bit of the tail
      rw [if_pos hk, decide_eq_true hk, decide_eq_true (by omega : k < bs.length + 1),
        show bs.length + 1 - 1 - k = bs.length - 1 - k + 1 by omega, List.getD_cons_succ]
    · rw [if_neg hk]
      obtain rfl | hk' : k = bs.length ∨ bs.length < k := by omega
      · -- the head bit
        rw [Nat.sub_self, decide_eq_true (Nat.lt_succ_self _), Nat.add_sub_cancel,
          Nat.sub_self, List.getD_cons_zero]
        cases b <;> rfl
      · -- past the end
        rw [decide_eq_false (by omega : ¬k < bs.length + 1), Bool.false_and]
        exact Nat.testBit_lt_two_pow ((Bool.toNat_le b).trans_lt (Nat.one_lt_two_pow (by omega)))

theorem testBit_reverse8 (x : UInt8) (q : Nat) :
    (reverse8 x).toNat.testBit q = (decide (q < 8) && x.toNat.testBit (7 - q)) := by
  have hlt : ofBits (byteBits x).reverse < 2 ^ 8 := by
    simpa using ofBits_lt (byteBits x).reverse
  rw [reverse8, UInt8.toNat_ofNat_of_lt hlt, testBit_ofBits]
  by_cases hq : q < 8
  · simp only [List.length_reverse, length_byteBits, List.getD_eq_getElem?_getD]
    rw [List.getElem?_reverse (by simp; omega)]
    simp [hq, byteBits, show 7 - (7 - q) = q by omega]
  · simp [hq]

/-! ## Bits of a byte string -/

/-- Bit `l` of a byte string as the code reaches it, bit `l % 8` of
`bits.Reverse8(bytes[l / 8])`, which is bit `7 - l % 8` of the byte; `false` past the end. -/
def bitAt (bytes : List UInt8) (l : Nat) : Bool := (bytes.getD (l / 8) 0).toNat.testBit (7 - l % 8)

theorem bitAt_of_length_le {bytes : List UInt8} {m : Nat} (h : 8 * bytes.length ≤ m) :
    bitAt bytes m = false := by
  rw [bitAt, List.getD_eq_default _ _ (by omega)]; simp

theorem getD_flatMap_byteBits : ∀ (bytes : List UInt8) (m : Nat),
    (bytes.flatMap byteBits).getD m false = bitAt bytes m
  | [], m => by simp [bitAt]
  | x :: bytes, m => by
    rw [List.flatMap_cons, List.getD_eq_getElem?_getD]
    by_cases hm : m < 8
    · rw [List.getElem?_append_left (by simpa using hm)]
      simp [bitAt, byteBits, hm, Nat.div_eq_of_lt hm, Nat.mod_eq_of_lt hm]
    · obtain ⟨m, rfl⟩ : ∃ m', m = m' + 8 := ⟨m - 8, by omega⟩
      rw [List.getElem?_append_right (by simp), length_byteBits, Nat.add_sub_cancel,
        ← List.getD_eq_getElem?_getD, getD_flatMap_byteBits bytes m]
      simp [bitAt, Nat.add_div_right, Nat.add_mod_right]

theorem Address.getD_bits (a : Address) (m : Nat) : a.bits.getD m false = bitAt a.bytes m :=
  getD_flatMap_byteBits a.bytes m

theorem bitAt_editBit {op : UInt8 → UInt8 → UInt8} {bytes : List UInt8} {l : Nat} {v : Bool}
    (hop : ∀ x q, (op x (UInt8.ofNat (l % 8))).toNat.testBit q =
      if q = l % 8 then v else x.toNat.testBit q)
    (hl : l < 8 * bytes.length) (m : Nat) :
    bitAt (editBit op bytes l) m = if m = l then v else bitAt bytes m := by
  simp only [bitAt, editBit, List.getD_eq_getElem?_getD, List.getElem?_set]
  by_cases hm : l / 8 = m / 8
  · have hml : m = l ↔ m % 8 = l % 8 := by omega
    rw [if_pos hm, if_pos (by omega), Option.getD_some, testBit_reverse8, hop, testBit_reverse8,
      show 7 - (7 - m % 8) = m % 8 by omega, hm]
    simp only [hml, Nat.mod_lt m (by omega : 8 > 0), show 7 - m % 8 < 8 by omega, decide_True,
      Bool.true_and]
  · rw [if_neg hm, if_neg (by omega)]

theorem bitAt_editBit_setBit {bytes : List UInt8} {l : Nat} (hl : l < 8 * bytes.length) (m : Nat) :
    bitAt (editBit setBit bytes l) m = if m = l then true else bitAt bytes m :=
  bitAt_editBit (fun x q => by
    rw [testBit_setBit _ _ _ (Nat.mod_lt l (by omega))]; split <;> simp [*]) hl m

theorem bitAt_editBit_clearBit {bytes : List UInt8} {l : Nat} (hl : l < 8 * bytes.length) (m : Nat) :
    bitAt (editBit clearBit bytes l) m = if m = l then false else bitAt bytes m :=
  bitAt_editBit (fun x q => by
    rw [testBit_clearBit _ _ _ (Nat.mod_lt l (by omega))]; split <;> simp [*]) hl m

/-- A loop whose pass `t` writes `v t` into bit `c + t` and leaves every other bit. -/
theorem bitAt_foldl_range {step : List UInt8 → Nat → List UInt8} {c : Nat} {v : Nat → Bool}
    (hlen : ∀ bs t, (step bs t).length = bs.length)
    (hbit : ∀ bs t m, c + t < 8 * bs.length →
      bitAt (step bs t) m = if m = c + t then v t else bitAt bs m) :
    ∀ (n : Nat) (bytes : List UInt8), c + n ≤ 8 * bytes.length → ∀ m,
      bitAt ((List.range n).foldl step bytes) m =
        if c ≤ m ∧ m < c + n then v (m - c) else bitAt bytes m
  | 0, bytes, _, m => by rw [if_neg (by omega)]; rfl
  | n + 1, bytes, h, m => by
    rw [List.range_succ, List.foldl_append, List.foldl_cons, List.foldl_nil,
      hbit _ _ _ (by rw [length_foldl_of_length hlen]; omega),
      bitAt_foldl_range hlen hbit n bytes (by omega) m]
    by_cases hm : m = c + n
    · subst hm; simp
    · rw [if_neg hm]; exact if_congr (by omega) rfl rfl

theorem bitAt_clearLoop (c n : Nat) {bytes : List UInt8} (h : c + n ≤ 8 * bytes.length) (m : Nat) :
    bitAt ((List.range n).foldl (fun bytes t => editBit clearBit bytes (c + t)) bytes) m =
      if c ≤ m ∧ m < c + n then false else bitAt bytes m :=
  bitAt_foldl_range (fun _ _ => length_editBit _ _ _) (fun _ _ m h => bitAt_editBit_clearBit h m)
    n bytes h m

theorem hasBit_ofNat (j p : Nat) (hp : p < 256) :
    hasBit (UInt8.ofNat j) (UInt8.ofNat p) = (decide (p < 8) && j.testBit p) := by
  rw [hasBit_eq _ _ hp, show (UInt8.ofNat j).toNat = j % 2 ^ 8 from BitVec.toNat_ofNat _ _,
    Nat.testBit_mod_two_pow]
  cases decide (p < 8) <;> rfl

theorem bitAt_suffixLoop (j b c n : Nat) {bytes : List UInt8} (h : c + n ≤ 8 * bytes.length)
    (m : Nat) :
    bitAt ((List.range n).foldl (fun bytes t =>
      if hasBit (UInt8.ofNat j) (UInt8.ofNat (b - 1 - t)) then editBit setBit bytes (c + t)
      else editBit clearBit bytes (c + t)) bytes) m =
      if c ≤ m ∧ m < c + n then hasBit (UInt8.ofNat j) (UInt8.ofNat (b - 1 - (m - c)))
      else bitAt bytes m :=
  @bitAt_foldl_range _ c (fun t => hasBit (UInt8.ofNat j) (UInt8.ofNat (b - 1 - t)))
    (fun _ _ => by split <;> exact length_editBit _ _ _)
    (fun _ _ _ h => by split <;> simp [bitAt_editBit_setBit h, bitAt_editBit_clearBit h, *])
    n bytes h m

/-- The flip of bit `i` that opens the loop body. -/
theorem bitAt_flip (base : List UInt8) {i : Nat} (hi : i < 8 * base.length) (m : Nat) :
    bitAt (if hasBit (reverse8 (base.getD (i / 8) 0)) (UInt8.ofNat (i % 8)) then
      editBit clearBit base i else editBit setBit base i) m =
      if m = i then !bitAt base i else bitAt base m := by
  have hbit : hasBit (reverse8 (base.getD (i / 8) 0)) (UInt8.ofNat (i % 8)) = bitAt base i := by
    rw [hasBit_eq _ _ (by omega), testBit_reverse8]
    simp [bitAt, Nat.mod_lt, show 7 - i % 8 < 8 by omega]
  split <;> rename_i h <;> rw [hbit] at h <;>
    simp [bitAt_editBit_setBit hi, bitAt_editBit_clearBit hi, h]

theorem bitAt_pseudoBytes {base : List UInt8} (hbase : base.length = 32) {b i : Nat}
    (hfit : i + b < 256) (j m : Nat) :
    bitAt (pseudoBytes base b i j) m =
      if m < i then bitAt base m
      else if m = i then !bitAt base i
      else if m ≤ i + b then (decide (i + b - m < 8) && j.testBit (i + b - m))
      else false := by
  have hstep : ∀ (bs : List UInt8) t, (if hasBit (UInt8.ofNat j) (UInt8.ofNat (b - 1 - t)) then
      editBit setBit bs (i + 1 + t) else editBit clearBit bs (i + 1 + t)).length = bs.length :=
    fun _ _ => by split <;> exact length_editBit _ _ _
  have hflip : (if hasBit (reverse8 (base.getD (i / 8) 0)) (UInt8.ofNat (i % 8)) then
      editBit clearBit base i else editBit setBit base i).length = 32 := by
    split <;> rw [length_editBit, hbase]
  simp only [pseudoBytes]
  rw [bitAt_clearLoop _ _ (by rw [length_foldl_of_length hstep, hflip]; omega) m,
    bitAt_suffixLoop _ _ _ _ (by rw [hflip]; omega) m, bitAt_flip _ (by omega) m,
    length_foldl_of_length hstep, hflip]
  by_cases h1 : m < i
  · rw [if_neg (by omega), if_neg (by omega), if_neg (by omega), if_pos h1]
  rw [if_neg h1]
  by_cases h2 : m = i
  · rw [if_neg (by omega), if_neg (by omega), if_pos h2, if_pos h2]
  rw [if_neg h2, if_neg h2]
  by_cases h3 : m ≤ i + b
  · rw [if_neg (by omega), if_pos (by omega), if_pos h3, hasBit_ofNat _ _ (by omega),
      show b - 1 - (m - (i + 1)) = i + b - m by omega]
  rw [if_neg h3]
  by_cases h4 : m < 256
  · rw [if_pos (by omega)]
  · rw [if_neg (by omega), if_neg (by omega), bitAt_of_length_le (by omega)]

/-- The bits `i + b - p` of a pseudo-address, for `p < b`, spell `j` when `b ≤ 8`. -/
theorem bitAt_pseudoBytes_suffix {base : List UInt8} (hbase : base.length = 32) {b i : Nat}
    (hb : b ≤ 8) (hfit : i + b < 256) (j : Nat) {p : Nat} (hp : p < b) :
    bitAt (pseudoBytes base b i j) (i + b - p) = j.testBit p := by
  rw [bitAt_pseudoBytes hbase hfit, if_neg (by omega), if_neg (by omega), if_pos (by omega),
    show i + b - (i + b - p) = p by omega, decide_eq_true (by omega), Bool.true_and]

/-- With at most 8 suffix bits, the pseudo-addresses of one bin tell their indices apart. -/
theorem pseudoAddress_inj (base : Address) {b i : Nat} (hb : b ≤ 8) (hfit : i + b < 256)
    {j j' : Nat} (hj : j < 2 ^ b) (hj' : j' < 2 ^ b)
    (h : pseudoAddress base b i j = pseudoAddress base b i j') : j = j' := by
  have hbytes := congrArg Address.bytes h
  refine Nat.eq_of_testBit_eq fun p => ?_
  by_cases hp : p < b
  · rw [← bitAt_pseudoBytes_suffix base.length_bytes hb hfit j hp,
      ← bitAt_pseudoBytes_suffix base.length_bytes hb hfit j' hp]
    exact congrArg (bitAt · (i + b - p)) hbytes
  · have hpow : 2 ^ b ≤ 2 ^ p := Nat.pow_le_pow_right (by omega) (by omega)
    rw [Nat.testBit_lt_two_pow (by omega), Nat.testBit_lt_two_pow (by omega)]

theorem getElem?_generateCommonBinPrefixes (base : Address) (b n : Nat) {i : Nat} (hi : i < n) :
    (generateCommonBinPrefixes base b n)[i]? =
      some ((List.range (2 ^ b)).map (pseudoAddress base b i)) := by
  rw [generateCommonBinPrefixes, List.getElem?_map, List.getElem?_range hi]; rfl

/-- With at most 8 suffix bits, `generateCommonBinPrefixes` lays out pseudo-address `j` of
bin `i` as intended: the base's bits before `i`, bit `i` flipped, then the `b` bits of `j`
(most significant first), then zeros; it is at proximity `i` from the base, and the bin's
`2 ^ b` pseudo-addresses are pairwise distinct. -/
theorem generateCommonBinPrefixes_layout (base : Address) {b maxPO i j : Nat} (hb : b ≤ 8)
    (hfit : maxPO + 1 + b ≤ 256) (hi : i < maxPO + 1) (hj : j < 2 ^ b) :
    ∃ bin P, (generateCommonBinPrefixes base b (maxPO + 1))[i]? = some bin ∧ bin[j]? = some P ∧
      (∀ m, P.bits.getD m false =
        if m < i then base.bits.getD m false
        else if m = i then !base.bits.getD i false
        else if m ≤ i + b then j.testBit (i + b - m)
        else false) ∧
      proximity maxPO base P = i ∧ bin.Nodup := by
  have hfit' : i + b < 256 := by omega
  refine ⟨_, _, getElem?_generateCommonBinPrefixes base b _ hi,
    by rw [List.getElem?_map, List.getElem?_range hj]; rfl, fun m => ?_, ?_, ?_⟩
  · rw [Address.getD_bits, Address.getD_bits, Address.getD_bits]
    refine (bitAt_pseudoBytes base.length_bytes hfit' j m).trans <|
      if_ctx_congr Iff.rfl (fun _ => rfl) fun _ => if_ctx_congr Iff.rfl (fun _ => rfl) fun _ =>
        if_ctx_congr Iff.rfl (fun _ => by rw [decide_eq_true (by omega), Bool.true_and]) fun _ => rfl
  · have hbits := bitAt_pseudoBytes base.length_bytes hfit' j
    rw [proximity, commonPrefix_eq_of_getD _ _ i (by simp; omega) (by simp)
      (fun m hm => by simp only [Address.getD_bits]; rw [pseudoAddress, hbits, if_pos hm])
      (by simp only [Address.getD_bits]; rw [pseudoAddress, hbits, if_neg (by omega), if_pos rfl]; simp)]
    omega
  · exact (List.nodup_range _).map_on fun x hx y hy => pseudoAddress_inj base hb hfit'
      (List.mem_range.1 hx) (List.mem_range.1 hy)

theorem generateCommonBinPrefixes_layout_two :
    2 ≤ 8 ∧ 31 + 1 + 2 ≤ 256 ∧ 3 < 31 + 1 ∧ 2 < 2 ^ 2 ∧
    ∃ bin P, (generateCommonBinPrefixes (Address.ofHead 0) 2 (31 + 1))[3]? = some bin ∧
      bin[2]? = some P ∧
      (∀ m, P.bits.getD m false =
        if m < 3 then (Address.ofHead 0).bits.getD m false
        else if m = 3 then !(Address.ofHead 0).bits.getD 3 false
        else if m ≤ 3 + 2 then Nat.testBit 2 (3 + 2 - m)
        else false) ∧
      proximity 31 (Address.ofHead 0) P = 3 ∧ bin.Nodup :=
  ⟨by decide, by decide, by decide, by decide,
    generateCommonBinPrefixes_layout _ (by decide) (by decide) (by decide) (by decide)⟩

/-- **Pseudo-addresses collide past 8 suffix bits.** `bitSufixes[j] = uint8(j)` keeps only
the low 8 bits of `j`, and `hasBit`'s `uint8(1) << pos` is `0` from `pos = 8` on, so with
`bitSuffixLength ≥ 9` pseudo-addresses `0` and `256` of every bin coincide and the bin's
`2 ^ bitSuffixLength` entries are not pairwise distinct. -/
theorem generateCommonBinPrefixes_collide (base : Address) {b maxPO i : Nat} (hb : 9 ≤ b)
    (hi : i < maxPO + 1) :
    ∃ bin, (generateCommonBinPrefixes base b (maxPO + 1))[i]? = some bin ∧ 256 < bin.length ∧
      bin[0]? = bin[256]? ∧ ¬ bin.Nodup := by
  have h256 : 256 < 2 ^ b := lt_of_lt_of_le (by decide) (Nat.pow_le_pow_right (by omega) hb)
  have hsame : pseudoAddress base b i 256 = pseudoAddress base b i 0 := rfl
  refine ⟨_, getElem?_generateCommonBinPrefixes base b _ hi, by simpa using h256, ?_, fun hnd => ?_⟩
  · rw [List.getElem?_map, List.getElem?_map, List.getElem?_range (by omega),
      List.getElem?_range h256]
    exact congrArg some hsame.symm
  · exact (by decide : (256 : Nat) ≠ 0) (List.inj_on_of_nodup_map hnd (List.mem_range.2 h256)
      (List.mem_range.2 (by omega)) hsame)

theorem generateCommonBinPrefixes_collide_nine :
    9 ≤ 9 ∧ 0 < 0 + 1 ∧
    ∃ bin, (generateCommonBinPrefixes (Address.ofHead 0) 9 (0 + 1))[0]? = some bin ∧
      256 < bin.length ∧ bin[0]? = bin[256]? ∧ ¬ bin.Nodup :=
  ⟨by decide, by decide, generateCommonBinPrefixes_collide _ (by decide) (by decide)⟩

end Voyager.Kademlia
