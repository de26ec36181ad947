import Mathlib.Algebra.Order.Floor
import Mathlib.Data.Rat.Floor
import Mathlib.Data.Nat.Log
import Voyager.File.ChunkPipe

/-!
# The chunk count of an upload

`calculateNumberOfChunks` (`unnamed/part_003:512-531`) estimates how many chunks an
upload of `contentLength` bytes makes. It computes in float64: `⌈n / 4096⌉` data chunks,
then, while `intermediate = dataChunks / B ^ k` exceeds 1, adds `⌈intermediate⌉`, and
last adds 1 for the root. A float64 operation is modelled as its exact rational result
under a rounding that leaves every binary64 value alone (`Rounding`), which holds for
every IEEE 754 rounding mode. Below `2 ^ 53` bytes every value the loop meets is a
binary64 value, since every divisor is a power of two, so the loop computes exactly
(`chunksLoop_eq`). Its count is then the number of chunks of the balanced hash tree over
`⌈n / 4096⌉` leaves (`calculateNumberOfChunks_eq`), stated as the spec words it
(`balancedTreeChunks`).
-/

namespace Voyager.Api

/-- Modelled from IEEE 754: the finite binary64 values, `m * 2 ^ e` with a 53-bit
significand and an exponent in range. -/
def Binary64 (x : ℚ) : Prop :=
  ∃ m e : Int, x = m * 2 ^ e ∧ |m| < 2 ^ 53 ∧ -1074 ≤ e ∧ e ≤ 971

/-- Modelled from IEEE 754: a float64 operation gives its exact result rounded by `rnd`,
and rounding leaves every binary64 value alone, as every rounding mode does. -/
structure Rounding where
  rnd : ℚ → ℚ
  rnd_binary64 : ∀ x, Binary64 x → rnd x = x

/-! ## Ceilings of natural quotients -/

theorem ceilDiv_le_iff {a m t : Nat} (hm : 0 < m) : (a + m - 1) / m ≤ t ↔ a ≤ t * m := by
  rw [Nat.div_le_iff_le_mul_add_pred hm, Nat.mul_comm m t]; omega

theorem ceilDiv_ceilDiv {a m b : Nat} (hm : 0 < m) (hb : 0 < b) :
    ((a + m - 1) / m + b - 1) / b = (a + m * b - 1) / (m * b) :=
  eq_of_forall_ge_iff fun t => by
    rw [ceilDiv_le_iff hb, ceilDiv_le_iff hm, ceilDiv_le_iff (Nat.mul_pos hm hb), Nat.mul_assoc,
      Nat.mul_comm b m]

theorem one_lt_ceilDiv {a m : Nat} (hm : 0 < m) : 1 < (a + m - 1) / m ↔ m < a := by
  rw [← not_le, ceilDiv_le_iff hm, Nat.one_mul, not_le]

theorem ceil_natCast_div (a m : Nat) (hm : 0 < m) : ⌈(a : ℚ) / m⌉ = ((a + m - 1) / m : Nat) := by
  have hm' : (0 : ℚ) < m := by exact_mod_cast hm
  have h₁ : a ≤ (a + m - 1) / m * m := (ceilDiv_le_iff hm).1 le_rfl
  have h₂ : (a + m - 1) / m * m < a + m := by have := Nat.div_mul_le_self (a + m - 1) m; omega
  refine Int.ceil_eq_iff.2 ⟨?_, ?_⟩ <;> rw [Int.cast_natCast]
  · rw [lt_div_iff₀ hm', sub_mul, one_mul, sub_lt_iff_lt_add]; exact_mod_cast h₂
  · rw [div_le_iff₀ hm']; exact_mod_cast h₁

theorem binary64_natCast_div (a e : Nat) (ha : a < 2 ^ 53) (he : e ≤ 1074) :
    Binary64 ((a : ℚ) / 2 ^ e) :=
  ⟨a, -e, by rw [zpow_neg, zpow_natCast, div_eq_mul_inv]; rfl, by simpa [abs_of_nonneg] using ha,
    by omega, by omega⟩

/-! ## The code and the tree it counts -/

/-- Modelled from the spec: the branching factor of the hash tree. -/
def branches : Nat := 128

/-- Modelled from the spec: the branching factor when chunks are encrypted. -/
def encryptedBranches : Nat := 64

/-- Go's conversion of a float to an integer, which truncates toward zero. -/
def truncate (x : ℚ) : Int := if 0 ≤ x then ⌊x⌋ else ⌈x⌉

/-- The loop of `calculateNumberOfChunks` (`part_003:524-527`), for at most `fuel` tests of
its condition. -/
def chunksLoop (r : Rounding) (branchingFactor : ℚ) : Nat → ℚ → ℚ → Option ℚ
  | 0, _, _ => none
  | fuel + 1, totalChunks, intermediate =>
    if 1 < intermediate then
      chunksLoop r branchingFactor fuel (r.rnd (totalChunks + ⌈intermediate⌉))
        (r.rnd (intermediate / branchingFactor))
    else some totalChunks

/-- `calculateNumberOfChunks` (`part_003:512`), its float64 operations rounded by `r` and its
loop run with `fuel`. -/
def calculateNumberOfChunks (r : Rounding) (fuel : Nat) (contentLength : Int)
    (isEncrypted : Bool) : Option Int :=
  if contentLength ≤ Voyager.File.chunkSize then some 1
  else
    let branchingFactor : ℚ := if isEncrypted then encryptedBranches else branches
    let dataChunks : ℚ := ⌈r.rnd (r.rnd contentLength / Voyager.File.chunkSize)⌉
    (chunksLoop r branchingFactor fuel dataChunks (r.rnd (dataChunks / branchingFactor))).map
      fun totalChunks => truncate totalChunks + 1

/-- The number of chunks of a balanced tree whose lowest level has `l` chunks and whose
interior chunks have up to `b` children: `l`, plus the tree over the `⌈l / b⌉` chunks of
the level above, up to the single root. -/
def treeChunks (b l : Nat) : Nat :=
  if _h : 1 < b ∧ 1 < l then l + treeChunks b ((l + b - 1) / b) else 1
decreasing_by exact Nat.add_pred_div_lt _h.1 _h.2

/-- The chunk count the spec gives for `n` bytes: the balanced tree over `⌈n / 4096⌉`
leaves, with 128 branches, or 64 when encrypted. -/
def balancedTreeChunks (n : Nat) (isEncrypted : Bool) : Nat :=
  treeChunks (if isEncrypted then encryptedBranches else branches)
    ((n + Voyager.File.chunkSize - 1) / Voyager.File.chunkSize)

theorem treeChunks_of_le_one (b : Nat) {l : Nat} (hl : l ≤ 1) : treeChunks b l = 1 := by
  rw [treeChunks, dif_neg (by omega)]

theorem treeChunks_pos (b l : Nat) : 1 ≤ treeChunks b l := by
  rw [treeChunks]; split <;> omega

theorem treeChunks_of_lt {b l : Nat} (hb : 1 < b) (hl : 1 < l) :
    treeChunks b l = l + treeChunks b ((l + b - 1) / b) := by
  rw [treeChunks, dif_pos ⟨hb, hl⟩]

/-! ## The loop computes exactly -/

theorem binary64_natCast (a : Nat) (ha : a < 2 ^ 53) : Binary64 a := by
  simpa using binary64_natCast_div a 0 ha (by omega)

theorem binary64_div_pow (a s k : Nat) (ha : a < 2 ^ 53) (h : s * k ≤ 1074) :
    Binary64 ((a : ℚ) / ((2 ^ s) ^ k : Nat)) := by
  rw [← pow_mul, Nat.cast_pow, Nat.cast_ofNat]
  exact binary64_natCast_div a _ ha h

theorem truncate_natCast (a : Nat) : truncate a = a := by
  simp [truncate]

/-- With at most `2 ^ 41` leaves and at least 64 branches, a level `k` with more than one
chunk has `k ≤ 6`. -/
theorem mul_lt_of_pow_lt {s k D : Nat} (hD : D ≤ 2 ^ 41) (h : (2 ^ s) ^ k < D) : s * k < 41 := by
  rw [← pow_mul] at h
  exact (Nat.pow_lt_pow_iff_right (by omega)).1 (lt_of_lt_of_le h hD)

theorem le_six_of_pow_lt {s k D : Nat} (hs : 6 ≤ s) (hD : D ≤ 2 ^ 41) (h : (2 ^ s) ^ k < D) :
    k ≤ 6 := by
  have h41 := mul_lt_of_pow_lt hD h
  by_contra hk
  have : 6 * 7 ≤ s * k := Nat.mul_le_mul hs (by omega)
  omega

/-- **The loop, read exactly.** At level `k` (`intermediate = D / B ^ k`) every float64
operation is exact, and the loop adds the chunks of the levels from `k` on below the root. -/
theorem chunksLoop_eq (r : Rounding) {s D : Nat} (hs : 6 ≤ s) (hD : D ≤ 2 ^ 41) :
    ∀ (fuel k total : Nat), (2 ^ s) ^ (k - 1) < D → total ≤ k * D → 8 ≤ fuel + k → 1 ≤ k →
      chunksLoop r ((2 ^ s : Nat) : ℚ) fuel total ((D : ℚ) / ((2 ^ s) ^ k : Nat)) =
        some ((total + treeChunks (2 ^ s) ((D + (2 ^ s) ^ k - 1) / (2 ^ s) ^ k) - 1 : Nat) : ℚ)
  | 0, k, _, hk, _, hfuel, hk1 => by
    have := le_six_of_pow_lt hs hD (k := k - 1) hk; omega
  | fuel + 1, k, total, _, htotal, hfuel, hk1 => by
    have hB : 0 < 2 ^ s := Nat.two_pow_pos s
    have hM : 0 < (2 ^ s) ^ k := Nat.pos_pow_of_pos k hB
    have hMq : (0 : ℚ) < ((2 ^ s) ^ k : Nat) := by exact_mod_cast hM
    rw [chunksLoop]
    by_cases hx : (2 ^ s) ^ k < D
    · have hL : 1 < (D + (2 ^ s) ^ k - 1) / (2 ^ s) ^ k := (one_lt_ceilDiv hM).2 hx
      have hLD : (D + (2 ^ s) ^ k - 1) / (2 ^ s) ^ k ≤ D :=
        (ceilDiv_le_iff hM).2 (Nat.le_mul_of_pos_right D hM)
      have hk6 := le_six_of_pow_lt hs hD hx
      have hkD : k * D ≤ 6 * 2 ^ 41 := Nat.mul_le_mul hk6 hD
      have hsk : s * (k + 1) ≤ 1074 := by
        have := mul_lt_of_pow_lt hD hx
        have : s ≤ s * k := Nat.le_mul_of_pos_right s hk1
        rw [Nat.mul_succ]; omega
      rw [if_pos (by rw [one_lt_div hMq]; exact_mod_cast hx), ceil_natCast_div D _ hM,
        Int.cast_natCast, ← Nat.cast_add, r.rnd_binary64 _ (binary64_natCast _ (by omega)),
        div_div, ← Nat.cast_mul, ← pow_succ,
        r.rnd_binary64 _ (binary64_div_pow D s (k + 1) (by omega) hsk),
        chunksLoop_eq r hs hD fuel (k + 1) (total + (D + (2 ^ s) ^ k - 1) / (2 ^ s) ^ k) (by simpa using hx)
          (by rw [Nat.succ_mul]; omega) (by omega) (by omega),
        treeChunks_of_lt (Nat.one_lt_two_pow (by omega)) hL, ceilDiv_ceilDiv hM hB, ← pow_succ]
      have := treeChunks_pos (2 ^ s) ((D + (2 ^ s) ^ (k + 1) - 1) / (2 ^ s) ^ (k + 1))
      congr 3; omega
    · rw [if_neg (by rw [one_lt_div hMq]; exact_mod_cast hx),
        treeChunks_of_le_one _ ((ceilDiv_le_iff hM).2 (by omega))]
      simp

/-- From the leaves on: `D` data chunks, branching factor `2 ^ s`. -/
theorem chunksLoop_leaves (r : Rounding) {s D fuel : Nat} (hs : 6 ≤ s) (hs7 : s ≤ 7)
    (hD2 : 1 < D) (hD : D ≤ 2 ^ 41) (hfuel : 7 ≤ fuel) :
    (chunksLoop r ((2 ^ s : Nat) : ℚ) fuel D (r.rnd ((D : ℚ) / ((2 ^ s : Nat) : ℚ)))).map
      (fun totalChunks => truncate totalChunks + 1) = some (treeChunks (2 ^ s) D : Int) := by
  rw [show (D : ℚ) / ((2 ^ s : Nat) : ℚ) = (D : ℚ) / (((2 ^ s) ^ 1 : Nat) : ℚ) by rw [pow_one],
    r.rnd_binary64 _ (binary64_div_pow D s 1 (by omega) (by omega)),
    chunksLoop_eq r hs hD fuel 1 D (by simpa using hD2) (by simp) (by omega) le_rfl,
    Option.map_some', truncate_natCast, pow_one, treeChunks_of_lt (Nat.one_lt_two_pow (by omega)) hD2]
  have := treeChunks_pos (2 ^ s) ((D + 2 ^ s - 1) / 2 ^ s)
  congr 1; push_cast; omega

/-- Exact rational arithmetic: the rounding that changes nothing. -/
def Rounding.exact : Rounding := ⟨id, fun _ _ => rfl⟩

/-- **`calculateNumberOfChunks` counts the chunks of the balanced tree.** For
`n < 2 ^ 53` every float64 operation of it is exact, since every divisor is a power of
two, its loop ends within seven tests of its condition, and the count is the number of
chunks of the balanced hash tree over `⌈n / 4096⌉` leaves. -/
theorem calculateNumberOfChunks_eq (r : Rounding) {n : Nat} (h53 : n < 2 ^ 53)
    (isEncrypted : Bool) {fuel : Nat} (hfuel : 7 ≤ fuel) :
    calculateNumberOfChunks r fuel n isEncrypted = some (balancedTreeChunks n isEncrypted) := by
  have h4096 : ((4096 : Nat) : ℚ) = 2 ^ 12 := by norm_num
  unfold calculateNumberOfChunks balancedTreeChunks
  rw [show Voyager.File.chunkSize = 4096 from rfl]
  by_cases hsmall : n ≤ 4096
  · rw [if_pos (by exact_mod_cast hsmall),
      treeChunks_of_le_one _ ((ceilDiv_le_iff (by decide)).2 (by omega))]
    rfl
  · rw [if_neg (by exact_mod_cast hsmall)]
    dsimp only
    rw [Int.cast_natCast, r.rnd_binary64 _ (binary64_natCast n h53),
      r.rnd_binary64 _ (by rw [h4096]; exact binary64_natCast_div n 12 h53 (by omega)),
      ceil_natCast_div n 4096 (by decide), Int.cast_natCast]
    have hD2 : 1 < (n + 4096 - 1) / 4096 := (one_lt_ceilDiv (by decide)).2 (by omega)
    have hD : (n + 4096 - 1) / 4096 ≤ 2 ^ 41 := (ceilDiv_le_iff (by decide)).2 (by omega)
    cases isEncrypted
    · exact chunksLoop_leaves r (by decide : 6 ≤ 7) le_rfl hD2 hD hfuel
    · exact chunksLoop_leaves r (le_rfl : 6 ≤ 6) (by decide) hD2 hD hfuel

/-- One megabyte, unencrypted, in exact arithmetic. -/
theorem calculateNumberOfChunks_eq_megabyte :
    1000000 < 2 ^ 53 ∧ 7 ≤ 7 ∧
      calculateNumberOfChunks Rounding.exact 7 (1000000 : Nat) false =
        some (balancedTreeChunks 1000000 false) :=
  ⟨by decide, le_rfl, calculateNumberOfChunks_eq _ (by decide) _ le_rfl⟩

example : balancedTreeChunks 1000000 false = 248 := by
  simp [balancedTreeChunks, treeChunks, branches, Voyager.File.chunkSize]

end Voyager.Api
