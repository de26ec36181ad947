import Mathlib.Data.List.Basic

/-!
# UTF-8 runes of a byte string

Modelled from unicode/utf8: `DecodeRuneInString` of Go's standard library, as
`equalASCIIFold` reads the runes of its two strings with it, and the conversion
`[]rune(s)` of the Go specification, which decodes a string the same way, rune after
rune. A byte that starts no valid encoding (a continuation byte, an overlong or
surrogate form, a sequence cut short, a value above U+10FFFF) is read as `RuneError`
and one byte is skipped.

Every read of a non-empty string takes at least one byte (`decodeRune_width`), so
`runes` ends; an ASCII byte is read as itself (`decodeRune_ascii`), and an ASCII string
is its own runes (`runes_ascii`).
-/

namespace Voyager.Utf8

/-- `RuneError`, U+FFFD. -/
def runeError : Nat := 0xFFFD

/-- `locb`, the lowest continuation byte. -/
def locb : UInt8 := 0x80

/-- `hicb`, the highest continuation byte. -/
def hicb : UInt8 := 0xBF

/-- An entry of the table `first`: an ASCII byte (`as`), a byte that starts no encoding
(`xx`), or the first byte of an encoding of `size` bytes whose second byte lies in the
`acceptRanges` range `lo`-`hi` (`s1`-`s7`). -/
inductive First where
  | ascii
  | invalid
  | lead (size : Nat) (lo hi : UInt8)
  deriving DecidableEq, Repr

/-- `first[b]`. -/
def first (b : UInt8) : First :=
  if b < 0x80 then .ascii
  else if b < 0xC2 then .invalid
  else if b < 0xE0 then .lead 2 locb hicb
  else if b = 0xE0 then .lead 3 0xA0 hicb
  else if b < 0xED then .lead 3 locb hicb
  else if b = 0xED then .lead 3 locb 0x9F
  else if b < 0xF0 then .lead 3 locb hicb
  else if b = 0xF0 then .lead 4 0x90 hicb
  else if b < 0xF4 then .lead 4 locb hicb
  else if b = 0xF4 then .lead 4 locb 0x8F
  else .invalid

/-- `DecodeRuneInString`: the first rune of `s` and the number of bytes it takes;
`(RuneError, 0)` for the empty string and `(RuneError, 1)` where `s` starts with no
valid encoding. -/
def decodeRune (s : List UInt8) : Nat × Nat :=
  match s with
  | [] => (runeError, 0)
  | s0 :: _ =>
    match first s0 with
    | .ascii => (s0.toNat, 1)
    | .invalid => (runeError, 1)
    | .lead sz lo hi =>
      if s.length < sz then (runeError, 1)
      else
        let s1 := s.getD 1 0
        if s1 < lo ∨ hi < s1 then (runeError, 1)
        else if sz ≤ 2 then ((s0 &&& 0x1F).toNat <<< 6 ||| (s1 &&& 0x3F).toNat, 2)
        else
          let s2 := s.getD 2 0
          if s2 < locb ∨ hicb < s2 then (runeError, 1)
          else if sz ≤ 3 then
            ((s0 &&& 0x0F).toNat <<< 12 ||| (s1 &&& 0x3F).toNat <<< 6 ||| (s2 &&& 0x3F).toNat, 3)
          else
            let s3 := s.getD 3 0
            if s3 < locb ∨ hicb < s3 then (runeError, 1)
            else
              ((s0 &&& 0x07).toNat <<< 18 ||| (s1 &&& 0x3F).toNat <<< 12 |||
                (s2 &&& 0x3F).toNat <<< 6 ||| (s3 &&& 0x3F).toNat, 4)

theorem decodeRune_ascii {b : UInt8} (hb : b < 0x80) (s : List UInt8) :
    decodeRune (b :: s) = (b.toNat, 1) := by
  rw [decodeRune, first, if_pos hb]

/-- Each read of a non-empty string takes at least one byte. -/
theorem decodeRune_width (b : UInt8) (s : List UInt8) : 1 ≤ (decodeRune (b :: s)).2 := by
  simp only [decodeRune]
  split
  · exact le_rfl
  · exact le_rfl
  · split_ifs <;> simp

theorem length_drop_decodeRune (b : UInt8) (s : List UInt8) :
    ((b :: s).drop (decodeRune (b :: s)).2).length < (b :: s).length := by
  have := decodeRune_width b s
  rw [List.length_drop]
  simp only [List.length_cons]
  omega

/-- The conversion `[]rune(s)`. -/
def runes (s : List UInt8) : List Nat :=
  match s with
  | [] => []
  | b :: rest => (decodeRune (b :: rest)).1 :: runes ((b :: rest).drop (decodeRune (b :: rest)).2)
termination_by s.length
decreasing_by exact length_drop_decodeRune _ _

@[simp] theorem runes_nil : runes [] = [] := by rw [runes]

theorem runes_cons (b : UInt8) (s : List UInt8) :
    runes (b :: s) = (decodeRune (b :: s)).1 :: runes ((b :: s).drop (decodeRune (b :: s)).2) := by
  rw [runes]

@[simp] theorem runes_eq_nil {s : List UInt8} : runes s = [] ↔ s = [] := by
  cases s with
  | nil => simp
  | cons b s => simp [runes_cons]

/-- An ASCII string is its own runes. -/
theorem runes_ascii : ∀ {s : List UInt8}, (∀ c ∈ s, c < 0x80) → runes s = s.map UInt8.toNat
  | [], _ => runes_nil
  | b :: s, h => by
    have hs : ∀ c ∈ s, c < 0x80 := fun c hc => h c (List.mem_cons_of_mem b hc)
    rw [runes_cons, decodeRune_ascii (h b (List.mem_cons_self b s)), List.drop_one, List.tail_cons,
      runes_ascii hs, List.map_cons]

end Voyager.Utf8
