import Voyager.Encoding.Utf8

/-!
# The origin check of the websocket endpoint

`checkOrigin` (`unnamed/part_003:457-474`) is the `CheckOrigin` of the websocket upgrader
in `pssWsHandler`. It accepts a request with no `Origin` header. Otherwise the first
`Origin` value must match one of `CORSAllowedOrigins` or the request's own
`scheme://host`, unless one of these is `*`. Values are compared by `equalASCIIFold`
(`unnamed/part_003:478-498`). That loop reads both strings a rune at a time with
`DecodeRuneInString` and lowers `A`-`Z` on both sides.

`equalASCIIFold` holds exactly when the two strings have the same runes once `A`-`Z` are
lowered (`equalASCIIFold_iff_runes`). No letter outside ASCII is folded. Every byte that
starts no UTF-8 encoding reads as U+FFFD, so such bytes match each other and the
encoded U+FFFD.
-/

namespace Voyager.Api
open Voyager.Utf8

/-- `if 'A' <= r && r <= 'Z' { r = r + 'a' - 'A' }`. -/
def foldRune (r : Nat) : Nat := if 65 ≤ r ∧ r ≤ 90 then r + 97 - 65 else r

/-- The loop of `equalASCIIFold`, for at most `fuel` turns. Each turn takes at least one
byte of `s`, so `len(s)` turns are enough, and `equalASCIIFold` gives the loop that many. -/
def equalASCIIFoldLoop : Nat → List UInt8 → List UInt8 → Bool
  | fuel + 1, s, t =>
    if s ≠ [] ∧ t ≠ [] then
      let (sr, ssize) := decodeRune s
      let (tr, tsize) := decodeRune t
      if sr = tr then equalASCIIFoldLoop fuel (s.drop ssize) (t.drop tsize)
      else if foldRune sr ≠ foldRune tr then false
      else equalASCIIFoldLoop fuel (s.drop ssize) (t.drop tsize)
    else s == t
  | 0, s, t => s == t

/-- `equalASCIIFold`: `s` equals `t` with ASCII case folding. -/
def equalASCIIFold (s t : List UInt8) : Bool := equalASCIIFoldLoop s.length s t

/-- `"http"`. -/
def http : List UInt8 := [104, 116, 116, 112]

/-- `"https"`. -/
def https : List UInt8 := [104, 116, 116, 112, 115]

/-- `"://"`. -/
def schemeSep : List UInt8 := [58, 47, 47]

/-- `"*"`. -/
def wildcard : List UInt8 := [42]

/-- What `checkOrigin` reads of a request: the values of its `Origin` header, whether it
came over TLS (`r.TLS != nil`), and `r.Host`. -/
structure OriginRequest where
  origin : List (List UInt8)
  tls : Bool
  host : List UInt8

/-- `checkOrigin`, with the server's `CORSAllowedOrigins`. -/
def checkOrigin (corsAllowedOrigins : List (List UInt8)) (r : OriginRequest) : Bool :=
  match r.origin with
  | [] => true
  | origin :: _ =>
    let scheme := if r.tls then https else http
    let hosts := corsAllowedOrigins ++ [scheme ++ schemeSep ++ r.host]
    hosts.any fun v => equalASCIIFold origin v || v == wildcard

/-! ## What the loop decides -/

theorem equalASCIIFoldLoop_nil_left (fuel : Nat) (t : List UInt8) :
    equalASCIIFoldLoop fuel [] t = true ↔ (runes []).map foldRune = (runes t).map foldRune := by
  rw [runes_nil, List.map_nil, @eq_comm _ [], List.map_eq_nil_iff, runes_eq_nil]
  cases fuel <;> cases t <;> simp [equalASCIIFoldLoop]

/-- The loop, given enough turns, compares the runes of both strings with `A`-`Z`
lowered. -/
theorem equalASCIIFoldLoop_iff {fuel : Nat} {s : List UInt8} (t : List UInt8) (h : s.length ≤ fuel) :
    equalASCIIFoldLoop fuel s t = true ↔ (runes s).map foldRune = (runes t).map foldRune := by
  induction fuel generalizing s t with
  | zero => rw [List.eq_nil_of_length_eq_zero (Nat.le_zero.1 h), equalASCIIFoldLoop_nil_left]
  | succ fuel ih =>
    cases s with
    | nil => exact equalASCIIFoldLoop_nil_left _ t
    | cons b s =>
      cases t with
      | nil => simp [equalASCIIFoldLoop, runes_cons]
      | cons c t =>
        have hs := length_drop_decodeRune b s
        have ih' := ih (s := (b :: s).drop (decodeRune (b :: s)).2)
          ((c :: t).drop (decodeRune (c :: t)).2) (by omega)
        rw [runes_cons b, runes_cons c, List.map_cons, List.map_cons, List.cons.injEq, ← ih']
        simp only [equalASCIIFoldLoop, ne_eq, reduceCtorEq, not_false_eq_true, and_self, if_true]
        split_ifs with hr hf
        · rw [hr]; exact (and_iff_right rfl).symm
        · exact (and_iff_right hf).symm
        · simp [hf]

/-- **`equalASCIIFold` compares runes up to the case of `A`-`Z`.** It holds exactly when
`[]rune(s)` and `[]rune(t)` agree once `A`-`Z` are lowered: a byte that starts no UTF-8
encoding is U+FFFD on either side, and no other letter is folded. -/
theorem equalASCIIFold_iff_runes (s t : List UInt8) :
    equalASCIIFold s t = true ↔ (runes s).map foldRune = (runes t).map foldRune :=
  equalASCIIFoldLoop_iff t le_rfl

/-- An upper-case origin matches its lower-case form. -/
example : equalASCIIFold [72, 84, 84, 80, 58, 47, 47, 65] [104, 116, 116, 112, 58, 47, 47, 97] = true := by
  decide

/-- A stray byte `0xff` matches the encoded U+FFFD. -/
example : equalASCIIFold [0xFF] [0xEF, 0xBF, 0xBD] = true := by decide

end Voyager.Api
