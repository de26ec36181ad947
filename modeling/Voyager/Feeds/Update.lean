import Voyager.Chunk.Format

/-!
# Feed updates: what `Putter.Put` writes and `parseFeedUpdate` reads

`pkg/feeds/putter.go` and the API's `parseFeedUpdate` (`part_003:714`). `Put` puts
the update's timestamp, as 8 big-endian bytes, and its payload in a
content-addressed chunk (`toChunk`), and signs that as a single-owner chunk under
the update's id. `parseFeedUpdate` unwraps the single-owner chunk and reads the
wrapped data as `span || timestamp || reference`, accepting a reference of 32 bytes
or of 64 (an encrypted one). The timestamp crosses Go's `int64`/`uint64`
conversions on both sides, which undo each other on the `int64` range
(`toInt64_toUint64`), so a negative timestamp comes back as it went in.

`parseFeedUpdate_put` is the round trip over every timestamp and payload.
-/

namespace Voyager.Feeds
open Infinity Binary Crypto

/-! ## Go's 64-bit conversions -/

/-- Go's conversion `uint64(x)` of an `int64`: the same 64 bits read unsigned. -/
def toUint64 (x : Int) : Nat := (x % 2 ^ 64).toNat

/-- Go's conversion `int64(u)` of a `uint64`: the same 64 bits in two's complement. -/
def toInt64 (u : Nat) : Int := if u < 2 ^ 63 then u else u - 2 ^ 64

theorem toUint64_lt (x : Int) : toUint64 x < 2 ^ 64 := by
  unfold toUint64
  omega

theorem toInt64_toUint64 {x : Int} (h : -2 ^ 63 ≤ x ∧ x < 2 ^ 63) : toInt64 (toUint64 x) = x := by
  unfold toInt64 toUint64
  split <;> omega

/-! ## Writing an update -/

/-- `toChunk` (`putter.go:61`): the timestamp's 8 big-endian bytes, then the payload,
as a content-addressed chunk. -/
def toChunk (H : List UInt8 → Address) (at' : Nat) (payload : List UInt8) : Except ChunkError Chunk :=
  Cac.new H (toListBE 8 at' ++ payload)

/-- Why `Put` stopped before the store: `toChunk` failed, or the signer did. -/
inductive PutError where
  | chunk (e : ChunkError)
  | sign
  deriving DecidableEq, Repr

/-- `Putter.Put` (`putter.go:42`) up to the store: the chunk it hands the store's
`Put`. The update's id, `Feed.Update(i).Id()`, is computed outside the repository
and given. -/
def put (H : List UInt8 → Address) (signer : Signer) (id : Address) (at' : Int)
    (payload : List UInt8) : Except PutError Chunk :=
  match toChunk H (toUint64 at') payload with
  | .error e => .error (.chunk e)
  | .ok cac =>
    match (Soc.new id cac).sign H signer with
    | none => .error .sign
    | some ch => .ok ch

/-- The data of the chunk `toChunk` builds: span, timestamp, payload. -/
def updateData (at' : Nat) (payload : List UInt8) : List UInt8 :=
  toListLE spanSize (8 + payload.length) ++ toListBE 8 at' ++ payload

theorem toChunk_eq_ok {H : List UInt8 → Address} {at' : Nat} {payload : List UInt8} {c : Chunk} :
    toChunk H at' payload = .ok c ↔ 8 + payload.length ≤ File.chunkSize ∧
      c = ⟨H (updateData at' payload), updateData at' payload⟩ := by
  simp only [toChunk, Cac.new_eq_ok, List.length_append, length_toListBE, updateData,
    List.append_assoc]

theorem put_eq_ok {H : List UInt8 → Address} {signer : Signer} {id : Address} {at' : Int}
    {payload : List UInt8} {ch : Chunk} :
    put H signer id at' payload = .ok ch ↔
      ∃ c, toChunk H (toUint64 at') payload = .ok c ∧ (Soc.new id c).sign H signer = some ch := by
  unfold put
  split
  · simp_all
  · split <;> simp_all

/-! ## Reading an update -/

/-- Why `parseFeedUpdate` failed: the single-owner chunk did not unmarshal, or its
wrapped data is not an update (`errInvalidFeedUpdate`). -/
inductive FeedError where
  | socUnmarshal (e : ChunkError)
  | invalidFeedUpdate
  deriving DecidableEq, Repr

/-- The error's text: the prefix `parseFeedUpdate` puts before the SOC error's own
text, or `errInvalidFeedUpdate`'s (`part_003:570`). -/
def FeedError.text (socText : ChunkError → String) : FeedError → String
  | .socUnmarshal e => "soc unmarshal: " ++ socText e
  | .invalidFeedUpdate => "invalid feed update"

/-- `parseFeedUpdate` (`part_003:714`): the reference and the timestamp of a feed
update. `infinity.NewAddress(update[16:])` keeps the bytes as they are, so the
reference is a byte string. -/
def parseFeedUpdate (H : List UInt8 → Address) (recover : List UInt8 → Address → Option (List UInt8))
    (ch : Chunk) : Except FeedError (List UInt8 × Int) :=
  match Soc.fromChunk H recover ch with
  | .error e => .error (.socUnmarshal e)
  | .ok s =>
    let update := s.chunk.data
    if update.length ≠ 48 ∧ update.length ≠ 80 then .error .invalidFeedUpdate
    else
      let ts := ofListBE ((update.drop 8).take 8)
      .ok (update.drop 16, toInt64 ts)

theorem parseFeedUpdate_of_fromChunk {H : List UInt8 → Address}
    {recover : List UInt8 → Address → Option (List UInt8)} {ch : Chunk} {s : Soc}
    (h : Soc.fromChunk H recover ch = .ok s) :
    parseFeedUpdate H recover ch =
      if s.chunk.data.length ≠ 48 ∧ s.chunk.data.length ≠ 80 then .error .invalidFeedUpdate
      else .ok (s.chunk.data.drop 16, toInt64 (ofListBE ((s.chunk.data.drop 8).take 8))) := by
  rw [parseFeedUpdate, h]

/-! ## The round trip -/

/-- The fields `parseFeedUpdate` reads from the data `toChunk` writes. -/
theorem updateData_fields (at' : Nat) (payload : List UInt8) :
    (updateData at' payload).length = 16 + payload.length ∧
      ((updateData at' payload).drop 8).take 8 = toListBE 8 at' ∧
      (updateData at' payload).drop 16 = payload := by
  have h8 : (toListLE spanSize (8 + payload.length)).length = 8 := length_toListLE _ _
  have h16 : (toListLE spanSize (8 + payload.length) ++ toListBE 8 at').length = 16 := by simp [spanSize]
  refine ⟨by simp [updateData, spanSize]; omega, ?_, List.drop_left' h16⟩
  rw [updateData, List.append_assoc, List.drop_left' h8, List.take_left' (length_toListBE 8 at')]

theorem parseFeedUpdate_put {H : List UInt8 → Address}
    {recover : List UInt8 → Address → Option (List UInt8)} {signer : Signer}
    (hs : signer.Sound recover) (id : Address) {at' : Int} (hat : -2 ^ 63 ≤ at' ∧ at' < 2 ^ 63)
    (p : List UInt8) :
    ((∀ d, signer.sign d ≠ none) → (p.length = 32 ∨ p.length = 64) →
        ∃ ch, put H signer id at' p = .ok ch) ∧
      ∀ ch, put H signer id at' p = .ok ch →
        parseFeedUpdate H recover ch =
          if p.length = 32 ∨ p.length = 64 then .ok (p, at') else .error .invalidFeedUpdate := by
  constructor
  · intro hsign hp
    have hc : toChunk H (toUint64 at') p = .ok ⟨H (updateData (toUint64 at') p), updateData (toUint64 at') p⟩ :=
      toChunk_eq_ok.2 ⟨by unfold File.chunkSize; omega, rfl⟩
    obtain ⟨sig, hsig⟩ := Option.ne_none_iff_exists'.1 (hsign (H (id.bytes ++ (H (updateData (toUint64 at') p)).bytes)))
    exact ⟨_, put_eq_ok.2 ⟨_, hc, Soc.sign_eq_some.2 ⟨sig, hsig, rfl⟩⟩⟩
  · intro ch h
    obtain ⟨c, hc, hch⟩ := put_eq_ok.1 h
    obtain ⟨-, rfl⟩ := toChunk_eq_ok.1 hc
    obtain ⟨sig, hfrom⟩ := Soc.fromChunk_sign hs (Cac.newWithDataSpan_of_new hc) hch
    obtain ⟨hlen, hts, href⟩ := updateData_fields (toUint64 at') p
    have hat' : toInt64 (ofListBE (toListBE 8 (toUint64 at'))) = at' := by
      rw [ofListBE_toListBE, Nat.mod_eq_of_lt (by simpa using toUint64_lt at'), toInt64_toUint64 hat]
    rw [parseFeedUpdate_of_fromChunk hfrom]
    simp only [hlen, hts, href, hat']
    split <;> split <;> first | rfl | omega

/-- A timestamp below zero and a 32-byte reference come back as they were put. -/
theorem parseFeedUpdate_put_negative :
    let H : List UInt8 → Address := fun _ => Address.ofHead 0
    let recover : List UInt8 → Address → Option (List UInt8) :=
      fun sig _ => if sig.length = 65 then some [1] else none
    let signer : Signer := ⟨[1], fun _ => some (List.replicate 65 0)⟩
    let p := List.replicate 32 (5 : UInt8)
    signer.Sound recover ∧ ∃ ch, put H signer (Address.ofHead 7) (-1) p = .ok ch ∧
      parseFeedUpdate H recover ch = .ok (p, -1) := by
  intro H recover signer p
  have hs : signer.Sound recover := by
    rintro _ _ ⟨⟩
    exact ⟨rfl, rfl⟩
  obtain ⟨hput, hparse⟩ :=
    parseFeedUpdate_put hs (Address.ofHead 7) (show -2 ^ 63 ≤ (-1 : Int) ∧ (-1 : Int) < 2 ^ 63 by decide) p
  obtain ⟨ch, hch⟩ := hput (fun _ => Option.some_ne_none _) (.inl rfl)
  exact ⟨hs, ch, hch, (hparse ch hch).trans (if_pos (.inl rfl))⟩

end Voyager.Feeds
