import Voyager.Infinity.Address
import Voyager.File.ChunkPipe

/-!
# Chunks: the content-addressed and the single-owner framing

The `cac` and `soc` packages are not in the repository; they are modelled from the
spec (§3 and its chunk-model operations), with the hash `H` and the recovery of a
signer's address from a signature as parameters. A content-addressed chunk's data
is its payload behind an 8-byte little-endian span, its address the hash of that
data (`Cac.new`). A single-owner chunk's data is `id || sig || wrapped data`, its
address `H(id || owner)` (`Soc.sign`). `Soc.fromChunk` undoes the framing: on a
chunk that `Soc.sign` built around a valid content-addressed chunk, with a signer
whose signatures recover to its own address, it gives back the id, the signature,
the owner and the wrapped chunk (`fromChunk_sign`).
-/

namespace Voyager

/-! ## Fixed-width integers (`encoding/binary`) -/

namespace Binary

/-- The `w` little-endian bytes of `n`; bits above `8 * w` are dropped
(`binary.LittleEndian.PutUint64` for `w = 8`). -/
def toListLE : Nat → Nat → List UInt8
  | 0, _ => []
  | w + 1, n => UInt8.ofNat (n % 256) :: toListLE w (n / 256)

/-- The natural with the given little-endian bytes. -/
def ofListLE : List UInt8 → Nat
  | [] => 0
  | b :: bs => b.toNat + 256 * ofListLE bs

/-- The `w` big-endian bytes of `n` (`binary.BigEndian.PutUint64` for `w = 8`). -/
def toListBE (w n : Nat) : List UInt8 := (toListLE w n).reverse

/-- The natural with the given big-endian bytes (`binary.BigEndian.Uint64` on 8 bytes). -/
def ofListBE (l : List UInt8) : Nat := ofListLE l.reverse

@[simp] theorem length_toListLE (w n : Nat) : (toListLE w n).length = w := by
  induction w generalizing n with
  | zero => rfl
  | succ w ih => simp [toListLE, ih]

@[simp] theorem length_toListBE (w n : Nat) : (toListBE w n).length = w := by
  simp [toListBE]

theorem ofListLE_toListLE (w n : Nat) : ofListLE (toListLE w n) = n % 256 ^ w := by
  induction w generalizing n with
  | zero => simp [toListLE, ofListLE, Nat.mod_one]
  | succ w ih =>
    have hb : (UInt8.ofNat (n % 256)).toNat = n % 256 :=
      UInt8.toNat_ofNat_of_lt (Nat.mod_lt n (by decide))
    rw [toListLE, ofListLE, ih, hb, Nat.pow_succ', Nat.mod_mul]

theorem ofListBE_toListBE (w n : Nat) : ofListBE (toListBE w n) = n % 256 ^ w := by
  rw [ofListBE, toListBE, List.reverse_reverse, ofListLE_toListLE]

end Binary

/-! ## Chunks -/

namespace Infinity

/-- Modelled from the spec: a chunk (`infinity.Chunk`), its address and its data. -/
structure Chunk where
  address : Address
  data : List UInt8
  deriving DecidableEq, Repr

/-- Modelled from the spec: the chunk model's failure modes that its constructors
and `Soc.fromChunk` can report. -/
inductive ChunkError where
  | invalidSpan
  | invalidSignature
  | ownerMismatch
  deriving DecidableEq, Repr

/-- Modelled from the spec: `SpanSize`, the bytes of the span in front of a payload. -/
def spanSize : Nat := 8

end Infinity

namespace Cac
open Infinity Binary

/-- Modelled from the spec: `new_cac(data)` on data that carries its span. -/
def newWithDataSpan (H : List UInt8 → Address) (data : List UInt8) : Except ChunkError Chunk :=
  if spanSize ≤ data.length ∧ data.length ≤ spanSize + File.chunkSize then .ok ⟨H data, data⟩
  else .error .invalidSpan

/-- Modelled from the spec: `cac.New(payload)`, the payload behind its length as a
little-endian span. -/
def new (H : List UInt8 → Address) (payload : List UInt8) : Except ChunkError Chunk :=
  newWithDataSpan H (toListLE spanSize payload.length ++ payload)

theorem newWithDataSpan_eq_ok {H : List UInt8 → Address} {data : List UInt8} {c : Chunk} :
    newWithDataSpan H data = .ok c ↔
      spanSize ≤ data.length ∧ data.length ≤ spanSize + File.chunkSize ∧ c = ⟨H data, data⟩ := by
  unfold newWithDataSpan
  split <;> simp_all [eq_comm]

theorem new_eq_ok {H : List UInt8 → Address} {payload : List UInt8} {c : Chunk} :
    new H payload = .ok c ↔ payload.length ≤ File.chunkSize ∧
      c = ⟨H (toListLE spanSize payload.length ++ payload),
        toListLE spanSize payload.length ++ payload⟩ := by
  simp only [new, newWithDataSpan_eq_ok, List.length_append, length_toListLE, Nat.le_add_right,
    Nat.add_le_add_iff_left, true_and]

/-- A chunk `Cac.new` builds passes the check `Soc.fromChunk` makes of the chunk it wraps. -/
theorem newWithDataSpan_of_new {H : List UInt8 → Address} {payload : List UInt8} {c : Chunk}
    (h : new H payload = .ok c) : newWithDataSpan H c.data = .ok c := by
  obtain ⟨hl, rfl⟩ := new_eq_ok.1 h
  simp only [newWithDataSpan_eq_ok, List.length_append, length_toListLE, and_true]
  omega

end Cac

/-! ## Single-owner chunks -/

namespace Crypto
open Infinity

/-- A signer (`crypto.Signer`): its Ethereum address, and its signature of a
digest, which may fail. -/
structure Signer where
  owner : List UInt8
  sign : Address → Option (List UInt8)

/-- The signer's contract with the recovery `recover`: each signature it makes
is 65 bytes long and recovers, over the digest it signs, to its owner. -/
def Signer.Sound (recover : List UInt8 → Address → Option (List UInt8)) (s : Signer) : Prop :=
  ∀ d sig, s.sign d = some sig → sig.length = 65 ∧ recover sig d = some s.owner

end Crypto

open Infinity Crypto

/-- Modelled from the spec: a single-owner chunk (`soc.SOC`), its id, signature,
owner and the chunk it wraps. -/
structure Soc where
  id : List UInt8
  signature : List UInt8
  owner : List UInt8
  chunk : Chunk
  deriving DecidableEq, Repr

namespace Soc

/-- Modelled from the spec: `idSize`, the bytes of a single-owner chunk's id. -/
def idSize : Nat := 32

/-- Modelled from the spec: `signatureSize`, the bytes of a recoverable signature. -/
def signatureSize : Nat := 65

/-- Modelled from the spec: `soc.New(id, ch)`, an unsigned single-owner chunk. -/
def new (id : Address) (ch : Chunk) : Soc := ⟨id.bytes, [], [], ch⟩

/-- Modelled from the spec: `(*SOC).Sign`. The signer signs `H(id || wrapped address)`;
the chunk's data is `id || sig || wrapped data`, its address `H(id || owner)`. -/
def sign (H : List UInt8 → Address) (s : Soc) (signer : Signer) : Option Chunk :=
  (signer.sign (H (s.id ++ s.chunk.address.bytes))).map fun sig =>
    ⟨H (s.id ++ signer.owner), s.id ++ sig ++ s.chunk.data⟩

/-- Modelled from the spec: `soc_from_chunk`. Split `id | sig | wrapped`, validate
the wrapped chunk, recover the owner from `sig` over `H(id || wrapped address)`,
and check that the chunk's address is `H(id || owner)`. -/
def fromChunk (H : List UInt8 → Address) (recover : List UInt8 → Address → Option (List UInt8))
    (ch : Chunk) : Except ChunkError Soc :=
  let id := ch.data.take idSize
  let sig := (ch.data.drop idSize).take signatureSize
  match Cac.newWithDataSpan H (ch.data.drop (idSize + signatureSize)) with
  | .error e => .error e
  | .ok wrapped =>
    match recover sig (H (id ++ wrapped.address.bytes)) with
    | none => .error .invalidSignature
    | some owner =>
      if ch.address = H (id ++ owner) then .ok ⟨id, sig, owner, wrapped⟩
      else .error .ownerMismatch

theorem sign_eq_some {H : List UInt8 → Address} {id : Address} {c ch : Chunk} {signer : Signer} :
    (new id c).sign H signer = some ch ↔
      ∃ sig, signer.sign (H (id.bytes ++ c.address.bytes)) = some sig ∧
        ch = ⟨H (id.bytes ++ signer.owner), id.bytes ++ sig ++ c.data⟩ := by
  simp only [sign, new, Option.map_eq_some']
  exact exists_congr fun _ => and_congr_right fun _ => eq_comm

/-- The framing round trip: `fromChunk` reads back what `sign` wrote. -/
theorem fromChunk_sign {H : List UInt8 → Address} {recover : List UInt8 → Address → Option (List UInt8)}
    {signer : Signer} (hs : signer.Sound recover) {id : Address} {c ch : Chunk}
    (hc : Cac.newWithDataSpan H c.data = .ok c) (h : (new id c).sign H signer = some ch) :
    ∃ sig, fromChunk H recover ch = .ok ⟨id.bytes, sig, signer.owner, c⟩ := by
  obtain ⟨sig, hsig, rfl⟩ := sign_eq_some.1 h
  obtain ⟨hlen, hrec⟩ := hs _ _ hsig
  have hid : id.bytes.length = idSize := id.length_bytes
  have hsl : sig.length = signatureSize := hlen
  have hhead : (id.bytes ++ sig).length = idSize + signatureSize := by
    rw [List.length_append, hid, hsl]
  have e1 : (id.bytes ++ sig ++ c.data).take idSize = id.bytes := by
    rw [List.append_assoc, List.take_left' hid]
  have e2 : ((id.bytes ++ sig ++ c.data).drop idSize).take signatureSize = sig := by
    rw [List.append_assoc, List.drop_left' hid, List.take_left' hsl]
  refine ⟨sig, ?_⟩
  simp only [fromChunk, e1, e2, List.drop_left' hhead, hc, hrec, if_true]

end Soc

end Voyager
