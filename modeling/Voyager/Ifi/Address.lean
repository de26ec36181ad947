import Voyager.Chunk.Format

/-!
# Peer addresses and what their signatures sign

A peer record (`ifi.Address`, `pkg/localstore/mode_get_multi.go:114-188`) joins an
underlay, an overlay and a signature over `generateSignData(underlay, overlay,
networkID)` = `"voyager-handshake-" ‖ underlay ‖ overlay ‖ networkID` (8 bytes, big
endian). The overlay and the network id have fixed widths and stand after the
underlay, so the signed bytes determine all three (`generateSignData_inj`).
`ParseAddress` accepts an overlay only when it equals the 32-byte overlay recovered
from the signature, so two accepted records that sign the same bytes agree on
underlay, overlay and network id (`signData_unique`). It accepts what `NewAddress`
builds from a signer whose signatures recover to its key
(`parseAddress_newAddress`). `crypto`, `multiaddr` and the signer are collaborators
outside the repository, taken as parameters that may fail.
-/

namespace Voyager.Ifi

/-- `[]byte("voyager-handshake-")`. -/
def handshakePrefix : List UInt8 := "voyager-handshake-".toUTF8.toList

/-- `generateSignData` (`mode_get_multi.go:174`). -/
def generateSignData (underlay overlay : List UInt8) (networkID : UInt64) : List UInt8 :=
  handshakePrefix ++ underlay ++ overlay ++ Binary.toListBE 8 networkID.toNat

/-- `ParseAddress`'s collaborators: `crypto.Recover`, `crypto.NewOverlayAddress` and
`ma.NewMultiaddrBytes`, each `none` where it returns an error. -/
structure Recovery (PublicKey Multiaddr : Type) where
  recover : List UInt8 → List UInt8 → Option PublicKey
  newOverlayAddress : PublicKey → UInt64 → Option Infinity.Address
  newMultiaddrBytes : List UInt8 → Option Multiaddr

/-- `ifi.Address`: a peer's underlay, overlay and signature. -/
structure Address (Multiaddr : Type) where
  underlay : Multiaddr
  overlay : Infinity.Address
  signature : List UInt8

section
variable {PublicKey Multiaddr : Type}

/-- `ParseAddress` (`mode_get_multi.go:148`); `none` is `ErrInvalidAddress`, its only
error. The overlay it returns, `infinity.NewAddress(overlay)`, has the bytes of the
recovered overlay they were checked equal to. -/
def parseAddress (c : Recovery PublicKey Multiaddr) (underlay overlay signature : List UInt8)
    (networkID : UInt64) : Option (Address Multiaddr) := do
  let recoveredPK ← c.recover signature (generateSignData underlay overlay networkID)
  let recoveredOverlay ← c.newOverlayAddress recoveredPK networkID
  if recoveredOverlay.bytes = overlay then
    let multiUnderlay ← c.newMultiaddrBytes underlay
    return ⟨multiUnderlay, recoveredOverlay, signature⟩
  else none

/-- `NewAddress` (`mode_get_multi.go:130`), with the underlay's `MarshalBinary` and the
signer's `Sign`, each `none` where it returns an error. -/
def newAddress (sign : List UInt8 → Option (List UInt8))
    (marshalBinary : Multiaddr → Option (List UInt8)) (underlay : Multiaddr)
    (overlay : Infinity.Address) (networkID : UInt64) : Option (Address Multiaddr) := do
  let underlayBinary ← marshalBinary underlay
  let signature ← sign (generateSignData underlayBinary overlay.bytes networkID)
  return ⟨underlay, overlay, signature⟩

theorem toListBE_inj {n₁ n₂ : UInt64} (h : Binary.toListBE 8 n₁.toNat = Binary.toListBE 8 n₂.toNat) :
    n₁ = n₂ := by
  have := congrArg Binary.ofListBE h
  have h₁ : n₁.toNat < 256 ^ 8 := n₁.toBitVec.isLt
  have h₂ : n₂.toNat < 256 ^ 8 := n₂.toBitVec.isLt
  rw [Binary.ofListBE_toListBE, Binary.ofListBE_toListBE, Nat.mod_eq_of_lt h₁,
    Nat.mod_eq_of_lt h₂] at this
  exact UInt64.toNat.inj this

/-- The signed bytes determine the underlay, a 32-byte overlay and the network id. -/
theorem generateSignData_inj {u₁ u₂ o₁ o₂ : List UInt8} {n₁ n₂ : UInt64} (ho₁ : o₁.length = 32)
    (ho₂ : o₂.length = 32) (h : generateSignData u₁ o₁ n₁ = generateSignData u₂ o₂ n₂) :
    u₁ = u₂ ∧ o₁ = o₂ ∧ n₁ = n₂ := by
  obtain ⟨h, hn⟩ := List.append_inj' h (by simp)
  obtain ⟨h, ho⟩ := List.append_inj' h (ho₁.trans ho₂.symm)
  exact ⟨List.append_cancel_left h, ho, toListBE_inj hn⟩

/-- What `ParseAddress` accepts: the recovered key's overlay is the given one, and the
underlay parses. -/
theorem parseAddress_eq_some {c : Recovery PublicKey Multiaddr} {u o s : List UInt8}
    {n : UInt64} {a : Address Multiaddr} (h : parseAddress c u o s n = some a) :
    ∃ pk, c.recover s (generateSignData u o n) = some pk ∧
      c.newOverlayAddress pk n = some a.overlay ∧ a.overlay.bytes = o ∧
      c.newMultiaddrBytes u = some a.underlay ∧ a.signature = s := by
  simp only [parseAddress, Option.bind_eq_bind, Option.bind_eq_some] at h
  obtain ⟨pk, hpk, ov, hov, h⟩ := h
  split at h
  · cases hmu : c.newMultiaddrBytes u with
    | none => simp [hmu] at h
    | some mu =>
      simp only [hmu, Option.some_bind, Option.pure_def, Option.some_inj] at h
      subst h
      exact ⟨pk, hpk, hov, ‹_›, rfl, rfl⟩
  · cases h

/-- **One signed message per peer record.** The signed bytes determine the underlay,
the overlay and the network id among 32-byte overlays; and since `ParseAddress`
accepts an overlay only when it is the 32-byte recovered one, two records it accepts
whose signed bytes agree have the same underlay, overlay and network id, so a
signature cannot be replayed for another underlay or network id. -/
theorem signData_unique (c : Recovery PublicKey Multiaddr) :
    (∀ (u₁ u₂ : List UInt8) (o₁ o₂ : Infinity.Address) (n₁ n₂ : UInt64),
      generateSignData u₁ o₁.bytes n₁ = generateSignData u₂ o₂.bytes n₂ →
        u₁ = u₂ ∧ o₁ = o₂ ∧ n₁ = n₂) ∧
    ∀ (u₁ u₂ o₁ o₂ s₁ s₂ : List UInt8) (n₁ n₂ : UInt64) (a₁ a₂ : Address Multiaddr),
      parseAddress c u₁ o₁ s₁ n₁ = some a₁ → parseAddress c u₂ o₂ s₂ n₂ = some a₂ →
      generateSignData u₁ o₁ n₁ = generateSignData u₂ o₂ n₂ → u₁ = u₂ ∧ o₁ = o₂ ∧ n₁ = n₂ := by
  refine ⟨fun u₁ u₂ o₁ o₂ n₁ n₂ h => ?_, fun u₁ u₂ o₁ o₂ s₁ s₂ n₁ n₂ a₁ a₂ h₁ h₂ h => ?_⟩
  · obtain ⟨hu, ho, hn⟩ := generateSignData_inj o₁.length_bytes o₂.length_bytes h
    obtain ⟨b₁, hb₁⟩ := o₁
    obtain ⟨b₂, hb₂⟩ := o₂
    subst ho
    exact ⟨hu, rfl, hn⟩
  · obtain ⟨-, -, -, ho₁, -⟩ := parseAddress_eq_some h₁
    obtain ⟨-, -, -, ho₂, -⟩ := parseAddress_eq_some h₂
    exact generateSignData_inj (ho₁ ▸ a₁.overlay.length_bytes) (ho₂ ▸ a₂.overlay.length_bytes) h

/-- A record that collaborators which always succeed accept, compared with itself. -/
theorem signData_unique_accepted :
    let c : Recovery Unit (List UInt8) :=
      ⟨fun _ _ => some (), fun _ _ => some (Infinity.Address.ofHead 7), some⟩
    let a : Address (List UInt8) := ⟨[4], Infinity.Address.ofHead 7, [1, 2]⟩
    parseAddress c [4] (Infinity.Address.ofHead 7).bytes [1, 2] 5 = some a ∧
      (([4] : List UInt8) = [4] ∧ (Infinity.Address.ofHead 7).bytes = (Infinity.Address.ofHead 7).bytes ∧
        (5 : UInt64) = 5) := by
  intro c a
  have hp : parseAddress c [4] (Infinity.Address.ofHead 7).bytes [1, 2] 5 = some a := rfl
  exact ⟨hp, (signData_unique c).2 _ _ _ _ _ _ _ _ _ _ hp hp rfl⟩

/-- What `NewAddress` returns: the given underlay and overlay, with the signer's signature
over the underlay's binary form. -/
theorem newAddress_eq_some {sign : List UInt8 → Option (List UInt8)}
    {marshalBinary : Multiaddr → Option (List UInt8)} {underlay : Multiaddr}
    {overlay : Infinity.Address} {networkID : UInt64} {a : Address Multiaddr}
    (h : newAddress sign marshalBinary underlay overlay networkID = some a) :
    ∃ b, marshalBinary underlay = some b ∧
      sign (generateSignData b overlay.bytes networkID) = some a.signature ∧
      a = ⟨underlay, overlay, a.signature⟩ := by
  simp only [newAddress, Option.bind_eq_bind, Option.bind_eq_some] at h
  obtain ⟨b, hb, sig, hsig, rfl⟩ := by simpa using h
  exact ⟨b, hb, hsig, rfl⟩

/-- `ParseAddress` accepts a signature that recovers to a key whose overlay is the one
given, over an underlay that parses. -/
theorem parseAddress_of_recover {c : Recovery PublicKey Multiaddr} {pk : PublicKey}
    {b signature : List UInt8} {underlay : Multiaddr} {overlay : Infinity.Address}
    {networkID : UInt64} (hrec : c.recover signature (generateSignData b overlay.bytes networkID) = some pk)
    (hoverlay : c.newOverlayAddress pk networkID = some overlay)
    (hmarshal : c.newMultiaddrBytes b = some underlay) :
    parseAddress c b overlay.bytes signature networkID = some ⟨underlay, overlay, signature⟩ := by
  simp [parseAddress, hrec, hoverlay, hmarshal]

/-- **`ParseAddress` accepts what `NewAddress` builds**, when the signer's signatures
recover to its key `pk`, the overlay is `pk`'s overlay for `networkID`, and the
underlay's binary form parses back to the underlay. -/
theorem parseAddress_newAddress (c : Recovery PublicKey Multiaddr)
    (sign : List UInt8 → Option (List UInt8)) (marshalBinary : Multiaddr → Option (List UInt8))
    (pk : PublicKey) (underlay : Multiaddr) (overlay : Infinity.Address) (networkID : UInt64)
    (a : Address Multiaddr)
    (hsign : ∀ data sig, sign data = some sig → c.recover sig data = some pk)
    (hoverlay : c.newOverlayAddress pk networkID = some overlay)
    (hmarshal : ∀ b, marshalBinary underlay = some b → c.newMultiaddrBytes b = some underlay)
    (ha : newAddress sign marshalBinary underlay overlay networkID = some a) :
    ∃ b, marshalBinary underlay = some b ∧
      parseAddress c b overlay.bytes a.signature networkID = some a := by
  obtain ⟨b, hb, hsig, ha⟩ := newAddress_eq_some ha
  refine ⟨b, hb, ?_⟩
  rw [ha]
  exact parseAddress_of_recover (hsign _ _ hsig) hoverlay (hmarshal b hb)

/-- A record built and parsed with collaborators that always succeed. -/
theorem parseAddress_newAddress_trivial :
    let c : Recovery Unit (List UInt8) :=
      ⟨fun _ _ => some (), fun _ _ => some (Infinity.Address.ofHead 7), some⟩
    let sign : List UInt8 → Option (List UInt8) := fun _ => some [1, 2]
    let a : Address (List UInt8) := ⟨[4], Infinity.Address.ofHead 7, [1, 2]⟩
    (∀ data sig, sign data = some sig → c.recover sig data = some ()) ∧
      c.newOverlayAddress () 5 = some (Infinity.Address.ofHead 7) ∧
      (∀ b, some [4] = some b → c.newMultiaddrBytes b = some [4]) ∧
      newAddress sign some [4] (Infinity.Address.ofHead 7) 5 = some a ∧
      ∃ b, some [4] = some b ∧
        parseAddress c b (Infinity.Address.ofHead 7).bytes a.signature 5 = some a := by
  intro c sign a
  have hsign : ∀ data sig, sign data = some sig → c.recover sig data = some () :=
    fun _ _ _ => rfl
  have hmarshal : ∀ b, some [4] = some b → c.newMultiaddrBytes b = some [4] :=
    fun _ h => h ▸ rfl
  exact ⟨hsign, rfl, hmarshal, rfl,
    parseAddress_newAddress c sign some () [4] _ 5 a hsign rfl hmarshal rfl⟩

end

end Voyager.Ifi
