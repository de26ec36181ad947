import Voyager.Encoding.Hex
import Mathlib.Data.List.Basic
import Mathlib.Data.List.GetD
import Mathlib.Data.List.Forall2

/-!
# The targets of a pss message

`pssPostHandler` (`pkg/api/pss.go:29-82`) reads the `targets` path variable with
`strings.Split(targetsVar, ",")` and decodes each field with `hex.DecodeString`; the
first field that does not decode, or decodes to more than `targetMaxLength` bytes, makes
it answer `400` (`parseTargets`). It then takes the recipient from the query, or the
topic's own key when the query has none, reads the payload, and hands all four to
`pss.Send`.

The targets format round-trips (`parseTargets_roundTrip`). Any non-empty list of
targets of at most two bytes, written as hex and joined by commas, is read back as
itself. And what is read is such a list, whose hex encodings joined by commas are the
path variable up to the case of its letters. An empty field is a target of no bytes.
`Send` receives exactly the targets read (`pssPostHandler_send`).
-/

namespace Voyager.Api
open Voyager.Hex

/-- `targetMaxLength`. -/
def targetMaxLength : Nat := 2

/-- `','`. -/
def comma : UInt8 := 44

/-- Modelled from strings: `Split` on a one-byte separator, which cuts at every
separator; an empty string is one empty field. -/
def split (s : List UInt8) (sep : UInt8) : List (List UInt8) := s.splitOn sep

/-- The loop over the fields of `targetsVar` (`pss.go:35-46`): `none` where the handler
answers `jsonhttp.BadRequest`. -/
def decodeTargets : List (List UInt8) → Option (List (List UInt8))
  | [] => some []
  | v :: tgts =>
    match decode v with
    | .error _ => none
    | .ok target =>
      if target.length > targetMaxLength then none else (decodeTargets tgts).map (target :: ·)

/-- The targets `pssPostHandler` reads from its `targets` path variable. -/
def parseTargets (targetsVar : List UInt8) : Option (List (List UInt8)) :=
  decodeTargets (split targetsVar comma)

/-- What `pssPostHandler` answers. -/
inductive Status where
  | ok
  | badRequest
  | internalServerError
  deriving DecidableEq, Repr

/-- What `pssPostHandler` reads of a request: the `topic` and `targets` path
variables, the `recipient` query value, and the body as `ioutil.ReadAll` returns it
(`none` on an error). -/
structure PssRequest where
  topicVar : List UInt8
  targetsVar : List UInt8
  recipient : List UInt8
  body : Option (List UInt8)

/-- The handler's collaborators in the pss and crypto packages, not in the repository:
`pss.NewTopic`, the public key of `crypto.Secp256k1PrivateKeyFromBytes(topic[:])`,
`pss.ParseRecipient` (`none` on an error), and whether `pss.Send` fails. -/
structure PssEnv (Topic Key : Type) where
  newTopic : List UInt8 → Topic
  topicKey : Topic → Key
  parseRecipient : List UInt8 → Option Key
  sendFails : Topic → List UInt8 → Key → List (List UInt8) → Bool

/-- A call of `pss.Send`. -/
structure Send (Topic Key : Type) where
  topic : Topic
  payload : List UInt8
  recipient : Key
  targets : List (List UInt8)

section
variable {Topic Key : Type}

/-- `pssPostHandler` (`pss.go:29`): the answer, and the call of `pss.Send` it makes. -/
def pssPostHandler (env : PssEnv Topic Key) (r : PssRequest) : Status × Option (Send Topic Key) :=
  let topic := env.newTopic r.topicVar
  match parseTargets r.targetsVar with
  | none => (.badRequest, none)
  | some targets =>
    let recipient := if r.recipient = [] then some (env.topicKey topic) else env.parseRecipient r.recipient
    match recipient with
    | none => (.badRequest, none)
    | some recipient =>
      match r.body with
      | none => (.internalServerError, none)
      | some payload =>
        (if env.sendFails topic payload recipient targets then .internalServerError else .ok,
          some ⟨topic, payload, recipient, targets⟩)

/-- `Send` receives the targets read from the path variable, and the handler answers
`200` exactly when `Send` is called and succeeds. -/
theorem pssPostHandler_send (env : PssEnv Topic Key) (r : PssRequest) :
    (∀ s, (pssPostHandler env r).2 = some s → parseTargets r.targetsVar = some s.targets) ∧
    ((pssPostHandler env r).1 = .ok ↔ ∃ s, (pssPostHandler env r).2 = some s ∧
      env.sendFails s.topic s.payload s.recipient s.targets = false) := by
  unfold pssPostHandler
  dsimp only
  split
  · simp
  · next targets hp =>
    split
    · simp
    · next key _ =>
      split
      · simp
      · next payload _ =>
        cases hsf : env.sendFails (env.newTopic r.topicVar) payload key targets <;> simp [hp, hsf]

end

/-! ## The targets format -/

theorem hexDigit_ne_comma (n : UInt8) : hexDigit n ≠ comma := by
  unfold hexDigit
  by_cases h : n.toNat < hextable.length
  · rw [List.getD_eq_getElem _ _ h]
    exact (by decide : ∀ x ∈ hextable, x ≠ comma) _ (List.getElem_mem h)
  · rw [List.getD_eq_default _ _ (by omega)]
    decide

theorem comma_not_mem_encode : ∀ t : List UInt8, comma ∉ encode t
  | [] => List.not_mem_nil _
  | v :: t => by
    rw [encode_cons, List.mem_cons, List.mem_cons, not_or, not_or]
    exact ⟨(hexDigit_ne_comma _).symm, (hexDigit_ne_comma _).symm, comma_not_mem_encode t⟩

theorem lowerDigit_comma : lowerDigit comma = comma := by decide

theorem map_intercalate (f : UInt8 → UInt8) (x : UInt8) :
    ∀ xs : List (List UInt8), ([x].intercalate xs).map f = [f x].intercalate (xs.map (List.map f))
  | [] => rfl
  | [_] => by simp [List.intercalate]
  | a :: b :: xs => by
    have := map_intercalate f x (b :: xs)
    simp only [List.intercalate, List.intersperse_cons_cons, List.flatten_cons, List.map_append,
      List.map_cons] at this ⊢
    rw [this]
    rfl

/-- The fields read are decoded one by one, each to at most two bytes. -/
theorem decodeTargets_eq_some : ∀ (vs : List (List UInt8)) (ts : List (List UInt8)),
    decodeTargets vs = some ts ↔
      List.Forall₂ (fun v t => decode v = .ok t ∧ t.length ≤ targetMaxLength) vs ts
  | [], ts => by cases ts <;> simp [decodeTargets]
  | v :: vs, ts => by
    have ih := decodeTargets_eq_some vs
    unfold decodeTargets
    cases hv : decode v with
    | error e => cases ts <;> simp [hv]
    | ok t =>
      dsimp only
      cases ts with
      | nil => split <;> simp
      | cons t' ts =>
        rw [List.forall₂_cons, hv, Except.ok.injEq, ← ih]
        by_cases hl : t.length > targetMaxLength
        · rw [if_pos hl]
          simp only [reduceCtorEq, false_iff, not_and]
          rintro ⟨rfl, h⟩
          omega
        · rw [if_neg hl]
          cases decodeTargets vs with
          | none => simp
          | some ts' =>
            simp only [Option.map_some', Option.some.injEq, List.cons.injEq]
            exact ⟨fun ⟨h, h'⟩ => ⟨⟨h, h ▸ Nat.le_of_not_gt hl⟩, h'⟩,
              fun ⟨⟨h, _⟩, h'⟩ => ⟨h, h'⟩⟩

/-- **The targets format round-trips.** Any non-empty list of targets of at most
`targetMaxLength` bytes, written as hex and joined by commas, is read back as itself.
And what is read from a path variable is such a list, whose hex encodings joined by
commas are the path variable with its letters lowered. -/
theorem parseTargets_roundTrip :
    (∀ ts : List (List UInt8), ts ≠ [] → (∀ t ∈ ts, t.length ≤ targetMaxLength) →
      parseTargets ([comma].intercalate (ts.map encode)) = some ts) ∧
    (∀ v ts, parseTargets v = some ts → ts ≠ [] ∧ (∀ t ∈ ts, t.length ≤ targetMaxLength) ∧
      [comma].intercalate (ts.map encode) = v.map lowerDigit) := by
  constructor
  · intro ts hts hlen
    unfold parseTargets split
    rw [List.splitOn_intercalate _ comma (by simpa using fun t _ => comma_not_mem_encode t)
      (by simpa using hts), decodeTargets_eq_some, List.forall₂_map_left_iff]
    exact List.forall₂_same.2 fun t ht => ⟨decode_encode t, hlen t ht⟩
  · intro v ts h
    unfold parseTargets split at h
    rw [decodeTargets_eq_some] at h
    -- the fields, each written again as hex with its letters lowered
    have hmap : ts.map encode = (v.splitOn comma).map (List.map lowerDigit) := by
      have h₁ : List.Forall₂ (fun w t => w.map lowerDigit = encode t) (v.splitOn comma) ts :=
        h.imp fun _ _ hv => (encode_decode hv.1).symm
      have := List.forall₂_map_left_iff.2 (List.forall₂_map_right_iff.2 h₁)
      rw [List.forall₂_eq_eq_eq] at this
      exact this.symm
    refine ⟨?_, ?_, ?_⟩
    · rintro rfl
      exact List.splitOnP_ne_nil _ _ (List.forall₂_nil_right_iff.1 h)
    · have h' : List.Forall₂ (fun t v => t.length ≤ targetMaxLength ∧ decode v = .ok t) ts _ :=
        List.Forall₂.flip (h.imp fun _ _ hv => ⟨hv.2, hv.1⟩)
      exact ((List.forall₂_and_left _ _).1 h').1
    · rw [hmap, show [comma] = [lowerDigit comma] by rw [lowerDigit_comma], ← map_intercalate,
        List.intercalate_splitOn]

/-- An empty path variable is one target of no bytes. -/
example : parseTargets [] = some [[]] := by decide

end Voyager.Api
