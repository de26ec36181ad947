import Voyager.Encoding.Hex
import Mathlib.Algebra.BigOperators.Group.List
import Mathlib.Data.List.Basic

/-!
# Settlements in the debug API

`settlementsHandler` (`pkg/debugapi/settlements.go:35-89`) merges the two maps the
settlement service returns, peer to amount sent and peer to amount received, into one
response per peer, and sums each map. Go visits a map's entries in no fixed order: a
map is modelled as the list of its entries in one order of visit (`GoMap`), and the
results below hold for every such list.

Every peer of either map has exactly one response, with its amounts sent and received,
zero where a map has no entry, and the totals are the sums of the maps
(`settlements_merge`). So two orders of visit give the same totals and the same
responses, in some order (`settlements_orderFree`).

`peerSettlementsHandler` (`settlements.go:91-145`) answers for one peer: it decodes the
peer's hex address, asks the service for that peer's two totals, and answers `404` when
neither exists. When the service's per-peer totals are its maps' entries under the
peer's address written as hex, it answers exactly with the response
`settlementsHandler` has for that peer, or `404` where there is none
(`peerSettlements_agree`). An address written with upper-case letters finds the peer
too.
-/

namespace Voyager.Debugapi
open Voyager.Hex

/-! ## Go maps -/

/-- A Go map, as the list of its entries in one order of visit; its keys are distinct. -/
structure GoMap (κ ν : Type) where
  entries : List (κ × ν)
  nodup : (entries.map Prod.fst).Nodup

namespace GoMap
variable {κ ν : Type} [DecidableEq κ]

/-- The value under `a` in a list of entries, the first one found. -/
def lookup (a : κ) : List (κ × ν) → Option ν
  | [] => none
  | e :: es => if e.1 = a then some e.2 else lookup a es

/-- `m[a]`, `none` where `a` has no entry. -/
def get (m : GoMap κ ν) (a : κ) : Option ν := lookup a m.entries

/-- `m[a] = v` on the entries: the entry of `a` replaced, or a new one appended. -/
def setEntries (a : κ) (v : ν) : List (κ × ν) → List (κ × ν)
  | [] => [(a, v)]
  | e :: es => if e.1 = a then (a, v) :: es else e :: setEntries a v es

theorem mem_keys_setEntries {a b : κ} {v : ν} :
    ∀ {l : List (κ × ν)}, b ∈ (setEntries a v l).map Prod.fst → b = a ∨ b ∈ l.map Prod.fst
  | [], h => by simpa [setEntries] using h
  | e :: es, h => by
    unfold setEntries at h
    split at h
    · simp only [List.map_cons, List.mem_cons] at h ⊢
      rcases h with h | h
      · exact .inl h
      · exact .inr (.inr h)
    · simp only [List.map_cons, List.mem_cons] at h ⊢
      rcases h with h | h
      · exact .inr (.inl h)
      · rcases mem_keys_setEntries h with h | h
        exacts [.inl h, .inr (.inr h)]

theorem nodup_setEntries (a : κ) (v : ν) :
    ∀ {l : List (κ × ν)}, (l.map Prod.fst).Nodup → ((setEntries a v l).map Prod.fst).Nodup
  | [], _ => by simp [setEntries]
  | e :: es, h => by
    rw [List.map_cons, List.nodup_cons] at h
    unfold setEntries
    split
    · next he => rw [List.map_cons, List.nodup_cons, ← he]; exact h
    · next he =>
      rw [List.map_cons, List.nodup_cons]
      exact ⟨fun hm => (mem_keys_setEntries hm).elim he h.1, nodup_setEntries a v h.2⟩

/-- `m[a] = v`. -/
def set (m : GoMap κ ν) (a : κ) (v : ν) : GoMap κ ν := ⟨setEntries a v m.entries, nodup_setEntries a v m.nodup⟩

/-- The empty map. -/
def empty : GoMap κ ν := ⟨[], List.nodup_nil⟩

theorem lookup_setEntries (a b : κ) (v : ν) :
    ∀ l : List (κ × ν), lookup b (setEntries a v l) = if a = b then some v else lookup b l
  | [] => rfl
  | e :: es => by
    unfold setEntries
    by_cases he : e.1 = a
    · rw [if_pos he]
      simp only [lookup, he]
      by_cases hab : a = b <;> simp [hab]
    · rw [if_neg he]
      simp only [lookup, lookup_setEntries a b v es]
      by_cases hb : e.1 = b
      · rw [if_pos hb, if_pos hb, if_neg (fun h => he (hb.trans h.symm))]
      · rw [if_neg hb, if_neg hb]

@[simp] theorem get_set (m : GoMap κ ν) (a b : κ) (v : ν) :
    (m.set a v).get b = if a = b then some v else m.get b :=
  lookup_setEntries a b v m.entries

@[simp] theorem get_empty (a : κ) : (empty : GoMap κ ν).get a = none := rfl

theorem mem_of_lookup {a : κ} {v : ν} : ∀ {l : List (κ × ν)}, lookup a l = some v → (a, v) ∈ l
  | [], h => nomatch h
  | e :: es, h => by
    unfold lookup at h
    split at h
    · next he => cases h; exact List.mem_cons.2 (.inl (by rw [← he]))
    · exact List.mem_cons_of_mem _ (mem_of_lookup h)

theorem lookup_eq_none {a : κ} : ∀ {l : List (κ × ν)}, lookup a l = none ↔ a ∉ l.map Prod.fst
  | [] => by simp [lookup]
  | e :: es => by
    unfold lookup
    split
    · next he => simp [he]
    · next he => rw [lookup_eq_none, List.map_cons, List.mem_cons, not_or]; exact ⟨fun h => ⟨Ne.symm he, h⟩, And.right⟩

theorem lookup_of_mem {a : κ} {v : ν} :
    ∀ {l : List (κ × ν)}, (l.map Prod.fst).Nodup → (a, v) ∈ l → lookup a l = some v
  | [], _, h => nomatch h
  | e :: es, hn, h => by
    rw [List.map_cons, List.nodup_cons] at hn
    unfold lookup
    rcases List.mem_cons.1 h with rfl | h
    · rw [if_pos rfl]
    · have ha : e.1 ≠ a := fun he => hn.1 (he ▸ List.mem_map_of_mem Prod.fst h)
      rw [if_neg ha]
      exact lookup_of_mem hn.2 h

/-- With distinct keys, `m[a] = v` exactly when `(a, v)` is an entry. -/
theorem get_eq_some (m : GoMap κ ν) {a : κ} {v : ν} : m.get a = some v ↔ (a, v) ∈ m.entries :=
  ⟨mem_of_lookup, lookup_of_mem m.nodup⟩

/-- Two orders of visit of one map have the same values. -/
theorem get_perm {m m' : GoMap κ ν} (h : List.Perm m.entries m'.entries) (a : κ) : m.get a = m'.get a := by
  cases hm : m.get a with
  | none =>
    rw [get, lookup_eq_none] at hm
    rw [eq_comm, get, lookup_eq_none, ← (h.map Prod.fst).mem_iff]
    exact hm
  | some v => exact ((m'.get_eq_some).2 (h.subset ((m.get_eq_some).1 hm))).symm

end GoMap

/-! ## `settlementsHandler` -/

/-- `errCantSettlements`. -/
def errCantSettlements : String := "can not get settlements"

/-- `errCantSettlementsPeer`. -/
def errCantSettlementsPeer : String := "can not get settlements for peer"

/-- `settlementResponse`. -/
structure SettlementResponse where
  peer : List UInt8
  settlementReceived : Int
  settlementSent : Int
  deriving DecidableEq, Repr

/-- `settlementsResponse`. -/
structure SettlementsResponse where
  totalSettlementReceived : Int
  totalSettlementSent : Int
  settlements : List SettlementResponse

/-- Why a request is answered `404`: `errInvalidAddress`, whose text is not in the
repository, or `settlement.ErrPeerNoSettlements`. -/
inductive NotFound where
  | invalidAddress
  | peerNoSettlements
  deriving DecidableEq, Repr

/-- A handler's answer: `jsonhttp.OK` with its body, `jsonhttp.NotFound`, or
`jsonhttp.InternalServerError` with its message. -/
inductive Reply (α : Type) where
  | ok (body : α)
  | notFound (reason : NotFound)
  | internalServerError (message : String)

/-- The responses by peer, and a total. -/
abbrev Acc := GoMap (List UInt8) SettlementResponse × Int

/-- The loop over the sent map (`settlements.go:57-64`), at one entry. -/
def sentVisit (acc : Acc) (e : List UInt8 × Int) : Acc :=
  (acc.1.set e.1 ⟨e.1, 0, e.2⟩, e.2 + acc.2)

/-- The loop over the received map (`settlements.go:66-79`), at one entry. -/
def receivedVisit (acc : Acc) (e : List UInt8 × Int) : Acc :=
  match acc.1.get e.1 with
  | some t => (acc.1.set e.1 { t with settlementReceived := e.2 }, e.2 + acc.2)
  | none => (acc.1.set e.1 ⟨e.1, e.2, 0⟩, e.2 + acc.2)

/-- `settlementResponses` after both loops. -/
def settlementResponses (settlementsSent settlementsReceived : GoMap (List UInt8) Int) :
    GoMap (List UInt8) SettlementResponse :=
  (settlementsReceived.entries.foldl receivedVisit
    ((settlementsSent.entries.foldl sentVisit (GoMap.empty, 0)).1, 0)).1

/-- The body `settlementsHandler` answers for the two maps: both loops, then the
responses in the order the merged map is visited (`settlements.go:81-88`). -/
def settlementsResponse (settlementsSent settlementsReceived : GoMap (List UInt8) Int) :
    SettlementsResponse :=
  let sent := settlementsSent.entries.foldl sentVisit (GoMap.empty, 0)
  let received := settlementsReceived.entries.foldl receivedVisit (sent.1, 0)
  ⟨received.2, sent.2, received.1.entries.map Prod.snd⟩

/-- `settlementsHandler` (`settlements.go:35`), on the service's two maps, `none` where
`SettlementsSent` or `SettlementsReceived` fails. -/
def settlementsHandler (settlementsSent settlementsReceived : Option (GoMap (List UInt8) Int)) :
    Reply SettlementsResponse :=
  match settlementsSent, settlementsReceived with
  | some sent, some received => .ok (settlementsResponse sent received)
  | _, _ => .internalServerError errCantSettlements

/-- Each loop adds the amount of every entry it visits to its total. -/
theorem foldl_total (f : Acc → List UInt8 × Int → Acc) (hf : ∀ acc e, (f acc e).2 = e.2 + acc.2) :
    ∀ (l : List (List UInt8 × Int)) (acc : Acc), (l.foldl f acc).2 = (l.map Prod.snd).sum + acc.2
  | [], _ => by simp
  | e :: l, acc => by
    rw [List.foldl_cons, foldl_total f hf l, hf, List.map_cons, List.sum_cons]
    omega

theorem get_foldl_sentVisit (a : List UInt8) :
    ∀ (l : List (List UInt8 × Int)) (acc : Acc), (l.map Prod.fst).Nodup →
      (l.foldl sentVisit acc).1.get a =
        match GoMap.lookup a l with
        | some b => some ⟨a, 0, b⟩
        | none => acc.1.get a
  | [], _, _ => rfl
  | e :: l, acc, hn => by
    rw [List.map_cons, List.nodup_cons] at hn
    rw [List.foldl_cons, get_foldl_sentVisit a l _ hn.2, GoMap.lookup]
    by_cases he : e.1 = a
    · -- the last entry of `a`: no later one overwrites it
      subst he
      rw [GoMap.lookup_eq_none.2 hn.1, if_pos rfl]
      simp [sentVisit]
    · rw [if_neg he]
      cases GoMap.lookup a l <;> simp [sentVisit, he]

theorem get_receivedVisit (acc : Acc) (e : List UInt8 × Int) (a : List UInt8) :
    (receivedVisit acc e).1.get a =
      if e.1 = a then
        some (match acc.1.get e.1 with
          | some t => { t with settlementReceived := e.2 }
          | none => ⟨e.1, e.2, 0⟩)
      else acc.1.get a := by
  unfold receivedVisit
  cases acc.1.get e.1 <;> simp

theorem get_foldl_receivedVisit (a : List UInt8) :
    ∀ (l : List (List UInt8 × Int)) (acc : Acc), (l.map Prod.fst).Nodup →
      (l.foldl receivedVisit acc).1.get a =
        match GoMap.lookup a l with
        | some b => some (match acc.1.get a with
          | some t => { t with settlementReceived := b }
          | none => ⟨a, b, 0⟩)
        | none => acc.1.get a
  | [], _, _ => rfl
  | e :: l, acc, hn => by
    rw [List.map_cons, List.nodup_cons] at hn
    rw [List.foldl_cons, get_foldl_receivedVisit a l _ hn.2, GoMap.lookup, get_receivedVisit]
    by_cases he : e.1 = a
    · subst he
      rw [GoMap.lookup_eq_none.2 hn.1, if_pos rfl, if_pos rfl]
    · rw [if_neg he, if_neg he]

/-- After both loops, a peer of either map has its amounts, zero where a map has no
entry, and any other peer has no response. -/
theorem get_settlementResponses (settlementsSent settlementsReceived : GoMap (List UInt8) Int)
    (a : List UInt8) :
    (settlementResponses settlementsSent settlementsReceived).get a =
      if (settlementsSent.get a).isSome ∨ (settlementsReceived.get a).isSome then
        some ⟨a, (settlementsReceived.get a).getD 0, (settlementsSent.get a).getD 0⟩
      else none := by
  rw [settlementResponses, get_foldl_receivedVisit a _ _ settlementsReceived.nodup,
    get_foldl_sentVisit a _ _ settlementsSent.nodup]
  unfold GoMap.get
  cases GoMap.lookup a settlementsReceived.entries <;>
    cases GoMap.lookup a settlementsSent.entries <;> simp [GoMap.empty, GoMap.lookup]

section
variable (settlementsSent settlementsReceived : GoMap (List UInt8) Int)

/-- Each response is held under its own peer. -/
theorem peer_settlementResponses :
    ∀ e ∈ (settlementResponses settlementsSent settlementsReceived).entries, e.2.peer = e.1 := by
  intro e he
  have := get_settlementResponses settlementsSent settlementsReceived e.1
  rw [(GoMap.get_eq_some _).2 he] at this
  split at this
  · rw [Option.some.inj this]
  · cases this

theorem totals_settlementsResponse :
    (settlementsResponse settlementsSent settlementsReceived).totalSettlementSent =
        (settlementsSent.entries.map Prod.snd).sum ∧
      (settlementsResponse settlementsSent settlementsReceived).totalSettlementReceived =
        (settlementsReceived.entries.map Prod.snd).sum := by
  have hsent := foldl_total sentVisit (fun _ _ => rfl) settlementsSent.entries (GoMap.empty, 0)
  have hreceived := foldl_total receivedVisit
    (fun acc e => by unfold receivedVisit; split <;> rfl) settlementsReceived.entries
    ((settlementsSent.entries.foldl sentVisit (GoMap.empty, 0)).1, 0)
  exact ⟨by simpa using hsent, by simpa using hreceived⟩

theorem nodup_settlementsResponse :
    ((settlementsResponse settlementsSent settlementsReceived).settlements.map
      SettlementResponse.peer).Nodup := by
  have hpeers : ((settlementResponses settlementsSent settlementsReceived).entries.map Prod.snd).map
      SettlementResponse.peer = (settlementResponses settlementsSent settlementsReceived).entries.map
        Prod.fst := by
    rw [List.map_map]
    exact List.map_congr_left fun e he => peer_settlementResponses _ _ e he
  exact hpeers ▸ (settlementResponses settlementsSent settlementsReceived).nodup

theorem mem_settlementsResponse (x : SettlementResponse) :
    x ∈ (settlementsResponse settlementsSent settlementsReceived).settlements ↔
      ((settlementsSent.get x.peer).isSome ∨ (settlementsReceived.get x.peer).isSome) ∧
        x.settlementSent = (settlementsSent.get x.peer).getD 0 ∧
        x.settlementReceived = (settlementsReceived.get x.peer).getD 0 := by
  have hget := get_settlementResponses settlementsSent settlementsReceived
  show x ∈ (settlementResponses settlementsSent settlementsReceived).entries.map Prod.snd ↔ _
  constructor
  · intro hx
    obtain ⟨e, he, rfl⟩ := List.mem_map.1 hx
    have := hget e.1
    rw [(GoMap.get_eq_some _).2 he] at this
    rw [peer_settlementResponses _ _ e he]
    split at this
    · next hpeer => rw [Option.some.inj this]; exact ⟨hpeer, rfl, rfl⟩
    · cases this
  · rintro ⟨hpeer, hsent, hrec⟩
    have := hget x.peer
    rw [if_pos hpeer] at this
    refine List.mem_map.2 ⟨(x.peer, x), (GoMap.get_eq_some _).1 ?_, rfl⟩
    rw [this, ← hsent, ← hrec]

end

/-- The response listed for a peer: its amounts when either map has it, and none
otherwise. -/
theorem find_settlementsResponse (settlementsSent settlementsReceived : GoMap (List UInt8) Int)
    (k : List UInt8) :
    (settlementsResponse settlementsSent settlementsReceived).settlements.find? (fun x => x.peer = k) =
      if (settlementsSent.get k).isSome ∨ (settlementsReceived.get k).isSome then
        some ⟨k, (settlementsReceived.get k).getD 0, (settlementsSent.get k).getD 0⟩
      else none := by
  have hmem := mem_settlementsResponse settlementsSent settlementsReceived
  split
  · next h =>
    cases hf : List.find? _ _ with
    | none =>
      have := List.find?_eq_none.1 hf _ ((hmem ⟨k, (settlementsReceived.get k).getD 0,
        (settlementsSent.get k).getD 0⟩).2 ⟨h, rfl, rfl⟩)
      simp at this
    | some x =>
      have hp : x.peer = k := by simpa using List.find?_some hf
      obtain ⟨_, hsent, hrec⟩ := (hmem x).1 (List.mem_of_find?_eq_some hf)
      rw [← hp, ← hsent, ← hrec]
  · next h =>
    exact List.find?_eq_none.2 fun x hx hp => h (by
      have := ((hmem x).1 hx).1
      rwa [of_decide_eq_true hp] at this)

/-- **The merge of the two maps.** The totals are the sums of the maps; every response is
for a distinct peer; and the responses are exactly one per peer of either map, with its
amounts sent and received, zero where a map has no entry. -/
theorem settlements_merge (settlementsSent settlementsReceived : GoMap (List UInt8) Int) :
    let r := settlementsResponse settlementsSent settlementsReceived
    r.totalSettlementSent = (settlementsSent.entries.map Prod.snd).sum ∧
    r.totalSettlementReceived = (settlementsReceived.entries.map Prod.snd).sum ∧
    (r.settlements.map SettlementResponse.peer).Nodup ∧
    ∀ s, s ∈ r.settlements ↔
      ((settlementsSent.get s.peer).isSome ∨ (settlementsReceived.get s.peer).isSome) ∧
        s.settlementSent = (settlementsSent.get s.peer).getD 0 ∧
        s.settlementReceived = (settlementsReceived.get s.peer).getD 0 :=
  ⟨(totals_settlementsResponse _ _).1, (totals_settlementsResponse _ _).2,
    nodup_settlementsResponse _ _, mem_settlementsResponse _ _⟩

/-- **The response does not depend on the order of visit.** Two orders of the two maps
give the same totals, and the same responses in some order. -/
theorem settlements_orderFree {s s' r r' : GoMap (List UInt8) Int}
    (hs : List.Perm s.entries s'.entries) (hr : List.Perm r.entries r'.entries) :
    (settlementsResponse s r).totalSettlementSent = (settlementsResponse s' r').totalSettlementSent ∧
    (settlementsResponse s r).totalSettlementReceived =
      (settlementsResponse s' r').totalSettlementReceived ∧
    List.Perm (settlementsResponse s r).settlements (settlementsResponse s' r').settlements := by
  obtain ⟨hs₁, hr₁⟩ := totals_settlementsResponse s r
  obtain ⟨hs₁', hr₁'⟩ := totals_settlementsResponse s' r'
  refine ⟨by rw [hs₁, hs₁', (hs.map Prod.snd).sum_eq], by rw [hr₁, hr₁', (hr.map Prod.snd).sum_eq], ?_⟩
  rw [List.perm_ext_iff_of_nodup (List.Nodup.of_map _ (nodup_settlementsResponse s r))
    (List.Nodup.of_map _ (nodup_settlementsResponse s' r'))]
  intro x
  rw [mem_settlementsResponse, mem_settlementsResponse, GoMap.get_perm hs, GoMap.get_perm hr]

/-- Two sent settlements, to the peers whose addresses are `"01"` and `"02"`, visited
in either order. -/
def twoPeers : GoMap (List UInt8) Int := ⟨[(encode [1], 5), (encode [2], 7)], by decide⟩

theorem settlements_orderFree_twoPeers :
    let swapped : GoMap (List UInt8) Int := ⟨[(encode [2], 7), (encode [1], 5)], by decide⟩
    List.Perm twoPeers.entries swapped.entries ∧
    List.Perm (GoMap.empty : GoMap (List UInt8) Int).entries GoMap.empty.entries ∧
    (settlementsResponse twoPeers .empty).totalSettlementSent =
      (settlementsResponse swapped .empty).totalSettlementSent ∧
    (settlementsResponse twoPeers .empty).totalSettlementReceived =
      (settlementsResponse swapped .empty).totalSettlementReceived ∧
    List.Perm (settlementsResponse twoPeers .empty).settlements
      (settlementsResponse swapped .empty).settlements :=
  ⟨.swap _ _ _, .refl _, settlements_orderFree (.swap _ _ _) (.refl _)⟩

/-! ## `peerSettlementsHandler` -/

/-- What the service's `TotalReceived` and `TotalSent` answer besides an amount:
`settlement.ErrPeerNoSettlements`, or another error. -/
inductive SettlementError where
  | peerNoSettlements
  | other
  deriving DecidableEq, Repr

/-- `peerSettlementsHandler` (`settlements.go:91`). The peer is
`infinity.ParseHexAddress` of the path variable, the bytes its hex digits decode to, and
its `String` is their hex again; the service's totals for it are answers. -/
def peerSettlementsHandler (totalReceived totalSent : List UInt8 → Except SettlementError Int)
    (addr : List UInt8) : Reply SettlementResponse :=
  match decode addr with
  | .error _ => .notFound .invalidAddress
  | .ok peer =>
    match totalReceived peer with
    | .error .other => .internalServerError errCantSettlementsPeer
    | received =>
      match totalSent peer with
      | .error .other => .internalServerError errCantSettlementsPeer
      | sent =>
        if received.isOk || sent.isOk then
          .ok ⟨encode peer, received.toOption.getD 0, sent.toOption.getD 0⟩
        else .notFound .peerNoSettlements

/-- The service's total for each peer is its map's entry under the peer's address
written as hex, `ErrPeerNoSettlements` where there is none. -/
def Consistent (settlements : GoMap (List UInt8) Int) (total : List UInt8 → Except SettlementError Int) :
    Prop :=
  ∀ p, total p = match settlements.get (encode p) with
    | some v => .ok v
    | none => .error .peerNoSettlements

/-- **The two endpoints agree.** When the service's per-peer totals are its maps'
entries, `peerSettlementsHandler` answers for a hex address exactly with the response
`settlementsHandler` lists for the peer it decodes to, and `404` where there is none. -/
theorem peerSettlements_agree (settlementsSent settlementsReceived : GoMap (List UInt8) Int)
    (totalReceived totalSent : List UInt8 → Except SettlementError Int)
    (hr : Consistent settlementsReceived totalReceived) (hs : Consistent settlementsSent totalSent)
    (addr : List UInt8) :
    peerSettlementsHandler totalReceived totalSent addr =
      match decode addr with
      | .error _ => .notFound .invalidAddress
      | .ok p =>
        match (settlementsResponse settlementsSent settlementsReceived).settlements.find?
            (fun x => x.peer = encode p) with
        | some x => .ok x
        | none => .notFound .peerNoSettlements := by
  unfold peerSettlementsHandler
  cases decode addr with
  | error _ => rfl
  | ok p =>
    dsimp only
    rw [find_settlementsResponse, hr p, hs p]
    cases settlementsReceived.get (encode p) <;> cases settlementsSent.get (encode p) <;>
      simp [Except.isOk, Except.toBool, Except.toOption]

/-- The service's total for each peer, read off its map. -/
def totalOf (settlements : GoMap (List UInt8) Int) (p : List UInt8) : Except SettlementError Int :=
  match settlements.get (encode p) with
  | some v => .ok v
  | none => .error .peerNoSettlements

theorem peerSettlements_agree_twoPeers :
    Consistent .empty (totalOf .empty) ∧ Consistent twoPeers (totalOf twoPeers) ∧
    peerSettlementsHandler (totalOf .empty) (totalOf twoPeers) (encode [1]) =
      match decode (encode [1]) with
      | .error _ => .notFound .invalidAddress
      | .ok p =>
        match (settlementsResponse twoPeers .empty).settlements.find? (fun x => x.peer = encode p) with
        | some x => .ok x
        | none => .notFound .peerNoSettlements :=
  ⟨fun _ => rfl, fun _ => rfl,
    peerSettlements_agree twoPeers .empty _ _ (fun _ => rfl) (fun _ => rfl) (encode [1])⟩

end Voyager.Debugapi
