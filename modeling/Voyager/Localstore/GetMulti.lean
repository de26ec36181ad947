import Voyager.Chunk.Format
import Mathlib.Data.List.Forall2

/-!
# Getting several chunks at once

`GetMulti` and `getMulti` (`pkg/localstore/mode_get_multi.go:30-95`). `getMulti` fills
one item per address from the retrieval index, then acts by mode: `ModeGetRequest`
hands the items to `updateGCItems`, `ModeGetPin` fills their pin counters from the pin
index, `ModeGetSync` and `ModeGetLookup` do nothing more, and any other mode returns
`ErrInvalidMode`. `GetMulti` turns `leveldb.ErrNotFound` into `storage.ErrNotFound` and
returns no chunk with an error. `shed.Index.Fill` is not in the repository: it looks
the items up by their keys in order and stops at the first error (`fill`).

`GetMulti` is all or nothing: it returns a chunk for every address, in the order asked,
with the data the retrieval index holds and, in `ModeGetPin`, the pin counter, or no
chunk at all. It succeeds exactly when the mode is one of the four and every address
is found, in the pin index too for `ModeGetPin`; the access timestamps are updated only
for a successful `ModeGetRequest`, for every chunk returned (`getMulti_allOrNothing`).
-/

namespace Voyager.Localstore
open Voyager.Infinity

/-- What the database answers for a key besides a value: `leveldb.ErrNotFound`, or
another error. -/
inductive DbError where
  | notFound
  | failed
  deriving DecidableEq, Repr

/-- `storage.ModeGet`, a Go `int`: one of the four modes, or any other value. -/
inductive ModeGet where
  | request
  | sync
  | lookup
  | pin
  | other (n : Int)
  deriving DecidableEq, Repr

/-- What `getMulti` returns besides items: the database's error, or `ErrInvalidMode`. -/
inductive GetMultiError where
  | db (e : DbError)
  | invalidMode
  deriving DecidableEq, Repr

/-- What `GetMulti` returns besides chunks: `storage.ErrNotFound`, `ErrInvalidMode`, or
the database's other error. -/
inductive GetError where
  | notFound
  | invalidMode
  | failed
  deriving DecidableEq, Repr

/-- A `shed.Item` as `getMulti` fills it: the address, the data of the retrieval index
and the pin counter. -/
structure GetItem where
  address : Address
  data : List UInt8
  pinCounter : UInt64
  deriving DecidableEq, Repr

/-- A chunk `GetMulti` returns: `infinity.NewChunk(address, data)` with its pin counter. -/
structure PinCountedChunk where
  chunk : Chunk
  pinCounter : UInt64
  deriving DecidableEq, Repr

/-- Modelled from shed: `Index.Fill`, which looks each item up by its key in turn, sets
the fields the index holds (`set`), and stops at the first error. -/
def fill {α : Type} (index : Address → Except DbError α) (set : GetItem → α → GetItem) :
    List GetItem → Except DbError (List GetItem)
  | [] => .ok []
  | i :: rest =>
    match index i.address with
    | .error e => .error e
    | .ok v => (fill index set rest).map (set i v :: ·)

/-- `getMulti` (`mode_get_multi.go:60`): the items, and the items handed to
`updateGCItems`. -/
def getMulti (retrieval : Address → Except DbError (List UInt8))
    (pins : Address → Except DbError UInt64) (mode : ModeGet) (addrs : List Address) :
    Except GetMultiError (List GetItem) × List GetItem :=
  let out : List GetItem := addrs.map fun a => ⟨a, [], 0⟩
  match fill retrieval (fun i d => { i with data := d }) out with
  | .error e => (.error (.db e), [])
  | .ok out =>
    match mode with
    | .request => (.ok out, out)
    | .pin =>
      match fill pins (fun i c => { i with pinCounter := c }) out with
      | .error e => (.error (.db e), [])
      | .ok out => (.ok out, [])
    | .sync | .lookup => (.ok out, [])
    | .other _ => (.error .invalidMode, [])

/-- The chunk `GetMulti` makes of an item:
`infinity.NewChunk(infinity.NewAddress(ch.Address), ch.Data).WithPinCounter(ch.PinCounter)`. -/
def GetItem.toChunk (i : GetItem) : PinCountedChunk := ⟨⟨i.address, i.data⟩, i.pinCounter⟩

/-- `GetMulti` (`mode_get_multi.go:34`): the chunks, and the items whose access
timestamps are updated. -/
def getMultiChunks (retrieval : Address → Except DbError (List UInt8))
    (pins : Address → Except DbError UInt64) (mode : ModeGet) (addrs : List Address) :
    Except GetError (List PinCountedChunk) × List GetItem :=
  let r := getMulti retrieval pins mode addrs
  match r.1 with
  | .error (.db .notFound) => (.error .notFound, r.2)
  | .error (.db .failed) => (.error .failed, r.2)
  | .error .invalidMode => (.error .invalidMode, r.2)
  | .ok out => (.ok (out.map GetItem.toChunk), r.2)

/-- The modes `getMulti` knows. -/
def ModeGet.Known : ModeGet → Prop
  | .other _ => False
  | _ => True

/-! ## `Fill` -/

/-- `Fill` succeeds exactly when every item's key has a value, and then sets each
item's fields from its own value. -/
theorem fill_eq_ok {α : Type} (index : Address → Except DbError α) (set : GetItem → α → GetItem) :
    ∀ (items items' : List GetItem), fill index set items = .ok items' ↔
      List.Forall₂ (fun i i' => ∃ v, index i.address = .ok v ∧ i' = set i v) items items'
  | [], items' => by cases items' <;> simp [fill, List.forall₂_nil_left_iff]
  | i :: items, items' => by
    have ih := fill_eq_ok index set items
    rw [fill]
    cases hi : index i.address with
    | error e => cases items' <;> simp [hi, List.forall₂_nil_right_iff]
    | ok v =>
      cases hm : fill index set items with
      | error e =>
        cases items' with
        | nil => simp [Except.map, List.forall₂_nil_right_iff]
        | cons i' items' =>
          simpa [Except.map, hi] using fun _ h => nomatch hm.symm.trans ((ih items').2 h)
      | ok items'' =>
        cases items' with
        | nil => simp [Except.map, List.forall₂_nil_right_iff]
        | cons i' items' =>
          have h := ih items'
          rw [hm, Except.ok.injEq] at h
          simp only [Except.map, Except.ok.injEq, List.cons.injEq, List.forall₂_cons, hi, h]
          exact ⟨fun ⟨h₁, h₂⟩ => ⟨⟨v, rfl, h₁.symm⟩, h₂⟩, fun ⟨⟨_, h₁, h₂⟩, h₃⟩ =>
            ⟨by cases h₁; exact h₂.symm, h₃⟩⟩

/-- `Fill` succeeds exactly when every item's key has a value. -/
theorem fill_ok_iff {α : Type} (index : Address → Except DbError α) (set : GetItem → α → GetItem) :
    ∀ items : List GetItem, (∃ items', fill index set items = .ok items') ↔
      ∀ i ∈ items, ∃ v, index i.address = .ok v
  | [] => by simp [fill]
  | i :: items => by
    rw [List.forall_mem_cons, ← fill_ok_iff index set items, fill]
    cases index i.address with
    | error e => simp
    | ok v =>
      cases fill index set items with
      | error e => simp [Except.map]
      | ok items' => simp [Except.map]

/-- Two lists related elementwise to one list by relations that fix each element are
equal. -/
theorem forall₂_unique {α β : Type} {R S : α → β → Prop} (hRS : ∀ a b c, R a b → S a c → b = c) :
    ∀ {l : List α} {l₁ l₂ : List β}, List.Forall₂ R l l₁ → List.Forall₂ S l l₂ → l₁ = l₂
  | _, _, _, .nil, .nil => rfl
  | _, _, _, .cons h₁ t₁, .cons h₂ t₂ => by rw [hRS _ _ _ h₁ h₂, forall₂_unique hRS t₁ t₂]

/-- Two walks in a row relate each element to the last through some middle one. -/
theorem forall₂_comp {α β γ : Type} {R : α → β → Prop} {S : β → γ → Prop} :
    ∀ {l₁ : List α} {l₃ : List γ}, (∃ l₂, List.Forall₂ R l₁ l₂ ∧ List.Forall₂ S l₂ l₃) ↔
      List.Forall₂ (fun a c => ∃ b, R a b ∧ S b c) l₁ l₃
  | [], l₃ => by
    cases l₃ <;> simp [List.forall₂_nil_left_iff]
  | a :: l₁, [] => by simp [List.forall₂_nil_right_iff]
  | a :: l₁, c :: l₃ => by
    rw [List.forall₂_cons, ← forall₂_comp]
    constructor
    · rintro ⟨_ | ⟨b, l₂⟩, h₁, h₂⟩
      · cases h₁
      · rw [List.forall₂_cons] at h₁ h₂
        exact ⟨⟨b, h₁.1, h₂.1⟩, l₂, h₁.2, h₂.2⟩
    · rintro ⟨⟨b, hab, hbc⟩, l₂, h₁, h₂⟩
      exact ⟨b :: l₂, .cons hab h₁, .cons hbc h₂⟩

/-- The items `getMulti` makes, filled from the retrieval index. -/
theorem fill_retrieval (retrieval : Address → Except DbError (List UInt8)) (addrs : List Address)
    (out : List GetItem) :
    fill retrieval (fun i d => { i with data := d }) (addrs.map fun a => ⟨a, [], 0⟩) = .ok out ↔
      List.Forall₂ (fun a i => ∃ d, retrieval a = .ok d ∧ i = ⟨a, d, 0⟩) addrs out := by
  rw [fill_eq_ok, List.forall₂_map_left_iff]

/-! ## `getMulti` and `GetMulti` -/

/-- What a chunk `GetMulti` returns for an address holds: its address, the data the
retrieval index holds for it and, in `ModeGetPin`, the pin counter of the pin index,
else zero. -/
def Got (retrieval : Address → Except DbError (List UInt8)) (pins : Address → Except DbError UInt64)
    (mode : ModeGet) (a : Address) (c : PinCountedChunk) : Prop :=
  c.chunk.address = a ∧ retrieval a = .ok c.chunk.data ∧
    (if mode = .pin then pins a else .ok 0) = .ok c.pinCounter

section
variable (retrieval : Address → Except DbError (List UInt8)) (pins : Address → Except DbError UInt64)

/-- A chunk got for an address fixes the item it comes from. -/
theorem got_unique (mode : ModeGet) (a : Address) (i i' : GetItem) :
    Got retrieval pins mode a i.toChunk → Got retrieval pins mode a i'.toChunk → i = i' := by
  rintro ⟨ha, hd, hp⟩ ⟨ha', hd', hp'⟩
  obtain ⟨_, _, _⟩ := i
  obtain ⟨_, _, _⟩ := i'
  simp only [GetItem.toChunk] at *
  subst ha ha'
  rw [hd, Except.ok.injEq] at hd'
  rw [hp, Except.ok.injEq] at hp'
  rw [hd', hp']

/-- Outside `ModeGetPin`, the items filled from the retrieval index are the chunks got. -/
theorem got_iff_retrieved {mode : ModeGet} (hm : mode ≠ .pin) {addrs : List Address} {out₁ : List GetItem}
    (h₁ : List.Forall₂ (fun a i => ∃ d, retrieval a = .ok d ∧ i = ⟨a, d, 0⟩) addrs out₁) (out : List GetItem) :
    out₁ = out ↔ List.Forall₂ (fun a i => Got retrieval pins mode a i.toChunk) addrs out :=
  have h₁' : List.Forall₂ (fun a i => Got retrieval pins mode a i.toChunk) addrs out₁ :=
    h₁.imp fun a i ⟨d, hd, hi⟩ => by subst hi; exact ⟨rfl, hd, by rw [if_neg hm]; rfl⟩
  ⟨fun h => h ▸ h₁', forall₂_unique (got_unique retrieval pins mode) h₁'⟩

/-- In `ModeGetPin`, the pin index fills the items from the retrieval index into the
chunks got. -/
theorem fill_pins_iff {addrs : List Address} {out₁ : List GetItem}
    (h₁ : List.Forall₂ (fun a i => ∃ d, retrieval a = .ok d ∧ i = ⟨a, d, 0⟩) addrs out₁) (out : List GetItem) :
    fill pins (fun i c => { i with pinCounter := c }) out₁ = .ok out ↔
      List.Forall₂ (fun a i => Got retrieval pins .pin a i.toChunk) addrs out := by
  rw [fill_eq_ok]
  constructor
  · intro h₂
    exact (forall₂_comp.1 ⟨out₁, h₁, h₂⟩).imp fun a i' ⟨i, ⟨d, hd, hi⟩, c, hc, hi'⟩ => by
      subst hi hi'; exact ⟨rfl, hd, hc⟩
  · intro h
    exact (forall₂_comp.1 ⟨addrs, h₁.flip, h⟩).imp fun i i' ⟨a, ⟨d, hd, hi⟩, hg⟩ => by
      have hc : pins a = .ok i'.pinCounter := hg.2.2
      subst hi
      exact ⟨_, hc, got_unique retrieval pins .pin a _ _ hg ⟨rfl, hd, hc⟩⟩

/-- `getMulti` succeeds exactly on a known mode with every address found, in the pin
index too for `ModeGetPin`, and its items then come in the order of the addresses. -/
theorem getMulti_ok (mode : ModeGet) (addrs : List Address) (out : List GetItem) :
    (getMulti retrieval pins mode addrs).1 = .ok out ↔ mode.Known ∧
      List.Forall₂ (fun a i => Got retrieval pins mode a i.toChunk) addrs out := by
  have hret := fill_retrieval retrieval addrs
  unfold getMulti
  dsimp only
  cases hf : fill retrieval (fun i d => { i with data := d }) (addrs.map fun a => ⟨a, [], 0⟩) with
  | error e =>
    -- the chunks got would have filled every item from the retrieval index
    refine ⟨nofun, fun ⟨_, h⟩ => nomatch hf.symm.trans
      ((hret (out.map fun i => ⟨i.address, i.data, 0⟩)).2 (List.forall₂_map_right_iff.2
      (h.imp fun a i ⟨ha, hd, _⟩ => ⟨_, hd, by subst ha; rfl⟩)))⟩
  | ok out₁ =>
    have h₁ := (hret out₁).1 hf
    cases mode with
    | other n => exact ⟨nofun, fun ⟨h, _⟩ => h.elim⟩
    | pin =>
      have hpin := fill_pins_iff retrieval pins h₁
      cases hp : fill pins (fun i c => { i with pinCounter := c }) out₁ with
      | error e =>
        simp only [hp]
        exact ⟨nofun, fun ⟨_, h⟩ => nomatch hp.symm.trans ((hpin out).2 h)⟩
      | ok out₂ =>
        simp only [hp]
        rw [Except.ok.injEq, ← hpin, hp, Except.ok.injEq]
        exact ⟨fun h => ⟨trivial, h⟩, And.right⟩
    | request | sync | lookup =>
      rw [Except.ok.injEq]
      exact (got_iff_retrieved retrieval pins (by decide) h₁ out).trans (and_iff_right trivial).symm

/-- `getMulti` checks the mode only after every address is found. -/
theorem getMulti_invalidMode (mode : ModeGet) (addrs : List Address) :
    (getMulti retrieval pins mode addrs).1 = .error .invalidMode ↔
      ¬ mode.Known ∧ ∀ a ∈ addrs, ∃ d, retrieval a = .ok d := by
  have hfound := fill_ok_iff retrieval (fun i d => { i with data := d }) (addrs.map fun a => ⟨a, [], 0⟩)
  rw [List.forall_mem_map] at hfound
  rw [← hfound]
  unfold getMulti
  dsimp only
  cases fill retrieval (fun i d => { i with data := d }) (addrs.map fun a => ⟨a, [], 0⟩) with
  | error e => simp
  | ok out₁ =>
    cases mode with
    | other n => exact ⟨fun _ => ⟨id, _, rfl⟩, fun _ => rfl⟩
    | pin =>
      simp only [ModeGet.Known, not_true_eq_false, false_and, iff_false]
      split <;> simp
    | request | sync | lookup => simp [ModeGet.Known]

/-- The items `getMulti` hands to `updateGCItems`: those it returns, for a successful
`ModeGetRequest`, and none otherwise. -/
theorem getMulti_snd (mode : ModeGet) (addrs : List Address) :
    (getMulti retrieval pins mode addrs).2 =
      match (getMulti retrieval pins mode addrs).1 with
      | .ok out => if mode = .request then out else []
      | .error _ => [] := by
  unfold getMulti
  dsimp only
  cases fill retrieval (fun i d => { i with data := d }) (addrs.map fun a => ⟨a, [], 0⟩) with
  | error e => rfl
  | ok out₁ =>
    cases mode with
    | pin =>
      cases hp : fill pins (fun i c => { i with pinCounter := c }) out₁ <;> simp [hp]
    | _ => rfl

theorem getMultiChunks_fst (mode : ModeGet) (addrs : List Address) (chs : List PinCountedChunk) :
    (getMultiChunks retrieval pins mode addrs).1 = .ok chs ↔
      ∃ out, (getMulti retrieval pins mode addrs).1 = .ok out ∧ out.map GetItem.toChunk = chs := by
  unfold getMultiChunks
  dsimp only
  split <;> simp_all

theorem getMultiChunks_invalidMode (mode : ModeGet) (addrs : List Address) :
    (getMultiChunks retrieval pins mode addrs).1 = .error .invalidMode ↔
      (getMulti retrieval pins mode addrs).1 = .error .invalidMode := by
  unfold getMultiChunks
  dsimp only
  split <;> simp_all

/-- **`GetMulti` is all or nothing.** It returns chunks exactly when the mode is one of
the four and every address is found, in the pin index too for `ModeGetPin`: one chunk
per address, in the order asked, with the data of the retrieval index and the pin
counter. An unknown mode is reported only when every address is found. The access
timestamps are updated for exactly the chunks of a successful `ModeGetRequest`, and for
no chunk otherwise. -/
theorem getMulti_allOrNothing (mode : ModeGet) (addrs : List Address) :
    (∀ chs, (getMultiChunks retrieval pins mode addrs).1 = .ok chs ↔
        mode.Known ∧ List.Forall₂ (Got retrieval pins mode) addrs chs) ∧
    ((getMultiChunks retrieval pins mode addrs).1 = .error .invalidMode ↔
        ¬ mode.Known ∧ ∀ a ∈ addrs, ∃ d, retrieval a = .ok d) ∧
    (getMultiChunks retrieval pins mode addrs).2.map GetItem.toChunk =
      match (getMultiChunks retrieval pins mode addrs).1 with
      | .ok chs => if mode = .request then chs else []
      | .error _ => [] := by
  refine ⟨fun chs => ?_, by rw [getMultiChunks_invalidMode, getMulti_invalidMode], ?_⟩
  · rw [getMultiChunks_fst]
    constructor
    · rintro ⟨out, h, rfl⟩
      obtain ⟨hk, hgot⟩ := (getMulti_ok retrieval pins mode addrs out).1 h
      exact ⟨hk, List.forall₂_map_right_iff.2 hgot⟩
    · rintro ⟨hk, hgot⟩
      -- the items of the chunks got
      have hout : (chs.map fun c => (⟨c.chunk.address, c.chunk.data, c.pinCounter⟩ : GetItem)).map
          GetItem.toChunk = chs := by
        rw [List.map_map]; exact List.map_id' chs
      rw [← hout, List.forall₂_map_right_iff] at hgot
      exact ⟨_, (getMulti_ok retrieval pins mode addrs _).2 ⟨hk, hgot⟩, hout⟩
  · unfold getMultiChunks
    dsimp only
    split <;> rename_i h <;> rw [getMulti_snd, h]
    any_goals rfl
    exact apply_ite (List.map GetItem.toChunk) (mode = .request) _ _

/-- An unknown mode with an address missing is reported as the missing chunk. -/
example : (getMultiChunks (fun _ => .error .notFound) (fun _ => .ok 0) (.other 5)
    [Address.ofHead 1]).1 = .error .notFound := rfl

end

end Voyager.Localstore
