import Mathlib.Algebra.Order.Ring.Nat

/-!
# Listing pinned chunks

`PinnedChunks` (`pkg/localstore/pin.go:22-56`): cap `limit` at `maxPage`, and walk the
pin index in key order, skipping `offset` items and then appending items while
counting `limit` down, stopping when it reaches zero. Go's `int` is 64 bits, so
`offset` and `limit` are `BitVec 64` read as signed. The walk skips the first
`max offset 0` items and then appends until `limit--` reaches zero (`pinnedChunks_eq`).
With a positive `limit` that is at most `min limit maxPage` items (`pinnedChunks_pos`).
A `limit` of zero or less only reaches zero after wrapping around, so the walk returns
every remaining item and the `maxPage` cap does not apply (`pinnedChunks_nonpos`).
`shed.Index` is not in the repository; `Count` and `Iterate` are modelled from the
spec, on an index given as its items in key order, without storage errors.
-/

namespace Voyager.Localstore

/-- Modelled from the spec: an item of the pin index (`shed.Item`), the chunk's address
bytes and its pin counter. -/
structure Item where
  address : List UInt8
  pinCounter : UInt64
  deriving DecidableEq, Repr

/-- `storage.Pinner`: the bytes `infinity.NewAddress(item.Address)` wraps, and the pin
counter. -/
structure Pinner where
  address : List UInt8
  pinCounter : UInt64
  deriving DecidableEq, Repr

/-- The `storage.Pinner` the callback appends for an item. -/
def Item.toPinner (item : Item) : Pinner := ⟨item.address, item.pinCounter⟩

/-- `maxPage`, the hard limit of page size. -/
def maxPage : BitVec 64 := 1000

/-- Modelled from the spec: `shed.Index.Iterate` with no start key, which hands `fn` the
items in key order until it asks to stop. -/
def iterate {σ : Type} (fn : σ → Item → σ × Bool) : List Item → σ → σ
  | [], s => s
  | item :: rest, s =>
    match fn s item with
    | (s', true) => s'
    | (s', false) => iterate fn rest s'

/-- The variables `PinnedChunks`'s callback updates. -/
structure PinState where
  offset : BitVec 64
  limit : BitVec 64
  chunks : List Pinner

/-- The callback `PinnedChunks` hands `Iterate` (`pin.go:38-52`). -/
def pinVisit (st : PinState) (item : Item) : PinState × Bool :=
  if 0 < st.offset.toInt then ({ st with offset := st.offset - 1 }, false)
  else
    let limit := st.limit - 1
    ({ st with chunks := st.chunks ++ [item.toPinner], limit := limit }, limit == 0)

/-- `PinnedChunks` (`pin.go:22`), on a pin index given as its items in key order. -/
def pinnedChunks (index : List Item) (offset limit : BitVec 64) : List Pinner :=
  let limit := if maxPage.toInt < limit.toInt then maxPage else limit
  if index.length = 0 then []
  else (iterate pinVisit index ⟨offset, limit, []⟩).chunks

/-! ## The walk -/

/-- How many items the callback appends before `limit--` reaches zero: `limit` read as
unsigned, or all `2 ^ 64` values when it starts at zero. -/
def steps (limit : BitVec 64) : Nat := if limit.toNat = 0 then 2 ^ 64 else limit.toNat

theorem toNat_one_64 : (1 : BitVec 64).toNat = 1 := rfl

theorem toInt_sub_one {x : BitVec 64} (h : 0 < x.toInt) : (x - 1).toInt = x.toInt - 1 := by
  simp only [BitVec.toInt_eq_toNat_cond, BitVec.toNat_sub, toNat_one_64] at *
  split_ifs at * <;> omega

theorem sub_one_eq_zero {x : BitVec 64} : (x - 1 == 0) = decide (x.toNat = 1) := by
  rw [beq_eq_decide, decide_eq_decide, BitVec.toNat_eq, BitVec.toNat_sub, toNat_one_64,
    show (0 : BitVec 64).toNat = 0 from rfl]
  have := x.isLt
  omega

theorem steps_sub_one {x : BitVec 64} (h : x.toNat ≠ 1) : steps x = steps (x - 1) + 1 := by
  have := x.isLt
  simp only [steps, BitVec.toNat_sub, toNat_one_64]
  split_ifs <;> omega

/-- Once the offset is used up, the walk appends the items, `steps limit` of them at most. -/
theorem iterate_append {off : BitVec 64} (hoff : off.toInt ≤ 0) :
    ∀ (items : List Item) (limit : BitVec 64) (cs : List Pinner),
      (iterate pinVisit items ⟨off, limit, cs⟩).chunks =
        cs ++ (items.take (steps limit)).map Item.toPinner
  | [], _, cs => by simp [iterate]
  | item :: rest, limit, cs => by
    simp only [iterate, pinVisit, if_neg (Int.not_lt.2 hoff), sub_one_eq_zero]
    by_cases h1 : limit.toNat = 1
    · simp [h1, steps]
    · rw [decide_eq_false h1, iterate_append hoff rest, steps_sub_one h1, List.take_succ_cons]
      simp

/-- The walk skips as many items as `offset` is positive, then appends. -/
theorem iterate_skip : ∀ (items : List Item) (off limit : BitVec 64),
    (iterate pinVisit items ⟨off, limit, []⟩).chunks =
      ((items.drop off.toInt.toNat).take (steps limit)).map Item.toPinner
  | [], _, _ => by simp [iterate]
  | item :: rest, off, limit => by
    by_cases hoff : 0 < off.toInt
    · have hn : off.toInt.toNat = (off - 1).toInt.toNat + 1 := by rw [toInt_sub_one hoff]; omega
      simp only [iterate, pinVisit, if_pos hoff]
      rw [iterate_skip rest, hn, List.drop_succ_cons]
    · rw [iterate_append (Int.not_lt.1 hoff), show off.toInt.toNat = 0 by omega, List.drop_zero]
      rfl

/-- **What `PinnedChunks` returns.** The items from `max offset 0` on, at most
`steps limit` of them, with `limit` first capped at `maxPage`. -/
theorem pinnedChunks_eq (index : List Item) (offset limit : BitVec 64) :
    pinnedChunks index offset limit =
      ((index.drop offset.toInt.toNat).take
        (steps (if maxPage.toInt < limit.toInt then maxPage else limit))).map Item.toPinner := by
  unfold pinnedChunks
  by_cases h : index.length = 0
  · simp [List.length_eq_zero.1 h]
  · simp only [if_neg h]; exact iterate_skip _ _ _

theorem toInt_maxPage : maxPage.toInt = 1000 := by decide

theorem steps_of_pos {x : BitVec 64} (h : 0 < x.toInt) : steps x = x.toInt.toNat := by
  simp only [steps, BitVec.toInt_eq_toNat_cond] at *
  split_ifs at * <;> omega

theorem le_steps_of_nonpos {x : BitVec 64} (h : x.toInt ≤ 0) : 2 ^ 63 ≤ steps x := by
  simp only [steps, BitVec.toInt_eq_toNat_cond] at *
  split_ifs at * <;> omega

/-- With a positive `limit`, `PinnedChunks` returns the items from `max offset 0` on, at
most `min limit maxPage` of them. -/
theorem pinnedChunks_pos (index : List Item) (offset limit : BitVec 64) (h : 0 < limit.toInt) :
    pinnedChunks index offset limit =
      ((index.drop offset.toInt.toNat).take (min limit.toInt 1000).toNat).map Item.toPinner := by
  rw [pinnedChunks_eq, toInt_maxPage]
  split
  · rw [steps_of_pos (by rw [toInt_maxPage]; omega), toInt_maxPage,
      show (min limit.toInt 1000).toNat = (1000 : Int).toNat by omega]
  · rw [steps_of_pos h, show (min limit.toInt 1000).toNat = limit.toInt.toNat by omega]

/-- Three pinned chunks, `offset = 1` and `limit = 1`: the second one. -/
theorem pinnedChunks_pos_second :
    let index : List Item := [⟨[1], 1⟩, ⟨[2], 1⟩, ⟨[3], 2⟩]
    0 < (1 : BitVec 64).toInt ∧
      pinnedChunks index 1 1 =
        ((index.drop (1 : BitVec 64).toInt.toNat).take (min (1 : BitVec 64).toInt 1000).toNat).map
          Item.toPinner :=
  ⟨by decide, pinnedChunks_pos _ _ _ (by decide)⟩

/-- **A non-positive `limit` lifts the page cap.** `limit > maxPage` is false, the first
`limit--` takes `limit` below zero, and `limit == 0` is only met again after `limit`
wraps around, so `PinnedChunks` returns every item from `max offset 0` on, however many
more than `maxPage` there are. -/
theorem pinnedChunks_nonpos (index : List Item) (offset limit : BitVec 64) (h : limit.toInt ≤ 0)
    (hlen : index.length ≤ 2 ^ 63) :
    pinnedChunks index offset limit = (index.drop offset.toInt.toNat).map Item.toPinner := by
  rw [pinnedChunks_eq, if_neg (by rw [toInt_maxPage]; omega), List.take_of_length_le]
  have := le_steps_of_nonpos h
  simp only [List.length_drop]
  omega

/-- A thousand and one pinned chunks, `offset = 0` and `limit = 0`: all of them come back. -/
theorem pinnedChunks_nonpos_all :
    let index := List.replicate 1001 (⟨[], 1⟩ : Item)
    (0 : BitVec 64).toInt ≤ 0 ∧ index.length ≤ 2 ^ 63 ∧
      pinnedChunks index 0 0 = (index.drop (0 : BitVec 64).toInt.toNat).map Item.toPinner :=
  ⟨by decide, by rw [List.length_replicate]; decide,
    pinnedChunks_nonpos _ _ _ (by decide) (by rw [List.length_replicate]; decide)⟩

end Voyager.Localstore
