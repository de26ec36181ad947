import Mathlib.Data.List.Basic

/-!
# `ChunkPipe`: writes regrouped into chunk-sized pieces

`pkg/file/buffer.go`. `Write` copies the caller's bytes into a buffer of
`maxBufferSize = 2 * ChunkSize` bytes and hands the pipe's writer end the first
`ChunkSize` bytes each time the buffer holds that many; `Close` hands it what is
left. The writer end is a parameter (`Writer`) whose answer may depend on
everything it was handed before. After writes the writer accepted in full the
pipe keeps `Holds`: at most one chunk buffered, whole chunks handed over. From it,
the pieces the writer receives are the `ChunkSize` pieces of the concatenated
writes, however they were cut (`pieces_of_writes`).
-/

namespace Voyager.File

/-- Modelled from the spec: `infinity.ChunkSize`, the payload size of a chunk. -/
def chunkSize : Nat := 4096

/-- `maxBufferSize` (`buffer.go:14`). -/
def maxBufferSize : Nat := chunkSize * 2

/-- Go's `copy(dst[off:], src)` on the backing array `dst`: the array after the
copy, and the count copied. -/
def copyAt {α : Type} (dst : List α) (off : Nat) (src : List α) : List α × Nat :=
  let n := min (dst.length - off) src.length
  (dst.take off ++ src.take n ++ dst.drop (off + n), n)

theorem copyAt_length {α : Type} (dst : List α) (off : Nat) (src : List α) (h : off ≤ dst.length) :
    (copyAt dst off src).1.length = dst.length := by
  simp only [copyAt, List.length_append, List.length_take, List.length_drop]
  omega

theorem take_copyAt {α : Type} (dst : List α) (off : Nat) (src : List α) (h : off ≤ dst.length) :
    (copyAt dst off src).1.take (off + (copyAt dst off src).2) =
      dst.take off ++ src.take (copyAt dst off src).2 := by
  simp only [copyAt]
  rw [List.take_left']
  simp only [List.length_append, List.length_take]
  omega

/-- Why a `Write` or a `Close` failed: `io.ErrShortWrite`, or the writer's own error. -/
inductive WriteError where
  | shortWrite
  | writer (code : Nat)
  deriving DecidableEq, Repr

/-- The pipe's writer end: its answer `(written, err)` to a `Write` after it was
handed `sent`, and its answer to `Close`. -/
structure Writer where
  write : List (List UInt8) → List UInt8 → Nat × Option WriteError
  close : List (List UInt8) → Option WriteError

/-- A `ChunkPipe` (`buffer.go:19`) with what its writer end was handed so far. -/
structure ChunkPipe where
  data : List UInt8
  cursor : Nat
  sent : List (List UInt8)
  data_length : data.length = maxBufferSize
  cursor_le : cursor ≤ maxBufferSize

namespace ChunkPipe

/-- `NewChunkPipe` (`buffer.go:27`). -/
def new : ChunkPipe :=
  ⟨List.replicate maxBufferSize 0, 0, [], List.length_replicate _ _, Nat.zero_le _⟩

/-- The count `copy(c.data[c.cursor:], src)` copies. -/
def copied (c : ChunkPipe) (src : List UInt8) : Nat :=
  (copyAt c.data c.cursor src).2

/-- `copied := copy(c.data[c.cursor:], src); c.cursor += copied` (`buffer.go:50-51`). -/
def fill (c : ChunkPipe) (src : List UInt8) : ChunkPipe where
  data := (copyAt c.data c.cursor src).1
  cursor := c.cursor + c.copied src
  sent := c.sent
  data_length := by
    rw [copyAt_length _ _ _ (c.data_length ▸ c.cursor_le), c.data_length]
  cursor_le := by
    have := c.cursor_le; have := c.data_length
    simp only [copied, copyAt]; omega

/-- `c.cursor -= ChunkSize; copy(c.data, c.data[ChunkSize:])` (`buffer.go:65-67`). -/
def shift (c : ChunkPipe) : ChunkPipe where
  data := (copyAt c.data 0 (c.data.drop chunkSize)).1
  cursor := c.cursor - chunkSize
  sent := c.sent
  data_length := by rw [copyAt_length _ _ _ (Nat.zero_le _), c.data_length]
  cursor_le := by have := c.cursor_le; omega

/-- `piece` handed to `c.writer.Write`, whatever the writer answers. -/
def hand (c : ChunkPipe) (piece : List UInt8) : ChunkPipe :=
  { c with sent := c.sent ++ [piece] }

@[simp] theorem fill_sent (c : ChunkPipe) (src : List UInt8) : (c.fill src).sent = c.sent := rfl
@[simp] theorem shift_sent (c : ChunkPipe) : c.shift.sent = c.sent := rfl
@[simp] theorem hand_sent (c : ChunkPipe) (p : List UInt8) : (c.hand p).sent = c.sent ++ [p] := rfl
@[simp] theorem hand_data (c : ChunkPipe) (p : List UInt8) : (c.hand p).data = c.data := rfl
@[simp] theorem hand_cursor (c : ChunkPipe) (p : List UInt8) : (c.hand p).cursor = c.cursor := rfl
@[simp] theorem shift_cursor (c : ChunkPipe) : c.shift.cursor = c.cursor - chunkSize := rfl

theorem copied_pos (c : ChunkPipe) {src : List UInt8} (hc : c.cursor < maxBufferSize)
    (hs : src ≠ []) : 0 < c.copied src := by
  have := List.length_pos.2 hs; have := c.data_length
  simp only [copied, copyAt]; omega

theorem copied_le (c : ChunkPipe) (src : List UInt8) : c.copied src ≤ src.length := by
  simp only [copied, copyAt]; omega

/-- `Write`'s loop (`buffer.go:45-69`) with `nw` bytes of `b` taken: the pipe, the
count `nw` and the error `Write` returns. -/
def writeLoop (w : Writer) (b : List UInt8) (c : ChunkPipe) (nw : Nat) :
    ChunkPipe × Nat × Option WriteError :=
  if _h : nw < b.length then
    let c₁ := c.fill (b.drop nw)
    let nw₁ := nw + c.copied (b.drop nw)
    if _hc : chunkSize ≤ c₁.cursor then
      let piece := c₁.data.take chunkSize
      let reply := w.write c₁.sent piece
      match reply.2 with
      | some e => (c₁.hand piece, nw₁, some e)
      | none =>
        if chunkSize ≠ reply.1 then (c₁.hand piece, nw₁, some .shortWrite)
        else (c₁.hand piece).shift.writeLoop w b nw₁
    else c₁.writeLoop w b nw₁
  else (c, nw, none)
termination_by (b.length - nw, c.cursor)
decreasing_by
  · have hc' : chunkSize ≤ c.cursor + c.copied (b.drop nw) := _hc
    rcases Nat.eq_zero_or_pos (c.copied (b.drop nw)) with h0 | h0
    · rw [h0, Nat.add_zero]
      refine Prod.Lex.right' _ (by omega) ?_
      show c.cursor + c.copied (b.drop nw) - chunkSize < c.cursor
      unfold chunkSize at hc' ⊢; omega
    · exact Prod.Lex.left _ _ (by omega)
  · have hc' : ¬chunkSize ≤ c.cursor + c.copied (b.drop nw) := _hc
    have hpos : 0 < c.copied (b.drop nw) :=
      c.copied_pos (by unfold maxBufferSize; omega) (by simpa using _h)
    exact Prod.Lex.left _ _ (by omega)

/-- `Write(b)`: the pipe and the `(n, err)` it returns. -/
def write (w : Writer) (c : ChunkPipe) (b : List UInt8) : ChunkPipe × Nat × Option WriteError :=
  c.writeLoop w b 0

/-- `Close` (`buffer.go:75-86`): the pipe and the error it returns. -/
def close (w : Writer) (c : ChunkPipe) : ChunkPipe × Option WriteError :=
  if 0 < c.cursor then
    let piece := c.data.take c.cursor
    let reply := w.write c.sent piece
    match reply.2 with
    | some e => (c.hand piece, some e)
    | none =>
      if c.cursor ≠ reply.1 then (c.hand piece, some .shortWrite)
      else (c.hand piece, w.close (c.sent ++ [piece]))
  else (c, w.close c.sent)

/-- `Write(w₁)`, …, `Write(wₖ)` in turn: the pipe, and each call's `(n, err)`. -/
def writeAll (w : Writer) : ChunkPipe → List (List UInt8) → ChunkPipe × List (Nat × Option WriteError)
  | c, [] => (c, [])
  | c, b :: bs =>
    let r := c.write w b
    ((r.1.writeAll w bs).1, r.2 :: (r.1.writeAll w bs).2)

end ChunkPipe

/-! ## Writes accepted in full -/

/-- `x[0:C], x[C:2C], …`: the consecutive `ChunkSize`-byte pieces of `x`, the last
one possibly shorter and never empty, none at all for an empty `x`. -/
def pieces (x : List UInt8) : List (List UInt8) :=
  if _h : x.length ≤ chunkSize then (if x = [] then [] else [x])
  else x.take chunkSize :: pieces (x.drop chunkSize)
termination_by x.length
decreasing_by simp_wf; unfold chunkSize at _h ⊢; omega

theorem pieces_of_le {x : List UInt8} (h : x.length ≤ chunkSize) :
    pieces x = if x = [] then [] else [x] := by
  rw [pieces.eq_1, dif_pos h]

theorem pieces_of_lt {x : List UInt8} (h : chunkSize < x.length) :
    pieces x = x.take chunkSize :: pieces (x.drop chunkSize) := by
  rw [pieces.eq_1, dif_neg (by omega)]

/-- Whole chunks followed by at most a chunk are cut back into exactly those pieces. -/
theorem pieces_whole_append {L : List (List UInt8)} {r : List UInt8}
    (hw : ∀ p ∈ L, p.length = chunkSize) (hr : r.length ≤ chunkSize) :
    pieces (L.flatten ++ r) = L ++ if r = [] then [] else [r] := by
  induction L with
  | nil => simpa using pieces_of_le hr
  | cons p L ih =>
    have hp : p.length = chunkSize := hw p (by simp)
    have ih := ih (fun q hq => hw q (by simp [hq]))
    rw [List.flatten_cons, List.append_assoc]
    by_cases hrest : L.flatten ++ r = []
    · obtain ⟨hL, rfl⟩ := List.append_eq_nil.1 hrest
      have hL : L = [] := by
        cases L with
        | nil => rfl
        | cons q L =>
          have hq := hw q (by simp)
          rw [(List.flatten_eq_nil_iff.1 hL) q (by simp)] at hq
          simp [chunkSize] at hq
      subst hL
      have hne : p ≠ [] := by intro e; simp [e, chunkSize] at hp
      simp [pieces_of_le hp.le, hne]
    · have hlt : chunkSize < (p ++ (L.flatten ++ r)).length := by
        have := List.length_pos.2 hrest; simp only [List.length_append] at this ⊢; omega
      rw [pieces_of_lt hlt, List.take_left' hp, List.drop_left' hp, ih, List.cons_append]

/-- The writer end accepts every `Write` in full. -/
def Writer.Full (w : Writer) : Prop :=
  ∀ sent b, w.write sent b = (b.length, none)

theorem Writer.Full.write_eq {w : Writer} (hw : w.Full) (sent : List (List UInt8)) (b : List UInt8) :
    w.write sent b = (b.length, none) :=
  hw sent b

namespace ChunkPipe

/-- What writes accepted in full keep: at most one chunk buffered, only whole chunks
handed over, and the pieces followed by the buffered bytes spell `x`. -/
structure Holds (c : ChunkPipe) (x : List UInt8) : Prop where
  cursor_le : c.cursor ≤ chunkSize
  whole : ∀ p ∈ c.sent, p.length = chunkSize
  content : c.sent.flatten ++ c.data.take c.cursor = x

theorem holds_new : new.Holds [] :=
  ⟨Nat.zero_le _, by simp [new], by simp [new]⟩

theorem fill_take (c : ChunkPipe) (src : List UInt8) :
    (c.fill src).data.take (c.fill src).cursor = c.data.take c.cursor ++ src.take (c.copied src) :=
  take_copyAt _ _ _ (c.data_length ▸ c.cursor_le)

theorem shift_data (c : ChunkPipe) :
    c.shift.data = c.data.drop chunkSize ++ c.data.drop chunkSize := by
  have hl := c.data_length
  have hn : min c.data.length (c.data.length - chunkSize) = chunkSize := by
    rw [hl]; unfold maxBufferSize; omega
  simp only [shift, copyAt, List.take_zero, List.nil_append, Nat.sub_zero, Nat.zero_add,
    List.length_drop, hn]
  rw [List.take_of_length_le (by simp [hl, maxBufferSize]; omega)]

theorem shift_take (c : ChunkPipe) :
    c.shift.data.take c.shift.cursor = (c.data.take c.cursor).drop chunkSize := by
  have hl := c.data_length; have hu := c.cursor_le
  rw [shift_data, shift_cursor, List.drop_take,
    List.take_append_of_le_length (by simp only [List.length_drop, hl]; omega)]

/-- One round that keeps the bytes buffered. -/
theorem Holds.fill {c : ChunkPipe} {x src : List UInt8} (h : c.Holds x)
    (hc : (c.fill src).cursor < chunkSize) :
    (c.fill src).Holds (x ++ src.take (c.copied src)) :=
  ⟨hc.le, h.whole, by rw [fill_sent, fill_take, ← List.append_assoc, h.content]⟩

/-- One round that hands a chunk to a writer that takes it. -/
theorem Holds.fill_shift {c : ChunkPipe} {x src : List UInt8} (h : c.Holds x)
    (hc : chunkSize ≤ (c.fill src).cursor) :
    (((c.fill src).hand ((c.fill src).data.take chunkSize)).shift).Holds
      (x ++ src.take (c.copied src)) := by
  have hl := (c.fill src).data_length; have hu := (c.fill src).cursor_le
  refine ⟨?_, ?_, ?_⟩
  · simp only [shift_cursor, hand_cursor]; unfold maxBufferSize at hu; omega
  · simp only [shift_sent, hand_sent, fill_sent, List.mem_append, List.mem_singleton]
    rintro p (hp | rfl)
    · exact h.whole p hp
    · simp only [List.length_take, hl, maxBufferSize]; omega
  · have hsplit : (c.fill src).data.take chunkSize ++
        ((c.fill src).data.take (c.fill src).cursor).drop chunkSize =
          (c.fill src).data.take (c.fill src).cursor := by
      conv => rhs; rw [← List.take_append_drop chunkSize ((c.fill src).data.take (c.fill src).cursor)]
      rw [List.take_take, Nat.min_eq_left hc]
    rw [shift_take, shift_sent, hand_sent, hand_data, hand_cursor, List.flatten_append,
      List.flatten_singleton, List.append_assoc, hsplit, fill_sent, fill_take, ← List.append_assoc,
      h.content]

/-- `Write`'s loop, run against a writer that takes everything, takes all of `b`. -/
theorem Holds.writeLoop {w : Writer} (hw : w.Full) (b : List UInt8) :
    ∀ (k : Nat) (c : ChunkPipe) (nw : Nat) (x : List UInt8), b.length - nw = k →
      nw ≤ b.length → c.Holds (x ++ b.take nw) →
      (c.writeLoop w b nw).2 = (b.length, none) ∧ (c.writeLoop w b nw).1.Holds (x ++ b) := by
  intro k
  induction k using Nat.strong_induction_on with
  | _ k ih =>
    intro c nw x hk hle h
    rw [ChunkPipe.writeLoop]
    by_cases hlt : nw < b.length
    · rw [dif_pos hlt]
      have hpos : 0 < c.copied (b.drop nw) :=
        c.copied_pos (by have := h.cursor_le; unfold maxBufferSize chunkSize at *; omega)
          (by simpa using hlt)
      have hcp := c.copied_le (b.drop nw)
      simp only [List.length_drop] at hcp
      have hx : x ++ b.take nw ++ (b.drop nw).take (c.copied (b.drop nw)) =
          x ++ b.take (nw + c.copied (b.drop nw)) := by
        rw [List.append_assoc, ← List.take_add]
      dsimp only
      by_cases hc : chunkSize ≤ (c.fill (b.drop nw)).cursor
      · rw [dif_pos hc]
        have hmin : min chunkSize maxBufferSize = chunkSize := by unfold maxBufferSize; omega
        simp only [hw.write_eq, List.length_take, (c.fill (b.drop nw)).data_length, hmin, ne_eq,
          not_true_eq_false, if_false]
        exact ih _ (by omega) _ _ x rfl (by omega) (hx ▸ h.fill_shift hc)
      · rw [dif_neg hc]
        exact ih _ (by omega) _ _ x rfl (by omega) (hx ▸ h.fill (by omega))
    · rw [dif_neg hlt]
      have hn : nw = b.length := by omega
      subst hn
      exact ⟨rfl, by simpa using h⟩

theorem Holds.writeAll {w : Writer} (hw : w.Full) :
    ∀ (ws : List (List UInt8)) (c : ChunkPipe) (x : List UInt8), c.Holds x →
      (c.writeAll w ws).2 = ws.map (fun b => (b.length, none)) ∧
        (c.writeAll w ws).1.Holds (x ++ ws.flatten)
  | [], c, x, h => ⟨rfl, by simpa [ChunkPipe.writeAll] using h⟩
  | b :: bs, c, x, h => by
    have hb := Holds.writeLoop hw b _ c 0 x rfl (Nat.zero_le _) (by simpa using h)
    have hbs := Holds.writeAll hw bs _ _ hb.2
    refine ⟨?_, ?_⟩
    · simp only [ChunkPipe.writeAll, write, List.map_cons, hb.1, hbs.1]
    · simpa [ChunkPipe.writeAll, write, List.append_assoc] using hbs.2

/-- `Close` after writes accepted in full hands over the last, partial piece. -/
theorem Holds.close_sent {w : Writer} (hw : w.Full) {c : ChunkPipe} {x : List UInt8}
    (h : c.Holds x) : (c.close w).1.sent = pieces x := by
  have hl := c.data_length
  have hr : (c.data.take c.cursor).length ≤ chunkSize := by
    simp only [List.length_take]; have := h.cursor_le; omega
  rw [← h.content, pieces_whole_append h.whole hr]
  unfold ChunkPipe.close
  split
  · rename_i hpos
    have hlen : (c.data.take c.cursor).length = c.cursor := by
      simp only [List.length_take, hl]; unfold maxBufferSize; have := h.cursor_le; omega
    have hne : c.data.take c.cursor ≠ [] := by
      intro e; rw [e] at hlen; simp at hlen; omega
    simp [hw.write_eq, hlen, hne]
  · rename_i hz
    have : c.cursor = 0 := by omega
    simp [this]

end ChunkPipe

/-- **`ChunkPipe` regroups writes into chunks.** Against a writer end that takes every
`Write` in full, each `Write` of a fresh pipe returns `(len(b), nil)`, and after `Close`
the writer was handed exactly the `ChunkSize` pieces of the concatenated writes. -/
theorem pieces_of_writes (w : Writer) (hw : w.Full) (ws : List (List UInt8)) :
    (ChunkPipe.new.writeAll w ws).2 = ws.map (fun b => (b.length, none)) ∧
      ((ChunkPipe.new.writeAll w ws).1.close w).1.sent = pieces ws.flatten := by
  have h := ChunkPipe.Holds.writeAll hw ws _ _ ChunkPipe.holds_new
  exact ⟨h.1, by simpa using h.2.close_sent hw⟩

/-- The pipe's writer end that takes every `Write` in full. -/
def fullWriter : Writer := ⟨fun _ b => (b.length, none), fun _ => none⟩

theorem pieces_of_writes_fullWriter :
    fullWriter.Full ∧
      (ChunkPipe.new.writeAll fullWriter [[1], [], [2, 3]]).2 =
        [[1], [], [2, 3]].map (fun b => (b.length, none)) ∧
      ((ChunkPipe.new.writeAll fullWriter [[1], [], [2, 3]]).1.close fullWriter).1.sent =
        pieces [[1], [], [2, 3]].flatten :=
  ⟨fun _ _ => rfl, pieces_of_writes fullWriter (fun _ _ => rfl) [[1], [], [2, 3]]⟩

end Voyager.File
