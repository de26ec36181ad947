import Mathlib.Data.List.Basic

/-!
# `simpleSplitter.Split`: the bytes the splitter job is handed

`pkg/file/addresses/addresses_getter_test.go:139-170`. `Split` reads the input into a
`ChunkSize` buffer, hands each read's bytes to the splitter job's `Write`, and on
`io.EOF` checks the byte count and returns the job's `Sum`. The reader and the job are
parameters: the reader is the list of its answers to successive `Read` calls
(`ReadResult`), the job answers each `Write` after what it was handed before and sums
what it was handed (`Job`). `splitLoop` returns what the job was handed with the
result, so that a statement can compare it with what the reader delivered.

The `io.Reader` contract lets the last read return its bytes together with `io.EOF`.
`Split` counts those bytes and then leaves the loop without writing them: over every
reader that ends so, the job is handed all bytes but the last read's
(`splitLoop_eof_script`), so a one-byte input that arrives with `io.EOF` is summed as
the empty input (`split_eof_with_data`).
-/

namespace Voyager.File

/-- The error a `Read` returns with its bytes. -/
inductive ReadError where
  | eof
  | other (code : Nat)
  deriving DecidableEq, Repr

/-- What one `Read` returns: the bytes it put at the front of the buffer, and its error. -/
structure ReadResult where
  bytes : List UInt8
  err : Option ReadError
  deriving DecidableEq, Repr

/-- The splitter job (`internal.NewSimpleSplitterJob`, outside the repository): its
answer `(count, err)` to a `Write` of `p` after it was handed `sent`, and its `Sum`
over what it was handed. -/
structure Job where
  write : List UInt8 → List UInt8 → Nat × Option Nat
  sum : List UInt8 → List UInt8

/-- A job that takes every write in full. -/
def Job.Full (j : Job) : Prop :=
  ∀ sent p, j.write sent p = (p.length, none)

/-- Why `Split` failed. -/
inductive SplitError where
  /-- `io.EOF` came before `dataLength` bytes; the counts it reports -/
  | short (received expected : Int)
  /-- the reader's own error -/
  | read (code : Nat)
  /-- the job's own error -/
  | write (code : Nat)
  /-- the job took fewer bytes than were read -/
  | writeCount (written read : Nat)
  deriving DecidableEq, Repr

/-- The error's text, a collaborator's being its own. -/
def SplitError.text (errText : Nat → String) : SplitError → String
  | .short received expected =>
    "splitter only received " ++ toString received ++ " bytes of data, expected " ++
      toString expected ++ " bytes"
  | .read e => errText e
  | .write e => errText e
  | .writeCount written count =>
    "write count to file hasher component " ++ toString written ++
      " does not match read count " ++ toString count

/-- `Split`'s loop (`addresses_getter_test.go:143`) from the byte count `total` and what
the job was handed, `sent`: what the job was handed in the end, and the sum or the
error. `none` when the reader's answers end before `io.EOF` or an error, so that the
loop would read again. -/
def splitLoop (j : Job) (dataLength : Int) :
    List ReadResult → Int → List UInt8 → Option (List UInt8 × Except SplitError (List UInt8))
  | [], _, _ => none
  | r :: rs, total, sent =>
    let c := r.bytes.length
    let total := total + c
    match r.err with
    | some .eof =>
      if total < dataLength then some (sent, .error (.short (total + c) dataLength))
      else some (sent, .ok (j.sum sent))
    | some (.other e) => some (sent, .error (.read e))
    | none =>
      match j.write sent r.bytes with
      | (_, some e) => some (sent, .error (.write e))
      | (cc, none) =>
        if cc < c then some (sent, .error (.writeCount cc c))
        else splitLoop j dataLength rs total (sent ++ r.bytes)

/-- `simpleSplitter.Split` (`addresses_getter_test.go:139`) over the reader's answers. -/
def split (j : Job) (reads : List ReadResult) (dataLength : Int) :
    Option (List UInt8 × Except SplitError (List UInt8)) :=
  splitLoop j dataLength reads 0 []

/-- A reader script that delivers its bytes without error and then ends with `io.EOF`,
which comes with the bytes `last`. -/
def eofScript (pre : List (List UInt8)) (last : List UInt8) : List ReadResult :=
  pre.map (fun b => ⟨b, none⟩) ++ [⟨last, some .eof⟩]

/-- What a full job is handed over a reader that ends with `io.EOF`: every byte but
the last read's, which `Split` counts and does not write. -/
theorem splitLoop_eof_script {j : Job} (hj : j.Full) (dataLength : Int) (last : List UInt8) :
    ∀ (pre : List (List UInt8)) (total : Int) (sent : List UInt8),
      splitLoop j dataLength (eofScript pre last) total sent =
        let total' := total + (pre.flatten ++ last).length
        some (sent ++ pre.flatten,
          if total' < dataLength then .error (.short (total' + last.length) dataLength)
          else .ok (j.sum (sent ++ pre.flatten)))
  | [], total, sent => by
    simp only [eofScript, List.map_nil, List.nil_append, splitLoop, List.flatten_nil,
      List.append_nil]
    split <;> rfl
  | b :: pre, total, sent => by
    have ih := splitLoop_eof_script hj dataLength last pre (total + b.length) (sent ++ b)
    have e : total + b.length + ((pre.flatten ++ last).length : Int) =
        total + (((b :: pre).flatten ++ last).length : Int) := by
      simp only [List.flatten_cons, List.length_append]
      omega
    simp only [eofScript, List.map_cons, List.cons_append] at ih ⊢
    rw [splitLoop]
    simp only [hj sent b, Nat.lt_irrefl, if_false]
    rw [ih, e, List.flatten_cons, List.append_assoc]

/-- Two bytes, then `io.EOF` alone: the job is handed both and sums them. -/
theorem splitLoop_eof_script_separate :
    let j : Job := ⟨fun _ p => (p.length, none), id⟩
    j.Full ∧ splitLoop j 2 (eofScript [[1, 2]] []) 0 [] = some ([1, 2], .ok [1, 2]) := by
  intro j
  have hj : j.Full := fun _ _ => rfl
  exact ⟨hj, (splitLoop_eof_script hj 2 [] [[1, 2]] 0 []).trans rfl⟩

/-- A one-byte input that arrives together with `io.EOF` is never written: `Split`
succeeds with the job's sum over nothing. -/
theorem split_eof_with_data :
    let j : Job := ⟨fun _ p => (p.length, none), id⟩
    split j [⟨[7], some .eof⟩] 1 = some ([], .ok []) :=
  rfl

end Voyager.File
