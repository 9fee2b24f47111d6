import Eggfetch.Text.Bytes

/-! A connection as its reads see it, and a buffered reader over it. What is read does not
depend on the pieces in which it arrives. -/
namespace Eggfetch.Proxy
open Text

inductive Poll (α : Type) where
  | ready (value : α)
  | pending

inductive IoError where
  | unexpectedEof (text : Str)
  | other (text : Str)
  deriving DecidableEq, Repr

/-- The `Display` text. -/
def IoError.text : IoError → Str
  | unexpectedEof text => text
  | other text => text

/-- A read finds a piece, which is never empty, or has to wait. -/
inductive Arrival where
  | bytes (first : UInt8) (rest : Str)
  | pending

inductive Ending where
  /-- Reads return no bytes. -/
  | closed
  /-- Reads fail with `UnexpectedEof`. -/
  | aborted (text : Str)
  | failed (text : Str)
  | staysOpen

structure Connection where
  arrivals : List Arrival
  ending : Ending

def Arrival.data : Arrival → Str
  | bytes first rest => first :: rest
  | pending => []

def Arrival.isPending : Arrival → Bool
  | bytes _ _ => false
  | pending => true

def leave (piece : Str) (arrivals : List Arrival) : List Arrival :=
  match piece with
  | [] => arrivals
  | first :: rest => .bytes first rest :: arrivals

namespace Connection

def atOnce (data : Str) (ending : Ending) : Connection := ⟨leave data [], ending⟩

def data (c : Connection) : Str := c.arrivals.flatMap Arrival.data

def readAtEnd : Ending → Poll (Except IoError Str)
  | .closed => .ready (.ok [])
  | .aborted text => .ready (.error (.unexpectedEof text))
  | .failed text => .ready (.error (.other text))
  | .staysOpen => .pending

def pollRead (c : Connection) (capacity : Nat) : Poll (Except IoError Str) × Connection :=
  match c.arrivals with
  | [] => (readAtEnd c.ending, c)
  | .pending :: rest => (.pending, { c with arrivals := rest })
  | .bytes first more :: rest =>
    (.ready (.ok ((first :: more).take capacity)), { c with arrivals := leave ((first :: more).drop capacity) rest })

/-- `read(..).await`; pending for ever only at an end that stays open. -/
def read (c : Connection) (capacity : Nat) : Poll (Except IoError Str) × Connection :=
  { c with arrivals := c.arrivals.dropWhile Arrival.isPending }.pollRead capacity

end Connection

structure BufReader where
  buffer : Str
  inner : Connection

namespace BufReader

def capacity : Nat := 8192

def data (r : BufReader) : Str := r.buffer ++ r.inner.data

/-- `read` of one byte; `none` is the end of the stream. -/
def readByte (r : BufReader) : Poll (Except IoError (Option UInt8)) × BufReader :=
  match r.buffer with
  | b :: rest => (.ready (.ok (some b)), { r with buffer := rest })
  | [] =>
    match r.inner.read capacity with
    | (.pending, inner) => (.pending, ⟨[], inner⟩)
    | (.ready (.error e), inner) => (.ready (.error e), ⟨[], inner⟩)
    | (.ready (.ok []), inner) => (.ready (.ok none), ⟨[], inner⟩)
    | (.ready (.ok (b :: rest)), inner) => (.ready (.ok (some b)), ⟨rest, inner⟩)

end BufReader

variable {c : Connection} {capacity : Nat}

@[simp] theorem flatMap_leave (piece : Str) (arrivals : List Arrival) :
    (leave piece arrivals).flatMap Arrival.data = piece ++ arrivals.flatMap Arrival.data := by
  cases piece with
  | nil => rfl
  | cons first rest => rfl

theorem Connection.data_atOnce (data : Str) (ending : Ending) : (Connection.atOnce data ending).data = data := by
  rw [Connection.data, Connection.atOnce, flatMap_leave, List.flatMap_nil, List.append_nil]

theorem length_leave (piece : Str) (arrivals : List Arrival) :
    (leave piece arrivals).length ≤ arrivals.length + 1 := by
  cases piece with
  | nil => exact Nat.le_succ _
  | cons first rest => exact Nat.le_refl _

theorem data_dropWhile (arrivals : List Arrival) :
    (arrivals.dropWhile Arrival.isPending).flatMap Arrival.data = arrivals.flatMap Arrival.data := by
  induction arrivals with
  | nil => rfl
  | cons arrival rest ih =>
    cases arrival with
    | bytes first more => rfl
    | pending => exact ih

private theorem Connection.read_data {b : UInt8} {rest : Str} (hcapacity : 0 < capacity) (h : c.data = b :: rest) :
    ∃ more c', c.read capacity = (.ready (.ok (b :: more)), c') ∧ more ++ c'.data = rest ∧ c'.ending = c.ending := by
  have hdata := data_dropWhile c.arrivals
  have hhead := List.head?_dropWhile_not Arrival.isPending c.arrivals
  rw [← Connection.data, h] at hdata
  unfold Connection.read Connection.pollRead
  cases hrest : c.arrivals.dropWhile Arrival.isPending with
  | nil =>
    rw [hrest] at hdata
    cases hdata
  | cons arrival arrivals =>
    rw [hrest] at hdata hhead
    cases arrival with
    | pending => cases hhead
    | bytes first more =>
      obtain ⟨capacity, rfl⟩ := Nat.exists_eq_succ_of_ne_zero hcapacity.ne'
      simp only [List.flatMap_cons, Arrival.data, List.cons_append, List.cons.injEq] at hdata
      obtain ⟨rfl, hdata⟩ := hdata
      refine ⟨more.take capacity, _, rfl, ?_, rfl⟩
      simp only [Connection.data, flatMap_leave, List.drop_succ_cons]
      rw [← List.append_assoc, List.take_append_drop, hdata]

/-- One byte is read, from the buffer or from the next piece. -/
theorem BufReader.readByte_data {r : BufReader} {b : UInt8} {rest : Str} (h : r.data = b :: rest) :
    ∃ r', r.readByte = (.ready (.ok (some b)), r') ∧ r'.data = rest ∧ r'.inner.ending = r.inner.ending := by
  unfold BufReader.data at h
  unfold BufReader.readByte
  cases hbuffer : r.buffer with
  | nil =>
    rw [hbuffer, List.nil_append] at h
    obtain ⟨more, inner, hread, hdata, hending⟩ := Connection.read_data (by decide : 0 < BufReader.capacity) h
    simp only [hread]
    exact ⟨_, rfl, hdata, hending⟩
  | cons first more =>
    rw [hbuffer, List.cons_append] at h
    obtain ⟨rfl, hrest⟩ := List.cons.inj h
    exact ⟨_, rfl, hrest, rfl⟩

end Eggfetch.Proxy
