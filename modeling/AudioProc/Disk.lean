import AudioProc.CString
import AudioProc.OutFile
import Mathlib.Logic.Function.Basic

/-!
# Files of a file system

A disk has the contents of its files by name; different names are different files. A stream
is a name and a position. Opening a file for writing empties it, and every write reaches the
file at once.

* `Recorded`: a file that is opened once and only written to through that stream holds the
  bytes written to it, one after the other (`Recorded.create`, `Recorded.write`);
* `write_start`: what is written to a file at its beginning is laid over what it holds.
-/

namespace AudioProc

universe u v

/-- The contents of the files there are. -/
abbrev Disk (N : Type u) := N → Option (List UInt8)

namespace Disk

variable {N : Type u} [DecidableEq N]

/-- `fopen` with mode "w" or "wb": the file is there, with nothing in it. -/
def create (d : Disk N) (name : N) : Disk N := Function.update d name (some [])

/-- A stream at position `pos` of a file. -/
def stream (d : Disk N) (name : N) (pos : ℕ) : OutFile := ⟨(d name).getD [], pos⟩

/-- `fwrite` to a stream at position `pos` of a file. -/
def write (d : Disk N) (name : N) (pos : ℕ) (bytes : List UInt8) : Disk N :=
  Function.update d name (some ((d.stream name pos).fwrite bytes).contents)

theorem create_same (d : Disk N) (name : N) : d.create name name = some [] :=
  Function.update_self name _ d

theorem create_other (d : Disk N) {name name' : N} (h : name' ≠ name) :
    d.create name name' = d name' :=
  Function.update_of_ne h _ d

theorem write_same (d : Disk N) (name : N) (pos : ℕ) (bytes : List UInt8) :
    d.write name pos bytes name = some ((d.stream name pos).fwrite bytes).contents :=
  Function.update_self name _ d

theorem write_other (d : Disk N) {name name' : N} (h : name' ≠ name) (pos : ℕ)
    (bytes : List UInt8) : d.write name pos bytes name' = d name' :=
  Function.update_of_ne h _ d

/-- The stream after a write. -/
theorem stream_write_same (d : Disk N) (name : N) (pos : ℕ) (bytes : List UInt8) :
    (d.write name pos bytes).stream name (pos + bytes.length) =
      (d.stream name pos).fwrite bytes := by
  rw [stream, write_same]
  rfl

theorem stream_write_other (d : Disk N) {name name' : N} (h : name' ≠ name) (pos pos' : ℕ)
    (bytes : List UInt8) : (d.write name pos bytes).stream name' pos' = d.stream name' pos' := by
  rw [stream, write_other d h, stream]

/-- Writing at the end of a file appends. -/
theorem write_end {d : Disk N} {name : N} {bytes : List UInt8} (h : d name = some bytes)
    (more : List UInt8) : d.write name bytes.length more name = some (bytes ++ more) := by
  rw [write_same, stream, h, Option.getD_some, OutFile.fwrite_end rfl]

/-- Writing at the beginning of a file lays the bytes over what it holds. -/
theorem write_start {d : Disk N} {name : N} {bytes : List UInt8} (h : d name = some bytes)
    (more : List UInt8) :
    d.write name 0 more name = some (CString.overlay more bytes) := by
  rw [write_same, stream, h, Option.getD_some, CString.overlay, OutFile.fwrite]
  simp only [List.take_zero, List.nil_append, Nat.zero_sub, List.replicate_zero, Nat.zero_add]

end Disk

/-! ## Logs -/

section Log

variable {N : Type u} {α : Type v}

/-- What a log of writes has for one name. -/
def writtenTo [DecidableEq N] (name : N) (log : List (N × List α)) : List α :=
  (log.filter (·.1 = name)).flatMap Prod.snd

theorem mem_concat_other {name name' : N} (h : name' ≠ name) (log : List (N × List α))
    (values : List α) :
    name ∈ (log ++ [(name', values)]).map Prod.fst ↔ name ∈ log.map Prod.fst := by
  simp [Ne.symm h]

variable [DecidableEq N]

@[simp] theorem writtenTo_nil (name : N) : writtenTo name ([] : List (N × List α)) = [] := rfl

theorem writtenTo_cons (name name' : N) (values : List α) (log : List (N × List α)) :
    writtenTo name ((name', values) :: log) =
      (if name' = name then values else []) ++ writtenTo name log := by
  by_cases h : name' = name
  · simp [writtenTo, h]
  · simp [writtenTo, h]

theorem writtenTo_append (name : N) (log log' : List (N × List α)) :
    writtenTo name (log ++ log') = writtenTo name log ++ writtenTo name log' := by
  rw [writtenTo, List.filter_append, List.flatMap_append]
  rfl

theorem writtenTo_concat_same (name : N) (log : List (N × List α)) (values : List α) :
    writtenTo name (log ++ [(name, values)]) = writtenTo name log ++ values := by
  simp [writtenTo]

theorem writtenTo_concat_other {name name' : N} (h : name' ≠ name) (log : List (N × List α))
    (values : List α) : writtenTo name (log ++ [(name', values)]) = writtenTo name log := by
  simp [writtenTo, h]

theorem writtenTo_of_not_mem {name : N} {log : List (N × List α)}
    (h : name ∉ log.map Prod.fst) : writtenTo name log = [] := by
  have hnone : log.filter (·.1 = name) = [] := by
    rw [List.filter_eq_nil_iff]
    intro entry hentry hname
    exact h (List.mem_map.mpr ⟨entry, hentry, of_decide_eq_true hname⟩)
  rw [writtenTo, hnone]
  rfl

end Log

namespace Disk

variable {N : Type u} [DecidableEq N]

/-! ## Files that are written through one stream -/

/-- The file of that name holds what the log has for it; without an entry in the log it is as
it was before. -/
def Recorded (before d : Disk N) (log : List (N × List UInt8)) (name : N) : Prop :=
  d name = if name ∈ log.map Prod.fst then some (writtenTo name log) else before name

/-- The position of the stream of that name: at the end of what was written, where there was
something to write, and no stream otherwise. -/
def AtEnd (pos : Option ℕ) (log : List (N × List UInt8)) (name : N) : Prop :=
  pos = if name ∈ log.map Prod.fst then some (writtenTo name log).length else none

variable {before d : Disk N} {log : List (N × List UInt8)} {name name' : N}

theorem recorded_nil (d : Disk N) (name : N) : Recorded d d [] name := by
  rw [Recorded, List.map_nil, if_neg List.not_mem_nil]

/-- Writes to other files do not matter. -/
theorem Recorded.congr {d' : Disk N} (h : Recorded before d log name) (hsame : d' name = d name) :
    Recorded before d' log name := by
  rw [Recorded, hsame]
  exact h

theorem recorded_concat_same {bytes : List UInt8} :
    Recorded before d (log ++ [(name, bytes)]) name ↔ d name = some (writtenTo name log ++ bytes) := by
  have hmem : name ∈ (log ++ [(name, bytes)]).map Prod.fst := by simp
  rw [Recorded, if_pos hmem, writtenTo_concat_same]

theorem recorded_concat_other (h : name' ≠ name) {bytes : List UInt8} :
    Recorded before d (log ++ [(name', bytes)]) name ↔ Recorded before d log name := by
  unfold Recorded
  rw [writtenTo_concat_other h]
  simp only [mem_concat_other h]

theorem atEnd_concat_same {pos : Option ℕ} {bytes : List UInt8} :
    AtEnd pos (log ++ [(name, bytes)]) name ↔
      pos = some ((writtenTo name log).length + bytes.length) := by
  have hmem : name ∈ (log ++ [(name, bytes)]).map Prod.fst := by simp
  rw [AtEnd, if_pos hmem, writtenTo_concat_same, List.length_append]

theorem atEnd_concat_other (h : name' ≠ name) {pos : Option ℕ} {bytes : List UInt8} :
    AtEnd pos (log ++ [(name', bytes)]) name ↔ AtEnd pos log name := by
  unfold AtEnd
  rw [writtenTo_concat_other h]
  simp only [mem_concat_other h]

/-- A write through the stream of that name, which is opened where there is none. -/
def append (d : Disk N) (pos : Option ℕ) (name : N) (bytes : List UInt8) : Disk N :=
  match pos with
  | some pos => d.write name pos bytes
  | none => (d.create name).write name 0 bytes

theorem append_other (d : Disk N) (pos : Option ℕ) (h : name' ≠ name) (bytes : List UInt8) :
    d.append pos name bytes name' = d name' := by
  cases pos with
  | some pos => exact write_other d h pos bytes
  | none => rw [append, write_other _ h, create_other d h]

/-- **One write** to a file that is only written to through this stream. -/
theorem Recorded.append {pos : Option ℕ} (h : Recorded before d log name)
    (hpos : AtEnd pos log name) (bytes : List UInt8) :
    Recorded before (d.append pos name bytes) (log ++ [(name, bytes)]) name := by
  rw [recorded_concat_same]
  rw [AtEnd] at hpos
  rw [Recorded] at h
  by_cases hmem : name ∈ log.map Prod.fst
  · rw [if_pos hmem] at hpos h
    rw [hpos]
    exact write_end h bytes
  · -- the file is opened, and whatever was in it is gone
    rw [if_neg hmem] at hpos
    rw [hpos, writtenTo_of_not_mem hmem]
    exact write_end (create_same d name) bytes

theorem Recorded.append_other {pos : Option ℕ} (h : Recorded before d log name)
    (hne : name' ≠ name) (bytes : List UInt8) :
    Recorded before (d.append pos name' bytes) (log ++ [(name', bytes)]) name := by
  rw [recorded_concat_other hne, Recorded, Disk.append_other d pos hne.symm]
  exact h

/-- The stream stands behind what it wrote. -/
theorem AtEnd.append {pos : Option ℕ} (h : AtEnd pos log name) (bytes : List UInt8) :
    AtEnd (some (pos.getD 0 + bytes.length)) (log ++ [(name, bytes)]) name := by
  rw [atEnd_concat_same]
  rw [AtEnd] at h
  by_cases hmem : name ∈ log.map Prod.fst
  · rw [h, if_pos hmem]
    rfl
  · rw [h, if_neg hmem, writtenTo_of_not_mem hmem]
    rfl

end Disk

end AudioProc
