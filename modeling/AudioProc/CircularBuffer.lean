import AudioProc.FloatOps
import AudioProc.DropQueue
import AudioProc.Lookback
import AudioProc.Machine

/-!
# CircularBuffer

The buffer between the render and the capture side (`echo_detector/circular_buffer`). It
stores the next write position and the number of elements; the read position is
recomputed from them. The two bounds are fields, so every index `push` and `pop` compute
is in range and the subtraction in `pop` never underflows.

`contents` lists the elements, oldest first, and `contents_push`, `contents_pop`,
`contents_clear` say that the buffer is the bounded drop-oldest queue of
`AudioProc.DropQueue`. `refines_dropQueue` is that for whole runs.
-/

namespace AudioProc

universe u

/-- `CircularBuffer`: the capacity is fixed by the constructor. -/
structure CircularBuffer (F : Type u) (size : ℕ) where
  buffer : Vector F size
  nextInsertionIndex : ℕ
  nrElementsInBuffer : ℕ
  index_lt : nextInsertionIndex < size
  nr_le : nrElementsInBuffer ≤ size

namespace CircularBuffer

variable {F : Type u} [Zero F] {size : ℕ}

/-- `CircularBuffer::CircularBuffer` -/
def new (size : ℕ) (h : 0 < size) : CircularBuffer F size where
  buffer := Vector.replicate size 0
  nextInsertionIndex := 0
  nrElementsInBuffer := 0
  index_lt := h
  nr_le := Nat.zero_le _

omit [Zero F] in
theorem size_pos (b : CircularBuffer F size) : 0 < size :=
  Nat.lt_of_le_of_lt (Nat.zero_le _) b.index_lt

/-- `CircularBuffer::Push` -/
def push (b : CircularBuffer F size) (value : F) : CircularBuffer F size where
  buffer := b.buffer.set b.nextInsertionIndex value b.index_lt
  nextInsertionIndex := (b.nextInsertionIndex + 1) % size
  nrElementsInBuffer := min (b.nrElementsInBuffer + 1) size
  index_lt := Nat.mod_lt _ b.size_pos
  nr_le := Nat.min_le_right _ _

/-- The slot `Pop` reads. -/
def popIndex (b : CircularBuffer F size) : ℕ :=
  (size + b.nextInsertionIndex - b.nrElementsInBuffer) % size

omit [Zero F] in
theorem popIndex_lt (b : CircularBuffer F size) : b.popIndex < size :=
  Nat.mod_lt _ b.size_pos

/-- `CircularBuffer::Pop`: the popped value and the buffer left behind. -/
def pop (b : CircularBuffer F size) : Option F × CircularBuffer F size :=
  if b.nrElementsInBuffer = 0 then
    (none, b)
  else
    (some (b.buffer.get ⟨b.popIndex, b.popIndex_lt⟩),
      { b with
        nrElementsInBuffer := b.nrElementsInBuffer - 1
        nr_le := (Nat.sub_le _ _).trans b.nr_le })

/-- `CircularBuffer::Size` -/
def length (b : CircularBuffer F size) : ℕ := b.nrElementsInBuffer

/-- `CircularBuffer::Clear`: fills the buffer with zeros, but does not change its size. -/
def clear (b : CircularBuffer F size) : CircularBuffer F size where
  buffer := Vector.replicate size 0
  nextInsertionIndex := 0
  nrElementsInBuffer := 0
  index_lt := b.size_pos
  nr_le := Nat.zero_le _

/-! ## The queue a buffer stands for -/

/-- The elements in the buffer, oldest first. -/
def contents (b : CircularBuffer F size) : List F :=
  (Lookback.recent b.buffer b.size_pos b.nextInsertionIndex b.nrElementsInBuffer).reverse

omit [Zero F] in
@[simp] theorem length_contents (b : CircularBuffer F size) :
    b.contents.length = b.length := by
  simp [contents, length]

omit [Zero F] in
theorem length_le (b : CircularBuffer F size) : b.length ≤ size := b.nr_le

@[simp] theorem contents_new (h : 0 < size) : (new size h : CircularBuffer F size).contents = [] :=
  rfl

@[simp] theorem contents_clear (b : CircularBuffer F size) : b.clear.contents = [] := rfl

omit [Zero F] in
/-- `% size` on the write position is the wrap of `Lookback.next`. -/
theorem succ_mod_eq_next (b : CircularBuffer F size) :
    (b.nextInsertionIndex + 1) % size = Lookback.next size b.nextInsertionIndex := by
  have hi := b.index_lt
  unfold Lookback.next
  split_ifs with h
  · exact Nat.mod_eq_of_lt (by omega)
  · rw [show b.nextInsertionIndex + 1 = size by omega, Nat.mod_self]

omit [Zero F] in
theorem popIndex_eq_back (b : CircularBuffer F size) {n : ℕ}
    (hn : b.nrElementsInBuffer = n + 1) :
    b.popIndex = Lookback.back size b.nextInsertionIndex n := by
  rw [popIndex, Lookback.back, hn]
  congr 1
  omega

omit [Zero F] in
theorem contents_push (b : CircularBuffer F size) (value : F) :
    (b.push value).contents = DropQueue.push size b.contents value := by
  have hi := b.index_lt
  rcases Nat.lt_or_ge b.nrElementsInBuffer size with hlt | hge
  · -- room left: every old element is one write older
    rw [DropQueue.push_of_lt (by simpa [length] using hlt)]
    simp only [contents, push, succ_mod_eq_next, Nat.min_eq_left (Nat.succ_le_of_lt hlt)]
    rw [Lookback.recent_write b.buffer hi hlt value, List.reverse_cons]
  · -- full: the write lands on the oldest element
    obtain ⟨n, hn⟩ : ∃ n, size = n + 1 := ⟨size - 1, by omega⟩
    have hnr : b.nrElementsInBuffer = n + 1 := by
      have := b.nr_le
      omega
    have hmin : min (n + 1 + 1) size = n + 1 := by omega
    rw [DropQueue.push_of_full (by simpa [length] using hge)]
    simp only [contents, push, succ_mod_eq_next, hmin, hnr]
    rw [Lookback.recent_write b.buffer hi (by omega) value, Lookback.recent_succ]
    simp

omit [Zero F] in
theorem contents_pop (b : CircularBuffer F size) :
    (b.pop.1, b.pop.2.contents) = DropQueue.pop b.contents := by
  cases hn : b.nrElementsInBuffer with
  | zero =>
      simp [pop, contents, hn, Lookback.recent]
  | succ n =>
      -- the slot `Pop` reads is the oldest one `recent` lists
      have hcontents : b.contents = b.buffer[(⟨b.popIndex, b.popIndex_lt⟩ : Fin size)] ::
          (Lookback.recent b.buffer b.size_pos b.nextInsertionIndex n).reverse := by
        simp only [contents, hn, Lookback.recent_succ, List.reverse_append, popIndex_eq_back b hn]
        rfl
      rw [hcontents, DropQueue.pop_cons]
      simp [pop, contents, hn, Vector.get]

/-! ## Runs -/

/-- The buffer after an operation. -/
def step (b : CircularBuffer F size) : DropQueue.Op F → CircularBuffer F size
  | .push x => b.push x
  | .pop => b.pop.2
  | .clear => b.clear

/-- What an operation returns: only `Pop` returns a value. -/
def result (b : CircularBuffer F size) : DropQueue.Op F → Option F
  | .pop => b.pop.1
  | _ => none

theorem contents_step (b : CircularBuffer F size) (op : DropQueue.Op F) :
    (b.step op).contents = DropQueue.step size b.contents op := by
  cases op with
  | push x => exact b.contents_push x
  | pop => exact congrArg Prod.snd b.contents_pop
  | clear => exact b.contents_clear

omit [Zero F] in
theorem result_eq (b : CircularBuffer F size) (op : DropQueue.Op F) :
    b.result op = DropQueue.result b.contents op := by
  cases op with
  | push x => rfl
  | pop => exact congrArg Prod.fst b.contents_pop
  | clear => rfl

/-- The elements after a run are those of the queue after it. -/
theorem contents_run (h : 0 < size) (ops : List (DropQueue.Op F)) :
    (Machine.run step (new size h) ops).contents = Machine.run (DropQueue.step size) [] ops := by
  refine Machine.run_rel (fun (b : CircularBuffer F size) q => b.contents = q) ?_ rfl ops
  rintro b _ op rfl
  exact b.contents_step op

/-- The results and sizes seen along a run are those of the queue. -/
theorem observe_run (h : 0 < size) (ops : List (DropQueue.Op F)) :
    Machine.observe step (fun b op => (b.result op, (b.step op).length)) (new size h) ops =
      Machine.observe (DropQueue.step size)
        (fun q op => (DropQueue.result q op, (DropQueue.step size q op).length)) [] ops := by
  refine Machine.observe_eq_of_sim (R := fun (b : CircularBuffer F size) q => b.contents = q)
    ?_ ?_ rfl ops
  · rintro b _ op rfl
    exact b.contents_step op
  · rintro b _ op rfl
    rw [result_eq, ← contents_step, length_contents]

omit [Zero F] in
/-- The unsigned subtraction of `Pop` does not underflow. -/
theorem nr_le_add (b : CircularBuffer F size) :
    b.nrElementsInBuffer ≤ size + b.nextInsertionIndex :=
  b.nr_le.trans (Nat.le_add_right _ _)

omit [Zero F] in
theorem pop_of_empty {b : CircularBuffer F size} (h : b.length = 0) : b.pop = (none, b) :=
  if_pos h

/-- **The buffer is the bounded drop-oldest queue**: along every run each result and each
`Size` are those of the queue, and in the state reached the elements are its elements, both
indices `Push` and `Pop` compute are in range, and the subtraction for the second one does
not underflow. -/
theorem refines_dropQueue {N : ℕ} (hN : 0 < N) (ops : List (DropQueue.Op F)) :
    Machine.observe step (fun b op => (b.result op, (b.step op).length)) (new N hN) ops =
      Machine.observe (DropQueue.step N)
        (fun q op => (DropQueue.result q op, (DropQueue.step N q op).length)) [] ops ∧
    ∀ b : CircularBuffer F N, b = Machine.run step (new N hN) ops →
      b.contents = Machine.run (DropQueue.step N) [] ops ∧
      b.length = (Machine.run (DropQueue.step N) [] ops).length ∧
      b.nextInsertionIndex < N ∧ b.nrElementsInBuffer ≤ N ∧
      b.nrElementsInBuffer ≤ N + b.nextInsertionIndex ∧ b.popIndex < N ∧
      (b.length = 0 → b.pop = (none, b)) := by
  refine ⟨observe_run hN ops, ?_⟩
  rintro b rfl
  have hcontents := contents_run hN ops
  refine ⟨hcontents, ?_, index_lt _, nr_le _, nr_le_add _, popIndex_lt _, pop_of_empty⟩
  rw [← hcontents, length_contents]

/-- Four pushes into three slots: the first value is gone. -/
theorem refines_dropQueue_three :
    Machine.observe step (fun b op => (b.result op, (b.step op).length))
        (new 3 (by decide) : CircularBuffer ℤ 3)
        [.pop, .push 1, .push 2, .push 3, .push 4, .pop, .pop, .clear, .pop] =
      [(none, 0), (none, 1), (none, 2), (none, 3), (none, 3), (some 2, 2), (some 3, 1),
        (none, 0), (none, 0)] :=
  (refines_dropQueue (by decide) _).1.trans (by decide)

end CircularBuffer

end AudioProc
