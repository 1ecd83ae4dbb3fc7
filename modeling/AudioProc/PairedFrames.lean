import AudioProc.DebugSignals
import Mathlib.Data.List.GetD

/-!
# Which frames are paired

The calls of a run are numbered, render calls and capture calls each from 0. A capture call
that processes a frame pairs it with the render call whose power waits at the front of the
queue. What waits are always the newest render calls (`backlog_suffix`), so that the number of
that render call can be read off the length of the queue: `pairOf` does so.

`frames_paired` says that the pairs of a run go forward on both sides, that no render call
is used that is out of date by more than the buffer, and that the powers dumped are those of
the paired frames.
-/

namespace AudioProc

universe u

/-! ## What waits are the newest renders -/

namespace DropQueue

variable {α : Type u} {N : ℕ}

theorem suffix_concat {q q' : List α} (h : q <:+ q') (x : α) : q ++ [x] <:+ q' ++ [x] := by
  rcases h with ⟨front, rfl⟩
  exact ⟨front, (List.append_assoc _ _ _).symm⟩

theorem push_suffix (q : List α) (x : α) : push N q x <:+ q ++ [x] := by
  unfold push
  split_ifs
  · exact List.suffix_refl _
  · exact suffix_concat (List.tail_suffix q) x

end DropQueue

namespace Pairing

open Event (renders renders_append)

variable {N : ℕ} {α : Type u}

theorem render_suffix (p : Pairing N α) (x : α) : (p.render x).backlog <:+ p.backlog ++ [x] := by
  rcases p.render_cases x with ⟨hempty, h⟩ | ⟨-, -, h⟩ | ⟨-, -, h⟩
  · rw [h, hempty]
    exact DropQueue.push_suffix [] x
  · rw [h]
    exact (DropQueue.push_suffix _ x).trans
      (DropQueue.suffix_concat (List.tail_suffix p.backlog) x)
  · rw [h]
    exact DropQueue.push_suffix _ x

theorem capture_suffix (p : Pairing N α) : p.capture.backlog <:+ p.backlog := by
  show (if p.first then [] else p.backlog.tail) <:+ p.backlog
  split_ifs
  · exact List.nil_suffix
  · exact List.tail_suffix _

/-- **What waits** are the newest render values. -/
theorem backlog_suffix (es : List (Event α)) :
    (run es : Pairing N α).backlog <:+ renders es := by
  induction es using List.reverseRecOn with
  | nil => exact List.suffix_refl _
  | append_singleton es e ih =>
      rw [run_concat, renders_append]
      cases e with
      | render x => exact (render_suffix _ x).trans (DropQueue.suffix_concat ih x)
      | capture =>
          show (run es : Pairing N α).capture.backlog <:+ renders es ++ []
          rw [List.append_nil]
          exact (capture_suffix _).trans ih
      | restart => exact List.nil_suffix

/-- The value that a capture call gets, by its number. -/
theorem next_eq_getElem? {es : List (Event α)} {r : α}
    (h : (run es : Pairing N α).next = some r) :
    (run es : Pairing N α).first = false ∧ 0 < (run es : Pairing N α).backlog.length ∧
      (renders es)[(renders es).length - (run es : Pairing N α).backlog.length]? = some r := by
  rcases backlog_suffix (N := N) es with ⟨front, hfront⟩
  unfold next at h
  split_ifs at h with hfirst
  have hnone : (run es : Pairing N α).backlog ≠ [] := by
    intro hnil
    rw [hnil] at h
    exact absurd h (by simp)
  have hindex : (renders es).length - (run es : Pairing N α).backlog.length = front.length := by
    rw [← hfront, List.length_append, Nat.add_sub_cancel]
  refine ⟨Bool.eq_false_iff.mpr hfirst, List.length_pos_iff.mpr hnone, ?_⟩
  rw [hindex, ← hfront, List.getElem?_append_right le_rfl, Nat.sub_self, ← List.head?_eq_getElem?]
  exact h

end Pairing

/-! ## Pairs of calls -/

/-- A processed frame is of a render call and a capture call; `rendered` is how many render
calls there were before that capture call. -/
structure CallPair where
  render : ℕ
  capture : ℕ
  rendered : ℕ

namespace ResidualEchoDetector

variable {F : Type u} [FloatMath F]

/-- The pair that one more call makes. -/
def pairOf (calls : List (Call F)) : Call F → Option CallPair
  | .analyzeRenderAudio _ => none
  | .analyzeCaptureAudio _ =>
    (run calls).nextRenderPower.map fun _ =>
      { render := (Call.renderFrames calls).length - (run calls).renderBuffer.length
        capture := (Call.captureFrames calls).length
        rendered := (Call.renderFrames calls).length }
  | .initializeDetector => none

/-- The pairs of a run, in order. -/
def pairs (calls : List (Call F)) : List CallPair :=
  (Machine.observe (fun before c => before ++ [c]) pairOf [] calls).filterMap id

theorem run_snoc {α : Type u} (as bs : List α) :
    Machine.run (fun (before : List α) a => before ++ [a]) as bs = as ++ bs := by
  induction bs generalizing as with
  | nil => exact (List.append_nil as).symm
  | cons b bs ih =>
      rw [Machine.run_cons, ih, List.append_assoc]
      rfl

theorem pairs_concat (calls : List (Call F)) (c : Call F) :
    pairs (calls ++ [c]) = pairs calls ++ (pairOf calls c).toList := by
  rw [pairs, Machine.observe_append, List.filterMap_append, Machine.observe_cons,
    Machine.observe_nil, run_snoc, List.nil_append, ← pairs]
  cases pairOf calls c <;> rfl

/-- The frame that a pair of calls makes. -/
def frameOf (calls : List (Call F)) (m : CallPair) : Frame F where
  render := power ((Call.renderFrames calls).getD m.render [])
  capture := power ((Call.captureFrames calls).getD m.capture [])

/-- The pairs of a run. -/
structure Paired (calls : List (Call F)) : Prop where
  -- the histories start with the frames of the pairs
  frames : (Session.histories calls).map List.head? =
    (pairs calls).map fun m => some (frameOf calls m)
  forward : (pairs calls).Pairwise fun m m' => m.render < m'.render ∧ m.capture < m'.capture
  recent : ∀ m ∈ pairs calls, m.rendered ≤ m.render + kRenderBufferSize ∧ m.render < m.rendered
  -- what waits comes after all of them
  past : ∀ m ∈ pairs calls,
    m.render + (run calls).renderBuffer.length < (Call.renderFrames calls).length ∧
      m.capture < (Call.captureFrames calls).length

/-- How many renders wait. -/
theorem length_waiting (calls : List (Call F)) :
    (Pairing.run (N := kRenderBufferSize) (calls.map Call.event)).backlog.length =
      (run calls).renderBuffer.length := by
  rw [← pairing_run, pairing_backlog, CircularBuffer.length_contents]

theorem waiting_le (calls : List (Call F)) :
    (run calls).renderBuffer.length ≤ (Call.renderFrames calls).length ∧
      (run calls).renderBuffer.length ≤ kRenderBufferSize := by
  have hsuffix := (Pairing.backlog_suffix (N := kRenderBufferSize)
    (calls.map Call.event)).length_le
  have hwf := (Pairing.wf_run (N := kRenderBufferSize) (by decide) (calls.map Call.event)).length_le
  rw [length_waiting] at hsuffix hwf
  rw [Call.renders_event, List.length_map] at hsuffix
  exact ⟨hsuffix, hwf⟩

/-- What waits after one more call. -/
theorem waiting_step (calls : List (Call F)) (c : Call F) :
    (run (calls ++ [c])).renderBuffer.length ≤
      (run calls).renderBuffer.length + (Call.renderFrames [c]).length := by
  rw [← length_waiting, ← length_waiting, List.map_append, List.map_singleton, Pairing.run_concat]
  cases c with
  | analyzeRenderAudio x =>
      have hsuffix := (Pairing.render_suffix (Pairing.run (N := kRenderBufferSize)
        (calls.map Call.event)) (power x)).length_le
      rwa [List.length_append] at hsuffix
  | analyzeCaptureAudio y => exact (Pairing.capture_suffix _).length_le
  | initializeDetector => exact Nat.zero_le _

/-- The render call that a processed frame is of. -/
theorem render_of_next {calls : List (Call F)} {r : F}
    (h : (run calls).nextRenderPower = some r) (y : List F) :
    0 < (run calls).renderBuffer.length ∧
      power ((Call.renderFrames calls).getD
        ((Call.renderFrames calls).length - (run calls).renderBuffer.length) []) = r ∧
      (run (calls ++ [.analyzeCaptureAudio y])).renderBuffer.length + 1 =
        (run calls).renderBuffer.length := by
  have hnext : (Pairing.run (N := kRenderBufferSize) (calls.map Call.event)).next = some r := by
    rw [← pairing_run, ← nextRenderPower_eq]
    exact h
  rcases Pairing.next_eq_getElem? hnext with ⟨hfirst, hpos, hget⟩
  rw [length_waiting] at hpos hget
  rw [Call.renders_event, List.length_map, List.getElem?_map] at hget
  rcases Option.map_eq_some_iff.mp hget with ⟨x, hx, hpower⟩
  refine ⟨hpos, ?_, ?_⟩
  · rw [List.getD_eq_getElem?_getD, hx]
    exact hpower
  · have hafter : ((Pairing.run (N := kRenderBufferSize)
        (calls.map Call.event)).capture).backlog.length + 1 =
          (run calls).renderBuffer.length := by
      show (if (Pairing.run (calls.map Call.event)).first then []
        else (Pairing.run (calls.map Call.event)).backlog.tail).length + 1 = _
      rw [hfirst, if_neg Bool.false_ne_true, List.length_tail, length_waiting]
      omega
    rw [← hafter, ← length_waiting, List.map_append, List.map_singleton, Pairing.run_concat]
    rfl

/-- Later calls do not change the frames of a pair. -/
theorem frameOf_append {calls : List (Call F)} {m : CallPair}
    (hr : m.render < (Call.renderFrames calls).length)
    (hc : m.capture < (Call.captureFrames calls).length) (more : List (Call F)) :
    frameOf (calls ++ more) m = frameOf calls m := by
  unfold frameOf
  rw [Call.renderFrames_append, Call.captureFrames_append, List.getD_append _ _ _ _ hr,
    List.getD_append _ _ _ _ hc]

theorem Paired.frames_append {calls : List (Call F)} (h : Paired calls) (more : List (Call F)) :
    ((pairs calls).map fun m => some (frameOf (calls ++ more) m)) =
      (pairs calls).map fun m => some (frameOf calls m) := by
  apply List.map_congr_left
  intro m hm
  rcases h.past m hm with ⟨hr, hc⟩
  rw [frameOf_append (by omega) hc]

/-- A call that makes no pair. -/
theorem Paired.step_none {calls : List (Call F)} (h : Paired calls) {c : Call F}
    (hnone : pairOf calls c = none) (hprocessed : (Session.run calls).processed c = none) :
    Paired (calls ++ [c]) := by
  have hpairs : pairs (calls ++ [c]) = pairs calls := by
    rw [pairs_concat, hnone]
    exact List.append_nil _
  refine ⟨?_, ?_, ?_, ?_⟩
  · rw [hpairs, h.frames_append, ← h.frames, Session.histories_concat, hprocessed]
    exact congrArg _ (List.append_nil _)
  · rw [hpairs]
    exact h.forward
  · rw [hpairs]
    exact h.recent
  · intro m hm
    rw [hpairs] at hm
    have hwaiting := waiting_step calls c
    rcases h.past m hm with ⟨hr, hc⟩
    rw [Call.renderFrames_append, Call.captureFrames_append, List.length_append,
      List.length_append]
    constructor
    · omega
    · omega

/-- A call that makes one. -/
theorem Paired.step_some {calls : List (Call F)} (h : Paired calls) {y : List F} {r : F}
    (hnext : (run calls).nextRenderPower = some r) :
    Paired (calls ++ [.analyzeCaptureAudio y]) := by
  rcases render_of_next hnext y with ⟨hpos, hpower, hafter⟩
  rcases waiting_le calls with ⟨hle, hbuffer⟩
  let m : CallPair :=
    { render := (Call.renderFrames calls).length - (run calls).renderBuffer.length
      capture := (Call.captureFrames calls).length
      rendered := (Call.renderFrames calls).length }
  have hpairs : pairs (calls ++ [.analyzeCaptureAudio y]) = pairs calls ++ [m] := by
    rw [pairs_concat, pairOf, hnext]
    rfl
  have hrenders : Call.renderFrames (calls ++ [.analyzeCaptureAudio y]) =
      Call.renderFrames calls := by
    rw [Call.renderFrames_append]
    exact List.append_nil _
  have hcaptures : Call.captureFrames (calls ++ [.analyzeCaptureAudio y]) =
      Call.captureFrames calls ++ [y] :=
    Call.captureFrames_append _ _
  have hframe : frameOf (calls ++ [.analyzeCaptureAudio y]) m = ⟨r, power y⟩ := by
    unfold frameOf
    rw [hrenders, hcaptures, hpower, List.getD_append_right _ _ _ _ le_rfl, Nat.sub_self]
    rfl
  have hprocessed : (Session.run calls).processed (.analyzeCaptureAudio y) =
      some (⟨r, power y⟩ :: (Session.run calls).history) := by
    rw [Session.processed, run_refines]
    show (run calls).pairing.next.map _ = _
    rw [← nextRenderPower_eq, hnext]
    rfl
  refine ⟨?_, ?_, ?_, ?_⟩
  · rw [hpairs, List.map_append, h.frames_append, ← h.frames, Session.histories_concat,
      hprocessed, List.map_append, List.map_singleton, hframe]
    rfl
  · rw [hpairs, List.pairwise_append]
    refine ⟨h.forward, List.pairwise_singleton _ _, ?_⟩
    intro m₀ hm₀ m₁ hm₁
    rw [List.mem_singleton.mp hm₁]
    rcases h.past m₀ hm₀ with ⟨hr, hc⟩
    constructor
    · show m₀.render < (Call.renderFrames calls).length - (run calls).renderBuffer.length
      omega
    · exact hc
  · intro m₀ hm₀
    rw [hpairs] at hm₀
    rcases List.mem_append.mp hm₀ with hold | hnew
    · exact h.recent m₀ hold
    · -- at most a whole buffer of renders waits
      rw [List.mem_singleton.mp hnew]
      show (Call.renderFrames calls).length ≤ (Call.renderFrames calls).length -
        (run calls).renderBuffer.length + kRenderBufferSize ∧ (Call.renderFrames calls).length -
          (run calls).renderBuffer.length < (Call.renderFrames calls).length
      omega
  · intro m₀ hm₀
    rw [hpairs] at hm₀
    rw [hrenders, hcaptures, List.length_append, List.length_singleton]
    rcases List.mem_append.mp hm₀ with hold | hnew
    · rcases h.past m₀ hold with ⟨hr, hc⟩
      omega
    · rw [List.mem_singleton.mp hnew]
      show (Call.renderFrames calls).length - (run calls).renderBuffer.length +
        (run (calls ++ [.analyzeCaptureAudio y])).renderBuffer.length <
          (Call.renderFrames calls).length ∧
        (Call.captureFrames calls).length < (Call.captureFrames calls).length + 1
      omega

/-- **Every run** pairs its calls so. -/
theorem paired_run (calls : List (Call F)) : Paired calls := by
  induction calls using List.reverseRecOn with
  | nil =>
      refine ⟨rfl, List.Pairwise.nil, ?_, ?_⟩
      · intro m hm
        exact absurd hm List.not_mem_nil
      · intro m hm
        exact absurd hm List.not_mem_nil
  | append_singleton calls c ih =>
      cases c with
      | analyzeRenderAudio x => exact ih.step_none rfl rfl
      | analyzeCaptureAudio y =>
          cases hnext : (run calls).nextRenderPower with
          | none =>
              apply ih.step_none
              · rw [pairOf, hnext]
                rfl
              · rw [Session.processed, run_refines]
                show (run calls).pairing.next.map _ = none
                rw [← nextRenderPower_eq, hnext]
                rfl
          | some r => exact ih.step_some hnext
      | initializeDetector => exact ih.step_none rfl rfl

/-- **The frames that a run processes**: each is made of one render and one capture call, both
numbers go up from pair to pair, so that no call is used twice or out of order, and the
render call is one of the last 30 before the capture call. The powers that are dumped are
those of the frames of these calls. -/
theorem frames_paired (calls : List (Call F)) :
    let powerOf (frames : List (List F)) (i : ℕ) : F := power (frames.getD i [])
    writtenTo (.ofFrame .renderPower) (dumped calls) =
      (pairs calls).map (fun m => powerOf (Call.renderFrames calls) m.render) ∧
    writtenTo (.ofFrame .capturePower) (dumped calls) =
      (pairs calls).map (fun m => powerOf (Call.captureFrames calls) m.capture) ∧
    (pairs calls).Pairwise (fun m m' => m.render < m'.render ∧ m.capture < m'.capture) ∧
    ∀ m ∈ pairs calls, m.capture < (Call.captureFrames calls).length ∧
      m.rendered ≤ m.render + kRenderBufferSize ∧ m.render < m.rendered := by
  intro powerOf
  have h := paired_run calls
  -- both signals are read off the newest frame of every history
  have hsignal : ∀ (q : Quantity) (f : Frame F → F) (zero : F),
      (∀ hist : List (Frame F), q.value hist = (hist.head?.map f).getD zero) →
      writtenTo (.ofFrame q) (dumped calls) = (pairs calls).map fun m => f (frameOf calls m) := by
    intro q f zero hvalue
    have hframes := congrArg (List.map fun o : Option (Frame F) => (o.map f).getD zero) h.frames
    rw [List.map_map, List.map_map] at hframes
    rw [writtenTo_dumped, Signal.stream, List.map_congr_left fun hist _ => hvalue hist]
    exact hframes
  refine ⟨?_, ?_, h.forward, ?_⟩
  · apply hsignal .renderPower Frame.render 0
    intro hist
    cases hist <;> rfl
  · apply hsignal .capturePower Frame.capture 0
    intro hist
    cases hist <;> rfl
  · intro m hm
    exact ⟨(h.past m hm).2, h.recent m hm⟩

end ResidualEchoDetector

end AudioProc
