import AudioProc.Restart

/-!
# What the first capture call forgets

The first capture call empties the render buffer, so that a call starts with nothing
waiting. Everything rendered before it is forgotten: no metric of the detector shows how
much was rendered or which frames.

The drift counter is not part of the flush and keeps what the render calls left in it.
The two detectors are therefore `Alike` only, not equal: the next render call finds the
queue empty and restarts the counter on both.
-/

namespace AudioProc

universe u

variable {F : Type u} [FloatMath F]

omit [FloatMath F] in
theorem Call.captureFrames_map_analyzeRenderAudio (P : List (List F)) :
    captureFrames (P.map analyzeRenderAudio) = [] := by
  induction P with
  | nil => rfl
  | cons x P ih => exact ih

/-- The first capture call: nothing waits after it and its frame is not processed. -/
theorem Session.capture_of_first {s : Session F} (hfirst : s.pairing.first = true)
    (y : List F) :
    s.step (.analyzeCaptureAudio y) = ⟨⟨false, [], s.pairing.sinceEmpty⟩, s.history⟩ := by
  have hnext : s.pairing.next = none := by
    rw [Pairing.next, hfirst]
    rfl
  have hcapture : s.pairing.capture = ⟨false, [], s.pairing.sinceEmpty⟩ := by
    rw [Pairing.capture, hfirst]
    rfl
  simp only [Session.step, hnext]
  exact congrArg (Session.mk · s.history) hcapture

namespace ResidualEchoDetector

/-- As long as the flush is pending, no frame was processed. -/
theorem history_of_first (H : List (Call F)) (hfirst : (run H).firstProcessCall = true) :
    history H = [] := by
  refine run_history_invariant
    (fun d h => d.pairing.first = true → h = []) ?_ (fun _ => rfl) H hfirst
  intro d h c ih hnext
  rw [pairing_step] at hnext
  cases c with
  | analyzeRenderAudio x =>
      apply ih
      rwa [Call.event, Pairing.step, Pairing.render_first] at hnext
  | analyzeCaptureAudio y =>
      -- a capture call ends the wait for the first one
      exact absurd hnext (by simp [Call.event, Pairing.step, Pairing.capture])
  | initializeDetector => rfl

/-- A detector after its first capture call: an empty session but for the drift counter. -/
theorem session_of_first_capture {H : List (Call F)} (hH : Call.captureFrames H = [])
    (y : List F) :
    (run (H ++ [.analyzeCaptureAudio y])).Tracks [] ∧
      ∃ n, (run (H ++ [.analyzeCaptureAudio y])).pairing = ⟨false, [], n⟩ := by
  have hfirst : (run H).pairing.first = true := (first_run H).mpr hH
  have hhist : history H = [] := history_of_first H hfirst
  have hsession := step_refines (run H) (history H) (.analyzeCaptureAudio y)
  rw [Session.capture_of_first hfirst] at hsession
  rcases Session.mk.inj hsession with ⟨hpairing, hrecord⟩
  have htracks := (tracks_run H).step (.analyzeCaptureAudio y)
  rw [← hrecord, hhist] at htracks
  rw [run_concat]
  exact ⟨htracks, _, hpairing.symm⟩

/-- Whatever was called before the first capture call, the metrics after it are the same. -/
theorem observed_of_first_capture {H H' : List (Call F)} (hH : Call.captureFrames H = [])
    (hH' : Call.captureFrames H' = []) (x y : List F) (S : List (Call F)) :
    observed (run (H ++ [.analyzeCaptureAudio x])) S =
      observed (run (H' ++ [.analyzeCaptureAudio y])) S := by
  rcases session_of_first_capture hH x with ⟨ht, n, hpairing⟩
  rcases session_of_first_capture hH' y with ⟨ht', n', hpairing'⟩
  rw [ht.observed S, ht'.observed S, hpairing, hpairing']
  -- the counters `n` and `n'` may differ, but nothing waits
  have halike : (Session.mk ⟨false, [], n⟩ []).Alike (Session.mk (F := F) ⟨false, [], n'⟩ []) :=
    ⟨⟨rfl, rfl, fun hne => absurd rfl hne⟩, rfl⟩
  exact halike.metricsTrace S

/-- **The flush forgets**: after render calls `P` and a first capture call, the metrics are
those of a detector on which that capture call, with any frame, was the first call of all. -/
theorem observed_flush (P : List (List F)) (x y : List F) (S : List (Call F)) :
    observed (run (P.map Call.analyzeRenderAudio ++ [.analyzeCaptureAudio x])) S =
      observed (run [.analyzeCaptureAudio y]) S := by
  have hP := Call.captureFrames_map_analyzeRenderAudio P
  have hnone : Call.captureFrames ([] : List (Call F)) = [] := rfl
  exact observed_of_first_capture hP hnone x y S

end ResidualEchoDetector

end AudioProc
