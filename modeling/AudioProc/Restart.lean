import AudioProc.Refinement

/-!
# What Initialize does not reset

`Initialize` resets every field the metrics are computed from, and two fields of the
buffering side stay: the drift counter and `first_process_call_`.

* The counter has no influence: on an empty queue the next render call restarts it, so
  two queues that are `Alike` behave the same.
* `first_process_call_` does: once a capture call has been made it stays false, so the
  first capture call after `Initialize` does not flush the render data queued since, and
  processes a frame a new detector would have dropped.

`observed_restart_iff` says exactly when the difference can be seen: when a capture call
was made before `Initialize` and the first one after it finds a render value waiting
(`firstCaptureFindsRender`).
-/

namespace AudioProc

universe u

namespace Pairing

variable {N : ℕ} {α : Type u}

/-- The same queue, up to a drift counter that the next render call restarts. -/
structure Alike (p q : Pairing N α) : Prop where
  first : p.first = q.first
  backlog : p.backlog = q.backlog
  counter : p.backlog ≠ [] → p.sinceEmpty = q.sinceEmpty

theorem Alike.refl (p : Pairing N α) : p.Alike p :=
  ⟨rfl, rfl, fun _ => rfl⟩

/-- A render call removes the difference. -/
theorem Alike.render {p q : Pairing N α} (h : p.Alike q) (x : α) : p.render x = q.render x := by
  have hcorrect : p.correct = q.correct := by
    by_cases hempty : p.backlog = []
    · -- the rule restarts the counter on both sides
      have hempty' : q.backlog = [] := h.backlog ▸ hempty
      rw [correct_of_empty hempty, correct_of_empty hempty', h.first, h.backlog]
    · -- values wait, so that the counters agree as well
      have heq : p = q := by
        cases p
        cases q
        rcases h with ⟨hfirst, hback, hcount⟩
        have hcount' := hcount hempty
        simp only at hfirst hback hcount'
        rw [hfirst, hback, hcount']
      rw [heq]
  rw [Pairing.render, Pairing.render, hcorrect]

theorem Alike.next {p q : Pairing N α} (h : p.Alike q) : p.next = q.next := by
  rw [Pairing.next, Pairing.next, h.first, h.backlog]

theorem Alike.capture {p q : Pairing N α} (h : p.Alike q) : p.capture.Alike q.capture := by
  refine ⟨rfl, ?_, ?_⟩
  · rw [Pairing.capture, Pairing.capture, h.first, h.backlog]
  · intro hne
    apply h.counter
    intro hnil
    apply hne
    rw [Pairing.capture, hnil]
    split_ifs <;> rfl

theorem Alike.restart {p q : Pairing N α} (h : p.Alike q) : p.restart.Alike q.restart :=
  ⟨h.first, rfl, fun hne => absurd rfl hne⟩

/-- The flush is pending until the first capture call. -/
theorem first_run (es : List (Event α)) :
    (run es : Pairing N α).first = true ↔ Event.captures es = 0 := by
  induction es using List.reverseRecOn with
  | nil => simp [new, Event.captures]
  | append_singleton es e ih =>
      rw [run_concat, Event.captures_append]
      cases e with
      | render x => simpa [step] using ih
      | capture => simp [step, Pairing.capture]
      | restart => simpa [step, Pairing.restart] using ih

end Pairing

variable {F : Type u} [FloatMath F]

namespace Session

/-- The metrics after each call. -/
def metricsTrace (s : Session F) (calls : List (Call F)) : List (Metrics F) :=
  Machine.observe step (fun s c => History.metrics (s.step c).history) s calls

theorem metricsTrace_cons (s : Session F) (c : Call F) (calls : List (Call F)) :
    s.metricsTrace (c :: calls) =
      History.metrics (s.step c).history :: (s.step c).metricsTrace calls := rfl

/-- Sessions that no call tells apart. -/
def Alike (s t : Session F) : Prop := s.pairing.Alike t.pairing ∧ s.history = t.history

theorem Alike.step {s t : Session F} (h : s.Alike t) (c : Call F) :
    (s.step c).Alike (t.step c) := by
  rcases h with ⟨hpairing, hhist⟩
  cases c with
  | analyzeRenderAudio x =>
      have heq : s.pairing.render (power x) = t.pairing.render (power x) := hpairing.render _
      refine ⟨?_, hhist⟩
      show (s.pairing.render (power x)).Alike (t.pairing.render (power x))
      rw [heq]
      exact Pairing.Alike.refl _
  | analyzeCaptureAudio y =>
      refine ⟨hpairing.capture, ?_⟩
      simp only [Session.step, hpairing.next, hhist]
  | initializeDetector => exact ⟨hpairing.restart, rfl⟩

theorem Alike.metricsTrace {s t : Session F} (h : s.Alike t) (calls : List (Call F)) :
    s.metricsTrace calls = t.metricsTrace calls := by
  have hstep : ∀ (s t : Session F) (c : Call F), s.Alike t → (s.step c).Alike (t.step c) := by
    intro s t c hst
    exact Alike.step hst c
  have hobs : ∀ (s t : Session F) (c : Call F), s.Alike t →
      History.metrics (s.step c).history = History.metrics (t.step c).history := by
    intro s t c hst
    rw [(Alike.step hst c).2]
  exact Machine.observe_eq_of_sim hstep hobs h calls

end Session

namespace ResidualEchoDetector

/-- The `GetMetrics` values after each of `calls`, made on detector `d`. -/
def observed (d : ResidualEchoDetector F) (calls : List (Call F)) : List (Metrics F) :=
  Machine.observe step (fun d c => (d.step c).getMetrics) d calls

/-- What is observed is the trace of the session the detector stands for. -/
theorem Tracks.observed {d : ResidualEchoDetector F} {h : List (Frame F)} (ht : d.Tracks h)
    (calls : List (Call F)) :
    observed d calls = (Session.mk d.pairing h).metricsTrace calls := by
  refine Machine.observe_eq_of_sim
    (R := fun d s => d.Tracks s.history ∧ s = ⟨d.pairing, s.history⟩) ?_ ?_ ⟨ht, rfl⟩ calls
  · rintro d ⟨pairing, h⟩ c ⟨ht, hs⟩
    obtain rfl : pairing = d.pairing := congrArg Session.pairing hs
    rw [step_refines]
    exact ⟨ht.step c, rfl⟩
  · rintro d ⟨pairing, h⟩ c ⟨ht, hs⟩
    obtain rfl : pairing = d.pairing := congrArg Session.pairing hs
    rw [step_refines, (ht.step c).getMetrics]

theorem observed_new (calls : List (Call F)) :
    observed new calls = Session.new.metricsTrace calls :=
  tracks_new.observed calls

/-- A detector after a call history and `Initialize`. -/
theorem observed_restarted (H calls : List (Call F)) :
    observed (run (H ++ [.initializeDetector])) calls =
      (Session.mk (run H).pairing.restart []).metricsTrace calls := by
  rw [run_concat]
  exact (tracks_run H).initializeDetector.observed calls

theorem first_run (H : List (Call F)) :
    (run H).pairing.first = true ↔ Call.captureFrames H = [] := by
  rw [pairing_run, Pairing.first_run, Call.captures_event, List.length_eq_zero_iff]

end ResidualEchoDetector

/-! ## The first capture call after a restart -/

/-- The kinds of calls. -/
inductive CallKind where
  | analyzeRenderAudio
  | analyzeCaptureAudio
  | initializeDetector
deriving DecidableEq

namespace Call

omit [FloatMath F] in
/-- What kind of call it is, without its frame. -/
def kind : Call F → CallKind
  | analyzeRenderAudio _ => .analyzeRenderAudio
  | analyzeCaptureAudio _ => .analyzeCaptureAudio
  | initializeDetector => .initializeDetector

omit [FloatMath F] in
/-- The same call with a full-scale frame. -/
def loud : Call F → Call F
  | analyzeRenderAudio _ => analyzeRenderAudio [1]
  | analyzeCaptureAudio _ => analyzeCaptureAudio [1]
  | initializeDetector => initializeDetector

theorem map_kind_loud (calls : List (Call F)) :
    (calls.map loud).map kind = calls.map kind := by
  rw [List.map_map]
  apply List.map_congr_left
  intro c _
  cases c <;> rfl

omit [FloatMath F] in
theorem exists_kinds (kinds : List CallKind) :
    ∃ calls : List (Call F), calls.map kind = kinds := by
  induction kinds with
  | nil => exact ⟨[], rfl⟩
  | cons k kinds ih =>
      rcases ih with ⟨calls, rfl⟩
      cases k with
      | analyzeRenderAudio => exact ⟨analyzeRenderAudio [] :: calls, rfl⟩
      | analyzeCaptureAudio => exact ⟨analyzeCaptureAudio [] :: calls, rfl⟩
      | initializeDetector => exact ⟨initializeDetector :: calls, rfl⟩

end Call

/-- Whether the first capture call finds a render value made since the last `Initialize`;
`pending` says that one is waiting already. -/
def firstCaptureFindsRender : Bool → List CallKind → Bool
  | _, [] => false
  | _, .analyzeRenderAudio :: ks => firstCaptureFindsRender true ks
  | pending, .analyzeCaptureAudio :: _ => pending
  | _, .initializeDetector :: ks => firstCaptureFindsRender false ks

namespace Session

/-- A session restarted after a capture call, beside a new one that has seen the same calls:
neither has processed a frame, and only the new one will still flush. -/
structure Restarted (pending : Bool) (s t : Session F) : Prop where
  first : s.pairing.first = false
  first_new : t.pairing.first = true
  history : s.history = []
  history_new : t.history = []
  backlog : pending = false ↔ s.pairing.backlog = []

theorem Restarted.render {pending : Bool} {s t : Session F} (h : Restarted pending s t)
    (x : List F) :
    Restarted true (s.step (.analyzeRenderAudio x)) (t.step (.analyzeRenderAudio x)) where
  first := (Pairing.render_first _ _).trans h.first
  first_new := (Pairing.render_first _ _).trans h.first_new
  history := h.history
  history_new := h.history_new
  backlog := by
    have hne := Pairing.render_backlog_ne_nil s.pairing (power x)
    constructor
    · intro hfalse
      exact absurd hfalse (by decide)
    · intro hnil
      exact absurd hnil hne

theorem Restarted.initialize {pending : Bool} {s t : Session F} (h : Restarted pending s t) :
    Restarted false (s.step .initializeDetector) (t.step .initializeDetector) where
  first := h.first
  first_new := h.first_new
  history := rfl
  history_new := rfl
  backlog := ⟨fun _ => rfl, fun _ => rfl⟩

/-- A capture call on an empty queue makes the two sessions alike. -/
theorem Restarted.capture {s t : Session F} (h : Restarted false s t) (y : List F) :
    (s.step (.analyzeCaptureAudio y)).Alike (t.step (.analyzeCaptureAudio y)) := by
  have hempty := h.backlog.mp rfl
  have hback : s.pairing.capture.backlog = [] := by simp [Pairing.capture, h.first, hempty]
  have hback' : t.pairing.capture.backlog = [] := by simp [Pairing.capture, h.first_new]
  refine ⟨⟨rfl, hback.trans hback'.symm, fun hne => absurd hback hne⟩, ?_⟩
  simp [Session.step, Pairing.next, h.first, h.first_new, hempty, h.history, h.history_new]

/-- Where the first capture call finds nothing waiting, no metric differs. -/
theorem Restarted.metricsTrace_eq {pending : Bool} {s t : Session F}
    (h : Restarted pending s t) {calls : List (Call F)}
    (hS : firstCaptureFindsRender pending (calls.map Call.kind) = false) :
    s.metricsTrace calls = t.metricsTrace calls := by
  induction calls generalizing pending s t with
  | nil => rfl
  | cons c calls ih =>
      rw [metricsTrace_cons, metricsTrace_cons]
      cases c with
      | analyzeRenderAudio x =>
          have hnext := h.render x
          rw [ih hnext hS, hnext.history, hnext.history_new]
      | analyzeCaptureAudio y =>
          obtain rfl : pending = false := hS
          have halike := h.capture y
          rw [halike.metricsTrace, halike.2]
      | initializeDetector =>
          have hnext := h.initialize
          rw [ih hnext hS, hnext.history, hnext.history_new]

/-- Where it finds full-scale frames only, the restarted session reports an echo. -/
theorem Restarted.metricsTrace_ne {pending : Bool} {s t : Session F}
    (h : Restarted pending s t) (hvalues : ∀ r ∈ s.pairing.backlog, r = power [1])
    (hecho : History.echoLikelihood [(⟨power [1], power [1]⟩ : Frame F)] ≠ 0)
    {calls : List (Call F)}
    (hS : firstCaptureFindsRender pending (calls.map Call.kind) = true) :
    s.metricsTrace (calls.map Call.loud) ≠ t.metricsTrace (calls.map Call.loud) := by
  induction calls generalizing pending s t with
  | nil => exact absurd hS (by simp [firstCaptureFindsRender])
  | cons c calls ih =>
      rw [List.map_cons, metricsTrace_cons, metricsTrace_cons]
      intro heq
      rcases List.cons.inj heq with ⟨hhead, htail⟩
      cases c with
      | analyzeRenderAudio x =>
          have hmem : ∀ r ∈ (s.pairing.render (power [1])).backlog, r = power [1] := by
            intro r hr
            rcases Pairing.mem_render hr with hold | hnew
            · exact hvalues r hold
            · exact hnew
          exact ih (h.render [1]) hmem hS htail
      | analyzeCaptureAudio y =>
          obtain rfl : pending = true := hS
          cases hback : s.pairing.backlog with
          | nil => exact absurd (h.backlog.mpr hback) (by decide)
          | cons r q =>
              -- the restarted session processes the frame, the new one flushes it
              have hr : r = power [1] := hvalues r (by rw [hback]; exact List.mem_cons_self)
              have hhist : (s.step (.analyzeCaptureAudio [1])).history =
                  [⟨power [1], power [1]⟩] := by
                simp [Session.step, Pairing.next, h.first, hback, h.history, hr]
              have hhist' : (t.step (.analyzeCaptureAudio [1])).history = [] := by
                simp [Session.step, Pairing.next, h.first_new, h.history_new]
              rw [Call.loud, hhist, hhist'] at hhead
              exact hecho (congrArg Metrics.echoLikelihood hhead)
      | initializeDetector =>
          exact ih h.initialize (fun r hr => absurd hr List.not_mem_nil) hS htail

end Session

namespace History

/-- On a single frame all delays from 1 on see the same zero render values. -/
theorem covariance_singleton_succ (p : Frame F) (d : ℕ) :
    covariance (d + 1) [p] = NormalizedCovarianceEstimator.new.update p.capture
      (captureStats [p]).mean (captureStats [p]).stdDeviation 0 0 0 := by
  rw [covariance, covariance, List.drop_succ_cons, List.drop_nil]
  rfl

/-- A single full-scale frame reports an echo. -/
theorem echoLikelihood_full_scale :
    echoLikelihood [(⟨power [1], power [1]⟩ : Frame Float32)] ≠ 0 := by
  have hlow : ¬ runningMax 0 (correlation [(⟨power [1], power [1]⟩ : Frame Float32)]) 1 <
      correlation [(⟨power [1], power [1]⟩ : Frame Float32)] 1 := by
    decide +kernel
  have hloop : loopLikelihood [(⟨power [1], power [1]⟩ : Frame Float32)] =
      runningMax 0 (correlation [(⟨power [1], power [1]⟩ : Frame Float32)]) 1 := by
    apply runningMax_eq_first _ 649
    intro d
    rw [correlation, covariance_singleton_succ, ← covariance_singleton_succ _ 0]
    exact hlow
  rw [echoLikelihood, hloop]
  decide +kernel

end History

namespace ResidualEchoDetector

/-- A detector restarted after a capture call, beside a new one. -/
theorem restarted_of_capture {H : List (Call F)} (hH : Call.captureFrames H ≠ []) :
    Session.Restarted false (Session.mk (run H).pairing.restart []) Session.new where
  first := by
    have hfirst := mt (first_run H).mp hH
    rwa [Bool.not_eq_true] at hfirst
  first_new := rfl
  history := rfl
  history_new := rfl
  backlog := ⟨fun _ => rfl, fun _ => rfl⟩

/-- Without a capture call before `Initialize`, or with nothing waiting at the first one
after it, the metrics are those of a new detector. -/
theorem observed_restart_eq {H S : List (Call F)}
    (h : Call.captureFrames H = [] ∨ firstCaptureFindsRender false (S.map Call.kind) = false) :
    observed (run (H ++ [.initializeDetector])) S = observed new S := by
  rw [observed_restarted, observed_new]
  by_cases hH : Call.captureFrames H = []
  · -- the flush is still pending, so only the drift counter can differ
    have halike : (Session.mk (run H).pairing.restart []).Alike (Session.new (F := F)) := by
      refine ⟨⟨(first_run H).mpr hH, rfl, fun hne => absurd rfl hne⟩, rfl⟩
    exact halike.metricsTrace S
  · exact (restarted_of_capture hH).metricsTrace_eq (h.resolve_left hH)

/-- **When a restarted detector is as good as new**: for a call history `H` and a sequence of
calls, whatever their frames, the metrics observed after `H; Initialize` are those of a new
detector if and only if `H` has no capture call or the first capture call of the sequence
finds no render value made since the last `Initialize`. -/
theorem observed_restart_iff (H : List (Call Float32)) (kinds : List CallKind) :
    (∀ S : List (Call Float32), S.map Call.kind = kinds →
      observed (run (H ++ [.initializeDetector])) S = observed new S) ↔
    (Call.captureFrames H = [] ∨ firstCaptureFindsRender false kinds = false) := by
  constructor
  · intro hall
    by_cases hH : Call.captureFrames H = []
    · exact Or.inl hH
    · right
      by_contra hfinds
      rw [Bool.not_eq_false] at hfinds
      obtain ⟨S, rfl⟩ := Call.exists_kinds (F := Float32) kinds
      have hsame := hall (S.map Call.loud) (Call.map_kind_loud S)
      rw [observed_restarted, observed_new] at hsame
      exact (restarted_of_capture hH).metricsTrace_ne (fun r hr => absurd hr List.not_mem_nil)
        History.echoLikelihood_full_scale hfinds hsame
  · rintro h S rfl
    exact observed_restart_eq h

/-- A capture call before `Initialize`, then a render and a capture call: the restarted
detector reports an echo, the new one drops the frame. -/
theorem observed_restart_ne :
    observed (run ([.analyzeCaptureAudio [1]] ++ [.initializeDetector]))
        [.analyzeRenderAudio [1], .analyzeCaptureAudio [1]] ≠
      observed (new : ResidualEchoDetector Float32)
        [.analyzeRenderAudio [1], .analyzeCaptureAudio [1]] := by
  have hH : Call.captureFrames [Call.analyzeCaptureAudio ([1] : List Float32)] ≠ [] :=
    List.cons_ne_nil _ _
  have hfinds : firstCaptureFindsRender false ([Call.analyzeRenderAudio ([1] : List Float32),
      .analyzeCaptureAudio [1]].map Call.kind) = true := rfl
  rw [observed_restarted, observed_new]
  exact (restarted_of_capture hH).metricsTrace_ne (fun r hr => absurd hr List.not_mem_nil)
    History.echoLikelihood_full_scale hfinds

end ResidualEchoDetector

end AudioProc
