import AudioProc.Likelihood

/-!
# What becomes of the render calls

Every render value that enters the queue is processed, waits, or is lost in one of four ways:
discarded by the drift rule, overwritten in a full buffer, flushed by the first capture call,
or dropped by `Initialize`. `step_balance` says so of one event, and `renders_accounted` of
every run of the detector.

The losses are bounded by potentials. The drift rule takes one value in `N` at most, as its
counter has to be paid for by `N` render calls; the flush comes once and costs one full queue
at most, a restart one full queue each.
-/

namespace AudioProc

universe u

/-- How a render value is lost. -/
inductive Loss where
  | drift
  | overwritten
  | flushed
  | restarted
deriving DecidableEq

namespace Pairing

variable {N : ℕ} {α : Type u}

/-! ## One event of the queue -/

/-- How many values an event loses. -/
def lost (p : Pairing N α) : Loss → Event α → ℕ
  | .drift, .render _ => if p.backlog ≠ [] ∧ N ≤ p.sinceEmpty then 1 else 0
  | .overwritten, .render _ => if p.correct.backlog.length < N then 0 else 1
  | .flushed, .capture => if p.first then p.backlog.length else 0
  | .restarted, .restart => p.backlog.length
  | _, _ => 0

/-- All values an event loses. -/
def lostInAll (p : Pairing N α) (e : Event α) : ℕ :=
  p.lost .drift e + p.lost .overwritten e + p.lost .flushed e + p.lost .restarted e

/-- How many values an event brings. -/
def brought : Event α → ℕ
  | .render _ => 1
  | .capture => 0
  | .restart => 0

/-- How often an event restarts the queue. -/
def restarts : Event α → ℕ
  | .render _ => 0
  | .capture => 0
  | .restart => 1

/-- How many values an event takes out of the queue to have them processed. -/
def processed (p : Pairing N α) : Event α → ℕ
  | .render _ => 0
  | .capture => p.next.toList.length
  | .restart => 0

theorem length_push (hN : 0 < N) (q : List α) (x : α) :
    (DropQueue.push N q x).length + (if q.length < N then 0 else 1) = q.length + 1 := by
  unfold DropQueue.push
  split_ifs with hroom
  · rw [List.length_append, List.length_singleton, Nat.add_zero]
  · rw [List.length_append, List.length_tail, List.length_singleton]
    omega

theorem length_correct (p : Pairing N α) :
    p.correct.backlog.length + (if p.backlog ≠ [] ∧ N ≤ p.sinceEmpty then 1 else 0) =
      p.backlog.length := by
  by_cases hempty : p.backlog = []
  · rw [correct_of_empty hempty, if_neg (fun h => h.1 hempty), Nat.add_zero]
  · have hpos := List.length_pos_iff.mpr hempty
    rcases Nat.lt_or_ge p.sinceEmpty N with hyoung | hold
    · rw [correct_of_young hempty hyoung, if_neg (fun h => Nat.not_le.mpr hyoung h.2),
        Nat.add_zero]
    · rw [correct_of_drift hempty hold, if_pos ⟨hempty, hold⟩]
      show p.backlog.tail.length + 1 = p.backlog.length
      rw [List.length_tail]
      omega

theorem length_capture (p : Pairing N α) :
    p.capture.backlog.length + p.next.toList.length +
      (if p.first then p.backlog.length else 0) = p.backlog.length := by
  unfold capture next
  cases p.first with
  | true =>
      show 0 + 0 + p.backlog.length = p.backlog.length
      omega
  | false =>
      -- the value that leaves is the one processed
      cases p.backlog with
      | nil => rfl
      | cons x q => rfl

/-- **One event** loses no value unnoticed. -/
theorem step_balance (hN : 0 < N) (p : Pairing N α) (e : Event α) :
    p.backlog.length + brought e =
      (p.step e).backlog.length + (p.processed e + p.lostInAll e) := by
  cases e with
  | render x =>
      have hpush := length_push hN p.correct.backlog x
      have hcorrect := p.length_correct
      show p.backlog.length + 1 = (DropQueue.push N p.correct.backlog x).length + (0 +
        ((if p.backlog ≠ [] ∧ N ≤ p.sinceEmpty then 1 else 0) +
          (if p.correct.backlog.length < N then 0 else 1) + 0 + 0))
      omega
  | capture =>
      have hcapture := p.length_capture
      show p.backlog.length + 0 = p.capture.backlog.length + (p.next.toList.length +
        (0 + 0 + (if p.first then p.backlog.length else 0) + 0))
      omega
  | restart =>
      show p.backlog.length + 0 = 0 + (0 + (0 + 0 + 0 + p.backlog.length))
      omega

/-! ## What the losses are paid with -/

/-- The counter, as long as it is in use. -/
def age (p : Pairing N α) : ℕ :=
  if p.backlog = [] then 0 else p.sinceEmpty

theorem age_le (p : Pairing N α) : p.age ≤ p.sinceEmpty := by
  unfold age
  split_ifs
  · exact Nat.zero_le _
  · exact le_rfl

theorem age_of_ne_nil {p : Pairing N α} (h : p.backlog ≠ []) : p.age = p.sinceEmpty :=
  if_neg h

/-- A drift correction uses up the counter. -/
theorem step_drift (p : Pairing N α) (e : Event α) :
    (p.step e).age + N * p.lost .drift e ≤ p.age + brought e := by
  cases e with
  | render x =>
      have hage := age_of_ne_nil (p.render_backlog_ne_nil x)
      show (p.render x).age + N * (if p.backlog ≠ [] ∧ N ≤ p.sinceEmpty then 1 else 0) ≤ p.age + 1
      rcases p.render_cases x with ⟨hempty, h⟩ | ⟨hne, hold, h⟩ | ⟨hne, hyoung, h⟩
      · rw [hage, h, if_neg (fun hdrift => hdrift.1 hempty), Nat.mul_zero]
        exact Nat.le_add_left 1 _
      · rw [hage, h, if_pos ⟨hne, hold⟩, age_of_ne_nil hne, Nat.mul_one]
        show 1 + N ≤ p.sinceEmpty + 1
        omega
      · rw [hage, h, if_neg (fun hdrift => Nat.not_le.mpr hyoung hdrift.2), age_of_ne_nil hne,
          Nat.mul_zero]
  | capture =>
      show p.capture.age + N * 0 ≤ p.age + 0
      rw [Nat.mul_zero, Nat.add_zero, Nat.add_zero]
      by_cases hempty : p.backlog = []
      · -- nothing waited, and nothing waits now
        have hcapture := p.length_capture
        have hnil : p.capture.backlog = [] := by
          apply List.length_eq_zero_iff.mp
          rw [hempty, List.length_nil] at hcapture
          omega
        rw [age, if_pos hnil]
        exact Nat.zero_le _
      · rw [age_of_ne_nil hempty]
        exact p.capture.age_le
  | restart => exact Nat.zero_le _

/-- The flush comes once. -/
theorem step_flushed {p : Pairing N α} (hp : p.Wf) (e : Event α) :
    (if (p.step e).first then N else 0) + p.lost .flushed e ≤ (if p.first then N else 0) + 0 := by
  cases e with
  | render x =>
      show (if (p.render x).first then N else 0) + 0 ≤ (if p.first then N else 0) + 0
      rw [render_first]
  | capture =>
      show 0 + (if p.first then p.backlog.length else 0) ≤ (if p.first then N else 0) + 0
      split_ifs
      · rw [Nat.zero_add]
        exact hp.length_le
      · exact le_rfl
  | restart => exact le_rfl

/-- A restart costs what waits. -/
theorem step_restarted {p : Pairing N α} (hp : p.Wf) (e : Event α) :
    p.lost .restarted e ≤ N * restarts e := by
  cases e with
  | render x => exact Nat.zero_le _
  | capture => exact Nat.zero_le _
  | restart =>
      show p.backlog.length ≤ N * 1
      rw [Nat.mul_one]
      exact hp.length_le

end Pairing

/-! ## Runs of the detector -/

namespace Call

variable {F : Type u}

/-- How many `Initialize` calls there are. -/
def restarts : List (Call F) → ℕ
  | [] => 0
  | initializeDetector :: calls => restarts calls + 1
  | _ :: calls => restarts calls

end Call

namespace ResidualEchoDetector

variable {F : Type u} [FloatMath F]

omit [FloatMath F] in
/-- How many render values a call loses. -/
def lost (w : Loss) (d : ResidualEchoDetector F) (c : Call F) : ℕ :=
  match w, c with
  | .drift, .analyzeRenderAudio _ =>
    if d.renderBuffer.length ≠ 0 ∧ d.framesSinceZeroBufferSize ≥ kRenderBufferSize then 1 else 0
  | .overwritten, .analyzeRenderAudio _ =>
    if d.correctDrift.renderBuffer.length = kRenderBufferSize then 1 else 0
  | .flushed, .analyzeCaptureAudio _ => if d.firstProcessCall then d.renderBuffer.length else 0
  | .restarted, .initializeDetector => d.renderBuffer.length
  | _, _ => 0

theorem lost_eq (w : Loss) (d : ResidualEchoDetector F) (c : Call F) :
    lost w d c = d.pairing.lost w c.event := by
  have hlength := d.renderBuffer.length_contents
  cases c with
  | analyzeRenderAudio x =>
      cases w with
      | drift =>
          have hiff := d.length_eq_zero_iff
          show (if _ ∧ _ then 1 else 0) = if _ ∧ _ then 1 else 0
          congr 1
          rw [ne_eq, hiff]
          rfl
      | overwritten =>
          have hle := d.correctDrift.renderBuffer.length_le
          show (if _ then 1 else 0) = if d.pairing.correct.backlog.length < _ then 0 else 1
          rw [← pairing_correctDrift, pairing_backlog, CircularBuffer.length_contents]
          split_ifs <;> omega
      | flushed => rfl
      | restarted => rfl
  | analyzeCaptureAudio y =>
      cases w with
      | flushed =>
          show (if _ then _ else _) = if _ then d.renderBuffer.contents.length else 0
          rw [hlength]
          rfl
      | drift => rfl
      | overwritten => rfl
      | restarted => rfl
  | initializeDetector =>
      cases w with
      | restarted => exact hlength.symm
      | drift => rfl
      | overwritten => rfl
      | flushed => rfl

/-- How many render values are lost in a run. -/
def lostIn (calls : List (Call F)) (w : Loss) : ℕ :=
  Machine.total step (lost w) new calls

theorem total_renders (d : ResidualEchoDetector F) (calls : List (Call F)) :
    Machine.total step (fun _ c => Pairing.brought c.event) d calls =
      (Call.renderFrames calls).length := by
  induction calls generalizing d with
  | nil => rfl
  | cons c calls ih =>
      rw [Machine.total, ih]
      cases c with
      | analyzeRenderAudio x => exact Nat.add_comm _ _
      | analyzeCaptureAudio y => exact Nat.zero_add _
      | initializeDetector => exact Nat.zero_add _

theorem total_restarts (d : ResidualEchoDetector F) (calls : List (Call F)) :
    Machine.total step (fun _ c => Pairing.restarts c.event) d calls =
      Call.restarts calls := by
  induction calls generalizing d with
  | nil => rfl
  | cons c calls ih =>
      rw [Machine.total, ih]
      cases c with
      | analyzeRenderAudio x => exact Nat.zero_add _
      | analyzeCaptureAudio y => exact Nat.zero_add _
      | initializeDetector => exact Nat.add_comm _ _

/-- All render values that a call loses. -/
def lostInAll (d : ResidualEchoDetector F) (c : Call F) : ℕ :=
  lost .drift d c + lost .overwritten d c + lost .flushed d c + lost .restarted d c

theorem total_lostInAll (d : ResidualEchoDetector F) (calls : List (Call F)) :
    Machine.total step lostInAll d calls =
      Machine.total step (lost .drift) d calls + Machine.total step (lost .overwritten) d calls +
        Machine.total step (lost .flushed) d calls +
        Machine.total step (lost .restarted) d calls := by
  induction calls generalizing d with
  | nil => rfl
  | cons c calls ih =>
      simp only [Machine.total, ih, lostInAll]
      omega

theorem length_reported (d : ResidualEchoDetector F) (c : Call F) :
    (d.reported c).toList.length = d.pairing.processed c.event := by
  cases c with
  | analyzeRenderAudio x => rfl
  | analyzeCaptureAudio y =>
      show (d.nextRenderPower.map _).toList.length = d.pairing.next.toList.length
      rw [← nextRenderPower_eq]
      cases d.nextRenderPower <;> rfl
  | initializeDetector => rfl

theorem total_processed (calls : List (Call F)) :
    Machine.total step (fun d c => (d.reported c).toList.length) new calls =
      (likelihoods calls).length := by
  induction calls using List.reverseRecOn with
  | nil => rfl
  | append_singleton calls c ih =>
      rw [Machine.total_append, ih, likelihoods_concat, List.length_append]
      rfl

/-- **One call** loses no render value unnoticed. -/
theorem call_balance (d : ResidualEchoDetector F) (c : Call F) :
    d.renderBuffer.length + Pairing.brought c.event =
      (d.step c).renderBuffer.length + ((d.reported c).toList.length + d.lostInAll c) := by
  have hstep := Pairing.step_balance (by decide) d.pairing c.event
  rw [← pairing_step, pairing_backlog, pairing_backlog, CircularBuffer.length_contents,
    CircularBuffer.length_contents] at hstep
  rw [lostInAll, lost_eq, lost_eq, lost_eq, lost_eq, length_reported]
  exact hstep

theorem call_drift (d : ResidualEchoDetector F) (c : Call F) :
    (d.step c).pairing.age + kRenderBufferSize * lost .drift d c ≤
      d.pairing.age + Pairing.brought c.event := by
  rw [lost_eq, pairing_step]
  exact d.pairing.step_drift c.event

theorem call_flushed {d : ResidualEchoDetector F} (hd : d.pairing.Wf) (c : Call F) :
    (if (d.step c).firstProcessCall then kRenderBufferSize else 0) + lost .flushed d c ≤
      (if d.firstProcessCall then kRenderBufferSize else 0) + 0 := by
  have hstep := Pairing.step_flushed hd c.event
  rw [← pairing_step] at hstep
  rw [lost_eq]
  exact hstep

theorem call_restarted {d : ResidualEchoDetector F} (hd : d.pairing.Wf) (c : Call F) :
    0 + lost .restarted d c ≤ 0 + kRenderBufferSize * Pairing.restarts c.event := by
  rw [lost_eq, Nat.zero_add, Nat.zero_add]
  exact Pairing.step_restarted hd c.event

/-- **The render calls of a run**: every one of them is processed by a capture call, still
waits, or was lost in one of the four ways. At most one render call in 30 is discarded by the
drift rule; the flush takes at most one full buffer and every `Initialize` at most one. -/
theorem renders_accounted (calls : List (Call F)) :
    (Call.renderFrames calls).length =
      (likelihoods calls).length + (run calls).renderBuffer.length + lostIn calls .drift +
        lostIn calls .overwritten + lostIn calls .flushed + lostIn calls .restarted ∧
    kRenderBufferSize * lostIn calls .drift ≤ (Call.renderFrames calls).length ∧
    lostIn calls .flushed ≤ kRenderBufferSize ∧
    lostIn calls .restarted ≤ kRenderBufferSize * Call.restarts calls := by
  have hwf : ∀ (d : ResidualEchoDetector F) (c : Call F), d.pairing.Wf → (d.step c).pairing.Wf := by
    intro d c hd
    rw [pairing_step]
    exact hd.step (by decide) c.event
  have hnew : (new : ResidualEchoDetector F).pairing.Wf := Pairing.wf_of_empty rfl
  refine ⟨?_, ?_, ?_, ?_⟩
  · have hbalance := Machine.total_balance call_balance (new : ResidualEchoDetector F) calls
    rw [total_renders, Machine.total_add, total_processed, total_lostInAll] at hbalance
    have hempty : (new : ResidualEchoDetector F).renderBuffer.length = 0 := rfl
    rw [hempty] at hbalance
    unfold lostIn run
    omega
  · have htotal := Machine.total_le (fun d => d.pairing.age)
      (fun d c => kRenderBufferSize * lost .drift d c) (fun _ c => Pairing.brought c.event) hwf
      (fun d c _ => call_drift d c) hnew calls
    rw [Machine.total_mul, total_renders] at htotal
    have hage : (new : ResidualEchoDetector F).pairing.age = 0 := rfl
    unfold lostIn
    omega
  · have htotal := Machine.total_le (fun d => if d.firstProcessCall then kRenderBufferSize else 0)
      (lost .flushed) (fun _ _ => 0) hwf (fun d c hd => call_flushed hd c) hnew calls
    have hfirst : (new : ResidualEchoDetector F).firstProcessCall = true := rfl
    rw [Machine.total_zero, hfirst, if_pos rfl] at htotal
    unfold lostIn
    omega
  · have htotal := Machine.total_le (fun _ => 0) (lost .restarted)
      (fun _ c => kRenderBufferSize * Pairing.restarts c.event) hwf
      (fun d c hd => call_restarted hd c) hnew calls
    rw [Machine.total_mul, total_restarts] at htotal
    unfold lostIn
    omega

end ResidualEchoDetector

end AudioProc
