import AudioProc.Refinement

/-!
# Drift correction bounds the backlog

Renders may come in faster than captures, by up to one extra call in `N`. Since the last
render call that found the queue empty, with `k` render and `c` capture calls made, the
drift rule has discarded `(k - 1) / N` values, and the counter stands at `(k - 1) % N + 1`
(`Segment`); so as long as nothing was overwritten, `k - c - (k - 1) / N` values wait.

If no segment of the run that begins and ends with a render call has more than `J` render
calls beyond that (`DriftBounded`), the backlog stays within `J ≤ N` and there is always
room for the value pushed.
-/

namespace AudioProc

universe u

namespace Pairing

open Event (renders captures renders_append captures_append renders_render renders_capture
  captures_render captures_capture)

variable {N : ℕ} {α : Type u}

/-- Every segment between two render calls has at most `J` render calls more than its
captures and its whole drift periods account for. -/
def DriftBounded (N J : ℕ) (es : List (Event α)) : Prop :=
  ∀ pre x mid y post, es = pre ++ (Event.render x :: mid ++ [Event.render y]) ++ post →
    (renders (Event.render x :: mid ++ [Event.render y])).length ≤
      captures (Event.render x :: mid ++ [Event.render y]) + J +
        ((renders (Event.render x :: mid ++ [Event.render y])).length - 1) / N

/-- The segment since the last render call that found the queue empty explains the
backlog and the counter. -/
structure Segment (es : List (Event α)) (p : Pairing N α) (seg : List (Event α)) :
    Prop where
  suffix : seg <:+ es
  begins : ∃ x mid, seg = Event.render x :: mid
  balance : p.backlog.length + captures seg + ((renders seg).length - 1) / N =
    (renders seg).length
  counter : p.sinceEmpty = ((renders seg).length - 1) % N + 1

/-- The invariant: the backlog is bounded, and empty or explained by a segment. -/
structure Bounded (J : ℕ) (es : List (Event α)) (p : Pairing N α) : Prop where
  length_le : p.backlog.length ≤ J
  segment : p.backlog = [] ∨ ∃ seg, Segment es p seg

theorem Segment.renders_pos {es : List (Event α)} {p : Pairing N α} {seg : List (Event α)}
    (hs : Segment es p seg) : 1 ≤ (renders seg).length := by
  rcases hs.begins with ⟨x, mid, rfl⟩
  rw [renders, List.length_cons]
  omega

/-- The bound on the run, applied to a segment that a further render call closes. -/
theorem Segment.bound {J : ℕ} {es pre post : List (Event α)} {x : α}
    (hd : DriftBounded N J es) (hsplit : es = pre ++ Event.render x :: post) {p : Pairing N α}
    {seg : List (Event α)} (hs : Segment pre p seg) :
    (renders seg).length + 1 ≤ captures seg + J + (renders seg).length / N := by
  rcases hs.begins with ⟨y, mid, rfl⟩
  rcases hs.suffix with ⟨front, hfront⟩
  have hes : es = front ++ (Event.render y :: mid ++ [Event.render x]) ++ post := by
    rw [hsplit, ← hfront]
    simp
  have hbound := hd front y mid x post hes
  rw [renders_append, captures_append, List.length_append, renders_render,
    captures_render] at hbound
  simpa using hbound

theorem Segment.suffix_concat {es : List (Event α)} {p : Pairing N α} {seg : List (Event α)}
    (hs : Segment es p seg) (e : Event α) : seg ++ [e] <:+ es ++ [e] := by
  rcases hs.suffix with ⟨front, hfront⟩
  exact ⟨front, by rw [← hfront, List.append_assoc]⟩

theorem Segment.begins_concat {es : List (Event α)} {p : Pairing N α} {seg : List (Event α)}
    (hs : Segment es p seg) (e : Event α) : ∃ x mid, seg ++ [e] = Event.render x :: mid := by
  rcases hs.begins with ⟨x, mid, rfl⟩
  exact ⟨x, mid ++ [e], rfl⟩

/-- Before the end of a drift period only the remainder moves. -/
theorem div_mod_of_lt {k : ℕ} (hk : 1 ≤ k) (h : (k - 1) % N + 1 < N) :
    k / N = (k - 1) / N ∧ k % N = (k - 1) % N + 1 := by
  have hN : 0 < N := by omega
  have hmod := Nat.div_add_mod (k - 1) N
  have hdiv : k / N = (k - 1) / N := by
    rw [Nat.div_eq_iff hN, Nat.mul_comm]
    omega
  have hmod' := Nat.div_add_mod k N
  rw [hdiv] at hmod'
  exact ⟨hdiv, by omega⟩

/-- At its end the quotient moves and the remainder starts again. -/
theorem div_mod_of_eq {k : ℕ} (hk : 1 ≤ k) (h : (k - 1) % N + 1 = N) :
    k / N = (k - 1) / N + 1 ∧ k % N = 0 := by
  have hN : 0 < N := by omega
  have hmod := Nat.div_add_mod (k - 1) N
  have hkN : k = N * ((k - 1) / N + 1) := by
    rw [Nat.mul_succ]
    omega
  exact ⟨Nat.div_eq_of_eq_mul_right hN hkN, Nat.mod_eq_zero_of_dvd ⟨_, hkN⟩⟩

/-- A render call that finds the queue empty begins a segment. -/
theorem segment_of_empty (hN : 0 < N) {es : List (Event α)} {p : Pairing N α}
    (hempty : p.backlog = []) (x : α) :
    (p.render x).backlog = [x] ∧
      Segment (es ++ [Event.render x]) (p.render x) [Event.render x] := by
  have hback : (p.render x).backlog = [x] := by
    rw [Pairing.render, correct_of_empty hempty, hempty, DropQueue.push_of_lt hN]
    rfl
  refine ⟨hback, List.suffix_append _ _, ⟨x, [], rfl⟩, ?_, ?_⟩
  · rw [hback]
    simp
  · rw [Pairing.render, correct_of_empty hempty]
    simp

/-- A render call in the middle of a drift period: the value is appended. -/
theorem Segment.render_young {es : List (Event α)} {p : Pairing N α} {seg : List (Event α)}
    (hs : Segment es p seg) (hempty : p.backlog ≠ []) (hyoung : p.sinceEmpty < N)
    (hroom : p.backlog.length < N) (x : α) :
    (p.render x).backlog = p.backlog ++ [x] ∧
      Segment (es ++ [Event.render x]) (p.render x) (seg ++ [Event.render x]) := by
  have hcorrect := correct_of_young hempty hyoung
  have hback : (p.render x).backlog = p.backlog ++ [x] := by
    rw [Pairing.render, hcorrect, DropQueue.push_of_lt hroom]
  have hbalance := hs.balance
  have hcounter := hs.counter
  -- the counter stands below `N`, so that no period ends here
  rcases div_mod_of_lt hs.renders_pos (hcounter ▸ hyoung) with ⟨hdiv, hmod⟩
  refine ⟨hback, hs.suffix_concat _, hs.begins_concat _, ?_, ?_⟩
  · rw [hback]
    simp only [renders_append, captures_append, List.length_append, renders_render,
      captures_render, List.length_singleton, Nat.add_sub_cancel, hdiv]
    omega
  · rw [Pairing.render, hcorrect]
    simp only [renders_append, List.length_append, renders_render, List.length_singleton,
      Nat.add_sub_cancel, hmod]
    omega

/-- A render call at the end of a drift period: the oldest value is discarded. -/
theorem Segment.render_drift (hN : 0 < N) {es : List (Event α)} {p : Pairing N α}
    {seg : List (Event α)} (hs : Segment es p seg) (hempty : p.backlog ≠ [])
    (hold : N ≤ p.sinceEmpty) (hroom : p.backlog.tail.length < N) (x : α) :
    (p.render x).backlog = p.backlog.tail ++ [x] ∧
      Segment (es ++ [Event.render x]) (p.render x) (seg ++ [Event.render x]) := by
  have hcorrect := correct_of_drift hempty hold
  have hback : (p.render x).backlog = p.backlog.tail ++ [x] := by
    rw [Pairing.render, hcorrect, DropQueue.push_of_lt hroom]
  have hpos : 0 < p.backlog.length := List.length_pos_iff.mpr hempty
  have hbalance := hs.balance
  have hcounter := hs.counter
  -- the counter is at most `N` all along, so that it is `N` now
  have hlast : ((renders seg).length - 1) % N + 1 = N := by
    have hlt := Nat.mod_lt ((renders seg).length - 1) hN
    omega
  rcases div_mod_of_eq hs.renders_pos hlast with ⟨hdiv, hmod⟩
  refine ⟨hback, hs.suffix_concat _, hs.begins_concat _, ?_, ?_⟩
  · rw [hback, List.length_append, List.length_tail, List.length_singleton]
    simp only [renders_append, captures_append, List.length_append, renders_render,
      captures_render, List.length_singleton, Nat.add_sub_cancel, hdiv]
    omega
  · rw [Pairing.render, hcorrect]
    simp only [renders_append, List.length_append, renders_render, List.length_singleton,
      Nat.add_sub_cancel, hmod]

/-- **A render call** within the bound: the value pushed finds room, and the backlog stays
bounded. -/
theorem Bounded.render {J : ℕ} (hJ : 1 ≤ J) (hJN : J ≤ N) {es pre post : List (Event α)}
    {x : α} (hd : DriftBounded N J es) (hsplit : es = pre ++ Event.render x :: post)
    {p : Pairing N α} (hp : Bounded J pre p) :
    p.correct.backlog.length < N ∧ Bounded J (pre ++ [Event.render x]) (p.render x) := by
  have hN : 0 < N := by omega
  by_cases hempty : p.backlog = []
  · have hroom : p.correct.backlog.length < N := by
      rw [correct_of_empty hempty, hempty]
      exact hN
    rcases segment_of_empty hN hempty x with ⟨hback, hseg⟩
    refine ⟨hroom, ?_, Or.inr ⟨_, hseg⟩⟩
    rw [hback]
    exact hJ
  · rcases hp.segment with hnil | ⟨seg, hs⟩
    · exact absurd hnil hempty
    have hk := hs.renders_pos
    have hbound := hs.bound hd hsplit
    have hbalance := hs.balance
    have hcounter := hs.counter
    have hpos : 0 < p.backlog.length := List.length_pos_iff.mpr hempty
    have hlen := hp.length_le
    rcases Nat.lt_or_ge p.sinceEmpty N with hyoung | hold
    · -- no period ends, so that the bound leaves room for one more value
      have hdiv := (div_mod_of_lt hk (hcounter ▸ hyoung)).1
      have hroom : p.backlog.length < N := by omega
      rcases hs.render_young hempty hyoung hroom x with ⟨hback, hseg⟩
      refine ⟨by rwa [correct_of_young hempty hyoung], ?_, Or.inr ⟨_, hseg⟩⟩
      rw [hback, List.length_append, List.length_singleton]
      omega
    · -- the value discarded makes room for the one pushed
      have hroom : p.backlog.tail.length < N := by
        rw [List.length_tail]
        omega
      rcases hs.render_drift hN hempty hold hroom x with ⟨hback, hseg⟩
      refine ⟨by rwa [correct_of_drift hempty hold], ?_, Or.inr ⟨_, hseg⟩⟩
      rw [hback, List.length_append, List.length_tail, List.length_singleton]
      omega

/-- A capture call takes a value of the segment, or flushes the queue. -/
theorem Bounded.capture {J : ℕ} {es : List (Event α)} {p : Pairing N α}
    (hp : Bounded J es p) : Bounded J (es ++ [Event.capture]) p.capture := by
  by_cases hfirst : p.first = true
  · have hback : p.capture.backlog = [] := by simp [Pairing.capture, hfirst]
    refine ⟨?_, Or.inl hback⟩
    rw [hback]
    exact Nat.zero_le J
  · have hback : p.capture.backlog = p.backlog.tail := by simp [Pairing.capture, hfirst]
    have hlen := hp.length_le
    constructor
    · rw [hback, List.length_tail]
      omega
    · by_cases hempty : p.backlog = []
      · left
        rw [hback, hempty]
        rfl
      · right
        rcases hp.segment with hnil | ⟨seg, hs⟩
        · exact absurd hnil hempty
        have hpos : 0 < p.backlog.length := List.length_pos_iff.mpr hempty
        have hbalance := hs.balance
        -- the segment since the buffer was last empty goes on with this call
        refine ⟨seg ++ [Event.capture], ?_, ?_, ?_, ?_⟩
        · exact hs.suffix_concat _
        · exact hs.begins_concat _
        · rw [hback, List.length_tail]
          simp only [renders_append, captures_append, renders_capture, captures_capture,
            List.append_nil]
          omega
        · have hcounter : p.capture.sinceEmpty = p.sinceEmpty := rfl
          rw [hcounter, hs.counter, renders_append, renders_capture, List.append_nil]

/-- **Whole runs**: along a run whose drift is bounded, the backlog is bounded and every
value pushed finds room. -/
theorem bounded_run {J : ℕ} (hJ : 1 ≤ J) (hJN : J ≤ N) {es : List (Event α)}
    (hd : DriftBounded N J es) :
    ∀ pre, pre <+: es → Bounded J pre (run pre : Pairing N α) := by
  refine Machine.run_induct step new (Bounded J) es ?_ ?_
  · exact ⟨Nat.zero_le J, Or.inl rfl⟩
  · intro pre e post p hsplit hp
    cases e with
    | render x => exact (hp.render hJ hJN hd hsplit).2
    | capture => exact hp.capture
    | restart => exact ⟨Nat.zero_le J, Or.inl rfl⟩

end Pairing

namespace ResidualEchoDetector

open Call (renderFrames captureFrames)

variable {F : Type u} [FloatMath F]

/-- Every contiguous segment of calls that begins and ends with a render call and contains
`k` of them contains at least `k - J - (k - 1) / 30` capture calls. -/
def DriftAtMost (J : ℕ) (calls : List (Call F)) : Prop :=
  ∀ pre seg post, calls = pre ++ seg ++ post →
    (∃ x rest, seg = .analyzeRenderAudio x :: rest) →
    (∃ y rest, seg = rest ++ [.analyzeRenderAudio y]) →
    (renderFrames seg).length ≤
      (captureFrames seg).length + J + ((renderFrames seg).length - 1) / 30

theorem DriftAtMost.events {J : ℕ} {calls : List (Call F)} (hd : DriftAtMost J calls) :
    Pairing.DriftBounded kRenderBufferSize J (calls.map Call.event) := by
  intro pre x mid y post hsplit
  rcases List.map_eq_append_iff.mp hsplit with ⟨front, post', rfl, hfront, -⟩
  rcases List.map_eq_append_iff.mp hfront with ⟨pre', seg, rfl, -, hseg⟩
  have hbegins : ∃ x' rest, seg = .analyzeRenderAudio x' :: rest := by
    rcases List.map_eq_cons_iff.mp hseg with ⟨c, rest, rfl, hc, -⟩
    rcases Call.eq_render_of_event hc with ⟨x', rfl, -⟩
    exact ⟨x', rest, rfl⟩
  have hends : ∃ y' rest, seg = rest ++ [.analyzeRenderAudio y'] := by
    rcases List.map_eq_append_iff.mp hseg with ⟨rest, last, rfl, -, hlast⟩
    rcases List.map_eq_cons_iff.mp hlast with ⟨c, tail, rfl, hc, hnil⟩
    rcases Call.eq_render_of_event hc with ⟨y', rfl, -⟩
    rcases List.map_eq_nil_iff.mp hnil with rfl
    exact ⟨y', rest, rfl⟩
  have hbound := hd pre' seg post' rfl hbegins hends
  rw [← hseg, Call.renders_event, Call.captures_event, List.length_map]
  exact hbound

/-- **Drift correction bounds the backlog**: in a run with drift at most `J` the render
buffer never holds more than `J` values, and every push finds a free slot, so that it
appends its value and overwrites nothing. -/
theorem backlog_bounded (J : ℕ) (hJ : 1 ≤ J) (hJ30 : J ≤ 30) (calls : List (Call F))
    (hdrift : DriftAtMost J calls) :
    (∀ pre, pre <+: calls → (run pre).renderBuffer.length ≤ J) ∧
    ∀ pre x post, calls = pre ++ .analyzeRenderAudio x :: post →
      (run pre).correctDrift.renderBuffer.length < kRenderBufferSize ∧
      ((run pre).analyzeRenderAudio x).renderBuffer.contents =
        (run pre).correctDrift.renderBuffer.contents ++ [power x] := by
  have hJN : J ≤ kRenderBufferSize := hJ30
  -- the bound is one of the buffering side, which the detector projects to
  have hbounded : ∀ pre, pre <+: calls →
      Pairing.Bounded J (pre.map Call.event) (run pre).pairing := by
    intro pre hpre
    rw [pairing_run]
    exact Pairing.bounded_run hJ hJN hdrift.events _ (hpre.map Call.event)
  constructor
  · intro pre hpre
    have hlen := (hbounded pre hpre).length_le
    rwa [pairing_backlog, CircularBuffer.length_contents] at hlen
  · intro pre x post hsplit
    have hpre : pre <+: calls := ⟨_, hsplit.symm⟩
    have hevents : calls.map Call.event =
        pre.map Call.event ++ .render (power x) :: post.map Call.event := by
      rw [hsplit, List.map_append, List.map_cons]
      rfl
    have hroom := ((hbounded pre hpre).render hJ hJN hdrift.events hevents).1
    rw [← pairing_correctDrift, pairing_backlog] at hroom
    constructor
    · rwa [CircularBuffer.length_contents] at hroom
    · show ((run pre).correctDrift.renderBuffer.push (power x)).contents = _
      rw [CircularBuffer.contents_push, DropQueue.push_of_lt hroom]

/-- Two render calls in a row stay within a drift of 2. -/
theorem backlog_bounded_two :
    let calls : List (Call Float32) :=
      [.analyzeRenderAudio [1], .analyzeRenderAudio [1], .analyzeCaptureAudio [1]]
    ∀ pre, pre <+: calls → (run pre).renderBuffer.length ≤ 2 := by
  intro calls
  have hdrift : DriftAtMost 2 calls := by
    intro pre seg post hsplit _ _
    have hcount : (renderFrames calls).length = 2 := rfl
    rw [hsplit] at hcount
    have hmono : (renderFrames seg).length ≤ 2 := by
      simp only [Call.renderFrames_append, List.length_append] at hcount
      omega
    omega
  exact (backlog_bounded 2 (by decide) (by decide) calls hdrift).1

end ResidualEchoDetector

end AudioProc
