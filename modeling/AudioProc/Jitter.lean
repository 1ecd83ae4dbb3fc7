import AudioProc.Stabilise

/-!
# Jitter does not change the result

After the flush of the first capture call, renders and captures may come in any order in
which no prefix has more captures than renders (`Causal`) and every `N` consecutive render
calls include one made when the two counts are equal (`Meets`). The invariant `InOrder`
then says that the queue is exactly what was rendered and not captured yet: the counts are
equal just when the queue is empty, so the drift counter never reaches `N` on a waiting
queue, and a queue that has not been empty for fewer than `N` render calls is not full.

The frames processed are therefore the `i`-th render paired with the `i`-th capture
(`Matched`), whatever the interleaving, and the metrics are those of the strictly
alternating run.
-/

namespace AudioProc

universe u

namespace Pairing

open Event (renders captures renders_append captures_append renders_render renders_capture
  captures_render captures_capture)

variable {N : ℕ} {α : Type u}

/-- In no prefix are there more captures than renders. -/
def Causal (es : List (Event α)) : Prop :=
  ∀ pre, pre <+: es → captures pre ≤ (renders pre).length

/-- Among any `N` consecutive render calls one is made when the counts are equal. -/
def Meets (N : ℕ) (es : List (Event α)) : Prop :=
  ∀ pre seg post, es = pre ++ seg ++ post → (renders seg).length = N →
    ∃ front x back, seg = front ++ Event.render x :: back ∧
      (renders (pre ++ front)).length = captures (pre ++ front)

/-- The render calls of `seg`, made after `pre`, all found the counts different. -/
def Apart (pre seg : List (Event α)) : Prop :=
  ∀ front x back, seg = front ++ Event.render x :: back →
    (renders (pre ++ front)).length ≠ captures (pre ++ front)

/-- One more call keeps them apart, when a render call finds the counts different too. -/
theorem Apart.concat {pre seg : List (Event α)} (h : Apart pre seg) {e : Event α}
    (he : ∀ x, e = Event.render x →
      (renders (pre ++ seg)).length ≠ captures (pre ++ seg)) : Apart pre (seg ++ [e]) := by
  intro front y back hsplit
  rcases List.eq_nil_or_concat back with rfl | ⟨back, e', rfl⟩
  · -- the call in question is the new one
    rcases List.append_inj' hsplit rfl with ⟨rfl, hlast⟩
    exact he y (List.cons.inj hlast).1
  · rw [List.concat_eq_append, ← List.cons_append, ← List.append_assoc] at hsplit
    rcases List.append_inj' hsplit rfl with ⟨hseg, -⟩
    exact h front y back hseg

theorem Apart.concat_render {pre seg : List (Event α)} (h : Apart pre seg)
    (hne : (renders (pre ++ seg)).length ≠ captures (pre ++ seg)) (x : α) :
    Apart pre (seg ++ [Event.render x]) := by
  apply h.concat
  intro _ _
  exact hne

theorem Apart.concat_capture {pre seg : List (Event α)} (h : Apart pre seg) :
    Apart pre (seg ++ [Event.capture]) := by
  apply h.concat
  intro x hx
  exact absurd hx (by simp)

/-- The render calls since the queue was last found empty: as many as the counter says,
this one included. -/
structure Waiting (pre : List (Event α)) (p : Pairing N α) : Prop where
  length_le : p.backlog.length ≤ p.sinceEmpty
  apart : ∃ front seg, pre = front ++ seg ∧ (renders seg).length + 1 = p.sinceEmpty ∧
    Apart front seg

/-- The invariant: the queue is what was rendered and not captured. -/
structure InOrder (pre : List (Event α)) (p : Pairing N α) : Prop where
  first : p.first = false
  backlog : p.backlog = (renders pre).drop (captures pre)
  waiting : p.backlog ≠ [] → Waiting pre p

theorem InOrder.counts_ne {pre : List (Event α)} {p : Pairing N α} (hp : InOrder pre p)
    (h : p.backlog ≠ []) : (renders pre).length ≠ captures pre := by
  intro heq
  apply h
  rw [hp.backlog, ← heq, List.drop_length]

/-- While values wait the drift counter has not reached its limit. -/
theorem Waiting.young {es pre post : List (Event α)} (hm : Meets N es)
    {p : Pairing N α} {x : α} (hsplit : es = pre ++ Event.render x :: post)
    (hne : (renders pre).length ≠ captures pre) (hw : Waiting pre p)
    (hle : p.sinceEmpty ≤ N) : p.sinceEmpty < N := by
  rcases hw.apart with ⟨front, seg, rfl, hcount, hapart⟩
  apply Nat.lt_of_le_of_ne hle
  intro hlimit
  -- otherwise the last `N` render calls, this one included, all found values waiting
  have hes : es = front ++ (seg ++ [Event.render x]) ++ post := by
    rw [hsplit]
    simp
  have hlen : (renders (seg ++ [Event.render x])).length = N := by
    rw [renders_append, renders_render, List.length_append, List.length_singleton]
    omega
  rcases hm front _ post hes hlen with ⟨front', y, back, hseg, heq⟩
  exact hapart.concat_render hne x front' y back hseg heq

/-- **A render call**: its value goes to the end of the queue, nothing is dropped. -/
theorem InOrder.render {es pre post : List (Event α)} (hN : 0 < N) (hc : Causal es)
    (hm : Meets N es) {x : α} (hsplit : es = pre ++ Event.render x :: post)
    {p : Pairing N α} (hwf : p.Wf) (hp : InOrder pre p) :
    InOrder (pre ++ [Event.render x]) (p.render x) := by
  have hcount : captures pre ≤ (renders pre).length := hc pre ⟨_, hsplit.symm⟩
  have hqueue : (renders (pre ++ [Event.render x])).drop
      (captures (pre ++ [Event.render x])) = p.backlog ++ [x] := by
    rw [renders_append, captures_append, renders_render, captures_render, Nat.add_zero,
      List.drop_append_of_le_length hcount, hp.backlog]
  by_cases hempty : p.backlog = []
  · -- found empty: the counter restarts with this call
    have hback : (p.render x).backlog = [x] := by
      rw [Pairing.render, correct_of_empty hempty, hempty, DropQueue.push_of_lt hN]
      rfl
    have hcounter : (p.render x).sinceEmpty = 1 := by
      rw [Pairing.render, correct_of_empty hempty]
    refine ⟨by rw [render_first, hp.first], by rw [hback, hqueue, hempty]; rfl, fun _ => ?_⟩
    refine ⟨by rw [hback, hcounter]; rfl, pre ++ [Event.render x], [], by simp, ?_, ?_⟩
    · rw [hcounter]
      rfl
    · intro front y back hnil
      exact absurd hnil (by simp)
  · -- values wait: the counter is below `N`, so there is no drift pop, and there is room
    have hw := hp.waiting hempty
    have hne := hp.counts_ne hempty
    have hyoung := hw.young hm hsplit hne (hwf.counter_le hempty)
    have hroom : p.backlog.length < N := Nat.lt_of_le_of_lt hw.length_le hyoung
    have hcorrect := correct_of_young hempty hyoung
    have hback : (p.render x).backlog = p.backlog ++ [x] := by
      rw [Pairing.render, hcorrect, DropQueue.push_of_lt hroom]
    have hcounter : (p.render x).sinceEmpty = p.sinceEmpty + 1 := by
      rw [Pairing.render, hcorrect]
    rcases hw.apart with ⟨front, seg, rfl, hseg, hapart⟩
    refine ⟨by rw [render_first, hp.first], by rw [hback, hqueue], fun _ => ⟨?_, ?_⟩⟩
    · rw [hback, hcounter, List.length_append, List.length_singleton]
      exact Nat.succ_le_succ hw.length_le
    · refine ⟨front, seg ++ [Event.render x], List.append_assoc _ _ _, ?_, ?_⟩
      · rw [hcounter, renders_append, renders_render, List.length_append,
          List.length_singleton, hseg]
      · exact hapart.concat_render hne x

/-- **A capture call** takes the oldest value. -/
theorem InOrder.capture {pre : List (Event α)} {p : Pairing N α} (hp : InOrder pre p) :
    InOrder (pre ++ [Event.capture]) p.capture := by
  have hback : p.capture.backlog = p.backlog.tail := by simp [Pairing.capture, hp.first]
  refine ⟨rfl, ?_, ?_⟩
  · rw [hback, hp.backlog, List.tail_drop, renders_append, captures_append, renders_capture,
      captures_capture, List.append_nil]
  · intro hne
    have hne' : p.backlog ≠ [] := by
      intro hnil
      rw [hback, hnil] at hne
      exact hne rfl
    rcases hp.waiting hne' with ⟨hlen, front, seg, rfl, hseg, hapart⟩
    refine ⟨?_, front, seg ++ [Event.capture], List.append_assoc _ _ _, ?_, ?_⟩
    · rw [hback, List.length_tail]
      exact (Nat.sub_le _ _).trans hlen
    · rw [renders_append, renders_capture, List.append_nil]
      exact hseg
    · exact hapart.concat_capture

theorem inOrder_of_settled {p : Pairing N α} (hp : p.Settled) : InOrder [] p where
  first := hp.1
  backlog := by rw [hp.2]; rfl
  waiting := fun hne => absurd hp.2 hne

/-- The value a capture call gets is the oldest one not captured yet. -/
theorem InOrder.next {pre : List (Event α)} {p : Pairing N α} (hp : InOrder pre p) :
    p.next = (renders pre)[captures pre]? := by
  rw [Pairing.next, if_neg (by simp [hp.first]), hp.backlog, List.head?_drop]

/-- **Whole runs**: along an interleaving without restarts the queue stays in order. -/
theorem inOrder_run (hN : 0 < N) {es : List (Event α)} (hc : Causal es) (hm : Meets N es)
    (hlive : Event.restart ∉ es) {p : Pairing N α} (hp : p.Settled) :
    ∀ pre, pre <+: es → InOrder pre (Machine.run step p pre) := by
  intro pre hpre
  have hboth : (Machine.run step p pre).Wf ∧ InOrder pre (Machine.run step p pre) := by
    refine Machine.run_induct step p (fun pre q => q.Wf ∧ InOrder pre q) es ?_ ?_ pre hpre
    · exact ⟨wf_of_empty hp.2, inOrder_of_settled hp⟩
    · rintro pre e post q hsplit ⟨hwf, hq⟩
      refine ⟨hwf.step hN e, ?_⟩
      cases e with
      | render x => exact hq.render hN hc hm hsplit hwf
      | capture => exact hq.capture
      | restart => exact absurd (hsplit ▸ by simp) hlive
  exact hboth.2

end Pairing

/-! ## Matching the `i`-th render with the `i`-th capture -/

section Zip

variable {β γ : Type u}

/-- A render without its capture yet does not change the matching. -/
theorem zip_concat_left {xs : List β} {ys : List γ} (h : ys.length ≤ xs.length) (x : β) :
    (xs ++ [x]).zip ys = xs.zip ys := by
  induction xs generalizing ys with
  | nil =>
      rcases List.length_eq_zero_iff.mp (Nat.le_zero.mp h) with rfl
      rw [List.zip_nil_right, List.zip_nil_right]
  | cons x' xs ih =>
      cases ys with
      | nil => rw [List.zip_nil_right, List.zip_nil_right]
      | cons y ys =>
          rw [List.cons_append, List.zip_cons_cons, List.zip_cons_cons,
            ih (Nat.le_of_succ_le_succ h)]

/-- A capture is matched with the oldest render without one. -/
theorem zip_concat_right {xs : List β} {ys : List γ} {x : β} (h : xs[ys.length]? = some x)
    (y : γ) : xs.zip (ys ++ [y]) = xs.zip ys ++ [(x, y)] := by
  induction xs generalizing ys with
  | nil => exact absurd h (by simp)
  | cons x' xs ih =>
      cases ys with
      | nil =>
          -- the oldest render without a capture is the first one
          obtain rfl : x' = x := by simpa using h
          rw [List.nil_append, List.zip_cons_cons, List.zip_nil_right, List.zip_nil_right]
          rfl
      | cons y' ys =>
          rw [List.cons_append, List.zip_cons_cons, List.zip_cons_cons,
            ih (by simpa using h), List.cons_append]

end Zip

namespace ResidualEchoDetector

open Call (renderFrames captureFrames renderFrames_append captureFrames_append)

variable {F : Type u} [FloatMath F]

/-- In every prefix there are at least as many render calls as capture calls. -/
def NeverAhead (calls : List (Call F)) : Prop :=
  ∀ pre, pre <+: calls → (captureFrames pre).length ≤ (renderFrames pre).length

/-- Among any 30 consecutive render calls at least one is made at a moment when the numbers
of render and capture calls made so far are equal. -/
def MeetsEvery30 (calls : List (Call F)) : Prop :=
  ∀ pre seg post, calls = pre ++ seg ++ post → (renderFrames seg).length = 30 →
    ∃ front x back, seg = front ++ .analyzeRenderAudio x :: back ∧
      (renderFrames (pre ++ front)).length = (captureFrames (pre ++ front)).length

theorem NeverAhead.events {calls : List (Call F)} (h : NeverAhead calls) :
    Pairing.Causal (calls.map Call.event) := by
  rintro pre ⟨post, hsplit⟩
  rcases List.map_eq_append_iff.mp hsplit.symm with ⟨pre', post', rfl, rfl, -⟩
  rw [Call.captures_event, Call.renders_event, List.length_map]
  exact h pre' (List.prefix_append _ _)

theorem MeetsEvery30.events {calls : List (Call F)} (h : MeetsEvery30 calls) :
    Pairing.Meets kRenderBufferSize (calls.map Call.event) := by
  intro pre seg post hsplit hcount
  rcases List.map_eq_append_iff.mp hsplit with ⟨front, post', rfl, hfront, -⟩
  rcases List.map_eq_append_iff.mp hfront with ⟨pre', seg', rfl, rfl, rfl⟩
  rw [Call.renders_event, List.length_map] at hcount
  rcases h pre' seg' post' rfl hcount with ⟨front', x, back, rfl, heq⟩
  refine ⟨front'.map Call.event, power x, back.map Call.event, by simp [Call.event], ?_⟩
  rw [← List.map_append, Call.renders_event, Call.captures_event, List.length_map]
  exact heq

/-- The frames of matched render and capture calls, newest first. -/
def frames (pairs : List (List F × List F)) : List (Frame F) :=
  (pairs.map fun p => ⟨power p.1, power p.2⟩).reverse

theorem frames_concat (pairs : List (List F × List F)) (p : List F × List F) :
    frames (pairs ++ [p]) = ⟨power p.1, power p.2⟩ :: frames pairs := by
  simp [frames]

/-- The first capture call flushes the queue and processes nothing. -/
theorem settled_first (c₀ : List F) : (run [.analyzeCaptureAudio c₀]).pairing.Settled := by
  rw [pairing_run]
  exact ⟨rfl, rfl⟩

theorem history_first (c₀ : List F) : history [.analyzeCaptureAudio c₀] = [] := by
  rw [history_eq]
  rfl

/-- The strictly alternating run processes its pairs. -/
theorem alternating_run (c₀ : List F) (pairs : List (List F × List F)) :
    (run (.analyzeCaptureAudio c₀ :: alternating pairs)).pairing.Settled ∧
      history (.analyzeCaptureAudio c₀ :: alternating pairs) = frames pairs := by
  have hN : 0 < kRenderBufferSize := by decide
  induction pairs using List.reverseRecOn with
  | nil => exact ⟨settled_first c₀, history_first c₀⟩
  | append_singleton pairs p ih =>
      rcases ih with ⟨hsettled, hhist⟩
      have hsplit : Call.analyzeCaptureAudio c₀ :: alternating (pairs ++ [p]) =
          .analyzeCaptureAudio c₀ :: alternating pairs ++ [.analyzeRenderAudio p.1] ++
            [.analyzeCaptureAudio p.2] := by
        simp [alternating]
      -- the queue is empty before the pair, so the capture gets the render of its pair
      have hnext : (run (.analyzeCaptureAudio c₀ :: alternating pairs ++
          [.analyzeRenderAudio p.1])).nextRenderPower = some (power p.1) := by
        rw [nextRenderPower_eq, run_concat, step, pairing_analyzeRenderAudio]
        exact hsettled.next_render hN (power p.1)
      constructor
      · rw [hsplit, run_concat, run_concat, pairing_step, pairing_step]
        exact hsettled.pair hN (power p.1)
      · rw [hsplit, history_concat, record, hnext, history_concat, record, hhist,
          frames_concat]

section Interleaving

variable {S : List (Call F)}

/-- Along the interleaving the queue stays in order. -/
theorem inOrder_of_interleaving (c₀ : List F) (hlive : .initializeDetector ∉ S)
    (ha : NeverAhead S) (hb : MeetsEvery30 S) {pre : List (Call F)} (hpre : pre <+: S) :
    Pairing.InOrder (pre.map Call.event)
      (run (.analyzeCaptureAudio c₀ :: pre)).pairing := by
  have hN : 0 < kRenderBufferSize := by decide
  have hrestart : Pairing.Event.restart ∉ S.map Call.event := by
    intro hmem
    rcases List.mem_map.mp hmem with ⟨c, hc, hevent⟩
    cases c with
    | analyzeRenderAudio x => exact absurd hevent (by simp [Call.event])
    | analyzeCaptureAudio y => exact absurd hevent (by simp [Call.event])
    | initializeDetector => exact hlive hc
  have hrun : (run (.analyzeCaptureAudio c₀ :: pre)).pairing =
      Machine.run Pairing.step (run [.analyzeCaptureAudio c₀]).pairing
        (pre.map Call.event) :=
    pairing_run_from _ pre
  rw [hrun]
  exact Pairing.inOrder_run hN ha.events hb.events hrestart (settled_first c₀) _
    (hpre.map Call.event)

/-- A capture call of the interleaving gets the power of the render call it matches. -/
theorem nextRenderPower_of_interleaving (c₀ : List F) (hlive : .initializeDetector ∉ S)
    (ha : NeverAhead S) (hb : MeetsEvery30 S) {pre : List (Call F)} {y : List F}
    (hpre : pre ++ [.analyzeCaptureAudio y] <+: S) :
    ∃ x, (renderFrames pre)[(captureFrames pre).length]? = some x ∧
      (run (.analyzeCaptureAudio c₀ :: pre)).nextRenderPower = some (power x) := by
  have hcount : (captureFrames pre).length < (renderFrames pre).length := by
    have := ha _ hpre
    rw [captureFrames_append, renderFrames_append] at this
    simpa [captureFrames, renderFrames] using this
  have horder := inOrder_of_interleaving c₀ hlive ha hb
    ((List.prefix_append pre _).trans hpre)
  refine ⟨_, List.getElem?_eq_getElem hcount, ?_⟩
  rw [nextRenderPower_eq, horder.next, Call.renders_event, Call.captures_event,
    List.getElem?_map, List.getElem?_eq_getElem hcount, Option.map_some]

/-- The frames the interleaving processes. -/
theorem history_of_interleaving (c₀ : List F) (hlive : .initializeDetector ∉ S)
    (ha : NeverAhead S) (hb : MeetsEvery30 S) {pre : List (Call F)} (hpre : pre <+: S) :
    history (.analyzeCaptureAudio c₀ :: pre) =
      frames ((renderFrames pre).zip (captureFrames pre)) := by
  induction pre using List.reverseRecOn with
  | nil => exact history_first c₀
  | append_singleton pre c ih =>
      have hpre' : pre <+: S := (List.prefix_append pre [c]).trans hpre
      rw [← List.cons_append, history_concat, ih hpre', renderFrames_append,
        captureFrames_append]
      cases c with
      | analyzeRenderAudio x =>
          have hzip := zip_concat_left (ha pre hpre') x
          simpa [record, renderFrames, captureFrames] using congrArg frames hzip.symm
      | analyzeCaptureAudio y =>
          rcases nextRenderPower_of_interleaving c₀ hlive ha hb hpre with ⟨x, hx, hnext⟩
          have hzip := zip_concat_right hx y
          have hframes := congrArg frames hzip
          rw [frames_concat] at hframes
          simpa [record, hnext, renderFrames, captureFrames] using hframes.symm
      | initializeDetector => exact absurd (hpre.subset (by simp)) hlive

/-- **Jitter does not change the result.** Let a run begin with one capture call and go on
with an interleaving `S` of render and capture calls in which captures are never ahead and
the two counts meet at least once in every 30 render calls. Then the `i`-th capture call of
`S` gets the power of the `i`-th render frame, the queue always holds the powers of the
frames not captured yet, in order, and the final metrics are those of the strictly
alternating run. -/
theorem jitter_invariant (c₀ : List F) (S : List (Call F))
    (hlive : .initializeDetector ∉ S) (ha : NeverAhead S) (hb : MeetsEvery30 S) :
    (∀ pre y post, S = pre ++ .analyzeCaptureAudio y :: post →
      ∃ x, (renderFrames S)[(captureFrames pre).length]? = some x ∧
        (run (.analyzeCaptureAudio c₀ :: pre)).nextRenderPower = some (power x)) ∧
    (∀ pre, pre <+: S → (run (.analyzeCaptureAudio c₀ :: pre)).renderBuffer.contents =
      ((renderFrames pre).drop (captureFrames pre).length).map power) ∧
    (run (.analyzeCaptureAudio c₀ :: S)).getMetrics =
      (run (.analyzeCaptureAudio c₀ ::
        alternating ((renderFrames S).zip (captureFrames S)))).getMetrics := by
  refine ⟨?_, ?_, ?_⟩
  · rintro pre y post rfl
    have hpre : pre ++ [.analyzeCaptureAudio y] <+: pre ++ .analyzeCaptureAudio y :: post :=
      ⟨post, by simp⟩
    rcases nextRenderPower_of_interleaving c₀ hlive ha hb hpre with ⟨x, hx, hnext⟩
    refine ⟨x, ?_, hnext⟩
    rw [renderFrames_append, List.getElem?_append_left]
    · exact hx
    · exact (List.getElem?_eq_some_iff.mp hx).1
  · intro pre hpre
    have horder := inOrder_of_interleaving c₀ hlive ha hb hpre
    have hback := horder.backlog
    rw [pairing_backlog, Call.renders_event, Call.captures_event] at hback
    rw [hback, List.map_drop]
  · rw [getMetrics_run, getMetrics_run,
      history_of_interleaving c₀ hlive ha hb List.prefix_rfl, (alternating_run c₀ _).2]

end Interleaving

/-- Two renders before their two captures. -/
theorem jitter_invariant_two_ahead :
    let S : List (Call Float32) := [.analyzeRenderAudio [1], .analyzeRenderAudio [2],
      .analyzeCaptureAudio [3], .analyzeCaptureAudio [4]]
    (run (.analyzeCaptureAudio [0] :: S)).getMetrics =
      (run (.analyzeCaptureAudio [0] :: alternating [([1], [3]), ([2], [4])])).getMetrics := by
  intro S
  have hlive : Call.initializeDetector ∉ S := by simp [S]
  have ha : NeverAhead S := by
    intro pre hpre
    have hshort : ∀ n ≤ 4, (captureFrames (S.take n)).length ≤
        (renderFrames (S.take n)).length := by decide
    rw [List.prefix_iff_eq_take.mp hpre]
    exact hshort _ hpre.length_le
  have hb : MeetsEvery30 S := by
    intro pre seg post hsplit hcount
    have htotal : (renderFrames S).length = 2 := rfl
    rw [hsplit, renderFrames_append, renderFrames_append, List.length_append,
      List.length_append, hcount] at htotal
    omega
  exact (jitter_invariant [0] S hlive ha hb).2.2

end ResidualEchoDetector

end AudioProc
