import AudioProc.ExactLikelihood
import AudioProc.Flush
import AudioProc.HeaderOrigin
import AudioProc.Main

/-!
# Files with any number of channels

The main loop reads blocks of 10 ms: 320 bytes for each channel that the microphone file has,
of both files. The reference file's own number of channels is not used.

* `main_blocks`: what the program does with files of any number of channels, from one on;
* `loop_without_channels`: a microphone file that says it has no channel keeps the loop running
  for ever, as every request for an empty block is answered with one;
* `printed_metrics`: in exact arithmetic, the likelihood that is printed is known in advance.
-/

namespace AudioProc

open AudioUtil FloatOps Loop WavReader

universe u

namespace ResidualEchoDetector

variable {F : Type u} [FloatMath F]

/-! ## The frames of alternating calls -/

/-- The frames that the calls of the first `n` rounds lead to, oldest first: the first round
is lost to the flush, and there are as many more as both sides have. -/
def roundFrames (capture render : ℕ → List F) (m n : ℕ) : List (Frame F) :=
  (List.range (min m n - 1)).map fun k => ⟨power (render (k + 1)), power (capture (k + 1))⟩

/-- What a session is like after `n` rounds. -/
structure AfterRounds (capture render : ℕ → List F) (m n : ℕ) (s : Session F) : Prop where
  first : s.pairing.first = decide (n = 0)
  backlog : s.pairing.backlog = []
  history : s.history = (roundFrames capture render m n).reverse

/-- A render call that finds the queue empty. -/
theorem render_of_empty {s : Session F} (hempty : s.pairing.backlog = []) (x : List F) :
    (s.step (.analyzeRenderAudio x)).pairing.first = s.pairing.first ∧
      (s.step (.analyzeRenderAudio x)).pairing.backlog = [power x] ∧
      (s.step (.analyzeRenderAudio x)).history = s.history := by
  refine ⟨s.pairing.render_first (power x), ?_, rfl⟩
  show (s.pairing.render (power x)).backlog = [power x]
  have hroom : ([] : List F).length < kRenderBufferSize := Nat.succ_pos 29
  rw [Pairing.render, Pairing.correct_of_empty hempty, hempty, DropQueue.push_of_lt hroom]
  rfl

/-- A capture call after the first one. -/
theorem capture_of_next {s : Session F} (hfirst : s.pairing.first = false) (y : List F) :
    (s.step (.analyzeCaptureAudio y)).pairing.first = false ∧
      (s.step (.analyzeCaptureAudio y)).pairing.backlog = s.pairing.backlog.tail ∧
      (s.step (.analyzeCaptureAudio y)).history =
        (s.pairing.backlog.head?.map fun r => ⟨r, power y⟩).toList ++ s.history := by
  refine ⟨rfl, ?_, ?_⟩
  · show (if s.pairing.first then [] else s.pairing.backlog.tail) = _
    rw [hfirst, if_neg Bool.false_ne_true]
  · simp only [Session.step, Pairing.next, hfirst, Bool.false_eq_true, if_false]
    cases s.pairing.backlog.head? <;> rfl

theorem AfterRounds.next {capture render : ℕ → List F} {m n : ℕ} {s : Session F}
    (h : AfterRounds capture render m n s) :
    AfterRounds capture render m (n + 1)
      (Machine.run Session.step s (Main.roundCalls capture render m n)) := by
  have hlater : decide (n + 1 = 0) = false := decide_eq_false (Nat.succ_ne_zero n)
  cases n with
  | zero =>
      -- nothing is processed in the first round
      have hfirst : s.pairing.first = true := h.first
      have hnone : roundFrames capture render m 1 = roundFrames capture render m 0 := by
        unfold roundFrames
        have hmin : min m 1 - 1 = min m 0 - 1 := by omega
        rw [hmin]
      rw [Main.roundCalls]
      split_ifs
      · rcases render_of_empty h.backlog (render 0) with ⟨hkept, -, hhistory⟩
        rw [Machine.run_cons, Machine.run_cons, Machine.run_nil,
          Session.capture_of_first (hkept.trans hfirst), hhistory]
        exact ⟨rfl, rfl, by rw [hnone]; exact h.history⟩
      · rw [Machine.run_cons, Machine.run_nil, Session.capture_of_first hfirst]
        exact ⟨rfl, rfl, by rw [hnone]; exact h.history⟩
  | succ n =>
      have hfirst : s.pairing.first = false := h.first
      rw [Main.roundCalls]
      split_ifs with hboth
      · rcases render_of_empty h.backlog (render (n + 1)) with ⟨hkept, hwaits, hhistory⟩
        rcases capture_of_next (hkept.trans hfirst) (capture (n + 1)) with
          ⟨hfirst', hempty', hhistory'⟩
        rw [Machine.run_cons, Machine.run_cons, Machine.run_nil]
        refine ⟨hfirst', ?_, ?_⟩
        · rw [hempty', hwaits]
          rfl
        · have hmin : min m (n + 1) - 1 = n := by omega
          have hmin' : min m (n + 1 + 1) - 1 = n + 1 := by omega
          rw [hhistory', hwaits, hhistory, h.history, roundFrames, roundFrames, hmin, hmin',
            List.range_succ, List.map_append, List.reverse_append]
          rfl
      · -- the reference file has come to its end, and nothing waits
        rcases capture_of_next hfirst (capture (n + 1)) with ⟨hfirst', hempty', hhistory'⟩
        rw [Machine.run_cons, Machine.run_nil]
        refine ⟨hfirst', ?_, ?_⟩
        · rw [hempty', h.backlog]
          rfl
        · have hmin : min m (n + 1 + 1) - 1 = min m (n + 1) - 1 := by omega
          rw [hhistory', h.backlog, h.history, roundFrames, roundFrames, hmin]
          rfl

theorem afterRounds (capture render : ℕ → List F) (m n : ℕ) :
    AfterRounds capture render m n (Session.run (Main.frameCalls capture render m n)) := by
  induction n with
  | zero =>
      refine ⟨rfl, rfl, ?_⟩
      show [] = (roundFrames capture render m 0).reverse
      rw [roundFrames, Nat.min_zero]
      rfl
  | succ n ih =>
      rw [Main.frameCalls_succ, Session.run, Machine.run_append]
      exact ih.next

/-- **The frames that rounds of calls lead to.** -/
theorem history_frameCalls (capture render : ℕ → List F) (m n : ℕ) :
    history (Main.frameCalls capture render m n) = (roundFrames capture render m n).reverse := by
  rw [history_eq]
  exact (afterRounds capture render m n).history

end ResidualEchoDetector

namespace Main

variable {F : Type u}

/-! ## Blocks -/

/-- The whole blocks in the data of a file. -/
def wholeBlocks (size : ℕ) (data : List UInt8) : ℕ := data.length / size

/-- A request for block `k`, from a reader that is there. -/
theorem wavReadData_block {wr : WavReader} {data : List UInt8} {size k : ℕ} (hpos : 0 < size)
    (hsmall : size < 2 ^ 31) (hwr : wr.payload = data.drop (size * k)) :
    ((size : ℤ) = (wr.wavReadData (UInt32.ofInt size)).1 ↔ k < wholeBlocks size data) ∧
    (wr.wavReadData (UInt32.ofInt size)).2.2.payload = data.drop (size * (k + 1)) := by
  have htoNat : (UInt32.ofInt size).toNat = size := by
    rw [UInt32.ofInt, UInt32.toNat_ofNat']
    omega
  have hspec := wavReadData_spec wr (htoNat.trans_lt hsmall)
  rw [hwr, htoNat] at hspec
  rcases hspec with ⟨hret, -, hrest⟩
  constructor
  · have hwhole : k < data.length / size ↔ size * (k + 1) ≤ data.length := by
      rw [← Nat.succ_le_iff, Nat.le_div_iff_mul_le hpos, Nat.mul_comm]
    rw [Nat.mul_succ] at hwhole
    rw [hret, List.length_take, List.length_drop, wholeBlocks, hwhole, Nat.cast_inj]
    omega
  · rw [hrest, List.drop_drop]
    rfl

variable [FloatMath F]

/-- The state after `k` rounds over the data of the two files, in blocks of this size. -/
structure Blocks (mem : Malloc F) (dData xData : List UInt8) (size k : ℕ) (s : MainLoop F) :
    Prop where
  dPayload : s.dWav.payload = dData.drop (size * k)
  xPayload : s.xWav.payload = xData.drop (size * k)
  echoFloat : s.echoFloat = mem.tmpEcho.toList
  farendFloat : s.farendFloat = mem.tmpFarend.toList
  calls : s.calls = frameCalls (fun _ => mem.tmpEcho.toList) (fun _ => mem.tmpFarend.toList)
    (wholeBlocks size xData) k
  detector : s.Fed
  within : k ≤ wholeBlocks size dData

variable {mem : Malloc F} {dData xData : List UInt8} {size k : ℕ} {s : MainLoop F}

theorem blocks_start (size : ℕ) (dWav xWav : WavReader) :
    Blocks mem dWav.payload xWav.payload size 0 (.start mem size dWav xWav) where
  dPayload := rfl
  xPayload := rfl
  echoFloat := rfl
  farendFloat := rfl
  calls := rfl
  detector := rfl
  within := Nat.zero_le _

/-- A round that finds a whole microphone block. -/
theorem Blocks.next (hpos : 0 < size) (hsmall : size < 2 ^ 31)
    (h : Blocks mem dData xData size k s) (hk : k < wholeBlocks size dData) :
    ∃ s', MainLoop.body size s = .next s' ∧ Blocks mem dData xData size (k + 1) s' := by
  rcases wavReadData_block hpos hsmall h.dPayload with ⟨hreadD, hrestD⟩
  rcases wavReadData_block hpos hsmall h.xPayload with ⟨hreadX, hrestX⟩
  have hcalls : s.calls ++ roundCalls (fun _ => mem.tmpEcho.toList)
      (fun _ => mem.tmpFarend.toList) (wholeBlocks size xData) k =
      frameCalls (fun _ => mem.tmpEcho.toList) (fun _ => mem.tmpFarend.toList)
        (wholeBlocks size xData) (k + 1) := by
    rw [frameCalls_succ, h.calls]
  refine ⟨(s.readD size).2.decodeEcho.renderThenCapture size, if_pos (hreadD.mpr hk), ?_⟩
  by_cases hx : k < wholeBlocks size xData
  · have hround : (s.readD size).2.decodeEcho.renderThenCapture size =
        ((s.readD size).2.decodeEcho.readX size).2.renderFrame.captureFrame :=
      congrArg MainLoop.captureFrame (if_pos (hreadX.mpr hx))
    have hfed : ((s.readD size).2.decodeEcho.readX size).2.Fed := h.detector
    rw [hround]
    refine ⟨hrestD, hrestX, h.echoFloat, h.farendFloat, ?_, hfed.renderFrame.captureFrame, hk⟩
    rw [← hcalls, roundCalls, if_pos hx, ← h.echoFloat, ← h.farendFloat]
    exact List.append_assoc _ _ _
  · -- the reference file has come to its end
    have hround : (s.readD size).2.decodeEcho.renderThenCapture size =
        ((s.readD size).2.decodeEcho.readX size).2.captureFrame :=
      congrArg MainLoop.captureFrame (if_neg (mt hreadX.mp hx))
    have hfed : ((s.readD size).2.decodeEcho.readX size).2.Fed := h.detector
    rw [hround]
    refine ⟨hrestD, hrestX, h.echoFloat, h.farendFloat, ?_, hfed.captureFrame, hk⟩
    rw [← hcalls, roundCalls, if_neg hx, ← h.echoFloat]
    rfl

/-- A round that does not leaves the loop. -/
theorem Blocks.brk (hpos : 0 < size) (hsmall : size < 2 ^ 31)
    (h : Blocks mem dData xData size k s) (hk : ¬ k < wholeBlocks size dData) :
    ∃ s', MainLoop.body size s = .brk s' ∧ s'.calls = s.calls ∧
      s'.echoDetector = s.echoDetector := by
  rcases wavReadData_block hpos hsmall h.dPayload with ⟨hreadD, -⟩
  exact ⟨(s.readD size).2, if_neg (mt hreadD.mp hk), rfl, rfl⟩

/-- The calls with the vectors as they were before the loop, one round for each block. -/
def blockCalls (mem : Malloc F) (size : ℕ) (dData xData : List UInt8) : List (Call F) :=
  frameCalls (fun _ => mem.tmpEcho.toList) (fun _ => mem.tmpFarend.toList)
    (wholeBlocks size xData) (wholeBlocks size dData)

/-- The loop ends, after all whole blocks of the microphone file. -/
theorem loop_blocks (mem : Malloc F) (hpos : 0 < size) (hsmall : size < 2 ^ 31)
    (dWav xWav : WavReader) :
    ∃ s, iterate (fun s => some (MainLoop.body size s)) (dWav.payload.length + 1)
        (.start mem size dWav xWav) = some (.inl s) ∧
      s.calls = blockCalls mem size dWav.payload xWav.payload ∧ s.Fed := by
  have hsize : (0 : ℤ) < size := Int.natCast_pos.mpr hpos
  rcases Option.isSome_iff_exists.mp (loop_isSome mem hsize dWav xWav) with ⟨e, he⟩
  have hpost : ∃ s, e = .inl s ∧ s.calls = blockCalls mem size dWav.payload xWav.payload ∧
      s.Fed := by
    refine iterate_rule (fun s => ∃ k, Blocks mem dWav.payload xWav.payload size k s)
      (fun e => ∃ s, e = .inl s ∧ s.calls = blockCalls mem size dWav.payload xWav.payload ∧ s.Fed)
      ?_ ?_ ?_ ⟨0, blocks_start size dWav xWav⟩ he
    · rintro s s' ⟨k, hblocks⟩ hs'
      by_cases hk : k < wholeBlocks size dWav.payload
      · rcases hblocks.next hpos hsmall hk with ⟨t, ht, hnext⟩
        rcases Flow.next.inj ((Option.some.inj hs').symm.trans ht) with rfl
        exact ⟨k + 1, hnext⟩
      · rcases hblocks.brk hpos hsmall hk with ⟨t, ht, -⟩
        exact absurd ((Option.some.inj hs').symm.trans ht) (by simp)
    · rintro s s' ⟨k, hblocks⟩ hs'
      by_cases hk : k < wholeBlocks size dWav.payload
      · rcases hblocks.next hpos hsmall hk with ⟨t, ht, -⟩
        exact absurd ((Option.some.inj hs').symm.trans ht) (by simp)
      · rcases hblocks.brk hpos hsmall hk with ⟨t, ht, hcalls, hdetector⟩
        rcases Flow.brk.inj ((Option.some.inj hs').symm.trans ht) with rfl
        have hlast : k = wholeBlocks size dWav.payload :=
          Nat.le_antisymm hblocks.within (Nat.not_lt.mp hk)
        refine ⟨s', rfl, ?_, ?_⟩
        · rw [hcalls, hblocks.calls, hlast]
          rfl
        · rw [MainLoop.Fed, hcalls, hdetector]
          exact hblocks.detector
    · intro _ r
      exact r.elim
  rcases hpost with ⟨s, rfl, hs⟩
  exact ⟨s, he, hs⟩

/-- Without a channel every request is for an empty block, and is answered with one. -/
theorem loop_without_channels (s : MainLoop F) (fuel : ℕ) :
    iterate (fun s => some (MainLoop.body 0 s)) fuel s = none := by
  have hzero : ∀ wr : WavReader, (wr.wavReadData (UInt32.ofInt 0)).1 = 0 := by
    intro wr
    have hspec := (wavReadData_spec wr (show (UInt32.ofInt 0).toNat < 2 ^ 31 by decide)).1
    rw [hspec]
    rfl
  induction fuel generalizing s with
  | zero => rfl
  | succ fuel ih =>
      have hread : (0 : ℤ) = (s.readD 0).1 := (hzero s.dWav).symm
      have hbody : MainLoop.body 0 s = .next ((s.readD 0).2.decodeEcho.renderThenCapture 0) := by
        unfold MainLoop.body
        exact if_pos hread
      rw [iterate, hbody]
      exact ih _

/-! ## What main does -/

variable {files : String → Option (List UInt8)} {micD refX : String} {dWav xWav : WavReader}

/-- The size of a block in bytes. -/
def blockSize (dWav : WavReader) : ℕ := 320 * dWav.channels.toNat

theorem inputSize_eq (h : 0 ≤ dWav.channels) :
    dWav.channels * 2 * (frameLength : ℤ) = (blockSize dWav : ℤ) := by
  have hframe : (frameLength : ℤ) = 160 := rfl
  rw [blockSize, hframe]
  omega

/-- The number of channels is a 16-bit number, so that a block is far from too large. -/
theorem channels_bounds (hopen : openFiles files micD refX = .ok (dWav, xWav)) :
    0 ≤ dWav.channels ∧ blockSize dWav < 2 ^ 31 := by
  rcases openFiles_eq_ok_iff.mp hopen with ⟨-, hd, -⟩
  cases hfile : files micD with
  | none =>
      rw [hfile] at hd
      exact absurd hd (by simp [wavReadOpen])
  | some contents =>
      rw [hfile] at hd
      rcases (wavReadOpen_header hd).channels_bounds with ⟨hlow, hhigh⟩
      refine ⟨hlow, ?_⟩
      rw [blockSize]
      omega

/-- What the program shows for two files that it accepts. -/
theorem main_of_channels (hopen : openFiles files micD refX = .ok (dWav, xWav))
    (hchannels : dWav.channels ≠ 0) (mem : Malloc F) :
    main mem files micD refX = some (.ok
      { calls := blockCalls mem (blockSize dWav) dWav.payload xWav.payload
        metrics := (ResidualEchoDetector.run
          (blockCalls mem (blockSize dWav) dWav.payload xWav.payload)).getMetrics }) := by
  rcases channels_bounds hopen with ⟨hlow, hsmall⟩
  have hpos : 0 < blockSize dWav := by
    rw [blockSize]
    omega
  rcases loop_blocks mem hpos hsmall dWav xWav with ⟨s, hloop, hcalls, hfed⟩
  simp only [main, hopen, inputSize_eq hlow, hloop]
  rw [hfed, hcalls]

theorem main_without_channels (hopen : openFiles files micD refX = .ok (dWav, xWav))
    (hchannels : dWav.channels = 0) (mem : Malloc F) : main mem files micD refX = none := by
  have hsize : dWav.channels * 2 * (frameLength : ℤ) = 0 := by
    rw [hchannels, zero_mul, zero_mul]
  simp only [main, hopen, hsize, loop_without_channels]

/-- **Files with any number of channels.** Of two files that pass its checks, the program reads
one block of `320 * channels` bytes each in every round, with the channels of the microphone
file, until that file has no whole block left; its detector gets what `malloc` left in the two
buffers, once in every round and for the reference as long as that file has whole blocks. If
and only if the microphone file has no channel the program does not end, after however many
rounds. -/
theorem main_blocks (hopen : openFiles files micD refX = .ok (dWav, xWav)) (mem : Malloc F) :
    (dWav.channels ≠ 0 → main mem files micD refX = some (.ok
      { calls := blockCalls mem (blockSize dWav) dWav.payload xWav.payload
        metrics := (ResidualEchoDetector.run
          (blockCalls mem (blockSize dWav) dWav.payload xWav.payload)).getMetrics })) ∧
    (dWav.channels = 0 ↔ ∀ fuel, iterate
      (fun s => some (MainLoop.body (dWav.channels * 2 * frameLength) s)) fuel
      (.start mem (dWav.channels * 2 * frameLength) dWav xWav) = none) := by
  refine ⟨fun hchannels => main_of_channels hopen hchannels mem, ?_, ?_⟩
  · intro hnone fuel
    have hsize : dWav.channels * 2 * (frameLength : ℤ) = 0 := by
      rw [hnone, zero_mul, zero_mul]
    rw [hsize]
    exact loop_without_channels _ fuel
  · intro hforever
    by_contra hchannels
    have hpos : 0 < dWav.channels * 2 * (frameLength : ℤ) := by
      have hlow := (channels_bounds hopen).1
      have hframe : (frameLength : ℤ) = 160 := rfl
      rw [hframe]
      omega
    have hends := loop_isSome mem hpos dWav xWav
    rw [hforever] at hends
    exact absurd hends (by simp)

/-- A stereo 16-bit file at 16 kHz with so many blocks of silence. -/
def stereoFile (blocks : ℕ) : List UInt8 :=
  -- RIFF, WAVE
  [82, 73, 70, 70] ++ LittleEndian.toBytes 4 (36 + 640 * blocks) ++ [87, 65, 86, 69] ++
  -- fmt
  [102, 109, 116, 32, 16, 0, 0, 0, 1, 0, 2, 0, 128, 62, 0, 0, 0, 250, 0, 0, 4, 0, 16, 0] ++
  -- data
  [100, 97, 116, 97] ++ LittleEndian.toBytes 4 (640 * blocks) ++ List.replicate (640 * blocks) 0

/-- The reader of such a file. -/
def stereoReader (blocks : ℕ) : WavReader where
  wav :=
    { contents := stereoFile blocks
      pos := 44
      eof := false }
  dataLength := UInt32.ofNat (640 * blocks)
  format := 1
  sampleRate := 16000
  bitsPerSample := 16
  channels := 2
  byteRate := 64000
  blockAlign := 4
  streamed := false

/-- Four blocks of the microphone, and a reference that is one shorter. -/
def stereoFiles (name : String) : Option (List UInt8) :=
  some (stereoFile (if name = "mic_d.wav" then 4 else 3))

theorem openFiles_stereo :
    openFiles stereoFiles "mic_d.wav" "ref_x.wav" = .ok (stereoReader 4, stereoReader 3) := by
  have hmic : wavReadOpen (stereoFiles "mic_d.wav") = some (stereoReader 4) := by
    decide +kernel
  have href : wavReadOpen (stereoFiles "ref_x.wav") = some (stereoReader 3) := by
    decide +kernel
  exact openFiles_eq_ok_iff.mpr ⟨href, hmic, rfl, rfl, rfl, rfl⟩

theorem wholeBlocks_stereo :
    wholeBlocks (blockSize (stereoReader 4)) (stereoReader 4).payload = 4 ∧
    wholeBlocks (blockSize (stereoReader 4)) (stereoReader 3).payload = 3 := by
  have hmic : (stereoReader 4).payload.length = 2560 := by
    decide +kernel
  have href : (stereoReader 3).payload.length = 1920 := by
    decide +kernel
  rw [wholeBlocks, wholeBlocks, hmic, href]
  exact ⟨rfl, rfl⟩

theorem main_blocks_stereo :
    let render : Call Float32 := .analyzeRenderAudio (List.replicate 160 1)
    let capture : Call Float32 := .analyzeCaptureAudio (List.replicate 160 1)
    ∃ out, main (Malloc.constant (1 : Float32)) stereoFiles "mic_d.wav" "ref_x.wav" =
      some (.ok out) ∧
      out.calls = [render, capture, render, capture, render, capture, capture] := by
  intro render capture
  refine ⟨_, (main_blocks openFiles_stereo (Malloc.constant 1)).1 (by decide), ?_⟩
  rcases wholeBlocks_stereo with ⟨hmic, href⟩
  have hfar : (Malloc.constant (1 : Float32)).tmpFarend.toList = List.replicate 160 1 := rfl
  have hecho : (Malloc.constant (1 : Float32)).tmpEcho.toList = List.replicate 160 1 := rfl
  simp only
  rw [blockCalls, hmic, href, hfar, hecho]
  rfl

/-! ## What it prints -/

/-- All frames of these calls have the same two powers. -/
theorem history_blockCalls (mem : Malloc F) (size : ℕ) (dData xData : List UInt8) :
    ResidualEchoDetector.history (blockCalls mem size dData xData) =
      List.replicate (min (wholeBlocks size xData) (wholeBlocks size dData) - 1)
        ⟨power mem.tmpFarend.toList, power mem.tmpEcho.toList⟩ := by
  rw [blockCalls, ResidualEchoDetector.history_frameCalls, ResidualEchoDetector.roundFrames,
    List.map_const', List.reverse_replicate, List.length_range]

/-- **What is printed is known in advance.** In exact arithmetic, with `r` and `c` the powers of
what `malloc` left in the two buffers, and one block less than the shorter file has processed,
the likelihood is `(1 - 0.999 ^ n) * (K / (K + 0.0001))` with `K = c r 0.999 ^ (n + 1) (1 - 0.999 ^ n)`
and `n` that number of blocks, whatever audio is in the files. The recent maximum is that of
these values. -/
theorem printed_metrics (hopen : openFiles files micD refX = .ok (dWav, xWav))
    (hchannels : dWav.channels ≠ 0) (mem : Malloc ℝ) :
    let r := power mem.tmpFarend.toList
    let c := power mem.tmpEcho.toList
    let K : ℕ → ℝ := fun n => c * r * 0.999 ^ (n + 1) * (1 - 0.999 ^ n)
    let likelihood : ℕ → ℝ := fun n => (1 - 0.999 ^ n) * (K n / (K n + 0.0001))
    let n := min (wholeBlocks (blockSize dWav) xWav.payload)
      (wholeBlocks (blockSize dWav) dWav.payload) - 1
    ∃ out, main mem files micD refX = some (.ok out) ∧
      out.metrics.echoLikelihood = likelihood n ∧
      out.metrics.echoLikelihoodRecentMax = (Machine.run MovingMax.update
        (.new kAggregationBufferSize kAggregationBufferSize_pos)
        ((List.range n).map fun k => likelihood (k + 1))).max := by
  intro r c K likelihood n
  have hr : 0 ≤ r := power_nonneg _
  have hc : 0 ≤ c := power_nonneg _
  refine ⟨_, main_of_channels hopen hchannels mem, ?_, ?_⟩
  · rw [ResidualEchoDetector.getMetrics_run, history_blockCalls]
    exact History.echoLikelihood_replicate hr hc n
  · rw [ResidualEchoDetector.getMetrics_run, history_blockCalls]
    exact congrArg MovingMax.max (History.recentMax_replicate hr hc n)

theorem power_replicate {n : ℕ} (hn : n ≠ 0) (v : ℝ) : power (List.replicate n v) = v * v := by
  have hsum : ∀ (n : ℕ) (acc : ℝ),
      (List.replicate n v).foldl (fun acc x => acc + x * x) acc = acc + n * (v * v) := by
    intro n
    induction n with
    | zero =>
        intro acc
        simp
    | succ n ih =>
        intro acc
        rw [List.replicate_succ, List.foldl_cons, ih]
        push_cast
        ring
  have hne : (List.replicate n v).isEmpty = false := by
    rw [List.isEmpty_replicate]
    exact decide_eq_false hn
  have hcast : (n : ℝ) ≠ 0 := Nat.cast_ne_zero.mpr hn
  rw [power, hne, hsum, List.length_replicate]
  show (0 + (n : ℝ) * (v * v)) / n = v * v
  rw [zero_add, mul_div_cancel_left₀ _ hcast]

/-- Two blocks have been processed. -/
theorem printed_metrics_stereo :
    let K : ℝ := 0.999 ^ 3 * (1 - 0.999 ^ 2)
    ∃ out, main (Malloc.constant (1 : ℝ)) stereoFiles "mic_d.wav" "ref_x.wav" =
      some (.ok out) ∧ out.metrics.echoLikelihood = (1 - 0.999 ^ 2) * (K / (K + 0.0001)) := by
  intro K
  rcases printed_metrics openFiles_stereo (by decide) (Malloc.constant 1) with
    ⟨out, hmain, hlikelihood, -⟩
  have hfar : (Malloc.constant (1 : ℝ)).tmpFarend.toList = List.replicate 160 1 := rfl
  have hecho : (Malloc.constant (1 : ℝ)).tmpEcho.toList = List.replicate 160 1 := rfl
  have hpower : power (List.replicate 160 (1 : ℝ)) = 1 := by
    rw [power_replicate (by decide), one_mul]
  have htwo : min 3 4 - 1 = 2 := rfl
  rw [wholeBlocks_stereo.1, wholeBlocks_stereo.2, hfar, hecho, hpower, htwo] at hlikelihood
  simp only [one_mul] at hlikelihood
  exact ⟨out, hmain, hlikelihood⟩

end Main

end AudioProc
