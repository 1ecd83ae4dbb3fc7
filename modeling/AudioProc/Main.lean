import AudioProc.AudioUtil
import AudioProc.Refinement
import AudioProc.WavReader

/-!
# main

The program of `main.cc`, from the two file names on: it opens the reference and the
microphone file, checks their headers and feeds a detector with one 10 ms frame of each
file in every round of its loop. The command line and the lines that report what was read
from it and from the headers are left out.

`farend_float` and `echo_float` are vectors copied from `tmp_farend` and `tmp_echo` before
the loop, and the loop converts into `tmp_farend` and `tmp_echo` only. So the detector gets
what `malloc` left there, although every frame is decoded as it should be.

* `main_isSome`: the program ends;
* `Rounds` is the loop invariant and `main_output` what the program does;
* `Delivers` is what it is for; `delivers_iff` and `delivers_always_iff` say when it does it.
-/

namespace AudioProc.Main

open AudioUtil FloatOps Loop WavReader

universe u

variable {F : Type u}

/-- 10 ms for 16k. -/
def frameLength : ℕ := 160

/-- What `malloc` leaves in the buffers. -/
structure Malloc (F : Type u) where
  inputBuf : (size : ℕ) → Vector UInt8 size
  farendFrame : Vector Int16 frameLength
  echoFrame : Vector Int16 frameLength
  tmpFarend : Vector F frameLength
  tmpEcho : Vector F frameLength

/-! ## The two files -/

/-- Where `main` gives up. -/
inductive Failure where
  | unableToOpen (name : String)
  | badWavFile (name : String)
  | unsupportedFormat (format : ℤ)
  | unsupportedSampleDepth (bitsPerSample : ℤ)

/-- The line that goes to `stderr`. -/
def Failure.message : Failure → String
  | unableToOpen name => "Unable to open wav file " ++ name ++ "\n"
  | badWavFile name => "Bad wav file " ++ name ++ "\n"
  | unsupportedFormat format => "Unsupported WAV format " ++ toString format ++ "\n"
  | unsupportedSampleDepth bits => "Unsupported WAV sample depth " ++ toString bits ++ "\n"

/-- Open both files and check their headers: the readers of the microphone and of the
reference file. -/
def openFiles (files : String → Option (List UInt8)) (micD refX : String) :
    Except Failure (WavReader × WavReader) :=
  match wavReadOpen (files refX) with
  | none => .error (.unableToOpen refX)
  | some xWav =>
    match wavReadOpen (files micD) with
    | none => .error (.unableToOpen micD)
    | some dWav =>
      if ¬ xWav.wavGetHeader then
        .error (.badWavFile refX)
      else if xWav.format ≠ 1 then
        .error (.unsupportedFormat xWav.format)
      else if xWav.bitsPerSample ≠ 16 then
        .error (.unsupportedSampleDepth xWav.bitsPerSample)
      else if ¬ dWav.wavGetHeader then
        -- the message names the reference file
        .error (.badWavFile refX)
      else
        .ok (dWav, xWav)

/-- The files `main` gets past its checks with. -/
theorem openFiles_eq_ok_iff {files : String → Option (List UInt8)} {micD refX : String}
    {dWav xWav : WavReader} :
    openFiles files micD refX = .ok (dWav, xWav) ↔
      wavReadOpen (files refX) = some xWav ∧ wavReadOpen (files micD) = some dWav ∧
      xWav.wavGetHeader = true ∧ xWav.format = 1 ∧ xWav.bitsPerSample = 16 ∧
      dWav.wavGetHeader = true := by
  constructor
  · intro hok
    unfold openFiles at hok
    cases hx : wavReadOpen (files refX) with
    | none =>
        rw [hx] at hok
        exact absurd hok (by simp)
    | some x =>
        cases hd : wavReadOpen (files micD) with
        | none =>
            rw [hx, hd] at hok
            exact absurd hok (by simp)
        | some d =>
            rw [hx, hd] at hok
            simp only at hok
            split_ifs at hok with hxheader hformat hbits hdheader
            rcases Prod.mk.inj (Except.ok.inj hok) with ⟨rfl, rfl⟩
            exact ⟨rfl, rfl, hxheader, not_not.mp hformat, not_not.mp hbits, hdheader⟩
  · rintro ⟨hx, hd, hxheader, hformat, hbits, hdheader⟩
    simp [openFiles, hx, hd, hxheader, hformat, hbits, hdheader]

/-! ## The main loop -/

/-- `in[0] | (in[1] << 8)`, stored in an `int16_t`. -/
def decodeSample (lo hi : UInt8) : Int16 := Int16.ofNat (lo.toNat ||| (hi.toNat <<< 8))

/-- The frame at the start of the input buffer. If the microphone file has no channel, the
loop reads these 320 bytes out of a buffer of none, which C leaves undefined; here they are 0. -/
def decodeFrame (inputBuf : List UInt8) : List Int16 :=
  (List.range frameLength).map fun i =>
    decodeSample (inputBuf.getD (2 * i) 0) (inputBuf.getD (2 * i + 1) 0)

/-- A buffer after `bytes` were stored at its start. -/
def store (buf bytes : List UInt8) : List UInt8 := bytes ++ buf.drop bytes.length

/-- The variables of the main loop; `calls` are the calls `echo_detector` has got. -/
structure MainLoop (F : Type u) where
  dWav : WavReader
  xWav : WavReader
  inputBuf : List UInt8
  farendFrame : List Int16
  echoFrame : List Int16
  tmpFarend : List F
  tmpEcho : List F
  farendFloat : List F
  echoFloat : List F
  echoDetector : ResidualEchoDetector F
  calls : List (Call F)

namespace MainLoop

variable [FloatMath F]

/-- The variables before the first round. -/
def start (mem : Malloc F) (inputSize : ℤ) (dWav xWav : WavReader) : MainLoop F where
  dWav := dWav
  xWav := xWav
  inputBuf := (mem.inputBuf inputSize.toNat).toList
  farendFrame := mem.farendFrame.toList
  echoFrame := mem.echoFrame.toList
  tmpFarend := mem.tmpFarend.toList
  tmpEcho := mem.tmpEcho.toList
  -- the vectors are copies, made here and never again
  farendFloat := mem.tmpFarend.toList
  echoFloat := mem.tmpEcho.toList
  echoDetector := .new
  calls := []

/-- `wav_read_data(d_wav, input_buf, input_size)` -/
def readD (s : MainLoop F) (inputSize : ℤ) : ℤ × MainLoop F :=
  let (n, bytes, dWav) := s.dWav.wavReadData (UInt32.ofInt inputSize)
  (n, { s with
    dWav := dWav
    inputBuf := store s.inputBuf bytes })

/-- `wav_read_data(x_wav, input_buf, input_size)` -/
def readX (s : MainLoop F) (inputSize : ℤ) : ℤ × MainLoop F :=
  let (n, bytes, xWav) := s.xWav.wavReadData (UInt32.ofInt inputSize)
  (n, { s with
    xWav := xWav
    inputBuf := store s.inputBuf bytes })

/-- The decoding loop into `echo_frame`. -/
def decodeEcho (s : MainLoop F) : MainLoop F :=
  { s with echoFrame := decodeFrame s.inputBuf }

/-- A call of `echo_detector`. -/
def call (s : MainLoop F) (c : Call F) : MainLoop F :=
  { s with
    echoDetector := s.echoDetector.step c
    calls := s.calls ++ [c] }

/-- What a whole reference frame in the input buffer leads to. -/
def renderFrame (s : MainLoop F) : MainLoop F :=
  let farendFrame := decodeFrame s.inputBuf
  let s := { s with
    farendFrame := farendFrame
    tmpFarend := s16ToFloats farendFrame }
  s.call (.analyzeRenderAudio s.farendFloat)

/-- The end of a round. -/
def captureFrame (s : MainLoop F) : MainLoop F :=
  let s := { s with tmpEcho := s16ToFloats s.echoFrame }
  s.call (.analyzeCaptureAudio s.echoFloat)

/-- A round from the test of the reference file on. -/
def renderThenCapture (s : MainLoop F) (inputSize : ℤ) : MainLoop F :=
  let (n, s) := s.readX inputSize
  let s := if inputSize = n then s.renderFrame else s
  s.captureFrame

/-- One round. -/
def body (inputSize : ℤ) (s : MainLoop F) : Flow (MainLoop F) Empty :=
  let (n, s) := s.readD inputSize
  if inputSize = n then
    .next (s.decodeEcho.renderThenCapture inputSize)
  else
    .brk s

end MainLoop

/-- What a run of the program shows: the calls its detector got, and the metrics it
prints. -/
structure Output (F : Type u) where
  calls : List (Call F)
  metrics : Metrics F

/-- `main`: the line on `stderr` it returns 1 with, or what it shows before it returns 0.
The rounds offered to the loop are enough unless the microphone file has no channel: its
frames are then empty and the loop does not end (`none`). -/
def main [FloatMath F] (mem : Malloc F) (files : String → Option (List UInt8))
    (micD refX : String) : Option (Except String (Output F)) :=
  match openFiles files micD refX with
  | .error e => some (.error e.message)
  | .ok (dWav, xWav) =>
    let inputSize : ℤ := dWav.channels * 2 * frameLength
    match iterate (fun s => some (MainLoop.body inputSize s)) (dWav.payload.length + 1)
        (.start mem inputSize dWav xWav) with
    | none => none
    | some (.inl s) => some (.ok ⟨s.calls, s.echoDetector.getMetrics⟩)
    | some (.inr r) => r.elim

/-! ## The loop ends -/

/-- A request that gets all it asks for, and asks for something, leaves less. -/
theorem MainLoop.readD_payload (s : MainLoop F) {inputSize : ℤ} (hpos : 0 < inputSize)
    (hread : inputSize = (s.readD inputSize).1) :
    (s.readD inputSize).2.dWav.payload.length < s.dWav.payload.length := by
  rcases wavReadData_payload s.dWav (UInt32.ofInt inputSize) with ⟨hbytes, hrest⟩
  have hret : (s.readD inputSize).1 = (UInt32.ofNat
      (s.dWav.wavReadData (UInt32.ofInt inputSize)).2.1.length).toInt32.toInt := rfl
  have hsome : (s.dWav.payload.take (UInt32.ofInt inputSize).toNat).length ≠ 0 := by
    intro hnone
    have hzero : (UInt32.ofNat 0).toInt32.toInt = 0 := by decide
    rw [hret, hbytes, hnone] at hread
    omega
  show (s.dWav.wavReadData (UInt32.ofInt inputSize)).2.2.payload.length < _
  rw [List.length_take] at hsome
  rw [hrest, List.length_drop]
  omega

section Ends

variable [FloatMath F]

theorem MainLoop.renderThenCapture_dWav (s : MainLoop F) (inputSize : ℤ) :
    (s.renderThenCapture inputSize).dWav = s.dWav := by
  simp only [renderThenCapture]
  split_ifs <;> rfl

/-- **One round** that goes on uses up some of the microphone file. -/
theorem MainLoop.body_payload {s s' : MainLoop F} {inputSize : ℤ} (hpos : 0 < inputSize)
    (hs' : body inputSize s = .next s') :
    s'.dWav.payload.length < s.dWav.payload.length := by
  unfold body at hs'
  by_cases hread : inputSize = (s.readD inputSize).1
  · obtain rfl := Flow.next.inj ((if_pos hread).symm.trans hs')
    rw [renderThenCapture_dWav]
    exact s.readD_payload hpos hread
  · exact absurd ((if_neg hread).symm.trans hs') (by simp)

theorem loop_isSome (mem : Malloc F) {inputSize : ℤ} (hpos : 0 < inputSize)
    (dWav xWav : WavReader) :
    (iterate (fun s => some (MainLoop.body inputSize s)) (dWav.payload.length + 1)
      (.start mem inputSize dWav xWav)).isSome := by
  refine iterate_isSome (fun _ => True) (fun s => s.dWav.payload.length) ?_ ?_ trivial
    (Nat.lt_succ_self _)
  · intro s _
    exact Option.some_ne_none _
  · intro s s' _ hs'
    exact ⟨trivial, MainLoop.body_payload hpos (Option.some.inj hs')⟩

/-- **The program ends** on every pair of files whose microphone file has a channel. -/
theorem main_isSome {files : String → Option (List UInt8)} {micD refX : String}
    (hchannels : ∀ dWav xWav, openFiles files micD refX = .ok (dWav, xWav) →
      0 < dWav.channels) (mem : Malloc F) :
    (main mem files micD refX).isSome := by
  unfold main
  cases hopen : openFiles files micD refX with
  | error e => rfl
  | ok readers =>
      rcases readers with ⟨dWav, xWav⟩
      have hpos : 0 < dWav.channels * 2 * (frameLength : ℤ) := by
        have hd := hchannels dWav xWav hopen
        have hframe : (frameLength : ℤ) = 160 := rfl
        rw [hframe]
        omega
      rcases Option.isSome_iff_exists.mp (loop_isSome mem hpos dWav xWav) with ⟨e, he⟩
      simp only [he]
      rcases e with s | r
      · rfl
      · exact r.elim

end Ends

/-! ## Samples and frames of a file -/

theorem decodeSample_eq (lo hi : UInt8) :
    decodeSample lo hi = Int16.ofNat (lo.toNat + 256 * hi.toNat) := by
  have hlo : lo.toNat < 2 ^ 8 := lo.toNat_lt
  have hor := Nat.shiftLeft_add_eq_or_of_lt hlo hi.toNat
  rw [decodeSample, Nat.or_comm, ← hor, Nat.shiftLeft_eq]
  congr 1
  omega

/-- The samples in little-endian 16-bit PCM bytes; a last odd byte is no sample. -/
def samples : List UInt8 → List Int16
  | lo :: hi :: bytes => Int16.ofNat (lo.toNat + 256 * hi.toNat) :: samples bytes
  | _ => []

/-- Frame `k` of the data of a file: samples `160 k` to `160 k + 159`, converted. -/
def audioFrame [FloatOps F] (data : List UInt8) (k : ℕ) : List F :=
  s16ToFloats (((samples data).drop (frameLength * k)).take frameLength)

/-- The whole frames in the data of a file. -/
def wholeFrames (data : List UInt8) : ℕ := (samples data).length / frameLength

theorem length_samples (data : List UInt8) : (samples data).length = data.length / 2 := by
  induction data using samples.induct with
  | case1 lo hi bytes ih =>
      simp only [samples, List.length_cons, ih]
      omega
  | case2 data hshort =>
      rcases data with _ | ⟨lo, _ | ⟨hi, bytes⟩⟩
      · rfl
      · simp [samples]
      · exact absurd rfl (hshort lo hi bytes)

theorem samples_drop (data : List UInt8) (n : ℕ) :
    (samples data).drop n = samples (data.drop (2 * n)) := by
  induction n generalizing data with
  | zero => rfl
  | succ n ih =>
      rcases data with _ | ⟨lo, _ | ⟨hi, bytes⟩⟩
      · rfl
      · rfl
      · exact ih bytes

theorem samples_take (data : List UInt8) (n : ℕ) :
    (samples data).take n = samples (data.take (2 * n)) := by
  induction n generalizing data with
  | zero => rfl
  | succ n ih =>
      rcases data with _ | ⟨lo, _ | ⟨hi, bytes⟩⟩
      · rfl
      · rfl
      · show _ :: (samples bytes).take n = _ :: samples (bytes.take (2 * n))
        rw [ih]

/-- The decoding loop over the first `n` samples of a buffer. -/
theorem decode_range (buf : List UInt8) (n : ℕ) (hn : 2 * n ≤ buf.length) :
    ((List.range n).map fun i => decodeSample (buf.getD (2 * i) 0) (buf.getD (2 * i + 1) 0)) =
      samples (buf.take (2 * n)) := by
  induction n generalizing buf with
  | zero => rfl
  | succ n ih =>
      rcases buf with _ | ⟨lo, _ | ⟨hi, bytes⟩⟩
      · exact absurd hn (by simp)
      · have htwo : [lo].length < 2 * (n + 1) := by
          simp only [List.length_singleton]
          omega
        exact absurd hn (Nat.not_le.mpr htwo)
      · have hbytes : 2 * n ≤ bytes.length := by
          simp only [List.length_cons] at hn
          omega
        rw [List.range_succ_eq_map, List.map_cons, List.map_map]
        show decodeSample lo hi :: _ = _ :: samples (bytes.take (2 * n))
        rw [decodeSample_eq, ← ih bytes hbytes]
        rfl

theorem decodeFrame_store {buf bytes : List UInt8} (hbytes : bytes.length = 320) :
    decodeFrame (store buf bytes) = samples bytes := by
  have hlong : 2 * frameLength ≤ (store buf bytes).length := by
    rw [store, List.length_append, hbytes]
    exact Nat.le_add_right _ _
  rw [decodeFrame, decode_range _ _ hlong, store]
  show samples ((bytes ++ _).take 320) = _
  rw [← hbytes, List.take_left]

theorem wholeFrames_eq (data : List UInt8) : wholeFrames data = data.length / 320 := by
  rw [wholeFrames, length_samples, Nat.div_div_eq_div_mul]
  rfl

/-- Frame `k` of a file is in its bytes `320 k` to `320 k + 319`. -/
theorem audioFrame_eq [FloatOps F] (data : List UInt8) (k : ℕ) :
    (audioFrame data k : List F) = s16ToFloats (samples ((data.drop (320 * k)).take 320)) := by
  rw [audioFrame, samples_drop, samples_take, ← Nat.mul_assoc]
  rfl

/-! ## The calls of a run -/

/-- The calls of round `k`: a render call as long as there are render frames, `m` of
them, and then the capture call. -/
def roundCalls (capture render : ℕ → List F) (m k : ℕ) : List (Call F) :=
  if k < m then
    [.analyzeRenderAudio (render k), .analyzeCaptureAudio (capture k)]
  else
    [.analyzeCaptureAudio (capture k)]

/-- The calls of the first `n` rounds. -/
def frameCalls (capture render : ℕ → List F) (m n : ℕ) : List (Call F) :=
  (List.range n).flatMap (roundCalls capture render m)

/-- The decoded frames of both files in file order, render before capture. -/
def fileCalls [FloatOps F] (dData xData : List UInt8) : List (Call F) :=
  frameCalls (audioFrame dData) (audioFrame xData) (wholeFrames xData) (wholeFrames dData)

theorem frameCalls_succ (capture render : ℕ → List F) (m n : ℕ) :
    frameCalls capture render m (n + 1) =
      frameCalls capture render m n ++ roundCalls capture render m n := by
  rw [frameCalls, List.range_succ, List.flatMap_append, List.flatMap_singleton]
  rfl

theorem captureFrames_frameCalls (capture render : ℕ → List F) (m n : ℕ) :
    Call.captureFrames (frameCalls capture render m n) = (List.range n).map capture := by
  induction n with
  | zero => rfl
  | succ n ih =>
      rw [frameCalls_succ, Call.captureFrames_append, ih, List.range_succ, List.map_append]
      congr 1
      rw [roundCalls]
      split_ifs <;> rfl

theorem renderFrames_frameCalls (capture render : ℕ → List F) (m n : ℕ) :
    Call.renderFrames (frameCalls capture render m n) =
      (List.range (min m n)).map render := by
  induction n with
  | zero => simp [frameCalls, Call.renderFrames]
  | succ n ih =>
      rw [frameCalls_succ, Call.renderFrames_append, ih, roundCalls]
      split_ifs with hn
      · -- round `n` still has a render frame
        have hmin : min m (n + 1) = min m n + 1 := by omega
        have hmin' : min m n = n := by omega
        rw [hmin, List.range_succ, List.map_append, hmin']
        rfl
      · have hmin : min m (n + 1) = min m n := by omega
        rw [hmin]
        exact List.append_nil _

/-- Two runs of as many rounds have the same calls when they have the same frames. -/
theorem frameCalls_eq_iff {capture render capture' render' : ℕ → List F} {m n : ℕ} :
    frameCalls capture render m n = frameCalls capture' render' m n ↔
      (∀ k, k < n → capture k = capture' k) ∧ (∀ k, k < m → k < n → render k = render' k) := by
  constructor
  · intro heq
    have hcapture := congrArg Call.captureFrames heq
    have hrender := congrArg Call.renderFrames heq
    rw [captureFrames_frameCalls, captureFrames_frameCalls, List.map_inj_left] at hcapture
    rw [renderFrames_frameCalls, renderFrames_frameCalls, List.map_inj_left] at hrender
    constructor
    · intro k hk
      exact hcapture k (List.mem_range.mpr hk)
    · intro k hkm hkn
      exact hrender k (List.mem_range.mpr (lt_min hkm hkn))
  · rintro ⟨hcapture, hrender⟩
    refine List.flatMap_congr fun k hk => ?_
    have hk := List.mem_range.mp hk
    rw [roundCalls, roundCalls, hcapture k hk]
    split_ifs with hkm
    · rw [hrender k hkm hk]
    · rfl

/-! ## The loop -/

theorem length_frame {data : List UInt8} {k : ℕ} (hk : k < wholeFrames data) :
    ((data.drop (320 * k)).take 320).length = 320 := by
  rw [wholeFrames_eq] at hk
  rw [List.length_take, List.length_drop]
  omega

/-- A request for frame `k`, from a reader that is there. -/
theorem wavReadData_frame {wr : WavReader} {data : List UInt8} {k : ℕ}
    (hwr : wr.payload = data.drop (320 * k)) :
    (320 = (wr.wavReadData 320).1 ↔ k < wholeFrames data) ∧
    (wr.wavReadData 320).2.1 = (data.drop (320 * k)).take 320 ∧
    (wr.wavReadData 320).2.2.payload = data.drop (320 * (k + 1)) := by
  have hspec := wavReadData_spec wr (show (320 : UInt32).toNat < 2 ^ 31 by decide)
  rw [hwr] at hspec
  rcases hspec with ⟨hret, hbytes, hrest⟩
  refine ⟨?_, hbytes, ?_⟩
  · have hlength : ((data.drop (320 * k)).take 320).length = min 320 (data.length - 320 * k) := by
      rw [List.length_take, List.length_drop]
    rw [hret, wholeFrames_eq]
    show 320 = ((((data.drop (320 * k)).take 320).length : ℕ) : ℤ) ↔ _
    rw [hlength]
    omega
  · rw [hrest, List.drop_drop]
    rfl

variable [FloatMath F]

/-- The detector is where the calls it has got take a new one. -/
def MainLoop.Fed (s : MainLoop F) : Prop :=
  s.echoDetector = ResidualEchoDetector.run s.calls

/-- The state after `k` rounds over the data of the two files. -/
structure Rounds (mem : Malloc F) (dData xData : List UInt8) (k : ℕ) (s : MainLoop F) :
    Prop where
  dPayload : s.dWav.payload = dData.drop (320 * k)
  xPayload : s.xWav.payload = xData.drop (320 * k)
  echoFloat : s.echoFloat = mem.tmpEcho.toList
  farendFloat : s.farendFloat = mem.tmpFarend.toList
  calls : s.calls = frameCalls (fun _ => mem.tmpEcho.toList) (fun _ => mem.tmpFarend.toList)
    (wholeFrames xData) k
  detector : s.Fed
  within : k ≤ wholeFrames dData
  /-- The frames of the last round are where the loop converts them to. -/
  decoded : ∀ j, k = j + 1 → s.tmpEcho = audioFrame dData j ∧
    (j < wholeFrames xData → s.tmpFarend = audioFrame xData j)

variable {mem : Malloc F} {dData xData : List UInt8} {k : ℕ} {s : MainLoop F}

theorem rounds_start (inputSize : ℤ) (dWav xWav : WavReader) :
    Rounds mem dWav.payload xWav.payload 0 (.start mem inputSize dWav xWav) where
  dPayload := rfl
  xPayload := rfl
  echoFloat := rfl
  farendFloat := rfl
  calls := rfl
  detector := rfl
  within := Nat.zero_le _
  decoded := fun j hj => absurd hj (Nat.succ_ne_zero j).symm

theorem MainLoop.Fed.call (h : s.Fed) (c : Call F) : (s.call c).Fed := by
  show s.echoDetector.step c = ResidualEchoDetector.run (s.calls ++ [c])
  rw [ResidualEchoDetector.run_concat, ← h]

theorem MainLoop.Fed.renderFrame (h : s.Fed) : s.renderFrame.Fed :=
  Fed.call (s := { s with
    farendFrame := decodeFrame s.inputBuf
    tmpFarend := s16ToFloats (decodeFrame s.inputBuf) }) h _

theorem MainLoop.Fed.captureFrame (h : s.Fed) : s.captureFrame.Fed :=
  Fed.call (s := { s with tmpEcho := s16ToFloats s.echoFrame }) h _

/-- A round that finds a whole microphone frame. -/
theorem Rounds.next (h : Rounds mem dData xData k s) (hk : k < wholeFrames dData) :
    ∃ s', MainLoop.body 320 s = .next s' ∧ Rounds mem dData xData (k + 1) s' := by
  rcases wavReadData_frame h.dPayload with ⟨hreadD, hbytesD, hrestD⟩
  rcases wavReadData_frame h.xPayload with ⟨hreadX, hbytesX, hrestX⟩
  have hecho : s16ToFloats (decodeFrame (store s.inputBuf (s.dWav.wavReadData 320).2.1)) =
      (audioFrame dData k : List F) := by
    rw [audioFrame_eq, hbytesD, decodeFrame_store (length_frame hk)]
  have hcalls : s.calls ++ roundCalls (fun _ => mem.tmpEcho.toList)
      (fun _ => mem.tmpFarend.toList) (wholeFrames xData) k =
      frameCalls (fun _ => mem.tmpEcho.toList) (fun _ => mem.tmpFarend.toList)
        (wholeFrames xData) (k + 1) := by
    rw [frameCalls_succ, h.calls]
  refine ⟨(s.readD 320).2.decodeEcho.renderThenCapture 320, if_pos (hreadD.mpr hk), ?_⟩
  by_cases hx : k < wholeFrames xData
  · -- both files have a frame
    have hround : (s.readD 320).2.decodeEcho.renderThenCapture 320 =
        ((s.readD 320).2.decodeEcho.readX 320).2.renderFrame.captureFrame :=
      congrArg MainLoop.captureFrame (if_pos (hreadX.mpr hx))
    have hfarend (buf : List UInt8) :
        s16ToFloats (decodeFrame (store buf (s.xWav.wavReadData 320).2.1)) =
          (audioFrame xData k : List F) := by
      rw [audioFrame_eq, hbytesX, decodeFrame_store (length_frame hx)]
    rw [hround]
    constructor
    · exact hrestD
    · exact hrestX
    · exact h.echoFloat
    · exact h.farendFloat
    · rw [← hcalls, roundCalls, if_pos hx, ← h.echoFloat, ← h.farendFloat]
      exact List.append_assoc _ _ _
    · have hfed : ((s.readD 320).2.decodeEcho.readX 320).2.Fed := h.detector
      exact hfed.renderFrame.captureFrame
    · exact hk
    · intro j hj
      obtain rfl : k = j := Nat.succ.inj hj
      exact ⟨hecho, fun _ => hfarend _⟩
  · -- the reference file has come to its end
    have hround : (s.readD 320).2.decodeEcho.renderThenCapture 320 =
        ((s.readD 320).2.decodeEcho.readX 320).2.captureFrame :=
      congrArg MainLoop.captureFrame (if_neg (mt hreadX.mp hx))
    rw [hround]
    constructor
    · exact hrestD
    · exact hrestX
    · exact h.echoFloat
    · exact h.farendFloat
    · rw [← hcalls, roundCalls, if_neg hx, ← h.echoFloat]
      rfl
    · have hfed : ((s.readD 320).2.decodeEcho.readX 320).2.Fed := h.detector
      exact hfed.captureFrame
    · exact hk
    · intro j hj
      obtain rfl : k = j := Nat.succ.inj hj
      exact ⟨hecho, fun hlt => absurd hlt hx⟩

/-- A round that does not leaves the loop. -/
theorem Rounds.brk (h : Rounds mem dData xData k s) (hk : ¬ k < wholeFrames dData) :
    ∃ s', MainLoop.body 320 s = .brk s' ∧ s'.calls = s.calls ∧
      s'.echoDetector = s.echoDetector := by
  rcases wavReadData_frame h.dPayload with ⟨hreadD, -, -⟩
  exact ⟨(s.readD 320).2, if_neg (mt hreadD.mp hk), rfl, rfl⟩

/-- A round that goes on found a whole microphone frame. -/
theorem Rounds.of_next (h : Rounds mem dData xData k s) {s' : MainLoop F}
    (hs' : MainLoop.body 320 s = .next s') :
    k < wholeFrames dData ∧ Rounds mem dData xData (k + 1) s' := by
  by_cases hk : k < wholeFrames dData
  · rcases h.next hk with ⟨t, ht, hrounds⟩
    rcases Flow.next.inj (hs'.symm.trans ht) with rfl
    exact ⟨hk, hrounds⟩
  · rcases h.brk hk with ⟨t, ht, -⟩
    exact absurd (hs'.symm.trans ht) (by simp)

/-- A round that breaks comes after the last whole microphone frame. -/
theorem Rounds.of_brk (h : Rounds mem dData xData k s) {s' : MainLoop F}
    (hs' : MainLoop.body 320 s = .brk s') :
    k = wholeFrames dData ∧ s'.calls = s.calls ∧ s'.echoDetector = s.echoDetector := by
  by_cases hk : k < wholeFrames dData
  · rcases h.next hk with ⟨t, ht, -⟩
    exact absurd (hs'.symm.trans ht) (by simp)
  · rcases h.brk hk with ⟨t, ht, hkept⟩
    rcases Flow.brk.inj (hs'.symm.trans ht) with rfl
    exact ⟨Nat.le_antisymm h.within (Nat.not_lt.mp hk), hkept⟩

/-! ## What main does -/

/-- The calls with the vectors as they were before the loop. -/
def bufferCalls (mem : Malloc F) (dData xData : List UInt8) : List (Call F) :=
  frameCalls (fun _ => mem.tmpEcho.toList) (fun _ => mem.tmpFarend.toList)
    (wholeFrames xData) (wholeFrames dData)

/-- The loop ends, after all whole frames of the microphone file. -/
theorem loop_result (mem : Malloc F) (dWav xWav : WavReader) :
    ∃ s, iterate (fun s => some (MainLoop.body 320 s)) (dWav.payload.length + 1)
        (.start mem 320 dWav xWav) = some (.inl s) ∧
      s.calls = bufferCalls mem dWav.payload xWav.payload ∧ s.Fed := by
  rcases Option.isSome_iff_exists.mp (loop_isSome mem (show (0 : ℤ) < 320 by decide) dWav xWav)
    with ⟨e, he⟩
  have hpost : ∃ s, e = .inl s ∧ s.calls = bufferCalls mem dWav.payload xWav.payload ∧
      s.Fed := by
    refine iterate_rule (fun s => ∃ k, Rounds mem dWav.payload xWav.payload k s)
      (fun e => ∃ s, e = .inl s ∧ s.calls = bufferCalls mem dWav.payload xWav.payload ∧ s.Fed)
      ?_ ?_ ?_ ⟨0, rounds_start 320 dWav xWav⟩ he
    · rintro s s' ⟨k, hk⟩ hs'
      exact ⟨k + 1, (hk.of_next (Option.some.inj hs')).2⟩
    · rintro s s' ⟨k, hk⟩ hs'
      rcases hk.of_brk (Option.some.inj hs') with ⟨hlast, hcalls, hdetector⟩
      refine ⟨s', rfl, ?_, ?_⟩
      · rw [hcalls, hk.calls, hlast]
        rfl
      · rw [MainLoop.Fed, hcalls, hdetector]
        exact hk.detector
    · intro _ r
      exact r.elim
  rcases hpost with ⟨s, rfl, hs⟩
  exact ⟨s, he, hs⟩

/-- `main` accepts the two files, and both are mono 16-bit PCM. -/
structure Accepts (files : String → Option (List UInt8)) (micD refX : String)
    (dWav xWav : WavReader) : Prop where
  opened : openFiles files micD refX = .ok (dWav, xWav)
  dFormat : dWav.format = 1
  dBits : dWav.bitsPerSample = 16
  dMono : dWav.channels = 1
  xMono : xWav.channels = 1

variable {files : String → Option (List UInt8)} {micD refX : String} {dWav xWav : WavReader}

/-- **What the program does**: in every round its detector gets what `malloc` left in the
two float buffers. -/
theorem main_output (h : Accepts files micD refX dWav xWav) (mem : Malloc F) :
    main mem files micD refX = some (.ok
      { calls := bufferCalls mem dWav.payload xWav.payload
        metrics := (ResidualEchoDetector.run
          (bufferCalls mem dWav.payload xWav.payload)).getMetrics }) := by
  rcases loop_result mem dWav xWav with ⟨s, hloop, hcalls, hfed⟩
  have hsize : dWav.channels * 2 * (frameLength : ℤ) = 320 := by
    rw [h.dMono]
    rfl
  simp only [main, h.opened, hsize, hloop]
  rw [hfed, hcalls]

/-- Every buffer filled with one value. -/
def Malloc.constant (v : F) : Malloc F where
  inputBuf := fun size => .replicate size 0
  farendFrame := .replicate _ 0
  echoFrame := .replicate _ 0
  tmpFarend := .replicate _ v
  tmpEcho := .replicate _ v

omit [FloatMath F] in
theorem Malloc.tmpEcho_constant_inj {v w : F}
    (h : (Malloc.constant v).tmpEcho.toList = (Malloc.constant w).tmpEcho.toList) : v = w := by
  have hreplicate : List.replicate frameLength v = List.replicate frameLength w := by
    simpa [Malloc.constant] using h
  exact (List.cons.inj hreplicate).1

/-- What the program is for: its detector gets the decoded frames of both files in file
order, and the metrics it prints are those of a detector that gets these. -/
def Delivers (mem : Malloc F) (files : String → Option (List UInt8)) (micD refX : String)
    (dWav xWav : WavReader) : Prop :=
  ∃ out, main mem files micD refX = some (.ok out) ∧
    out.calls = fileCalls dWav.payload xWav.payload ∧
    out.metrics =
      (ResidualEchoDetector.run (fileCalls dWav.payload xWav.payload)).getMetrics

/-- It does so exactly when every frame it gets to happens to be what `malloc` left in the
buffer of that file. -/
theorem delivers_iff (h : Accepts files micD refX dWav xWav) (mem : Malloc F) :
    Delivers mem files micD refX dWav xWav ↔
      (∀ k, k < wholeFrames dWav.payload → mem.tmpEcho.toList = audioFrame dWav.payload k) ∧
      (∀ k, k < wholeFrames xWav.payload → k < wholeFrames dWav.payload →
        mem.tmpFarend.toList = audioFrame xWav.payload k) := by
  have hiff : Delivers mem files micD refX dWav xWav ↔
      bufferCalls mem dWav.payload xWav.payload =
        fileCalls dWav.payload xWav.payload := by
    constructor
    · rintro ⟨out, hout, hcalls, -⟩
      rw [main_output h mem] at hout
      rcases Except.ok.inj (Option.some.inj hout) with rfl
      exact hcalls
    · intro hcalls
      refine ⟨_, main_output h mem, hcalls, ?_⟩
      rw [hcalls]
  rw [hiff]
  exact frameCalls_eq_iff

/-- **When the frames of the files reach the detector** whatever `malloc` left in the
buffers: only if there is no whole frame in the microphone file. -/
theorem delivers_always_iff [Nontrivial F] (h : Accepts files micD refX dWav xWav) :
    (∀ mem : Malloc F, Delivers mem files micD refX dWav xWav) ↔
      dWav.payload.length < 320 := by
  have hwhole : dWav.payload.length < 320 ↔ ¬ 0 < wholeFrames dWav.payload := by
    rw [wholeFrames_eq]
    omega
  rw [hwhole]
  constructor
  · intro hall hpos
    -- one of two constant buffers differs from the first frame
    rcases exists_pair_ne F with ⟨v, w, hvw⟩
    have hv := ((delivers_iff h (Malloc.constant v)).mp (hall _)).1 0 hpos
    have hw := ((delivers_iff h (Malloc.constant w)).mp (hall _)).1 0 hpos
    have hsame := hv.trans hw.symm
    exact hvw (Malloc.tmpEcho_constant_inj hsame)
  · intro hnone mem
    rw [delivers_iff h mem]
    constructor
    · intro k hk
      omega
    · intro k _ hk
      omega

/-! ## One silent frame -/

/-- A mono 16-bit file at 16 kHz with one frame of silence. -/
def silentFile : List UInt8 :=
  -- RIFF, WAVE
  [82, 73, 70, 70, 100, 1, 0, 0, 87, 65, 86, 69] ++
  -- fmt
  [102, 109, 116, 32, 16, 0, 0, 0, 1, 0, 1, 0, 128, 62, 0, 0, 0, 125, 0, 0, 2, 0, 16, 0] ++
  -- data
  [100, 97, 116, 97, 64, 1, 0, 0] ++ List.replicate 320 0

/-- The reader of that file. -/
def silentReader : WavReader where
  wav :=
    { contents := silentFile
      pos := 44
      eof := false }
  dataLength := 320
  format := 1
  sampleRate := 16000
  bitsPerSample := 16
  channels := 1
  byteRate := 32000
  blockAlign := 2
  streamed := false

theorem wavReadOpen_silentFile : wavReadOpen (some silentFile) = some silentReader := by
  decide +kernel

theorem accepts_silent : Accepts (fun _ => some silentFile) "mic_d.wav" "ref_x.wav"
    silentReader silentReader where
  opened := openFiles_eq_ok_iff.mpr
    ⟨wavReadOpen_silentFile, wavReadOpen_silentFile, rfl, rfl, rfl, rfl⟩
  dFormat := rfl
  dBits := rfl
  dMono := rfl
  xMono := rfl

theorem length_silent : silentReader.payload.length = 320 := by
  decide +kernel

instance instNontrivialFloat32 : Nontrivial Float32 := ⟨0, 1, by decide +kernel⟩

theorem delivers_always_iff_silent :
    (∀ mem : Malloc Float32, Delivers mem (fun _ => some silentFile) "mic_d.wav" "ref_x.wav"
      silentReader silentReader) ↔ silentReader.payload.length < 320 :=
  delivers_always_iff accepts_silent

/-- With 1.0 left in the buffers the detector does not get the silence of the files. -/
theorem not_delivers_silent :
    Accepts (fun _ => some silentFile) "mic_d.wav" "ref_x.wav" silentReader silentReader ∧
    ¬ Delivers (Malloc.constant (1 : Float32)) (fun _ => some silentFile) "mic_d.wav"
      "ref_x.wav" silentReader silentReader := by
  constructor
  · exact accepts_silent
  · intro h
    have hpos : 0 < wholeFrames silentReader.payload := by
      rw [wholeFrames_eq, length_silent]
      decide
    have hframe := ((delivers_iff accepts_silent _).mp h).1 0 hpos
    -- the first value is 1 on one side and 0 on the other
    have hhead := congrArg List.head? hframe
    revert hhead
    decide +kernel

end AudioProc.Main
