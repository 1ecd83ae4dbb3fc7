import AudioProc.Channels
import AudioProc.RoundTrip

/-!
# Recordings

From the program that records to the one that is given the files: two files of `wavwriter.c`,
whatever was written to them, go into `main`. A recording may have ended without
`wav_write_close`, and of such a file only the first bytes may have come to the disk; the reader
takes what is there.

* `Recording.exists_reader`: what `wav_read_open` makes of a recording, however it ended;
* `main_recordings`: what `main` does with two of them is `outcome`, which looks at the
  parameters of the writers and at the bytes they were given only.
-/

namespace AudioProc

open FloatOps WavReader WavWriter

universe u

/-- How a recording ended: with `wav_write_close`, or without, after so many bytes of the file
were on the disk. -/
inductive Ending where
  | closed
  | broken (onDisk : ℕ)

/-- A recording of `wavwriter.c`. The parameters fit into their fields, the lengths of all
writes into an `int`, and a header is there. -/
structure Recording where
  sampleRate : Int32
  bitsPerSample : Int32
  channels : Int32
  buffers : List (List UInt8)
  ending : Ending
  bits_fit : 0 ≤ bitsPerSample.toInt ∧ bitsPerSample.toInt ≤ 65535
  channels_fit : 0 ≤ channels.toInt ∧ channels.toInt ≤ 65535
  total_fits : buffers.flatten.length ≤ 2 ^ 31 - 1 - 36
  header_there : ∀ onDisk, ending = .broken onDisk → 44 ≤ onDisk

namespace Recording

/-- The file that is there in the end. -/
def file (r : Recording) : Option (List UInt8) :=
  (wavWriteOpen (some OutFile.fopen) r.sampleRate r.bitsPerSample r.channels).map fun ww =>
    match r.ending with
    | .closed => (wavWriteClose (writeAll ww r.buffers)).contents
    | .broken onDisk => (writeAll ww r.buffers).wav.contents.take onDisk

/-- The data that is in it. -/
def kept (r : Recording) : List UInt8 :=
  match r.ending with
  | .closed => r.buffers.flatten
  | .broken onDisk => r.buffers.flatten.take (onDisk - 44)

variable {r : Recording}

/-- What a reader of a recording reports. -/
structure ReadBy (r : Recording) (wr : WavReader) : Prop where
  format : wr.format = 1
  channels : wr.channels = r.channels.toInt
  sampleRate : wr.sampleRate = r.sampleRate.toInt
  bitsPerSample : wr.bitsPerSample = r.bitsPerSample.toInt
  payload : wr.payload = r.kept

theorem readBy_of_readsAs {contents : List UInt8} {n : UInt32}
    (h : ReadsAs contents (WavWriter.fresh r.sampleRate r.bitsPerSample r.channels).fmtFields
      n r.kept) :
    ∃ wr, wavReadOpen (some contents) = some wr ∧ r.ReadBy wr := by
  rcases h with ⟨wr, hopen, hdescribes, -, hpayload⟩
  refine ⟨wr, hopen, hdescribes.format, ?_, ?_, ?_, hpayload⟩
  · rw [hdescribes.channels]
    exact toUInt16_of_range r.channels_fit.1 r.channels_fit.2
  · rw [hdescribes.sampleRate]
    exact congrArg Int32.toInt (Int32.toInt32_toUInt32 r.sampleRate)
  · rw [hdescribes.bitsPerSample]
    exact toUInt16_of_range r.bits_fit.1 r.bits_fit.2

/-- **A recording is read back**, however it ended. -/
theorem exists_reader (r : Recording) : ∃ wr, wavReadOpen r.file = some wr ∧ r.ReadBy wr := by
  have hsmall : ∀ data ∈ r.buffers, data.length < 2 ^ 31 := by
    intro data hdata
    have hle := (List.sublist_flatten_of_mem hdata).length_le
    have htotal := r.total_fits
    omega
  obtain ⟨ww, hopen⟩ : ∃ ww, wavWriteOpen (some OutFile.fopen) r.sampleRate r.bitsPerSample
      r.channels = some ww := ⟨_, rfl⟩
  rw [file, hopen, Option.map_some]
  cases hending : r.ending with
  | closed =>
      have hkept : r.kept = r.buffers.flatten := by rw [kept, hending]
      simp only
      rw [contents_closed hopen hsmall]
      apply readBy_of_readsAs (n := UInt32.ofNat r.buffers.flatten.length)
      rw [hkept]
      exact reads_closed _ r.total_fits
  | broken onDisk =>
      -- the header says that there is no data, so that the length of the file decides
      have hkept : r.kept = r.buffers.flatten.take (onDisk - 44) := by rw [kept, hending]
      have hheader := r.header_there onDisk hending
      simp only
      rw [contents_written hopen hsmall, List.take_append, length_headerBytes,
        List.take_of_length_le ((length_headerBytes _ _).trans_le hheader)]
      apply readBy_of_readsAs (n := 0)
      rw [hkept]
      exact reads_written _ _

end Recording

namespace Main

variable {F : Type u} [FloatMath F]

/-- What the program does with two recordings. -/
def outcome (mem : Malloc F) (refX : String) (mic reference : Recording) :
    Option (Except String (Output F)) :=
  if reference.sampleRate = 0 then
    some (.error (Failure.badWavFile refX).message)
  else if reference.bitsPerSample ≠ 16 then
    some (.error (Failure.unsupportedSampleDepth reference.bitsPerSample.toInt).message)
  else if mic.sampleRate = 0 then
    -- the message names the other file
    some (.error (Failure.badWavFile refX).message)
  else if mic.channels = 0 then
    none
  else
    let calls := blockCalls mem (320 * mic.channels.toInt.toNat) mic.kept reference.kept
    some (.ok
      { calls := calls
        metrics := (ResidualEchoDetector.run calls).getMetrics })

theorem toInt_eq_zero_iff {v : Int32} : v.toInt = 0 ↔ v = 0 := by
  rw [← Int32.toInt_zero, Int32.toInt_inj]

/-- The header of a recording is a good one if it has a sample rate. -/
theorem wavGetHeader_iff {r : Recording} {wr : WavReader} (h : r.ReadBy wr) :
    wr.wavGetHeader = true ↔ r.sampleRate ≠ 0 := by
  rw [WavReader.wavGetHeader, decide_eq_true_eq, h.format, h.sampleRate, ne_eq (r.sampleRate.toInt),
    toInt_eq_zero_iff]
  constructor
  · intro hboth
    exact hboth.2
  · intro hrate
    exact ⟨by decide, hrate⟩

variable {files : String → Option (List UInt8)} {micD refX : String} {mic reference : Recording}

/-- **Two recordings in, calls and metrics out.** -/
theorem main_recordings (hd : files micD = mic.file) (hx : files refX = reference.file)
    (mem : Malloc F) : main mem files micD refX = outcome mem refX mic reference := by
  rcases mic.exists_reader with ⟨dWav, hopenD, hreadD⟩
  rcases reference.exists_reader with ⟨xWav, hopenX, hreadX⟩
  rw [← hd] at hopenD
  rw [← hx] at hopenX
  have hdepth : reference.bitsPerSample.toInt = 16 ↔ reference.bitsPerSample = 16 :=
    Int32.toInt_inj (y := 16)
  have hopened : openFiles files micD refX =
      if reference.sampleRate = 0 then
        .error (.badWavFile refX)
      else if reference.bitsPerSample ≠ 16 then
        .error (.unsupportedSampleDepth reference.bitsPerSample.toInt)
      else if mic.sampleRate = 0 then
        .error (.badWavFile refX)
      else
        .ok (dWav, xWav) := by
    simp only [openFiles, hopenX, hopenD, wavGetHeader_iff hreadX, wavGetHeader_iff hreadD,
      not_not, hreadX.format, ne_eq, not_true_eq_false, if_false, hreadX.bitsPerSample, hdepth]
  have hchannels : dWav.channels = 0 ↔ mic.channels = 0 := by
    rw [hreadD.channels, toInt_eq_zero_iff]
  unfold outcome
  split_ifs at hopened ⊢ with hrateX hbits hrateD hnone
  · simp only [main, hopened]
  · simp only [main, hopened]
  · simp only [main, hopened]
  · exact main_without_channels hopened (hchannels.mpr hnone) mem
  · rw [main_of_channels hopened (mt hchannels.mp hnone), blockSize, hreadD.channels,
      hreadD.payload, hreadX.payload]

/-- Three blocks of 8-bit stereo, which broke off within the second one. -/
def brokenMic : Recording where
  sampleRate := 16000
  bitsPerSample := 8
  channels := 2
  buffers := [List.replicate 1000 1, List.replicate 920 2]
  ending := .broken 1000
  bits_fit := by decide
  channels_fit := by decide
  total_fits := by
    simp only [List.flatten_cons, List.flatten_nil, List.length_append, List.length_replicate,
      List.length_nil]
    omega
  header_there := by
    intro onDisk h
    rcases Ending.broken.inj h with rfl
    decide

/-- A finished reference. -/
def closedReference : Recording where
  sampleRate := 16000
  bitsPerSample := 16
  channels := 1
  buffers := [List.replicate 1280 3]
  ending := .closed
  bits_fit := by decide
  channels_fit := by decide
  total_fits := by
    simp only [List.flatten_cons, List.flatten_nil, List.length_append, List.length_replicate,
      List.length_nil]
    omega
  header_there := by
    intro onDisk h
    exact absurd h (by simp)

theorem main_recordings_broken :
    main (Malloc.constant (1 : Float32))
        (fun name => if name = "mic_d.wav" then brokenMic.file else closedReference.file)
        "mic_d.wav" "ref_x.wav" =
      outcome (Malloc.constant 1) "ref_x.wav" brokenMic closedReference :=
  main_recordings (if_pos rfl) (if_neg (by decide)) (Malloc.constant 1)

end Main

end AudioProc
