import AudioProc.WavWriter

/-!
# Writing and reading back

What `wav_read_open` makes of the files of `wavwriter.c`, whether or not `wav_write_close`
was called. A file with a known length and some data is walked through to its end
(`reads_known`). Where the length of the data is zero (`reads_empty`), because none was
written or because the header was not written again, or the length of the file is so large
that the reader does not believe it (`reads_unknown`), the reader is a streamed one and the
data ends with the file.

`written_reads_back` puts the cases together.
-/

namespace AudioProc

open CFile Loop Riff

namespace WavReader

/-- The file of a 'fmt ' chunk `w` and a 'data' chunk, with the sizes `n` and `m` in the
headers. -/
def waveBytes (w : FmtFields) (n m : UInt32) (data : List UInt8) : List UInt8 :=
  header (tag 'R' 'I' 'F' 'F') n ++ (fourcc (tag 'W' 'A' 'V' 'E') ++
    ((fmtOf w []).bytes ++ (header (tag 'd' 'a' 't' 'a') m ++ data)))

/-- The file is opened with the fields of `w`, and `data` is what there is to read. -/
def ReadsAs (contents : List UInt8) (w : FmtFields) (length : UInt32) (data : List UInt8) :
    Prop :=
  ∃ wr, wavReadOpen (some contents) = some wr ∧ wr.Describes w ∧ wr.dataLength = length ∧
    wr.payload = data

section

variable {w : FmtFields} {n m : UInt32} {data : List UInt8}

theorem length_fmtOf_nil : (fmtOf w []).payload.length = 16 := by
  rw [length_fmtOf, List.length_nil]

theorem fmtOf_nil_lt : (fmtOf w []).payload.length < 2 ^ 31 := by
  rw [length_fmtOf_nil]
  decide

theorem drop_waveBytes : (waveBytes w n m data).drop 44 = data := by
  have hfront : waveBytes w n m data = (header (tag 'R' 'I' 'F' 'F') n ++
      fourcc (tag 'W' 'A' 'V' 'E') ++ (fmtOf w []).bytes ++ header (tag 'd' 'a' 't' 'a') m) ++
        data := by
    simp only [waveBytes, List.append_assoc]
  have hlength : (header (tag 'R' 'I' 'F' 'F') n ++ fourcc (tag 'W' 'A' 'V' 'E') ++
      (fmtOf w []).bytes ++ header (tag 'd' 'a' 't' 'a') m).length = 44 := by
    simp only [List.length_append, length_header, length_fourcc, Chunk.length_bytes,
      length_fmtOf_nil]
  rw [hfront, ← hlength, List.drop_left]

/-- The walk in front of the 'fmt ' chunk. -/
structure AtFmt (s : RiffWalk) (w : FmtFields) (n m : UInt32) (data : List UInt8) : Prop where
  wav : s.wr.wav = (fopen (waveBytes w n m data)).advance 12
  room : 32 ≤ s.length.toNat

theorem AtFmt.ahead {s : RiffWalk} (h : AtFmt s w n m data) :
    s.Ahead (fmtOf w []) (header (tag 'd' 'a' 't' 'a') m ++ data) where
  rest := by
    have hriff : (fopen (waveBytes w n m data)).rest = waveBytes w n m data := rfl
    have hform := rest_advance_append _ (rest_advance_append _ hriff)
    rw [h.wav]
    rwa [length_header, length_fourcc, CFile.advance_advance] at hform
  fits := by
    have hroom := h.room
    rw [Chunk.length_bytes, length_fmtOf_nil]
    omega
  eof := by
    rw [h.wav]
    rfl

/-- Behind it, in front of the 'data' chunk. -/
theorem AtFmt.behind {s : RiffWalk} (h : AtFmt s w n m data) {c : Chunk} {more : List UInt8}
    (hc : header (tag 'd' 'a' 't' 'a') m ++ data = c.bytes ++ more)
    (hfits : 24 + c.bytes.length ≤ s.length.toNat) :
    ((s.withFmt w).advance (fmtOf w []).bytes.length).Ahead c more where
  rest := by
    rw [← hc]
    exact rest_advance_append _ h.ahead.rest
  fits := by
    have hlength : ((s.withFmt w).advance (fmtOf w []).bytes.length).length.toNat = _ :=
      RiffWalk.length_advance h.ahead.fits
    have hsize : (fmtOf w []).bytes.length = 24 := by
      rw [Chunk.length_bytes, length_fmtOf_nil]
    have hsame : (s.withFmt w).length = s.length := rfl
    rw [hlength, hsize, hsame]
    omega
  eof := h.ahead.eof

/-- Without a length of the data to rely on, the rest of the file is the data. -/
theorem AtFmt.readsAs_streamed {s : RiffWalk} (h : AtFmt s w n m data) {c : Chunk}
    {more : List UInt8}
    (hround : ∀ fuel,
      chunkBody fuel ⟨fresh (fopen (waveBytes w n m data)), 0⟩ = riffChunk fuel s)
    (hformat : w.format ≠ 0xfffe)
    (hc : header (tag 'd' 'a' 't' 'a') m ++ data = c.bytes ++ more)
    (hfits : 24 + c.bytes.length ≤ s.length.toNat)
    (hstreamed : c.payload = [] ∨ s.wr.streamed = true) :
    ReadsAs (waveBytes w n m data) w m data := by
  rcases header_append_inj (hc.trans (List.append_assoc _ _ _)) with ⟨hid, hsize, -⟩
  have hfmt := riffBody_fmt h.ahead hformat fmtOf_nil_lt
  have hdata := riffBody_data_streamed (h.behind hc hfits) hid.symm hstreamed
  have hcontents : s.wr.wav.contents = waveBytes w n m data := by
    rw [h.wav]
    rfl
  refine ⟨_, wavReadOpen_of_ret hround hcontents
    (InnerEnds.next hfmt (innerEnds_ret hdata)), ⟨rfl, rfl, rfl, rfl⟩,
    hsize.symm, ?_⟩
  show (s.wr.wav.contents.drop (s.wr.wav.pos + 24 + 8)) = data
  rw [hcontents, h.wav]
  exact drop_waveBytes

/-- A header that says that there is no data. -/
theorem reads_empty (hformat : w.format ≠ 0xfffe) (hn : 36 ≤ n.toNat) (hknown : n < 0x7fff0000) :
    ReadsAs (waveBytes w n 0 data) w 0 data := by
  have hle : (4 : UInt32) ≤ n := by
    rw [UInt32.le_iff_toNat_le]
    exact Nat.le_trans (by decide) hn
  have hlength : (n - 4).toNat = n.toNat - 4 := UInt32.toNat_sub_of_le _ _ hle
  have hat : AtFmt (Walk.enter ⟨fresh (fopen (waveBytes w n 0 data)), 0⟩ (n - 4)) w n 0 data := by
    refine ⟨rfl, ?_⟩
    show 32 ≤ (n - 4).toNat
    omega
  refine @AtFmt.readsAs_streamed w n 0 data _ hat (dataOf []) data ?_ hformat ?_ ?_
    (Or.inl rfl)
  · intro fuel
    exact chunkBody_wave rfl rfl (Nat.le_trans (by decide) hn) hknown
  · rw [Chunk.bytes, List.append_assoc]
    rfl
  · exact hat.room

/-- A header whose length the reader does not believe. -/
theorem reads_unknown (hformat : w.format ≠ 0xfffe) (hunknown : n ≥ 0x7fff0000)
    (hdata : data.length < 2 ^ 31) :
    ReadsAs (waveBytes w n (UInt32.ofNat data.length) data) w (UInt32.ofNat data.length) data := by
  have hroom : 32 ≤ ((0xffffffff : UInt32) - 4).toNat := by decide
  refine @AtFmt.readsAs_streamed w n _ data
    (Walk.enter ⟨{ fresh (fopen (waveBytes w n (UInt32.ofNat data.length) data)) with
      streamed := true }, 0⟩ (0xffffffff - 4)) ⟨rfl, hroom⟩ (dataOf data) []
    ?_ hformat ?_ ?_ (Or.inr rfl)
  · intro fuel
    exact chunkBody_wave_streamed rfl rfl (Or.inr hunknown)
  · rw [List.append_nil]
    rfl
  · rw [Chunk.length_bytes]
    show 24 + (8 + data.length) ≤ 4294967291
    omega

/-- With the lengths of a finished file the walk comes to its end. -/
theorem readsAs_of_at {s : RiffWalk} {contents : List UInt8}
    (hround : ∀ fuel, chunkBody fuel ⟨fresh (fopen contents), 0⟩ = riffChunk fuel s)
    (hat : s.At ((fmtOf w []).bytes ++ ((dataOf data).bytes ++ [])) [])
    (hcontents : s.wr.wav.contents = contents) (hstreamed : s.wr.streamed = false)
    (hformat : w.format ≠ 0xfffe) (hdata : data ≠ []) :
    ReadsAs contents w (UInt32.ofNat data.length) data := by
  have hfmt := riffBody_fmt hat.ahead hformat fmtOf_nil_lt
  have hat₁ : ((s.withFmt w).advance (fmtOf w []).bytes.length).At ((dataOf data).bytes ++ []) [] :=
    hat.passed rfl rfl
  have hround₁ := riffBody_data hat₁.ahead rfl hdata hstreamed
  have hat₂ : ((((s.withFmt w).advance (fmtOf w []).bytes.length).withData
      (dataOf data).size).advance (dataOf data).bytes.length).At [] [] := hat₁.passed rfl rfl
  have hnone : ((((s.withFmt w).advance (fmtOf w []).bytes.length).withData
      (dataOf data).size).advance (dataOf data).bytes.length).length.toNat < 8 := by
    rw [hat₂.length]
    exact Nat.zero_lt_succ 7
  have hends := InnerEnds.next hfmt (InnerEnds.next hround₁ (ends_short hnone))
  have hend := hat₂.end_le
  have hsame : contents.length ≤ _ := hcontents ▸ hend
  refine ⟨_, wavReadOpen_of_brk hround hcontents hends hsame, ⟨rfl, rfl, rfl, rfl⟩, rfl, ?_⟩
  subst hcontents
  exact payload_of_ahead hat₁.ahead rfl rfl hstreamed

/-- Headers that agree with the file. -/
theorem reads_known (hformat : w.format ≠ 0xfffe) (hn : n.toNat = 36 + data.length)
    (hknown : n < 0x7fff0000) (hdata : data ≠ []) :
    ReadsAs (waveBytes w n (UInt32.ofNat data.length) data) w (UInt32.ofNat data.length) data := by
  have hlength : ((fmtOf w []).bytes ++ ((dataOf data).bytes ++ [])).length = 32 + data.length := by
    rw [List.append_nil, List.length_append, Chunk.length_bytes, Chunk.length_bytes,
      length_fmtOf_nil]
    show 24 + (8 + data.length) = _
    omega
  refine @readsAs_of_at w data
    (Walk.enter ⟨fresh (fopen (waveBytes w n (UInt32.ofNat data.length) data)), 0⟩ (n - 4)) _
    ?_ (at_enter ?_ rfl ?_) rfl rfl hformat hdata
  · intro fuel
    exact chunkBody_wave rfl rfl (by omega) hknown
  · rw [List.append_nil, List.append_nil]
    rfl
  · rw [hlength]
    omega

end

end WavReader

namespace WavWriter

open WavReader

/-! ## The files of the writer -/

theorem headerBytes_append (ww : WavWriter) (length : Int32) (data : List UInt8) :
    headerBytes ww length ++ data =
      waveBytes ww.fmtFields (36 + length).toUInt32 length.toUInt32 data := by
  simp only [headerBytes, waveBytes, List.append_assoc]

/-- The writer does not declare the extensible format. -/
theorem format_ne (ww : WavWriter) : ww.fmtFields.format ≠ 0xfffe := by
  show (1 : UInt16) ≠ 0xfffe
  decide

/-- The file while it is written: the header says that there is no data. -/
theorem reads_written (ww : WavWriter) (data : List UInt8) :
    ReadsAs (headerBytes ww 0 ++ data) ww.fmtFields 0 data := by
  rw [headerBytes_append]
  exact reads_empty ww.format_ne (by decide) (by decide)

/-- The file when it is finished, whatever its length. -/
theorem reads_closed (ww : WavWriter) {data : List UInt8} (h : data.length ≤ 2 ^ 31 - 1 - 36) :
    ReadsAs (headerBytes ww (Int32.ofNat data.length) ++ data) ww.fmtFields
      (UInt32.ofNat data.length) data := by
  have hsize : (Int32.ofNat data.length).toUInt32 = UInt32.ofNat data.length :=
    Int32.toUInt32_ofNat'
  have hn : (36 + Int32.ofNat data.length).toUInt32.toNat = 36 + data.length := by
    rw [Int32.toUInt32_add, hsize, UInt32.toNat_add, UInt32.toNat_ofNat']
    show (36 + data.length % 2 ^ 32) % 2 ^ 32 = _
    omega
  rw [headerBytes_append, hsize]
  by_cases hempty : data = []
  · subst hempty
    exact reads_written ww []
  · by_cases hknown : (36 + Int32.ofNat data.length).toUInt32 < 0x7fff0000
    · exact reads_known ww.format_ne hn hknown hempty
    · exact reads_unknown ww.format_ne (UInt32.not_lt.mp hknown) (by omega)

/-! ## Round trip -/

/-- An `int` that fits into 16 bits is read back from them. -/
theorem toUInt16_of_range {v : Int32} (h : 0 ≤ v.toInt) (h' : v.toInt ≤ 65535) :
    ((v.toUInt32.toUInt16.toNat : ℕ) : ℤ) = v.toInt := by
  have hpos : 0 ≤ v := Int32.le_iff_toInt_le.mpr h
  have hnat : v.toUInt32.toNat = v.toInt.toNat := Int32.toNat_toUInt32_of_le hpos
  rw [UInt32.toNat_toUInt16, hnat]
  omega

/-- A reader has what was written: the parameters of the writer, and all of the data. -/
structure Recovers (sampleRate bitsPerSample channels : Int32) (data : List UInt8)
    (wr : WavReader) : Prop where
  format : wr.format = 1
  channels : wr.channels = channels.toInt
  sampleRate : wr.sampleRate = sampleRate.toInt
  bitsPerSample : wr.bitsPerSample = bitsPerSample.toInt
  delivers : ∀ lengths : List UInt32, (∀ length ∈ lengths, length.toNat < 2 ^ 31) →
    data.length ≤ (lengths.map UInt32.toNat).sum → delivered wr lengths = data

section

variable {sampleRate bitsPerSample channels : Int32} {data : List UInt8}

theorem recovers_of_readsAs {contents : List UInt8} {length : UInt32}
    (hbits : 0 ≤ bitsPerSample.toInt ∧ bitsPerSample.toInt ≤ 65535)
    (hchannels : 0 ≤ channels.toInt ∧ channels.toInt ≤ 65535)
    (h : ReadsAs contents (fresh sampleRate bitsPerSample channels).fmtFields length data) :
    ∃ wr, wavReadOpen (some contents) = some wr ∧
      Recovers sampleRate bitsPerSample channels data wr ∧ wr.dataLength = length := by
  rcases h with ⟨wr, hopen, hdescribes, hlength, hpayload⟩
  refine ⟨wr, hopen, ⟨hdescribes.format, ?_, ?_, ?_, ?_⟩, hlength⟩
  · rw [hdescribes.channels]
    exact toUInt16_of_range hchannels.1 hchannels.2
  · rw [hdescribes.sampleRate]
    exact congrArg Int32.toInt (Int32.toInt32_toUInt32 sampleRate)
  · rw [hdescribes.bitsPerSample]
    exact toUInt16_of_range hbits.1 hbits.2
  · intro lengths hsmall hsum
    rw [← hpayload] at hsum ⊢
    exact delivered_all hsmall hsum

end

/-- **Round trip**: the file of any sequence of writes is read back, whether it was finished
or only written. -/
theorem written_reads_back (sampleRate bitsPerSample channels : Int32)
    (hbits : 0 ≤ bitsPerSample.toInt ∧ bitsPerSample.toInt ≤ 65535)
    (hchannels : 0 ≤ channels.toInt ∧ channels.toInt ≤ 65535) (buffers : List (List UInt8))
    (htotal : buffers.flatten.length ≤ 2 ^ 31 - 1 - 36) :
    ∃ ww, wavWriteOpen (some OutFile.fopen) sampleRate bitsPerSample channels = some ww ∧
      (∃ wr, wavReadOpen (some (wavWriteClose (writeAll ww buffers)).contents) = some wr ∧
        Recovers sampleRate bitsPerSample channels buffers.flatten wr ∧
        wr.dataLength.toNat = buffers.flatten.length) ∧
      ∃ wr, wavReadOpen (some (writeAll ww buffers).wav.contents) = some wr ∧
        Recovers sampleRate bitsPerSample channels buffers.flatten wr := by
  have hsmall : ∀ data ∈ buffers, data.length < 2 ^ 31 := by
    intro data hdata
    have hle := (List.sublist_flatten_of_mem hdata).length_le
    omega
  obtain ⟨ww, hopen⟩ : ∃ ww,
      wavWriteOpen (some OutFile.fopen) sampleRate bitsPerSample channels = some ww := ⟨_, rfl⟩
  refine ⟨ww, hopen, ?_, ?_⟩
  · rw [contents_closed hopen hsmall]
    rcases recovers_of_readsAs hbits hchannels (reads_closed _ htotal) with
      ⟨wr, hread, hrecovers, hlength⟩
    refine ⟨wr, hread, hrecovers, ?_⟩
    rw [hlength, UInt32.toNat_ofNat']
    exact Nat.mod_eq_of_lt (by omega)
  · rw [contents_written hopen hsmall]
    rcases recovers_of_readsAs hbits hchannels (reads_written _ _) with
      ⟨wr, hread, hrecovers, -⟩
    exact ⟨wr, hread, hrecovers⟩

/-- Three bytes in two writes. -/
theorem written_reads_back_three :
    ∃ ww, wavWriteOpen (some OutFile.fopen) 48000 16 1 = some ww ∧
      (∃ wr, wavReadOpen (some (wavWriteClose (writeAll ww [[1, 2], [3]])).contents) = some wr ∧
        Recovers 48000 16 1 [1, 2, 3] wr ∧ wr.dataLength.toNat = 3) ∧
      ∃ wr, wavReadOpen (some (writeAll ww [[1, 2], [3]]).wav.contents) = some wr ∧
        Recovers 48000 16 1 [1, 2, 3] wr :=
  written_reads_back 48000 16 1 (by decide) (by decide) [[1, 2], [3]] (by decide)

end WavWriter

end AudioProc
