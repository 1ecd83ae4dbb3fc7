import AudioProc.RiffFormat
import AudioProc.WavReader

/-!
# The chunk walk over the bytes of a RIFF file

What the reading primitives and the rounds of both loops of `wav_read_open` do on bytes laid
out as `Riff` says. `RiffWalk.advance` is a walk `n` bytes further on with `n` taken from the
remaining length; every round of the inner loop that goes on is such an advance.

`riffBody_other`, `riffBody_data` and `riffBody_fmt` say what each kind of sub-chunk does to
the reader, and `chunkBody_wave` leads from the outer loop to the inner one.
-/

namespace AudioProc

open CFile Loop Riff LittleEndian

namespace WavReader

/-! ## Reading numbers and identifiers -/

theorem readInt16_of_rest {f : CFile} {v : UInt16} {more : List UInt8}
    (h : f.rest = int16 v ++ more) : readInt16 f = (v, f.advance 2) := by
  obtain ⟨b₀, b₁, hbytes⟩ : ∃ b₀ b₁, int16 v = [b₀, b₁] := ⟨_, _, rfl⟩
  rw [hbytes] at h
  have h₁ : (f.advance 1).rest = [b₁] ++ more := rest_advance_append [b₀] h
  have hvalue : UInt16.ofInt b₀.toNat ||| (UInt16.ofInt b₁.toNat <<< 8) = v := by
    apply UInt16.toNat.inj
    rw [half_eq, ← hbytes, int16, ofBytes_toBytes]
    exact v.toNat_lt
  unfold readInt16
  rw [fgetc_of_rest h]
  simp only
  rw [fgetc_of_rest h₁]
  simp only [hvalue, advance_advance]

theorem readInt32_of_rest {f : CFile} {v : UInt32} {more : List UInt8}
    (h : f.rest = int32 v ++ more) : readInt32 f = (v, f.advance 4) := by
  obtain ⟨b₀, b₁, b₂, b₃, hbytes⟩ : ∃ b₀ b₁ b₂ b₃, int32 v = [b₀, b₁, b₂, b₃] :=
    ⟨_, _, _, _, rfl⟩
  rw [hbytes] at h
  have h₁ : (f.advance 1).rest = [b₁, b₂, b₃] ++ more := rest_advance_append [b₀] h
  have h₂ : (f.advance 2).rest = [b₂, b₃] ++ more := rest_advance_append [b₀, b₁] h
  have h₃ : (f.advance 3).rest = [b₃] ++ more := rest_advance_append [b₀, b₁, b₂] h
  have hvalue : UInt32.ofInt b₀.toNat ||| (UInt32.ofInt b₁.toNat <<< 8) |||
      (UInt32.ofInt b₂.toNat <<< 16) ||| (UInt32.ofInt b₃.toNat <<< 24) = v := by
    apply UInt32.toNat.inj
    rw [word_eq, ← hbytes, int32, ofBytes_toBytes]
    exact v.toNat_lt
  unfold readInt32
  rw [fgetc_of_rest h]
  simp only
  rw [fgetc_of_rest h₁]
  simp only [advance_advance]
  rw [fgetc_of_rest h₂]
  simp only [advance_advance]
  rw [fgetc_of_rest h₃]
  simp only [hvalue, advance_advance]

theorem readTag_of_rest {f : CFile} {id : UInt32} {more : List UInt8}
    (h : f.rest = fourcc id ++ more) : readTag f = (id, f.advance 4) := by
  obtain ⟨b₀, b₁, b₂, b₃, hbytes⟩ : ∃ b₀ b₁ b₂ b₃, fourcc id = [b₀, b₁, b₂, b₃] :=
    ⟨_, _, _, _, rfl⟩
  have hint : int32 id = [b₃, b₂, b₁, b₀] := by
    rw [int32, ← List.reverse_reverse (toBytes 4 id.toNat), ← fourcc, hbytes]
    rfl
  rw [hbytes] at h
  have h₁ : (f.advance 1).rest = [b₁, b₂, b₃] ++ more := rest_advance_append [b₀] h
  have h₂ : (f.advance 2).rest = [b₂, b₃] ++ more := rest_advance_append [b₀, b₁] h
  have h₃ : (f.advance 3).rest = [b₃] ++ more := rest_advance_append [b₀, b₁, b₂] h
  -- each character pushes the ones before it up by a byte
  have hvalue : ((((0 : UInt32) <<< 8 ||| UInt32.ofInt b₀.toNat) <<< 8 |||
      UInt32.ofInt b₁.toNat) <<< 8 ||| UInt32.ofInt b₂.toNat) <<< 8 |||
      UInt32.ofInt b₃.toNat = id := by
    have h₀ := b₀.toNat_lt
    have h₁ := b₁.toNat_lt
    have h₂ := b₂.toNat_lt
    have h₃ := b₃.toNat_lt
    have hid : ofBytes [b₃, b₂, b₁, b₀] = id.toNat := by
      rw [← hint, int32, ofBytes_toBytes]
      exact id.toNat_lt
    apply UInt32.toNat.inj
    rw [shift_or, shift_or, shift_or, shift_or, ← hid, UInt32.toNat_zero]
    simp only [ofBytes]
    omega
  unfold readTag
  rw [fgetc_of_rest h]
  simp only
  rw [fgetc_of_rest h₁]
  simp only [advance_advance]
  rw [fgetc_of_rest h₂]
  simp only [advance_advance]
  rw [fgetc_of_rest h₃]
  simp only [hvalue, advance_advance]

/-- A count below 2^31 is skipped byte by byte. -/
theorem skip_of_rest {f : CFile} {n : UInt32} (hn : n.toNat < 2 ^ 31)
    (h : n.toNat ≤ f.rest.length) : skip f n = f.advance n.toNat := by
  have hint : n.toInt32.toInt.toNat = n.toNat := by
    rw [← UInt32.ofNat_toNat (x := n), UInt32.toInt32_ofNat', Int32.toInt_ofNat_of_lt hn]
    simp
  rw [skip, hint, discard_eq_advance h]

/-! ## Advancing over chunks -/

/-- The reader with the fields of a 'fmt ' chunk. -/
def withFmt (wr : WavReader) (w : FmtFields) : WavReader :=
  { wr with
    format := w.format.toNat
    channels := w.channels.toNat
    sampleRate := w.sampleRate.toInt32.toInt
    byteRate := w.byteRate.toInt32.toInt
    blockAlign := w.blockAlign.toNat
    bitsPerSample := w.bitsPerSample.toNat }

/-- What `wav_get_header` reports about the samples is what a 'fmt ' chunk says. -/
structure Describes (wr : WavReader) (w : FmtFields) : Prop where
  format : wr.format = w.format.toNat
  channels : wr.channels = w.channels.toNat
  sampleRate : wr.sampleRate = w.sampleRate.toInt32.toInt
  bitsPerSample : wr.bitsPerSample = w.bitsPerSample.toNat

theorem fmtFields_of_rest {wr : WavReader} {w : FmtFields} {more : List UInt8}
    (h : wr.wav.rest = w.bytes ++ more) :
    fmtFields wr = { wr.withFmt w with wav := wr.wav.advance 16 } := by
  unfold FmtFields.bytes at h
  simp only [List.append_assoc] at h
  have h₁ := rest_advance_append _ h
  have h₂ := rest_advance_append _ h₁
  have h₃ := rest_advance_append _ h₂
  have h₄ := rest_advance_append _ h₃
  have h₅ := rest_advance_append _ h₄
  simp only [length_int16, length_int32, advance_advance] at h₁ h₂ h₃ h₄ h₅
  unfold fmtFields
  rw [readInt16_of_rest h]
  simp only
  rw [readInt16_of_rest h₁]
  simp only [advance_advance]
  rw [readInt32_of_rest h₂]
  simp only [advance_advance]
  rw [readInt32_of_rest h₃]
  simp only [advance_advance]
  rw [readInt16_of_rest h₄]
  simp only [advance_advance]
  rw [readInt16_of_rest h₅]
  simp only [advance_advance]
  rfl

namespace RiffWalk

/-- The walk `n` bytes further on, with `n` taken from the remaining length. -/
def advance (s : RiffWalk) (n : ℕ) : RiffWalk :=
  { s with
    wr := { s.wr with wav := s.wr.wav.advance n }
    length := s.length - UInt32.ofNat n }

theorem advance_zero (s : RiffWalk) : s.advance 0 = s := by
  have hlength : s.length - UInt32.ofNat 0 = s.length := UInt32.sub_zero _
  unfold advance
  rw [hlength]
  rfl

theorem advance_advance (s : RiffWalk) (m n : ℕ) :
    (s.advance m).advance n = s.advance (m + n) := by
  have hlength : s.length - UInt32.ofNat m - UInt32.ofNat n = s.length - UInt32.ofNat (m + n) := by
    rw [UInt32.ofNat_add]
    grind
  simp only [advance, CFile.advance_advance, hlength]

theorem advance_toNat_eq (s : RiffWalk) (n : UInt32) :
    s.advance n.toNat = { s with
      wr := { s.wr with wav := s.wr.wav.advance n.toNat }
      length := s.length - n } := by
  unfold advance
  rw [UInt32.ofNat_toNat]

theorem length_advance {s : RiffWalk} {n : ℕ} (h : n ≤ s.length.toNat) :
    (s.advance n).length.toNat = s.length.toNat - n := by
  have hlt := s.length.toNat_lt
  have hn : (UInt32.ofNat n).toNat = n := by
    rw [UInt32.toNat_ofNat']
    exact Nat.mod_eq_of_lt (by omega)
  have hle : UInt32.ofNat n ≤ s.length := by
    rw [UInt32.le_iff_toNat_le, hn]
    exact h
  show (s.length - UInt32.ofNat n).toNat = _
  rw [UInt32.toNat_sub_of_le _ _ hle, hn]

/-- The walk with the fields of a 'fmt ' sub-chunk. -/
def withFmt (s : RiffWalk) (w : FmtFields) : RiffWalk :=
  { s with wr := s.wr.withFmt w }

/-- The walk that is in front of a 'data' sub-chunk and remembers it. -/
def withData (s : RiffWalk) (size : UInt32) : RiffWalk :=
  { s with
    dataPos := s.wr.wav.pos + 8
    wr := { s.wr with dataLength := size } }

/-- The next sub-chunk is `c`, and it fits into the remaining length. -/
structure Ahead (s : RiffWalk) (c : Chunk) (more : List UInt8) : Prop where
  rest : s.wr.wav.rest = c.bytes ++ more
  fits : c.bytes.length ≤ s.length.toNat
  eof : s.wr.wav.eof = false

/-- The walk stands at `body`, which is all that its RIFF chunk has left, with `post` behind
it. -/
structure At (s : RiffWalk) (body post : List UInt8) : Prop where
  rest : s.wr.wav.rest = body ++ post
  length : s.length.toNat = body.length
  eof : s.wr.wav.eof = false

variable {s t : RiffWalk} {c : Chunk} {body post : List UInt8}

theorem At.ahead (h : s.At (c.bytes ++ body) post) : s.Ahead c (body ++ post) where
  rest := by rw [h.rest, List.append_assoc]
  fits := by
    rw [h.length, List.length_append]
    exact Nat.le_add_right _ _
  eof := h.eof

/-- With nothing behind the body, the remaining length leads to the end of the file. -/
theorem At.end_le (h : s.At body []) :
    s.wr.wav.contents.length ≤ s.wr.wav.pos + s.length.toNat := by
  have hrest := congrArg List.length h.rest
  rw [CFile.rest, List.length_drop, List.append_nil, ← h.length] at hrest
  omega

/-- Behind the first bytes of the body. -/
theorem At.passed {front : List UInt8} (h : s.At (front ++ body) post)
    (hwav : t.wr.wav = s.wr.wav.advance front.length)
    (hlength : t.length = (s.advance front.length).length) : t.At body post where
  rest := by
    have hrest := h.rest
    rw [List.append_assoc] at hrest
    rw [hwav]
    exact rest_advance_append _ hrest
  length := by
    have hfront : front.length ≤ s.length.toNat := by
      rw [h.length, List.length_append]
      exact Nat.le_add_right _ _
    rw [hlength, length_advance hfront, h.length, List.length_append]
    exact Nat.add_sub_cancel_left _ _
  eof := by
    rw [hwav]
    exact h.eof

end RiffWalk

/-- A round of the inner loop over a header. -/
theorem riffBody_header {s : RiffWalk} {id size : UInt32} {more : List UInt8}
    (hrest : s.wr.wav.rest = header id size ++ more) (hlength : 8 ≤ s.length.toNat)
    (heof : s.wr.wav.eof = false) : riffBody s = subChunk (s.advance 8) id size := by
  unfold header at hrest
  rw [List.append_assoc] at hrest
  have htag := readTag_of_rest hrest
  have hsize := readInt32_of_rest (rest_advance_append _ hrest)
  simp only [length_fourcc, CFile.advance_advance] at hsize
  have hshort : ¬ s.length < 8 := by
    rw [UInt32.lt_iff_toNat_lt]
    exact Nat.not_lt.mpr hlength
  have hnot : (readTag s.wr.wav).2.eof = false := by
    rw [htag]
    exact heof
  rw [riffBody_of_header hshort hnot, afterHeader, htag, hsize]
  rfl

namespace RiffWalk.Ahead

variable {s : RiffWalk} {c : Chunk} {more : List UInt8}

theorem toNat_size (h : s.Ahead c more) : c.size.toNat = c.payload.length := by
  have hlt := s.length.toNat_lt
  have hfits := h.fits
  rw [Chunk.length_bytes] at hfits
  apply Chunk.toNat_size
  omega

theorem rest_header (h : s.Ahead c more) :
    s.wr.wav.rest = header c.id c.size ++ (c.payload ++ more) := by
  rw [h.rest, Chunk.bytes, List.append_assoc]

theorem rest_payload (h : s.Ahead c more) :
    (s.advance 8).wr.wav.rest = c.payload ++ more := by
  have hrest := rest_advance_append _ h.rest_header
  rw [length_header] at hrest
  exact hrest

theorem not_oversized (h : s.Ahead c more) : ¬ (s.advance 8).length < c.size := by
  have hfits := h.fits
  rw [Chunk.length_bytes] at hfits
  rw [UInt32.lt_iff_toNat_lt, length_advance (by omega), h.toNat_size]
  omega

theorem riffBody_eq (h : s.Ahead c more) :
    riffBody s = subChunk (s.advance 8) c.id c.size := by
  have hfits := h.fits
  rw [Chunk.length_bytes] at hfits
  exact riffBody_header h.rest_header (by omega) h.eof

/-- What the rounds leave to take from the remaining length. -/
theorem advance_size (h : s.Ahead c more) (t : RiffWalk) :
    (t.advance 8).advance c.size.toNat = t.advance c.bytes.length := by
  rw [advance_advance, h.toNat_size, Chunk.length_bytes]

end RiffWalk.Ahead

/-- Any other sub-chunk is passed over. -/
theorem riffBody_other {s : RiffWalk} {c : Chunk} {more : List UInt8} (h : s.Ahead c more)
    (hfmt : c.id ≠ tag 'f' 'm' 't' ' ') (hdata : c.id ≠ tag 'd' 'a' 't' 'a')
    (hsize : c.payload.length < 2 ^ 31) :
    riffBody s = .next (s.advance c.bytes.length) := by
  have hskip : skip (s.advance 8).wr.wav c.size = (s.advance 8).wr.wav.advance c.size.toNat := by
    apply skip_of_rest
    · rw [h.toNat_size]
      exact hsize
    · rw [h.rest_payload, h.toNat_size, List.length_append]
      exact Nat.le_add_right _ _
  rw [h.riffBody_eq, subChunk, if_neg h.not_oversized, if_neg hfmt, if_neg hdata, hskip,
    ← h.advance_size, RiffWalk.advance_toNat_eq]

/-! ## 'data' sub-chunks -/

theorem tag_fmt_ne_data : tag 'f' 'm' 't' ' ' ≠ tag 'd' 'a' 't' 'a' := by decide

theorem tag_data_ne_fmt : tag 'd' 'a' 't' 'a' ≠ tag 'f' 'm' 't' ' ' := by decide

/-- A 'data' sub-chunk. -/
def dataOf (data : List UInt8) : Chunk := ⟨tag 'd' 'a' 't' 'a', data⟩

theorem riffBody_data {s : RiffWalk} {c : Chunk} {more : List UInt8} (h : s.Ahead c more)
    (hid : c.id = tag 'd' 'a' 't' 'a') (hpayload : c.payload ≠ [])
    (hstreamed : s.wr.streamed = false) :
    riffBody s = .next ((s.withData c.size).advance c.bytes.length) := by
  have hfmt : c.id ≠ tag 'f' 'm' 't' ' ' := hid ▸ tag_data_ne_fmt
  have hsize : c.size ≠ 0 := by
    intro hzero
    have hlength := h.toNat_size
    rw [hzero] at hlength
    exact hpayload (List.eq_nil_of_length_eq_zero hlength.symm)
  have heof : (s.advance 8).wr.wav.eof = false := h.eof
  have hseek := fseekCur_eq_advance heof c.size.toNat
  have hgo : ¬ (c.size = 0 ∨ (s.advance 8).wr.streamed = true) := by
    rintro (hzero | hset)
    · exact hsize hzero
    · have hboth : true = false := hset.symm.trans hstreamed
      exact absurd hboth (by decide)
  rw [h.riffBody_eq, ← h.advance_size, RiffWalk.advance_toNat_eq]
  simp only [subChunk, if_neg h.not_oversized, if_neg hfmt, if_pos hid, if_neg hgo, hseek]
  rfl

/-- A reader that was led to a 'data' sub-chunk has its data to hand out. -/
theorem payload_of_ahead {s : RiffWalk} {data more : List UInt8} (h : s.Ahead (dataOf data) more)
    {wr : WavReader} (hwav : wr.wav = ⟨s.wr.wav.contents, s.wr.wav.pos + 8, false⟩)
    (hlength : wr.dataLength = (dataOf data).size) (hstreamed : wr.streamed = false) :
    wr.payload = data := by
  have hrest : wr.wav.rest = data ++ more := by
    rw [hwav]
    exact h.rest_payload
  have hsize : (dataOf data).size.toNat = data.length := h.toNat_size
  have hnot : ¬ wr.streamed = true := by
    rw [hstreamed]
    decide
  unfold payload
  rw [if_neg hnot, hrest, hlength, hsize, List.take_left]

/-- Empty data, or data of a streamed file: the function returns. -/
theorem riffBody_data_streamed {s : RiffWalk} {c : Chunk} {more : List UInt8}
    (h : s.Ahead c more) (hid : c.id = tag 'd' 'a' 't' 'a')
    (hstreamed : c.payload = [] ∨ s.wr.streamed = true) :
    riffBody s = .ret { s.wr with
      wav := s.wr.wav.advance 8
      dataLength := c.size
      streamed := true } := by
  have hfmt : c.id ≠ tag 'f' 'm' 't' ' ' := hid ▸ tag_data_ne_fmt
  have hret : c.size = 0 ∨ (s.advance 8).wr.streamed = true := by
    rcases hstreamed with hnil | hset
    · left
      rw [Chunk.size, hnil]
      rfl
    · exact Or.inr hset
  rw [h.riffBody_eq]
  simp only [subChunk, if_neg h.not_oversized, if_neg hfmt, if_pos hid, if_pos hret]
  rfl

/-! ## 'fmt ' sub-chunks -/

theorem withFmt_format (wr : WavReader) (w : FmtFields) :
    (wr.withFmt w).format = 0xfffe ↔ w.format = 0xfffe := by
  show ((w.format.toNat : ℕ) : ℤ) = 0xfffe ↔ _
  constructor
  · intro h
    apply UInt16.toNat.inj
    exact Int.ofNat.inj h
  · intro h
    rw [h]
    rfl

section Fmt

variable {wr : WavReader} {w : FmtFields} {extra more : List UInt8} {size : UInt32}

/-- A sub-chunk of 16 bytes or more: its fields are read, then the format decides. -/
theorem fmtChunk_of_rest (hrest : wr.wav.rest = w.bytes ++ (extra ++ more))
    (hsize : size.toNat = 16 + extra.length) :
    fmtChunk wr size =
      let r := { wr.withFmt w with wav := wr.wav.advance 16 }
      if w.format = 0xfffe then
        if size < 28 then (false, r)
        else (true, { r with
          format := (readInt32 (skip r.wav 8)).1.toInt32.toInt
          wav := skip (readInt32 (skip r.wav 8)).2 (size - 28) })
      else (true, { r with wav := skip r.wav (size - 16) }) := by
  have hlong : ¬ size < 16 := by
    rw [UInt32.lt_iff_toNat_lt, hsize]
    exact Nat.not_lt.mpr (Nat.le_add_right 16 _)
  unfold fmtChunk
  rw [if_neg hlong, fmtFields_of_rest hrest]
  by_cases hformat : w.format = 0xfffe
  · simp only [if_pos hformat]
    exact if_pos ((withFmt_format wr w).mpr hformat)
  · simp only [if_neg hformat]
    exact if_neg fun h => hformat ((withFmt_format wr w).mp h)

theorem fmtChunk_plain (hrest : wr.wav.rest = w.bytes ++ (extra ++ more))
    (hsize : size.toNat = 16 + extra.length) (hsmall : size.toNat < 2 ^ 31)
    (hformat : w.format ≠ 0xfffe) :
    fmtChunk wr size = (true, { wr.withFmt w with wav := wr.wav.advance size.toNat }) := by
  have hle : (16 : UInt32) ≤ size := by
    rw [UInt32.le_iff_toNat_le, hsize]
    exact Nat.le_add_right 16 _
  have hleft : (size - 16).toNat = extra.length := by
    rw [UInt32.toNat_sub_of_le _ _ hle, hsize]
    exact Nat.add_sub_cancel_left _ _
  have hbehind : (wr.wav.advance 16).rest = extra ++ more := by
    rw [← FmtFields.length_bytes w]
    exact rest_advance_append _ hrest
  have hskip : skip (wr.wav.advance 16) (size - 16) = wr.wav.advance size.toNat := by
    rw [skip_of_rest (by omega), hleft, CFile.advance_advance, hsize]
    rw [hbehind, hleft, List.length_append]
    exact Nat.le_add_right _ _
  rw [fmtChunk_of_rest hrest hsize]
  simp only [if_neg hformat, hskip]

/-- The extensible format needs 12 bytes behind the fields. -/
theorem fmtChunk_extensible_short (hrest : wr.wav.rest = w.bytes ++ (extra ++ more))
    (hsize : size.toNat = 16 + extra.length) (hextra : extra.length < 12)
    (hformat : w.format = 0xfffe) :
    fmtChunk wr size = (false, { wr.withFmt w with wav := wr.wav.advance 16 }) := by
  have hshort : size < 28 := by
    rw [UInt32.lt_iff_toNat_lt, hsize]
    show 16 + extra.length < 28
    omega
  rw [fmtChunk_of_rest hrest hsize]
  simp only [if_pos hformat, if_pos hshort]

/-- With them, all of the sub-chunk is passed over. -/
theorem fmtChunk_extensible (hrest : wr.wav.rest = w.bytes ++ (extra ++ more))
    (hsize : size.toNat = 16 + extra.length) (hsmall : size.toNat < 2 ^ 31)
    (hextra : 12 ≤ extra.length) (hformat : w.format = 0xfffe) :
    ∃ format : ℤ, fmtChunk wr size = (true, { wr.withFmt w with
      format := format
      wav := wr.wav.advance size.toNat }) := by
  have hlong : ¬ size < 28 := by
    rw [UInt32.lt_iff_toNat_lt, hsize]
    show ¬ 16 + extra.length < 28
    omega
  have hle : (28 : UInt32) ≤ size := UInt32.not_lt.mp hlong
  have hleft : (size - 28).toNat = extra.length - 12 := by
    rw [UInt32.toNat_sub_of_le _ _ hle, hsize]
    show 16 + extra.length - 28 = _
    omega
  have hbehind : (wr.wav.advance 16).rest = extra ++ more := by
    rw [← FmtFields.length_bytes w]
    exact rest_advance_append _ hrest
  have hroom : extra.length ≤ (wr.wav.advance 16).rest.length := by
    rw [hbehind, List.length_append]
    exact Nat.le_add_right _ _
  -- the 8 bytes skipped, the 4 of the new format and the rest make up the size
  have height : skip (wr.wav.advance 16) 8 = wr.wav.advance 24 := by
    rw [skip_of_rest (by decide), CFile.advance_advance]
    · rfl
    · exact Nat.le_trans (show 8 ≤ extra.length by omega) hroom
  have hfour : (readInt32 (wr.wav.advance 24)).2 = wr.wav.advance 28 := by
    rw [readInt32_snd, discard_eq_advance, CFile.advance_advance]
    rw [rest_advance, List.length_drop] at hroom ⊢
    omega
  have hskip : skip (wr.wav.advance 28) (size - 28) = wr.wav.advance size.toNat := by
    have hsum : 28 + (extra.length - 12) = size.toNat := by omega
    rw [skip_of_rest (by omega), hleft, CFile.advance_advance, hsum]
    rw [rest_advance, List.length_drop] at hroom ⊢
    omega
  refine ⟨(readInt32 (wr.wav.advance 24)).1.toInt32.toInt, ?_⟩
  rw [fmtChunk_of_rest hrest hsize]
  simp only [if_pos hformat, if_neg hlong, height, hfour, hskip]

end Fmt

section

variable {s : RiffWalk} {w : FmtFields} {extra more : List UInt8}

/-- A 'fmt ' sub-chunk of 16 bytes or more. -/
def fmtOf (w : FmtFields) (extra : List UInt8) : Chunk := ⟨tag 'f' 'm' 't' ' ', w.bytes ++ extra⟩

theorem length_fmtOf : (fmtOf w extra).payload.length = 16 + extra.length := by
  rw [fmtOf, List.length_append, FmtFields.length_bytes]

theorem subChunk_fmt {size : UInt32} (h : ¬ s.length < size) :
    subChunk s (tag 'f' 'm' 't' ' ') size =
      if (fmtChunk s.wr size).1 then
        .next { s with
          wr := (fmtChunk s.wr size).2
          length := s.length - size }
      else .brk { s with wr := (fmtChunk s.wr size).2 } := by
  rw [subChunk, if_neg h, if_pos rfl]

theorem riffBody_fmtOf (h : s.Ahead (fmtOf w extra) more) :
    riffBody s = subChunk (s.advance 8) (tag 'f' 'm' 't' ' ') (fmtOf w extra).size ∧
    (s.advance 8).wr.wav.rest = w.bytes ++ (extra ++ more) ∧
    (fmtOf w extra).size.toNat = 16 + extra.length := by
  refine ⟨h.riffBody_eq, ?_, h.toNat_size.trans length_fmtOf⟩
  have hrest := h.rest_payload
  rwa [fmtOf, List.append_assoc] at hrest

theorem riffBody_fmt (h : s.Ahead (fmtOf w extra) more) (hformat : w.format ≠ 0xfffe)
    (hsmall : (fmtOf w extra).payload.length < 2 ^ 31) :
    riffBody s = .next ((s.withFmt w).advance (fmtOf w extra).bytes.length) := by
  rcases riffBody_fmtOf h with ⟨hbody, hrest, hsize⟩
  rw [hbody, subChunk_fmt h.not_oversized,
    fmtChunk_plain hrest hsize (h.toNat_size ▸ hsmall) hformat, ← h.advance_size,
    RiffWalk.advance_toNat_eq]
  rfl

theorem riffBody_extensible_short (h : s.Ahead (fmtOf w extra) more)
    (hformat : w.format = 0xfffe) (hextra : extra.length < 12) :
    riffBody s = .brk { (s.withFmt w).advance 8 with
      wr := { s.wr.withFmt w with wav := s.wr.wav.advance 24 } } := by
  rcases riffBody_fmtOf h with ⟨hbody, hrest, hsize⟩
  rw [hbody, subChunk_fmt h.not_oversized, fmtChunk_extensible_short hrest hsize hextra hformat]
  rfl

theorem riffBody_extensible (h : s.Ahead (fmtOf w extra) more) (hformat : w.format = 0xfffe)
    (hextra : 12 ≤ extra.length) (hsmall : (fmtOf w extra).payload.length < 2 ^ 31) :
    ∃ format : ℤ, riffBody s = .next (RiffWalk.advance { s with
      wr := { s.wr.withFmt w with format := format } } (fmtOf w extra).bytes.length) := by
  rcases riffBody_fmtOf h with ⟨hbody, hrest, hsize⟩
  rcases fmtChunk_extensible hrest hsize (h.toNat_size ▸ hsmall) hextra hformat with
    ⟨format, hchunk⟩
  refine ⟨format, ?_⟩
  rw [hbody, subChunk_fmt h.not_oversized, hchunk, ← h.advance_size, RiffWalk.advance_toNat_eq]
  rfl

end

/-- How the inner loop ends. -/
abbrev InnerEnds (s : RiffWalk) (e : RiffWalk ⊕ WavReader) : Prop :=
  Ends (fun s => some (riffBody s)) s e

theorem InnerEnds.next {s s' : RiffWalk} {e : RiffWalk ⊕ WavReader}
    (h : riffBody s = .next s') (he : InnerEnds s' e) : InnerEnds s e :=
  Ends.next (congrArg some h) he

theorem innerEnds_brk {s s' : RiffWalk} (h : riffBody s = .brk s') : InnerEnds s (.inl s') :=
  ends_brk (congrArg some h)

theorem innerEnds_ret {s : RiffWalk} {wr : WavReader} (h : riffBody s = .ret wr) :
    InnerEnds s (.inr wr) :=
  ends_ret (congrArg some h)

/-- Fewer than 8 bytes are left to the seek behind the inner loop. -/
theorem ends_short {s : RiffWalk} (h : s.length.toNat < 8) : InnerEnds s (.inl s) := by
  apply innerEnds_brk
  apply riffBody_of_short
  exact UInt32.lt_iff_toNat_lt.mpr h

/-! ## RIFF chunks in the outer loop -/

section

variable {fuel : ℕ} {s : Walk} {id size : UInt32} {more : List UInt8}

/-- A round of the outer loop over a header. -/
theorem chunkBody_header (hrest : s.wr.wav.rest = header id size ++ more)
    (heof : s.wr.wav.eof = false) :
    chunkBody fuel s =
      chunk fuel { s with wr := { s.wr with wav := s.wr.wav.advance 8 } } id size := by
  unfold header at hrest
  rw [List.append_assoc] at hrest
  have htag := readTag_of_rest hrest
  have hsize := readInt32_of_rest (rest_advance_append _ hrest)
  simp only [length_fourcc, CFile.advance_advance] at hsize
  unfold chunkBody
  rw [htag]
  simp only [advance_eof, heof, Bool.false_eq_true, if_false]
  rw [hsize]

/-- The walk through a RIFF chunk, `length` bytes of which are left behind its form type. -/
def Walk.enter (s : Walk) (length : UInt32) : RiffWalk :=
  { s with
    wr := { s.wr with wav := s.wr.wav.advance 12 }
    length := length }

/-- The inner loop starts at the body of a 'WAVE' chunk. -/
theorem at_enter {body post : List UInt8}
    (hrest : s.wr.wav.rest = header (tag 'R' 'I' 'F' 'F') size ++
      (fourcc (tag 'W' 'A' 'V' 'E') ++ (body ++ post)))
    (heof : s.wr.wav.eof = false) (hsize : size.toNat = 4 + body.length) :
    (s.enter (size - 4)).At body post where
  rest := by
    have hbody := rest_advance_append _ (rest_advance_append _ hrest)
    rwa [length_header, length_fourcc, CFile.advance_advance] at hbody
  length := by
    have hle : (4 : UInt32) ≤ size := by
      rw [UInt32.le_iff_toNat_le, hsize]
      exact Nat.le_add_right 4 _
    show (size - 4).toNat = body.length
    rw [UInt32.toNat_sub_of_le _ _ hle, hsize]
    exact Nat.add_sub_cancel_left _ _
  eof := heof

/-- A 'WAVE' chunk whose length is known is walked through. -/
theorem chunkBody_wave
    (hrest : s.wr.wav.rest = header (tag 'R' 'I' 'F' 'F') size ++
      (fourcc (tag 'W' 'A' 'V' 'E') ++ more))
    (heof : s.wr.wav.eof = false) (hsize : 4 ≤ size.toNat) (hknown : size < 0x7fff0000) :
    chunkBody fuel s = riffChunk fuel (s.enter (size - 4)) := by
  have hform := rest_advance_append _ hrest
  rw [length_header] at hform
  have htag := readTag_of_rest hform
  have hunknown : ¬ (size = 0 ∨ size ≥ 0x7fff0000) := by
    rintro (rfl | hlarge)
    · exact absurd hsize (by decide)
    · exact absurd hknown (UInt32.not_lt.mpr hlarge)
  have hshort : ¬ size < 4 := by
    rw [UInt32.lt_iff_toNat_lt]
    exact Nat.not_lt.mpr hsize
  rw [chunkBody_header hrest heof]
  simp only [chunk, decide_eq_false hunknown, Bool.or_false, htag, ne_eq, not_true_eq_false,
    false_or, Bool.false_eq_true, if_false, if_neg hshort, CFile.advance_advance]
  rfl

/-- One whose length is not known makes the reader a streamed one. -/
theorem chunkBody_wave_streamed
    (hrest : s.wr.wav.rest = header (tag 'R' 'I' 'F' 'F') size ++
      (fourcc (tag 'W' 'A' 'V' 'E') ++ more))
    (heof : s.wr.wav.eof = false) (hunknown : size = 0 ∨ size ≥ 0x7fff0000) :
    chunkBody fuel s = riffChunk fuel
      (Walk.enter { s with wr := { s.wr with streamed := true } } (0xffffffff - 4)) := by
  have hform := rest_advance_append _ hrest
  rw [length_header] at hform
  have htag := readTag_of_rest hform
  have hshort : ¬ (0xffffffff : UInt32) < 4 := by decide
  rw [chunkBody_header hrest heof]
  simp only [chunk, decide_eq_true hunknown, Bool.or_true, htag, ne_eq, not_true_eq_false,
    false_or, if_true, if_neg hshort, if_false, CFile.advance_advance]
  rfl

end

/-! ## Files of one RIFF chunk -/

/-- The outer walk behind the common seek by the remaining length. -/
def RiffWalk.leave (t : RiffWalk) : Walk :=
  { t.toWalk with
    wr := { t.wr with wav :=
      if t.length > 0 then t.wr.wav.fseekCur t.length.toNat else t.wr.wav } }

theorem leave_pos (t : RiffWalk) : t.leave.wr.wav.pos = t.wr.wav.pos + t.length.toNat := by
  unfold RiffWalk.leave
  by_cases hleft : t.length > 0
  · simp only [if_pos hleft]
    rfl
  · have hzero : t.length.toNat = 0 := by
      rw [gt_iff_lt, UInt32.lt_iff_toNat_lt] at hleft
      exact Nat.eq_zero_of_not_pos hleft
    simp only [if_neg hleft, hzero, Nat.add_zero]

theorem leave_contents (t : RiffWalk) : t.leave.wr.wav.contents = t.wr.wav.contents := by
  unfold RiffWalk.leave
  simp only
  split_ifs
  · rfl
  · rfl

/-- How the inner loop ends decides how a RIFF chunk is left. -/
theorem riffChunk_of_brk {fuel : ℕ} {s t : RiffWalk} (hfuel : remaining s.wr.wav < fuel)
    (h : InnerEnds s (.inl t)) : riffChunk fuel s = some (.next t.leave) := by
  unfold riffChunk RiffWalk.leave
  rw [h.iterate_eq (inner_isSome s hfuel)]
  simp only
  split_ifs
  · rfl
  · rfl

theorem riffChunk_of_ret {fuel : ℕ} {s : RiffWalk} {wr : WavReader}
    (hfuel : remaining s.wr.wav < fuel) (h : InnerEnds s (.inr wr)) :
    riffChunk fuel s = some (.ret wr) := by
  unfold riffChunk
  rw [h.iterate_eq (inner_isSome s hfuel)]

/-- A round of the outer loop that finds less than a tag. -/
theorem chunkBody_short {fuel : ℕ} {s : Walk} (h : s.wr.wav.rest.length < 4) :
    chunkBody fuel s = some (.brk { s with wr := { s.wr with wav := (readTag s.wr.wav).2 } }) := by
  have heof : (readTag s.wr.wav).2.eof = true := by
    rw [readTag_snd]
    exact discard_of_rest_lt h
  unfold chunkBody
  simp only [heof, if_true]

/-- A round of the outer loop that starts behind the last byte. -/
theorem chunkBody_eof {fuel : ℕ} {s : Walk} (h : s.wr.wav.contents.length ≤ s.wr.wav.pos) :
    chunkBody fuel s = some (.brk { s with wr := { s.wr with wav := (readTag s.wr.wav).2 } }) := by
  have hnone : s.wr.wav.rest = [] := List.drop_of_length_le h
  apply chunkBody_short
  rw [hnone]
  exact Nat.zero_lt_succ 3

theorem wavReadOpen_of_ends {contents : List UInt8} {e : Walk ⊕ WavReader}
    (h : Ends (chunkBody (enoughFuel contents)) ⟨fresh (fopen contents), 0⟩ e) :
    wavReadOpen (some contents) = some (match e with
      | .inl s => { s.wr with wav := s.wr.wav.fseekSet s.dataPos }
      | .inr wr => wr) := by
  simp only [wavReadOpen]
  rw [h.iterate_eq (outer_isSome contents)]
  cases e <;> rfl

section

variable {contents : List UInt8} {s t : RiffWalk}

/-- A file of one RIFF chunk, the walk through which ends at the end of the file. -/
theorem wavReadOpen_of_brk
    (hround : ∀ fuel, chunkBody fuel ⟨fresh (fopen contents), 0⟩ = riffChunk fuel s)
    (hcontents : s.wr.wav.contents = contents) (h : InnerEnds s (.inl t))
    (hend : contents.length ≤ t.wr.wav.pos + t.length.toNat) :
    wavReadOpen (some contents) = some { t.wr with wav := ⟨contents, t.dataPos, false⟩ } := by
  have hchunk := riffChunk_of_brk (remaining_lt_enoughFuel hcontents) h
  rw [← hround] at hchunk
  have hsame : t.wr.wav.contents = contents := by
    rcases h with ⟨fuel, hfuel⟩
    rw [(inner_forward hfuel).contents, hcontents]
  have hend' : t.leave.wr.wav.contents.length ≤ t.leave.wr.wav.pos := by
    rw [leave_contents, leave_pos, hsame]
    exact hend
  have hcontents' : (readTag t.leave.wr.wav).2.contents = contents := by
    rw [(forward_readTag _).contents, leave_contents, hsame]
  rw [wavReadOpen_of_ends (Ends.next hchunk (ends_brk (chunkBody_eof hend')))]
  simp only [fseekSet, hcontents']
  rfl

/-- A file of one RIFF chunk, the walk through which returns. -/
theorem wavReadOpen_of_ret {wr : WavReader}
    (hround : ∀ fuel, chunkBody fuel ⟨fresh (fopen contents), 0⟩ = riffChunk fuel s)
    (hcontents : s.wr.wav.contents = contents) (h : InnerEnds s (.inr wr)) :
    wavReadOpen (some contents) = some wr := by
  have hchunk := riffChunk_of_ret (remaining_lt_enoughFuel hcontents) h
  rw [← hround] at hchunk
  exact wavReadOpen_of_ends (ends_ret hchunk)

end

end WavReader

end AudioProc
