import AudioProc.OutFile
import AudioProc.RiffWalk

/-!
# wavwriter

The WAV writer of `wavwriter.c`. `wav_write_open` writes a header for no data, every
`wav_write_data` appends to the file, and `wav_write_close` goes back and writes the header
once more, now with the length of the data. `int` arithmetic wraps here; in C it must not
overflow.

`headerBytes` is what `write_header` writes, as a RIFF header, and `contents_written` and
`contents_closed` are the files left before and after `wav_write_close`.
-/

namespace AudioProc

open Riff LittleEndian OutFile WavReader

/-- `struct wav_writer` -/
structure WavWriter where
  wav : OutFile
  dataLength : Int32
  sampleRate : Int32
  bitsPerSample : Int32
  channels : Int32
deriving DecidableEq

namespace WavWriter

/-- `write_string` -/
def writeString (f : OutFile) (a b c d : Char) : OutFile :=
  let f := f.fputc a.toNat
  let f := f.fputc b.toNat
  let f := f.fputc c.toNat
  f.fputc d.toNat

/-- `write_int32` -/
def writeInt32 (f : OutFile) (value : Int32) : OutFile :=
  let f := f.fputc ((value >>> 0) &&& 0xff).toInt
  let f := f.fputc ((value >>> 8) &&& 0xff).toInt
  let f := f.fputc ((value >>> 16) &&& 0xff).toInt
  f.fputc ((value >>> 24) &&& 0xff).toInt

/-- `write_int16` -/
def writeInt16 (f : OutFile) (value : Int32) : OutFile :=
  let f := f.fputc ((value >>> 0) &&& 0xff).toInt
  f.fputc ((value >>> 8) &&& 0xff).toInt

/-- `write_header` -/
def writeHeader (ww : WavWriter) (length : Int32) : WavWriter :=
  let f := writeString ww.wav 'R' 'I' 'F' 'F'
  let f := writeInt32 f (4 + 8 + 16 + 8 + length)
  let f := writeString f 'W' 'A' 'V' 'E'
  let f := writeString f 'f' 'm' 't' ' '
  let f := writeInt32 f 16
  let bytesPerFrame := ww.bitsPerSample / 8 * ww.channels
  let bytesPerSec := bytesPerFrame * ww.sampleRate
  let f := writeInt16 f 1
  let f := writeInt16 f ww.channels
  let f := writeInt32 f ww.sampleRate
  let f := writeInt32 f bytesPerSec
  let f := writeInt16 f bytesPerFrame
  let f := writeInt16 f ww.bitsPerSample
  let f := writeString f 'd' 'a' 't' 'a'
  let f := writeInt32 f length
  { ww with wav := f }

/-- `wav_write_open`, given what `fopen` returns. -/
def wavWriteOpen (wav : Option OutFile) (sampleRate bitsPerSample channels : Int32) :
    Option WavWriter :=
  match wav with
  | none => none
  | some f =>
    let ww : WavWriter :=
      { wav := f
        dataLength := 0
        sampleRate := sampleRate
        bitsPerSample := bitsPerSample
        channels := channels }
    some (writeHeader ww ww.dataLength)

/-- `wav_write_close`: the file it leaves. -/
def wavWriteClose (ww : WavWriter) : OutFile :=
  (writeHeader { ww with wav := ww.wav.fseekSet 0 } ww.dataLength).wav

/-- `wav_write_data` -/
def wavWriteData (ww : WavWriter) (data : List UInt8) (length : Int32) : WavWriter :=
  { ww with
    wav := ww.wav.fwrite (data.take length.toInt.toNat)
    dataLength := ww.dataLength + length }

/-- A sequence of calls of `wav_write_data`, each with a whole buffer. -/
def writeAll (ww : WavWriter) (buffers : List (List UInt8)) : WavWriter :=
  buffers.foldl (fun ww data => wavWriteData ww data (Int32.ofNat data.length)) ww

/-! ## What the primitives write -/

theorem writeString_eq (f : OutFile) (a b c d : Char) (id : UInt32)
    (h : [UInt8.ofInt a.toNat, UInt8.ofInt b.toNat, UInt8.ofInt c.toNat, UInt8.ofInt d.toNat] =
      fourcc id) : writeString f a b c d = f.fwrite (fourcc id) := by
  simp only [writeString, fputc, fwrite_fwrite, ← h]
  rfl

theorem writeInt32_eq (f : OutFile) (value : Int32) :
    writeInt32 f value = f.fwrite (int32 value.toUInt32) := by
  have h₀ := ofInt_shiftRight_and value 0 (n := 0) rfl (by decide)
  have h₁ := ofInt_shiftRight_and value 8 (n := 8) rfl (by decide)
  have h₂ := ofInt_shiftRight_and value 16 (n := 16) rfl (by decide)
  have h₃ := ofInt_shiftRight_and value 24 (n := 24) rfl (by decide)
  simp only [writeInt32, fputc, fwrite_fwrite, h₀, h₁, h₂, h₃]
  simp only [int32, toBytes, Nat.div_div_eq_div_mul, Nat.pow_zero, Nat.div_one, Nat.reducePow,
    Nat.reduceMul, List.cons_append, List.nil_append]

theorem writeInt16_eq (f : OutFile) (value : Int32) :
    writeInt16 f value = f.fwrite (int16 value.toUInt32.toUInt16) := by
  have h₀ := ofInt_shiftRight_and value 0 (n := 0) rfl (by decide)
  have h₁ := ofInt_shiftRight_and value 8 (n := 8) rfl (by decide)
  have hbytes : int16 value.toUInt32.toUInt16 = toBytes 2 value.toUInt32.toNat :=
    toBytes_mod 2 value.toUInt32.toNat
  rw [hbytes]
  simp only [writeInt16, fputc, fwrite_fwrite, h₀, h₁, toBytes, Nat.pow_zero, Nat.div_one,
    Nat.reducePow, List.cons_append, List.nil_append]

/-! ## Headers and files -/

/-- The fields of the header. -/
def fmtFields (ww : WavWriter) : FmtFields where
  format := 1
  channels := ww.channels.toUInt32.toUInt16
  sampleRate := ww.sampleRate.toUInt32
  byteRate := (ww.bitsPerSample / 8 * ww.channels * ww.sampleRate).toUInt32
  blockAlign := (ww.bitsPerSample / 8 * ww.channels).toUInt32.toUInt16
  bitsPerSample := ww.bitsPerSample.toUInt32.toUInt16

/-- A header that says that `length` bytes of data follow. -/
def headerBytes (ww : WavWriter) (length : Int32) : List UInt8 :=
  header (tag 'R' 'I' 'F' 'F') (36 + length).toUInt32 ++ (fourcc (tag 'W' 'A' 'V' 'E') ++
    ((fmtOf ww.fmtFields []).bytes ++ header (tag 'd' 'a' 't' 'a') length.toUInt32))

theorem length_headerBytes (ww : WavWriter) (length : Int32) :
    (headerBytes ww length).length = 44 := by
  simp only [headerBytes, List.length_append, length_header, length_fourcc, Chunk.length_bytes,
    length_fmtOf, List.length_nil]

theorem writeHeader_eq (ww : WavWriter) (length : Int32) :
    writeHeader ww length = { ww with wav := ww.wav.fwrite (headerBytes ww length) } := by
  have hriff := fun f => writeString_eq f 'R' 'I' 'F' 'F' (tag 'R' 'I' 'F' 'F') (by decide)
  have hwave := fun f => writeString_eq f 'W' 'A' 'V' 'E' (tag 'W' 'A' 'V' 'E') (by decide)
  have hfmt := fun f => writeString_eq f 'f' 'm' 't' ' ' (tag 'f' 'm' 't' ' ') (by decide)
  have hdata := fun f => writeString_eq f 'd' 'a' 't' 'a' (tag 'd' 'a' 't' 'a') (by decide)
  have hsize : (fmtOf ww.fmtFields []).size = 16 := by
    rw [Chunk.size, length_fmtOf]
    rfl
  have hchunk : (fmtOf ww.fmtFields []).bytes =
      fourcc (tag 'f' 'm' 't' ' ') ++ int32 16 ++ (ww.fmtFields.bytes ++ []) := by
    rw [Chunk.bytes, hsize]
    rfl
  rw [headerBytes, hchunk]
  simp only [writeHeader, hriff, hwave, hfmt, hdata, writeInt32_eq, writeInt16_eq, fwrite_fwrite,
    header, FmtFields.bytes, List.append_assoc, List.append_nil]
  rfl

/-- Calls of `wav_write_data` append to the file. -/
theorem writeAll_eq {ww : WavWriter} {buffers : List (List UInt8)}
    (hpos : ww.wav.pos = ww.wav.contents.length)
    (hsmall : ∀ data ∈ buffers, data.length < 2 ^ 31) :
    writeAll ww buffers = { ww with
      wav := ⟨ww.wav.contents ++ buffers.flatten, ww.wav.pos + buffers.flatten.length⟩
      dataLength := ww.dataLength + Int32.ofNat buffers.flatten.length } := by
  induction buffers generalizing ww with
  | nil => simp [writeAll]
  | cons data buffers ih =>
      have hlength : (Int32.ofNat data.length).toInt.toNat = data.length := by
        rw [Int32.toInt_ofNat_of_lt (hsmall data (by simp)), Int.toNat_natCast]
      have hdata : wavWriteData ww data (Int32.ofNat data.length) = { ww with
          wav := ⟨ww.wav.contents ++ data, ww.wav.pos + data.length⟩
          dataLength := ww.dataLength + Int32.ofNat data.length } := by
        rw [wavWriteData, hlength, List.take_length, fwrite_end hpos, hpos]
      have hrest := @ih (wavWriteData ww data (Int32.ofNat data.length))
        (by rw [hdata]; simp [hpos]) fun d hd => hsmall d (by simp [hd])
      show writeAll (wavWriteData ww data (Int32.ofNat data.length)) buffers = _
      rw [hrest, hdata]
      simp only [List.flatten_cons, List.append_assoc, List.length_append, Int32.ofNat_add,
        Nat.add_assoc, Int32.add_assoc]

/-- The writer before anything is written. -/
def fresh (sampleRate bitsPerSample channels : Int32) : WavWriter where
  wav := OutFile.fopen
  dataLength := 0
  sampleRate := sampleRate
  bitsPerSample := bitsPerSample
  channels := channels

section

variable {sampleRate bitsPerSample channels : Int32} {ww : WavWriter}
  {buffers : List (List UInt8)}

theorem wavWriteOpen_eq
    (h : wavWriteOpen (some OutFile.fopen) sampleRate bitsPerSample channels = some ww) :
    ww = { fresh sampleRate bitsPerSample channels with
      wav := ⟨headerBytes (fresh sampleRate bitsPerSample channels) 0, 44⟩ } := by
  have hww : writeHeader (fresh sampleRate bitsPerSample channels) 0 = ww := Option.some.inj h
  have hwav : (fresh sampleRate bitsPerSample channels).wav = OutFile.fopen := rfl
  rw [← hww, writeHeader_eq, hwav, fwrite_fopen, length_headerBytes]

theorem writeAll_of_open
    (h : wavWriteOpen (some OutFile.fopen) sampleRate bitsPerSample channels = some ww)
    (hsmall : ∀ data ∈ buffers, data.length < 2 ^ 31) :
    writeAll ww buffers = { fresh sampleRate bitsPerSample channels with
      wav := ⟨headerBytes (fresh sampleRate bitsPerSample channels) 0 ++ buffers.flatten,
        44 + buffers.flatten.length⟩
      dataLength := Int32.ofNat buffers.flatten.length } := by
  have hww := wavWriteOpen_eq h
  have hpos : ww.wav.pos = ww.wav.contents.length := by
    rw [hww, length_headerBytes]
  have hzero : (0 : Int32) + Int32.ofNat buffers.flatten.length =
      Int32.ofNat buffers.flatten.length := Int32.zero_add _
  rw [writeAll_eq hpos hsmall, hww]
  simp only [fresh, hzero]

/-- The file while it is written. -/
theorem contents_written
    (h : wavWriteOpen (some OutFile.fopen) sampleRate bitsPerSample channels = some ww)
    (hsmall : ∀ data ∈ buffers, data.length < 2 ^ 31) :
    (writeAll ww buffers).wav.contents =
      headerBytes (fresh sampleRate bitsPerSample channels) 0 ++ buffers.flatten := by
  rw [writeAll_of_open h hsmall]

/-- The file when it is finished. -/
theorem contents_closed
    (h : wavWriteOpen (some OutFile.fopen) sampleRate bitsPerSample channels = some ww)
    (hsmall : ∀ data ∈ buffers, data.length < 2 ^ 31) :
    (wavWriteClose (writeAll ww buffers)).contents =
      headerBytes (fresh sampleRate bitsPerSample channels)
        (Int32.ofNat buffers.flatten.length) ++ buffers.flatten := by
  rw [writeAll_of_open h hsmall, wavWriteClose, writeHeader_eq]
  simp only [fseekSet]
  rw [fwrite_start]
  · rfl
  · rw [length_headerBytes, length_headerBytes]

end

end WavWriter

end AudioProc
