import AudioProc.TrailingBytes

/-!
# Where the header and the data come from

What `wav_read_open` reports of a file, whatever the bytes of the file are, it has found
there: the fields of the header are those of a 'fmt ' sub-chunk behind the start of a RIFF
chunk of the form 'WAVE', and what is handed out begins right behind the header of a 'data'
sub-chunk of such a chunk. This is the converse of reading back what a well-formed file says.

The reader does not look whether a number it reads is still in the file. A number that is cut
off is filled up with bytes of value 255 (`padTo`), as `fgetc` yields -1 there.
-/

namespace AudioProc

open CFile Loop LittleEndian Riff WavReader

namespace CFile

/-! ## Reading past the end -/

/-- The first `n` bytes, filled up with 255 where there are fewer. -/
def padTo : ℕ → List UInt8 → List UInt8
  | 0, _ => []
  | n + 1, l => l.headD 255 :: padTo n l.tail

theorem padTo_add (m n : ℕ) (l : List UInt8) :
    padTo (m + n) l = padTo m l ++ padTo n (l.drop m) := by
  induction m generalizing l with
  | zero => rw [Nat.zero_add, List.drop_zero, padTo, List.nil_append]
  | succ m ih =>
      rw [Nat.succ_add, padTo, padTo, ih, List.drop_tail, List.cons_append]

theorem padTo_of_le {n : ℕ} {l : List UInt8} (h : n ≤ l.length) : padTo n l = l.take n := by
  induction n generalizing l with
  | zero => exact List.take_zero.symm
  | succ n ih =>
      cases l with
      | nil => exact absurd h (Nat.not_succ_le_zero n)
      | cons b l =>
          rw [padTo, List.tail_cons, ih (Nat.le_of_succ_le_succ h)]
          rfl

theorem rest_discard (n : ℕ) (f : CFile) : (discard n f).rest = f.rest.drop n := by
  induction n generalizing f with
  | zero => exact List.drop_zero.symm
  | succ n ih => rw [discard, ih, rest_fgetc, List.drop_drop, Nat.add_comm]

end CFile

namespace WavReader

theorem int16_half (b₀ b₁ : UInt8) :
    int16 (UInt16.ofInt b₀.toNat ||| (UInt16.ofInt b₁.toNat <<< 8)) = [b₀, b₁] := by
  rw [int16, half_eq]
  exact toBytes_ofBytes [b₀, b₁]

theorem int32_word (b₀ b₁ b₂ b₃ : UInt8) :
    int32 (UInt32.ofInt b₀.toNat ||| (UInt32.ofInt b₁.toNat <<< 8) |||
      (UInt32.ofInt b₂.toNat <<< 16) ||| (UInt32.ofInt b₃.toNat <<< 24)) = [b₀, b₁, b₂, b₃] := by
  rw [int32, word_eq]
  exact toBytes_ofBytes [b₀, b₁, b₂, b₃]

/-- At the end of the file, and from there on. -/
theorem fgetc_end {f : CFile} (h : f.rest = []) : f.fgetc.1 = -1 ∧ f.fgetc.2.rest = [] := by
  rw [fgetc_of_rest_nil h]
  exact ⟨rfl, h⟩

theorem readInt16_padTo (f : CFile) : int16 (readInt16 f).1 = padTo 2 f.rest := by
  rcases hrest : f.rest with _ | ⟨b₀, _ | ⟨b₁, more⟩⟩
  · rcases fgetc_end hrest with ⟨h₀, hrest₁⟩
    rcases fgetc_end hrest₁ with ⟨h₁, -⟩
    unfold readInt16
    simp only [h₀, h₁]
    decide
  · have hrest₁ : (f.advance 1).rest = [] := rest_advance_append [b₀] hrest
    rcases fgetc_end hrest₁ with ⟨h₁, -⟩
    unfold readInt16
    rw [fgetc_of_rest hrest]
    simp only [h₁]
    exact int16_half b₀ 255
  · rcases exists_int16 (show 2 ≤ (b₀ :: b₁ :: more).length by simp) with ⟨v, more', hv⟩
    rw [readInt16_of_rest (hrest.trans hv), hv, padTo_of_le (by simp)]
    exact (List.take_left' (length_int16 v)).symm

theorem readInt32_padTo (f : CFile) : int32 (readInt32 f).1 = padTo 4 f.rest := by
  rcases hrest : f.rest with _ | ⟨b₀, _ | ⟨b₁, _ | ⟨b₂, _ | ⟨b₃, more⟩⟩⟩⟩
  · rcases fgetc_end hrest with ⟨h₀, hrest₁⟩
    rcases fgetc_end hrest₁ with ⟨h₁, hrest₂⟩
    rcases fgetc_end hrest₂ with ⟨h₂, hrest₃⟩
    rcases fgetc_end hrest₃ with ⟨h₃, -⟩
    unfold readInt32
    simp only [h₀, h₁, h₂, h₃]
    decide
  · have hrest₁ : (f.advance 1).rest = [] := rest_advance_append [b₀] hrest
    rcases fgetc_end hrest₁ with ⟨h₁, hrest₂⟩
    rcases fgetc_end hrest₂ with ⟨h₂, hrest₃⟩
    rcases fgetc_end hrest₃ with ⟨h₃, -⟩
    unfold readInt32
    rw [fgetc_of_rest hrest]
    simp only [h₁, h₂, h₃]
    rw [padTo, ← List.singleton_append]
    have hword := int32_word b₀ 255 255 255
    rw [UInt32.or_assoc, UInt32.or_assoc] at hword ⊢
    exact hword
  · have hrest₂ : (f.advance 2).rest = [] := rest_advance_append [b₀, b₁] hrest
    rcases fgetc_end hrest₂ with ⟨h₂, hrest₃⟩
    rcases fgetc_end hrest₃ with ⟨h₃, -⟩
    have hrest₁ : (f.advance 1).rest = [b₁] := rest_advance_append [b₀] hrest
    unfold readInt32
    rw [fgetc_of_rest hrest]
    simp only
    rw [fgetc_of_rest hrest₁]
    simp only [advance_advance, h₂, h₃]
    have hword := int32_word b₀ b₁ 255 255
    rw [UInt32.or_assoc] at hword ⊢
    exact hword
  · have hrest₃ : (f.advance 3).rest = [] := rest_advance_append [b₀, b₁, b₂] hrest
    have hrest₁ : (f.advance 1).rest = [b₁, b₂] := rest_advance_append [b₀] hrest
    have hrest₂ : (f.advance 2).rest = [b₂] := rest_advance_append [b₀, b₁] hrest
    rcases fgetc_end hrest₃ with ⟨h₃, -⟩
    unfold readInt32
    rw [fgetc_of_rest hrest]
    simp only
    rw [fgetc_of_rest hrest₁]
    simp only [advance_advance]
    rw [fgetc_of_rest hrest₂]
    simp only [advance_advance, h₃]
    exact int32_word b₀ b₁ b₂ 255
  · rcases exists_int32 (show 4 ≤ (b₀ :: b₁ :: b₂ :: b₃ :: more).length by simp) with
      ⟨v, more', hv⟩
    rw [readInt32_of_rest (hrest.trans hv), hv, padTo_of_le (by simp)]
    exact (List.take_left' (length_int32 v)).symm

/-- A tag that is cut off is none of those the reader knows. -/
theorem readTag_of_cut {f : CFile} (h : f.rest.length < 4) : (readTag f).1 = 0xffffffff := by
  have hlast : f.fgetc.2.fgetc.2.fgetc.2.fgetc.1 = -1 := by
    apply (fgetc_end ?_).1
    rw [rest_fgetc, rest_fgetc, rest_fgetc, List.drop_drop, List.drop_drop]
    exact List.drop_of_length_le (Nat.le_of_lt_succ h)
  have hall : UInt32.ofInt (-1) = 0xffffffff := by decide
  unfold readTag
  simp only [hlast, hall]
  apply UInt32.toBitVec_inj.mp
  rw [UInt32.toBitVec_or]
  exact BitVec.or_allOnes

theorem readTag_whole {f : CFile} (h : 4 ≤ f.rest.length) :
    f.rest.take 4 = fourcc (readTag f).1 ∧ (readTag f).2 = f.advance 4 := by
  rcases exists_fourcc h with ⟨id, more, hid⟩
  rw [readTag_of_rest hid, hid]
  exact ⟨List.take_left' (length_fourcc id), rfl⟩

/-- A tag that is not all ones is in the file. -/
theorem readTag_eq {f : CFile} {id : UInt32} (hid : id ≠ 0xffffffff) (h : (readTag f).1 = id) :
    f.rest.take 4 = fourcc id ∧ (readTag f).2 = f.advance 4 := by
  rcases Nat.lt_or_ge f.rest.length 4 with hcut | hwhole
  · exact absurd (h.symm.trans (readTag_of_cut hcut)) hid
  · rw [← h]
    exact readTag_whole hwhole

/-- A number that is not huge is in the file. -/
theorem readInt32_eq {f : CFile} (h : (readInt32 f).1 < 0x7fff0000) :
    f.rest.take 4 = int32 (readInt32 f).1 ∧ (readInt32 f).2 = f.advance 4 := by
  rcases Nat.lt_or_ge f.rest.length 4 with hcut | hwhole
  · exact absurd h (UInt32.not_lt.mpr (readInt32_of_cut hcut))
  · rcases exists_int32 hwhole with ⟨v, more, hv⟩
    rw [readInt32_of_rest hv, hv]
    exact ⟨List.take_left' (length_int32 v), rfl⟩

/-! ## What is found in a file -/

/-- A RIFF chunk of the form 'WAVE' starts at `r`. -/
structure WaveAt (contents : List UInt8) (r : ℕ) : Prop where
  riff : (contents.drop r).take 4 = fourcc (tag 'R' 'I' 'F' 'F')
  wave : (contents.drop (r + 8)).take 4 = fourcc (tag 'W' 'A' 'V' 'E')

/-- A 'fmt ' sub-chunk of this size starts at `q`, with these fields; the number behind them is
the format of an extensible one. -/
structure FmtAt (contents : List UInt8) (q : ℕ) (size : UInt32) (w : FmtFields)
    (subformat : UInt32) : Prop where
  id : (contents.drop q).take 4 = fourcc (tag 'f' 'm' 't' ' ')
  size_eq : padTo 4 (contents.drop (q + 4)) = int32 size
  enough : 16 ≤ size
  fields_eq : padTo 16 (contents.drop (q + 8)) = w.bytes
  subformat_eq : padTo 4 (contents.drop (q + 32)) = int32 subformat

/-- The fields of the reader are those of such a sub-chunk. -/
structure Fills (wr : WavReader) (size : UInt32) (w : FmtFields) (subformat : UInt32) :
    Prop where
  format : wr.format =
    if w.format = 0xfffe ∧ 28 ≤ size then subformat.toInt32.toInt else w.format.toNat
  channels : wr.channels = w.channels.toNat
  sampleRate : wr.sampleRate = w.sampleRate.toInt32.toInt
  byteRate : wr.byteRate = w.byteRate.toInt32.toInt
  blockAlign : wr.blockAlign = w.blockAlign.toNat
  bitsPerSample : wr.bitsPerSample = w.bitsPerSample.toNat

/-- No 'fmt ' sub-chunk was read. -/
structure Blank (wr : WavReader) : Prop where
  format : wr.format = 0
  channels : wr.channels = 0
  sampleRate : wr.sampleRate = 0
  byteRate : wr.byteRate = 0
  blockAlign : wr.blockAlign = 0
  bitsPerSample : wr.bitsPerSample = 0

/-- The header of the reader is that of the file. -/
def HeaderOf (contents : List UInt8) (wr : WavReader) : Prop :=
  wr.Blank ∨ ∃ r q size w subformat, WaveAt contents r ∧ r + 12 ≤ q ∧
    FmtAt contents q size w subformat ∧ wr.Fills size w subformat

/-- The stream and the data are no part of the header. -/
theorem HeaderOf.keep {contents : List UInt8} {wr : WavReader} (h : HeaderOf contents wr)
    (f : CFile) (n : UInt32) (b : Bool) :
    HeaderOf contents { wr with
      wav := f
      dataLength := n
      streamed := b } := by
  rcases h with h | ⟨r, q, size, w, subformat, hwave, hq, hat, h⟩
  · exact Or.inl ⟨h.1, h.2, h.3, h.4, h.5, h.6⟩
  · exact Or.inr ⟨r, q, size, w, subformat, hwave, hq, hat, h.1, h.2, h.3, h.4, h.5, h.6⟩

/-- Position `p` is right behind the header of a 'data' sub-chunk, which says `length`. -/
def DataBefore (contents : List UInt8) (p : ℕ) (length : UInt32) : Prop :=
  ∃ r q, WaveAt contents r ∧ r + 12 ≤ q ∧ p = q + 8 ∧
    (contents.drop q).take 4 = fourcc (tag 'd' 'a' 't' 'a') ∧
    padTo 4 (contents.drop (q + 4)) = int32 length

/-- What both loops keep of a walk: the file, and what was noted of it. -/
structure Noted (contents : List UInt8) (s : Walk) : Prop where
  file : s.wr.wav.contents = contents
  header : HeaderOf contents s.wr
  data : (s.wr.dataLength = 0 ∧ s.dataPos = 0) ∨
    DataBefore contents s.dataPos s.wr.dataLength

/-- What the inner loop keeps: it is in a RIFF chunk that starts at `r`. -/
structure Inside (contents : List UInt8) (r : ℕ) (s : RiffWalk) : Prop where
  noted : Noted contents s.toWalk
  wave : WaveAt contents r
  behind : r + 12 ≤ s.wr.wav.pos
  known : s.wr.streamed = false → s.length < 0x7fff0000

/-- What a reader is like that is returned from inside the loops. -/
structure Returned (contents : List UInt8) (wr : WavReader) : Prop where
  header : HeaderOf contents wr
  streamed : wr.streamed = true
  data : ∃ p length, DataBefore contents p length ∧ wr.wav.rest = contents.drop p

/-! ## One sub-chunk -/

theorem fmtFields_padTo (wr : WavReader) :
    ∃ w f, fmtFields wr = { wr.withFmt w with wav := f } ∧ padTo 16 wr.wav.rest = w.bytes ∧
      f = discard 16 wr.wav := by
  refine ⟨⟨(readInt16 wr.wav).1, (readInt16 (discard 2 wr.wav)).1,
    (readInt32 (discard 4 wr.wav)).1, (readInt32 (discard 8 wr.wav)).1,
    (readInt16 (discard 12 wr.wav)).1, (readInt16 (discard 14 wr.wav)).1⟩,
    discard 16 wr.wav, ?_, ?_, rfl⟩
  · simp only [fmtFields, readInt16_snd, readInt32_snd, withFmt]
    rfl
  · simp only [FmtFields.bytes, readInt16_padTo, readInt32_padTo, rest_discard]
    show padTo (2 + (2 + (4 + (4 + (2 + 2))))) wr.wav.rest = _
    rw [padTo_add, padTo_add, padTo_add, padTo_add, padTo_add]
    simp only [List.drop_drop]

/-- The body of a 'fmt ' sub-chunk that starts at `q`. -/
theorem fmtChunk_origin {contents : List UInt8} {q : ℕ} {wr : WavReader} {size : UInt32}
    (hid : (contents.drop q).take 4 = fourcc (tag 'f' 'm' 't' ' '))
    (hsize : padTo 4 (contents.drop (q + 4)) = int32 size)
    (hrest : wr.wav.rest = contents.drop (q + 8)) (henough : ¬ size < 16) :
    ∃ w subformat, FmtAt contents q size w subformat ∧
      (fmtChunk wr size).2.Fills size w subformat := by
  rcases fmtFields_padTo wr with ⟨w, f, hfields, hbytes, hf⟩
  have hrest' : (skip f 8).rest = contents.drop (q + 32) := by
    have hskip : skip f 8 = discard 8 f := rfl
    rw [hskip, rest_discard, hf, rest_discard, hrest, List.drop_drop, List.drop_drop]
  have hat : FmtAt contents q size w (readInt32 (skip f 8)).1 := by
    refine ⟨hid, hsize, UInt32.not_lt.mp henough, ?_, ?_⟩
    · rw [← hrest]
      exact hbytes
    · rw [← hrest', readInt32_padTo]
  refine ⟨w, (readInt32 (skip f 8)).1, hat, ?_⟩
  have hformat := withFmt_format wr w
  simp only [fmtChunk, if_neg henough, hfields]
  by_cases hext : w.format = 0xfffe
  · rw [if_pos (hformat.mpr hext)]
    by_cases hshort : size < 28
    · -- the fields are read, the rest is not
      rw [if_pos hshort]
      refine ⟨?_, rfl, rfl, rfl, rfl, rfl⟩
      rw [if_neg (fun h => UInt32.not_lt.mpr h.2 hshort)]
      rfl
    · rw [if_neg hshort]
      refine ⟨?_, rfl, rfl, rfl, rfl, rfl⟩
      rw [if_pos ⟨hext, UInt32.not_lt.mp hshort⟩]
  · rw [if_neg (fun h => hext (hformat.mp h))]
    refine ⟨?_, rfl, rfl, rfl, rfl, rfl⟩
    rw [if_neg (fun h => hext h.1)]
    rfl

theorem fmtChunk_dataLength (wr : WavReader) (size : UInt32) :
    (fmtChunk wr size).2.dataLength = wr.dataLength ∧
      (fmtChunk wr size).2.streamed = wr.streamed := by
  rcases fmtFields_padTo wr with ⟨w, f, hfields, -, -⟩
  simp only [fmtChunk, hfields]
  split_ifs
  · exact ⟨rfl, rfl⟩
  · exact ⟨rfl, rfl⟩
  · exact ⟨rfl, rfl⟩
  · exact ⟨rfl, rfl⟩

/-- Where a round of the inner loop leads to. -/
def Leads (contents : List UInt8) (r : ℕ) : Flow RiffWalk WavReader → Prop
  | .next t => Inside contents r t
  | .brk t => Noted contents t.toWalk
  | .ret wr => Returned contents wr

/-- A sub-chunk that starts at `q` in a RIFF chunk that starts at `r`. -/
theorem subChunk_origin {contents : List UInt8} {r q : ℕ} {s : RiffWalk} {id size : UInt32}
    (hs : Inside contents r s) (hq : r + 12 ≤ q)
    (hid : (contents.drop q).take 4 = fourcc id)
    (hsize : padTo 4 (contents.drop (q + 4)) = int32 size)
    (hrest : s.wr.wav.rest = contents.drop (q + 8))
    (hpos : size < 0x7fff0000 → s.wr.wav.pos = q + 8) :
    Leads contents r (subChunk s id size) := by
  rcases hs with ⟨hnoted, hwave, hbehind, hknown⟩
  by_cases hlong : s.length < size
  · rw [subChunk, if_pos hlong]
    exact hnoted
  have hle : size ≤ s.length := UInt32.not_lt.mp hlong
  have hless : s.length - size ≤ s.length := by
    rw [UInt32.le_iff_toNat_le, UInt32.toNat_sub_of_le _ _ hle]
    exact Nat.sub_le _ _
  have hknown' : s.wr.streamed = false → s.length - size < 0x7fff0000 := fun h =>
    UInt32.lt_of_le_of_lt hless (hknown h)
  by_cases hfmt : id = tag 'f' 'm' 't' ' '
  · -- the fields are those of this sub-chunk, whether it is long enough or not
    rw [hfmt] at hid
    rcases fmtChunk_dataLength s.wr size with ⟨hlength, hstreamed⟩
    have hforward := forward_fmtChunk s.wr size
    have hnoted' : Noted contents { s.toWalk with wr := (fmtChunk s.wr size).2 } := by
      refine ⟨hforward.contents.trans hnoted.file, ?_, ?_⟩
      · by_cases hshort : size < 16
        · rw [fmtChunk, if_pos hshort]
          exact hnoted.header
        · rcases fmtChunk_origin hid hsize hrest hshort with ⟨w, subformat, hat, hfills⟩
          exact Or.inr ⟨r, q, size, w, subformat, hwave, hq, hat, hfills⟩
      · show ((fmtChunk s.wr size).2.dataLength = 0 ∧ _) ∨
          DataBefore contents _ (fmtChunk s.wr size).2.dataLength
        rw [hlength]
        exact hnoted.data
    rw [subChunk, if_neg hlong, if_pos hfmt]
    cases henough : (fmtChunk s.wr size).1 with
    | true =>
        simp only [henough, if_true]
        refine ⟨hnoted', hwave, hbehind.trans hforward.pos_le, ?_⟩
        intro h
        exact hknown' (hstreamed ▸ h)
    | false =>
        simp only [henough, Bool.false_eq_true, if_false]
        exact hnoted'
  by_cases hdata : id = tag 'd' 'a' 't' 'a'
  · rw [hdata] at hid
    have hbefore : DataBefore contents (q + 8) size := ⟨r, q, hwave, hq, rfl, hid, hsize⟩
    rw [subChunk, if_neg hlong, if_neg hfmt, if_pos hdata]
    by_cases hreturn : size = 0 ∨ s.wr.streamed = true
    · simp only [if_pos hreturn]
      exact ⟨hnoted.header.keep _ _ _, rfl, q + 8, size, hbefore, hrest⟩
    · -- a size below that of the RIFF chunk is in the file
      have hplain : s.wr.streamed = false := Bool.eq_false_iff.mpr fun h => hreturn (Or.inr h)
      have hat := hpos (UInt32.lt_of_le_of_lt hle (hknown hplain))
      simp only [if_neg hreturn]
      refine ⟨⟨hnoted.file, hnoted.header.keep _ _ _, Or.inr ?_⟩, hwave, ?_, fun _ => hknown' hplain⟩
      · show DataBefore contents s.wr.wav.pos size
        rw [hat]
        exact hbefore
      · exact hbehind.trans (Nat.le_add_right _ _)
  · rw [subChunk, if_neg hlong, if_neg hfmt, if_neg hdata]
    have hforward := forward_skip s.wr.wav size
    exact ⟨⟨hforward.contents.trans hnoted.file, hnoted.header.keep _ _ _, hnoted.data⟩, hwave,
      hbehind.trans hforward.pos_le, hknown'⟩

/-! ## Rounds of both loops -/

theorem Noted.move {contents : List UInt8} {s : Walk} (h : Noted contents s) {f : CFile}
    (hf : Forward s.wr.wav f) (b : Bool) :
    Noted contents { s with wr := { s.wr with
      wav := f
      streamed := b } } :=
  ⟨hf.contents.trans h.file, h.header.keep _ _ _, h.data⟩

/-- A tag and the number behind it, where the tag is in the file. -/
theorem header_origin {contents : List UInt8} {f : CFile} (hf : f.contents = contents)
    (heof : (readTag f).2.eof = false) :
    (contents.drop f.pos).take 4 = fourcc (readTag f).1 ∧
    padTo 4 (contents.drop (f.pos + 4)) = int32 (readInt32 (readTag f).2).1 ∧
    (readInt32 (readTag f).2).2.rest = contents.drop (f.pos + 8) ∧
    ((readInt32 (readTag f).2).1 < 0x7fff0000 → f.pos + 8 ≤ contents.length) ∧
    (f.pos + 8 ≤ contents.length → (readInt32 (readTag f).2).2.pos = f.pos + 8) := by
  have hrest : f.rest = contents.drop f.pos := by
    rw [rest, hf]
  have hwhole : 4 ≤ f.rest.length := by
    rw [readTag_snd] at heof
    have hinside := (discard_of_not_eof (by decide) heof).2
    rw [rest, List.length_drop]
    omega
  rcases readTag_whole hwhole with ⟨htag, hadvance⟩
  have hrest' : (readTag f).2.rest = contents.drop (f.pos + 4) := by
    rw [hadvance, rest_advance, hrest, List.drop_drop]
  refine ⟨?_, ?_, ?_, ?_, ?_⟩
  · rw [← hrest]
    exact htag
  · rw [← hrest', readInt32_padTo]
  · rw [readInt32_snd, rest_discard, hrest', List.drop_drop]
  · intro hsmall
    have hlength := congrArg List.length (readInt32_eq hsmall).1
    rw [hrest', length_int32, List.length_take, List.length_drop] at hlength
    omega
  · intro hinside
    have hlength : 4 ≤ (readTag f).2.rest.length := by
      rw [hrest', List.length_drop]
      omega
    rw [readInt32_snd, discard_eq_advance hlength, hadvance]
    rfl

theorem riffBody_origin {contents : List UInt8} {r : ℕ} {s : RiffWalk}
    (hs : Inside contents r s) : Leads contents r (riffBody s) := by
  by_cases hshort : s.length < 8
  · rw [riffBody_of_short hshort]
    exact hs.noted
  have htag := forward_readTag s.wr.wav
  have hheader := htag.trans (forward_readInt32 (readTag s.wr.wav).2)
  cases heof : (readTag s.wr.wav).2.eof with
  | true =>
      rw [riffBody_of_eof hshort heof]
      exact hs.noted.move htag s.wr.streamed
  | false =>
      rcases header_origin hs.noted.file heof with ⟨hid, hsize, hrest, hinside, hpos⟩
      rw [riffBody_of_header hshort heof]
      have hless : s.length - 8 ≤ s.length := by
        rw [UInt32.le_iff_toNat_le, UInt32.toNat_sub_of_le _ _ (UInt32.not_lt.mp hshort)]
        exact Nat.sub_le _ _
      have hafter : Inside contents r (afterHeader s) :=
        ⟨hs.noted.move hheader s.wr.streamed, hs.wave, hs.behind.trans hheader.pos_le,
          fun h => UInt32.lt_of_le_of_lt hless (hs.known h)⟩
      exact subChunk_origin hafter hs.behind hid hsize hrest fun h => hpos (hinside h)

/-- Where a round of the outer loop leads to. -/
def LeadsOut (contents : List UInt8) : Option (Flow Walk WavReader) → Prop
  | none => True
  | some (.next t) => Noted contents t
  | some (.brk t) => Noted contents t
  | some (.ret wr) => Returned contents wr

theorem riffChunk_origin {contents : List UInt8} {r fuel : ℕ} {s : RiffWalk}
    (hs : Inside contents r s) : LeadsOut contents (riffChunk fuel s) := by
  have hloop : ∀ e, iterate (fun s => some (riffBody s)) fuel s = some e →
      (∀ t, e = .inl t → Noted contents t.toWalk) ∧ ∀ wr, e = .inr wr → Returned contents wr := by
    intro e he
    refine iterate_rule (Inside contents r) (fun e => (∀ t, e = .inl t → Noted contents t.toWalk) ∧
      ∀ wr, e = .inr wr → Returned contents wr) ?_ ?_ ?_ hs he
    · intro t t' ht hnext
      have hleads := riffBody_origin ht
      rw [Option.some.inj hnext] at hleads
      exact hleads
    · intro t t' ht hbrk
      have hleads := riffBody_origin ht
      rw [Option.some.inj hbrk] at hleads
      refine ⟨fun u hu => ?_, fun wr hwr => absurd hwr (by simp)⟩
      rw [← Sum.inl.inj hu]
      exact hleads
    · intro t wr ht hret
      have hleads := riffBody_origin ht
      rw [Option.some.inj hret] at hleads
      refine ⟨fun u hu => absurd hu (by simp), fun wr' hwr' => ?_⟩
      rw [← Sum.inr.inj hwr']
      exact hleads
  unfold riffChunk
  cases he : iterate (fun s => some (riffBody s)) fuel s with
  | none => exact trivial
  | some e =>
      rcases hloop e he with ⟨hbreak, hreturn⟩
      cases e with
      | inr wr => exact hreturn wr rfl
      | inl t =>
          simp only
          split_ifs
          · exact (hbreak t rfl).move (forward_fseekCur _ _) t.wr.streamed
          · exact hbreak t rfl

/-- A chunk that starts at `r`. -/
theorem chunk_origin {contents : List UInt8} {r fuel : ℕ} {s : Walk} {id length : UInt32}
    (hs : Noted contents s) (hid : (contents.drop r).take 4 = fourcc id)
    (hrest : s.wr.wav.rest = contents.drop (r + 8))
    (hpos : r + 8 ≤ contents.length → s.wr.wav.pos = r + 8) :
    LeadsOut contents (chunk fuel s id length) := by
  have htag := forward_readTag s.wr.wav
  have hknown : ∀ len, (if decide (length = 0 ∨ length ≥ 0x7fff0000) then 0xffffffff else length) =
      len → decide (length = 0 ∨ length ≥ 0x7fff0000) = false → len < 0x7fff0000 := by
    intro len hlen hunknown
    rw [hunknown, if_neg Bool.false_ne_true] at hlen
    rw [← hlen]
    exact UInt32.not_le.mp fun h => of_decide_eq_false hunknown (Or.inr h)
  simp only [chunk]
  generalize hlen :
    (if decide (length = 0 ∨ length ≥ 0x7fff0000) then 0xffffffff else length) = len
  split_ifs with hother hform
  · exact hs.move (forward_fseekCur _ _) _
  · exact hs.move (htag.trans (forward_fseekCur _ _)) _
  · -- a form type that is read is in the file, and so is the length in front of it
    rcases not_or.mp hother with ⟨hriff, hshort⟩
    rw [not_not.mp hriff] at hid
    rcases readTag_eq (by decide) (not_not.mp hform) with ⟨hwave, hadvance⟩
    rw [hrest] at hwave
    have hinside : r + 12 ≤ contents.length := by
      have hlength := congrArg List.length hwave
      rw [length_fourcc, List.length_take, List.length_drop] at hlength
      omega
    apply riffChunk_origin (r := r)
    refine ⟨hs.move htag _, ⟨hid, hwave⟩, ?_, ?_⟩
    · show r + 12 ≤ (readTag s.wr.wav).2.pos
      rw [hadvance, advance_pos, hpos (by omega)]
    · intro hstreamed
      have hless : len - 4 ≤ len := by
        rw [UInt32.le_iff_toNat_le, UInt32.toNat_sub_of_le _ _ (UInt32.not_lt.mp hshort)]
        exact Nat.sub_le _ _
      exact UInt32.lt_of_le_of_lt hless (hknown len hlen (Bool.or_eq_false_iff.mp hstreamed).2)

theorem chunkBody_origin (fuel : ℕ) {contents : List UInt8} {s : Walk} (hs : Noted contents s) :
    LeadsOut contents (chunkBody fuel s) := by
  have htag := forward_readTag s.wr.wav
  have hheader := htag.trans (forward_readInt32 (readTag s.wr.wav).2)
  unfold chunkBody
  cases heof : (readTag s.wr.wav).2.eof with
  | true =>
      simp only [heof, if_true]
      exact hs.move htag s.wr.streamed
  | false =>
      simp only [heof, Bool.false_eq_true, if_false]
      rcases header_origin hs.file heof with ⟨hid, -, hrest, -, hpos⟩
      exact chunk_origin (hs.move hheader s.wr.streamed) hid hrest hpos

/-! ## The reader of a file -/

theorem noted_start (contents : List UInt8) : Noted contents ⟨fresh (fopen contents), 0⟩ :=
  ⟨rfl, Or.inl ⟨rfl, rfl, rfl, rfl, rfl, rfl⟩, Or.inl ⟨rfl, rfl⟩⟩

/-- Where the walk through the whole file leads to. -/
theorem walk_origin {contents : List UInt8} {fuel fuel' : ℕ} {e : Walk ⊕ WavReader}
    (he : iterate (chunkBody fuel) fuel' ⟨fresh (fopen contents), 0⟩ = some e) :
    (∀ s, e = .inl s → Noted contents s) ∧ ∀ wr, e = .inr wr → Returned contents wr := by
  refine iterate_rule (Noted contents) (fun e => (∀ s, e = .inl s → Noted contents s) ∧
    ∀ wr, e = .inr wr → Returned contents wr) ?_ ?_ ?_ (noted_start contents) he
  · intro s s' hs hnext
    have hleads := chunkBody_origin fuel hs
    rw [hnext] at hleads
    exact hleads
  · intro s s' hs hbrk
    have hleads := chunkBody_origin fuel hs
    rw [hbrk] at hleads
    refine ⟨fun t ht => ?_, fun wr hwr => absurd hwr (by simp)⟩
    rw [← Sum.inl.inj ht]
    exact hleads
  · intro s wr hs hret
    have hleads := chunkBody_origin fuel hs
    rw [hret] at hleads
    refine ⟨fun t ht => absurd ht (by simp), fun wr' hwr' => ?_⟩
    rw [← Sum.inr.inj hwr']
    exact hleads

theorem wavReadOpen_header {contents : List UInt8} {wr : WavReader}
    (hopen : wavReadOpen (some contents) = some wr) : HeaderOf contents wr := by
  rcases Option.isSome_iff_exists.mp (outer_isSome contents) with ⟨e, he⟩
  rcases walk_origin he with ⟨hbreak, hreturn⟩
  simp only [wavReadOpen, he] at hopen
  cases e with
  | inr r =>
      rw [← Option.some.inj hopen]
      exact (hreturn r rfl).header
  | inl s =>
      rw [← Option.some.inj hopen]
      exact (hbreak s rfl).header.keep _ s.wr.dataLength s.wr.streamed

/-- What is handed out comes from behind the header of a 'data' sub-chunk, or none was found. -/
def PayloadOf (contents : List UInt8) (wr : WavReader) : Prop :=
  (∃ p length, DataBefore contents p length ∧
    ((wr.streamed = true ∧ wr.payload = contents.drop p) ∨
      (wr.streamed = false ∧ wr.dataLength = length ∧
        wr.payload = (contents.drop p).take length.toNat))) ∨
  wr.payload = if wr.streamed then contents else []

theorem wavReadOpen_payload {contents : List UInt8} {wr : WavReader}
    (hopen : wavReadOpen (some contents) = some wr) : PayloadOf contents wr := by
  rcases Option.isSome_iff_exists.mp (outer_isSome contents) with ⟨e, he⟩
  rcases walk_origin he with ⟨hbreak, hreturn⟩
  simp only [wavReadOpen, he] at hopen
  cases e with
  | inr r =>
      rcases hreturn r rfl with ⟨-, hstreamed, p, length, hdata, hrest⟩
      rw [← Option.some.inj hopen]
      refine Or.inl ⟨p, length, hdata, Or.inl ⟨hstreamed, ?_⟩⟩
      rw [payload, if_pos hstreamed]
      exact hrest
  | inl s =>
      rcases hbreak s rfl with ⟨hfile, -, hdata⟩
      rw [← Option.some.inj hopen]
      have hrest : (s.wr.wav.fseekSet s.dataPos).rest = contents.drop s.dataPos := by
        rw [rest]
        show s.wr.wav.contents.drop s.dataPos = _
        rw [hfile]
      rcases hdata with ⟨hlength, hpos⟩ | hbefore
      · -- the position of the data is still the start of the file
        right
        rw [payload]
        show (if s.wr.streamed then (s.wr.wav.fseekSet s.dataPos).rest
          else (s.wr.wav.fseekSet s.dataPos).rest.take s.wr.dataLength.toNat) = _
        rw [hrest, hlength, hpos]
        rfl
      · left
        refine ⟨s.dataPos, s.wr.dataLength, hbefore, ?_⟩
        simp only [payload, hrest]
        cases hstreamed : s.wr.streamed with
        | true => exact Or.inl ⟨rfl, rfl⟩
        | false => exact Or.inr ⟨rfl, trivial, rfl⟩

/-- **What a reader reports is in the file.** Whatever the bytes of a file are: the header of
the reader is blank, or its fields are those of a 'fmt ' sub-chunk behind the start of a 'WAVE'
chunk. What it hands out starts right behind the header of a 'data' sub-chunk of such a chunk,
and has at most the length this header says unless the reader is a streamed one; or no 'data'
sub-chunk was found, and it hands out nothing, or the whole file if it is a streamed one. -/
theorem reader_origin {contents : List UInt8} {wr : WavReader}
    (hopen : wavReadOpen (some contents) = some wr) :
    HeaderOf contents wr ∧ PayloadOf contents wr :=
  ⟨wavReadOpen_header hopen, wavReadOpen_payload hopen⟩

theorem HeaderOf.channels_bounds {contents : List UInt8} {wr : WavReader}
    (h : HeaderOf contents wr) : 0 ≤ wr.channels ∧ wr.channels < 65536 := by
  rcases h with h | ⟨_, _, _, w, _, _, _, _, h⟩
  · rw [h.channels]
    decide
  · have hlt := w.channels.toNat_lt
    rw [h.channels]
    constructor
    · exact Int.natCast_nonneg _
    · omega

/-- A streamed file that ends within the size of its 'fmt ' sub-chunk. -/
def cutFile : List UInt8 :=
  [82, 73, 70, 70, 0, 0, 0, 0, 87, 65, 86, 69, 102, 109, 116, 32, 16, 0, 0]

/-- Its reader has fields that are not in the file any more. -/
def cutReader : WavReader where
  wav := fopen cutFile
  dataLength := 0
  format := 65535
  sampleRate := -1
  bitsPerSample := 65535
  channels := 65535
  byteRate := -1
  blockAlign := 65535
  streamed := true

theorem reader_origin_cut : HeaderOf cutFile cutReader :=
  (reader_origin (show wavReadOpen (some cutFile) = some cutReader by decide +kernel)).1

end WavReader

end AudioProc
