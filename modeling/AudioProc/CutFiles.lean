import AudioProc.HeaderOrigin

/-!
# Files that are cut off

What a WAVE file is read as when only its first bytes are there, as of a copy that broke off or
a disk that was full. The reader does not look whether a chunk is still in the file: it seeks
behind the end, finds nothing there and stops. So the data that is there is handed out, whatever
the header says of its length, and a file cut off before its data hands out nothing.

Only within the length of the RIFF chunk a cut does harm. The missing bytes make it a huge
length, the reader becomes a streamed one, and it hands out the bytes of the header itself.

* `CutAt` is where the inner loop stands in a file that is cut off, `StopsWith` how it ends there;
* `stops_before`, `stops_fmt`, `stops_data` for the kinds of chunk that are cut through;
* `wavReadOpen_cut`: what is read of the file, wherever it is cut off.
-/

namespace AudioProc

open CFile Loop Riff

namespace WavReader

/-! ## The inner loop in a file that is cut off -/

/-- The walk with another stream and another length that remains. -/
def RiffWalk.moved (s : RiffWalk) (f : CFile) (length : UInt32) : RiffWalk :=
  { s with
    wr := { s.wr with wav := f }
    length := length }

/-- The inner loop that starts in `s` ends at the end of the file, with what `t` has noted. -/
def StopsWith (s t : RiffWalk) : Prop :=
  ∃ f length, InnerEnds s (.inl (t.moved f length)) ∧ f.contents = s.wr.wav.contents ∧
    f.rest = []

/-- The walk stands at `body`, which is all that its RIFF chunk has left, but only `k` bytes of
it are in the file. -/
structure CutAt (s : RiffWalk) (body : List UInt8) (k : ℕ) : Prop where
  rest : s.wr.wav.rest = body.take k
  length : s.length.toNat = body.length
  eof : s.wr.wav.eof = false

variable {s t : RiffWalk} {c : Chunk} {body : List UInt8} {k : ℕ}

theorem StopsWith.next (h : riffBody s = .next t) {u : RiffWalk}
    (hcontents : t.wr.wav.contents = s.wr.wav.contents) (ht : StopsWith t u) :
    StopsWith s u := by
  rcases ht with ⟨f, length, hends, hfile, hrest⟩
  exact ⟨f, length, InnerEnds.next h hends, hfile.trans hcontents, hrest⟩

/-- At the end of the file there is no tag to read. -/
theorem stops_at_end (h : s.wr.wav.rest = []) : StopsWith s s := by
  by_cases hshort : s.length < 8
  · exact ⟨s.wr.wav, s.length, innerEnds_brk (riffBody_of_short hshort), rfl, h⟩
  · have heof : (readTag s.wr.wav).2.eof = true := by
      rw [readTag_snd]
      apply discard_of_rest_lt
      rw [h]
      exact Nat.zero_lt_succ 3
    refine ⟨(readTag s.wr.wav).2, s.length, innerEnds_brk (riffBody_of_eof hshort heof),
      (forward_readTag _).contents, ?_⟩
    rw [readTag_snd, rest_discard, h, List.drop_nil]

/-- Behind chunks that are all there. -/
theorem CutAt.passed {front : List UInt8} (h : CutAt s (front ++ body) k)
    (hk : front.length ≤ k) (hwav : t.wr.wav = s.wr.wav.advance front.length)
    (hlength : t.length = (s.advance front.length).length) :
    CutAt t body (k - front.length) where
  rest := by
    rw [hwav, rest_advance, h.rest, List.take_append, List.take_of_length_le hk, List.drop_left]
  length := by
    have hfront : front.length ≤ s.length.toNat := by
      rw [h.length, List.length_append]
      exact Nat.le_add_right _ _
    rw [hlength, RiffWalk.length_advance hfront, h.length, List.length_append]
    exact Nat.add_sub_cancel_left _ _
  eof := by
    rw [hwav]
    exact h.eof

/-- Bytes that the chunk does not have need not be counted. -/
theorem CutAt.within (h : CutAt s body k) : ∃ j ≤ body.length, CutAt s body j := by
  refine ⟨min k body.length, Nat.min_le_right _ _, ?_, h.length, h.eof⟩
  rw [h.rest]
  exact List.take_eq_take_min

theorem CutAt.ahead (h : CutAt s (c.bytes ++ body) k) (hk : c.bytes.length ≤ k) :
    s.Ahead c (body.take (k - c.bytes.length)) where
  rest := by rw [h.rest, List.take_append, List.take_of_length_le hk]
  fits := by
    rw [h.length, List.length_append]
    exact Nat.le_add_right _ _
  eof := h.eof

/-- The header of a chunk is cut through: nothing is noted of it. -/
theorem stops_header (h : CutAt s (c.bytes ++ body) k) (hk : k < 8)
    (hsmall : s.length < 0x7fff0000) : StopsWith s s := by
  have hrest : s.wr.wav.rest.length ≤ k := by
    rw [h.rest]
    exact List.length_take_le _ _
  have hlong : ¬ s.length < 8 := by
    have hlength := h.length
    rw [List.length_append, Chunk.length_bytes] at hlength
    rw [UInt32.lt_iff_toNat_lt, hlength]
    show ¬ 8 + c.payload.length + body.length < 8
    omega
  cases heof : (readTag s.wr.wav).2.eof with
  | true =>
      refine ⟨(readTag s.wr.wav).2, s.length, innerEnds_brk (riffBody_of_eof hlong heof),
        (forward_readTag _).contents, ?_⟩
      rw [readTag_snd] at heof ⊢
      rw [rest_discard]
      by_contra hsome
      rw [List.drop_eq_nil_iff, Nat.not_le] at hsome
      rw [discard_eq_advance (Nat.le_of_lt hsome), advance_eof, h.eof] at heof
      exact absurd heof Bool.false_ne_true
  | false =>
      -- the size is a huge one, larger than what remains
      have hcut : (readTag s.wr.wav).2.rest.length < 4 := by
        rw [readTag_snd, rest_discard, List.length_drop]
        omega
      have hhuge := readInt32_of_cut hcut
      have hless : (afterHeader s).length < (readInt32 (readTag s.wr.wav).2).1 := by
        rw [ge_iff_le, UInt32.le_iff_toNat_le] at hhuge
        show s.length - 8 < _
        rw [UInt32.lt_iff_toNat_lt] at hsmall ⊢
        rw [UInt32.toNat_sub_of_le _ _ (UInt32.not_lt.mp hlong)]
        omega
      have hround : riffBody s = .brk (afterHeader s) := by
        rw [riffBody_of_header hlong heof, subChunk, if_pos hless]
      refine ⟨_, _, innerEnds_brk hround, ?_, ?_⟩
      · show (readInt32 (readTag s.wr.wav).2).2.contents = s.wr.wav.contents
        rw [(forward_readInt32 _).contents, (forward_readTag _).contents]
      · rw [readInt32_snd, rest_discard]
        exact List.drop_of_length_le (Nat.le_of_lt hcut)

/-- The header of a chunk is there. -/
theorem CutAt.header_ahead (h : CutAt s (c.bytes ++ body) k) (hk : 8 ≤ k) :
    riffBody s = subChunk (s.advance 8) c.id c.size ∧
      (s.advance 8).wr.wav.rest = (c.payload ++ body).take (k - 8) ∧
      ¬ (s.advance 8).length < c.size := by
  have hlength := h.length
  rw [List.length_append, Chunk.length_bytes] at hlength
  have hlt := s.length.toNat_lt
  have hrest : s.wr.wav.rest = header c.id c.size ++ (c.payload ++ body).take (k - 8) := by
    rw [h.rest, Chunk.bytes, List.append_assoc, List.take_append, length_header,
      List.take_of_length_le (Nat.le_trans (Nat.le_of_eq (length_header _ _)) hk)]
  refine ⟨riffBody_header hrest (by omega) h.eof, ?_, ?_⟩
  · have hbehind := rest_advance_append _ hrest
    rwa [length_header] at hbehind
  · rw [UInt32.lt_iff_toNat_lt, RiffWalk.length_advance (by omega), Chunk.toNat_size (by omega)]
    omega

/-- What a chunk has left is not there. -/
theorem rest_behind {f : CFile} {n : ℕ} (hrest : f.rest = (c.payload ++ body).take (k - 8))
    (hcut : k ≤ 8 + c.payload.length) (hn : c.payload.length ≤ n) : f.rest.drop n = [] := by
  apply List.drop_of_length_le
  rw [hrest]
  have htake := List.length_take_le (k - 8) (c.payload ++ body)
  omega

/-- `skip` reads as far as it says, or to the end of the file. -/
theorem rest_skip {f : CFile} {n : UInt32} (hn : n.toNat < 2 ^ 31) :
    (skip f n).rest = f.rest.drop n.toNat := by
  have hint : n.toInt32.toInt.toNat = n.toNat := by
    rw [← UInt32.ofNat_toNat (x := n), UInt32.toInt32_ofNat', Int32.toInt_ofNat_of_lt hn]
    simp
  rw [skip, hint, rest_discard]

section

variable (h : CutAt s (c.bytes ++ body) k) (hsmall : s.length < 0x7fff0000)
include h

theorem CutAt.toNat_size : c.size.toNat = c.payload.length := by
  have hlength := h.length
  have hlt := s.length.toNat_lt
  rw [List.length_append, Chunk.length_bytes] at hlength
  exact Chunk.toNat_size (by omega)

include hsmall

theorem CutAt.size_lt : c.size.toNat < 2 ^ 31 := by
  have hlength := h.length
  rw [List.length_append, Chunk.length_bytes] at hlength
  rw [UInt32.lt_iff_toNat_lt] at hsmall
  have hbound : (0x7fff0000 : UInt32).toNat = 2147418112 := rfl
  rw [h.toNat_size]
  omega

/-- A chunk of another kind is cut through. -/
theorem stops_other (hfmt : c.id ≠ tag 'f' 'm' 't' ' ') (hdata : c.id ≠ tag 'd' 'a' 't' 'a')
    (hk : k ≤ c.bytes.length) : StopsWith s s := by
  rw [Chunk.length_bytes] at hk
  rcases Nat.lt_or_ge k 8 with hshort | hlong
  · exact stops_header h hshort hsmall
  rcases h.header_ahead hlong with ⟨hround, hrest, hfits⟩
  rw [subChunk, if_neg hfits, if_neg hfmt, if_neg hdata] at hround
  have hend : (skip (s.advance 8).wr.wav c.size).rest = [] := by
    rw [rest_skip (h.size_lt hsmall)]
    exact rest_behind hrest hk (Nat.le_of_eq h.toNat_size.symm)
  rcases stops_at_end (s := { s.advance 8 with
      wr := { (s.advance 8).wr with wav := skip (s.advance 8).wr.wav c.size }
      length := (s.advance 8).length - c.size }) hend with ⟨f, n, hends, hfile, hf⟩
  exact ⟨f, n, InnerEnds.next hround hends, hfile.trans (forward_skip _ _).contents, hf⟩

omit hsmall in
/-- A 'data' chunk is cut through behind its header. -/
theorem stops_data (hid : c.id = tag 'd' 'a' 't' 'a') (hpayload : c.payload ≠ [])
    (hstreamed : s.wr.streamed = false) (hlow : 8 ≤ k) (hk : k ≤ c.bytes.length) :
    StopsWith s (s.withData c.size) := by
  rw [Chunk.length_bytes] at hk
  rcases h.header_ahead hlow with ⟨hround, hrest, hfits⟩
  have hfmt : c.id ≠ tag 'f' 'm' 't' ' ' := hid ▸ tag_data_ne_fmt
  have hgo : ¬ (c.size = 0 ∨ (s.advance 8).wr.streamed = true) := by
    rintro (hzero | hset)
    · have hlength := h.toNat_size
      rw [hzero] at hlength
      exact hpayload (List.eq_nil_of_length_eq_zero hlength.symm)
    · exact absurd (hset.symm.trans hstreamed) (by decide)
  simp only [subChunk, if_neg hfits, if_neg hfmt, if_pos hid, if_neg hgo] at hround
  have hend : ((s.advance 8).wr.wav.fseekCur c.size.toNat).rest = [] := by
    have hbehind := rest_behind hrest hk (Nat.le_of_eq h.toNat_size.symm)
    rw [rest, List.drop_drop] at hbehind
    exact hbehind
  rcases stops_at_end (s := { s.advance 8 with
      dataPos := (s.advance 8).wr.wav.ftell
      wr := { (s.advance 8).wr with
        dataLength := c.size
        wav := (s.advance 8).wr.wav.fseekCur c.size.toNat }
      length := (s.advance 8).length - c.size }) hend with ⟨f, n, hends, hfile, hf⟩
  exact ⟨f, n, InnerEnds.next hround hends, hfile, hf⟩

end

/-- The body of a 'fmt ' chunk of the plain format that is cut through. -/
theorem fmtChunk_cut {wr : WavReader} {w : FmtFields} {extra : List UInt8} {size : UInt32} {j : ℕ}
    (hrest : wr.wav.rest = ((w.bytes ++ extra) ++ body).take j) (hj : j ≤ 16 + extra.length)
    (hsize : size.toNat = 16 + extra.length) (hsmall : size.toNat < 2 ^ 31)
    (hformat : w.format ≠ 0xfffe) :
    (fmtChunk wr size).2.wav.rest = [] ∧ (16 ≤ j → Describes (fmtChunk wr size).2 w) := by
  have hle : (16 : UInt32) ≤ size := by
    rw [UInt32.le_iff_toNat_le, hsize]
    exact Nat.le_add_right 16 _
  have henough : ¬ size < 16 := UInt32.not_lt.mpr hle
  have hlength := List.length_take_le j ((w.bytes ++ extra) ++ body)
  rcases Nat.lt_or_ge j 16 with hcut | hwhole
  · -- nothing is behind the fields that are read
    rcases fmtFields_padTo wr with ⟨v, f, hfields, -, hf⟩
    have hend : f.rest = [] := by
      rw [hf, rest_discard, hrest]
      exact List.drop_of_length_le (by omega)
    have hskip : ∀ n, (skip f n).rest = [] := by
      intro n
      rw [skip, rest_discard, hend, List.drop_nil]
    refine ⟨?_, fun h => absurd h (Nat.not_le.mpr hcut)⟩
    simp only [fmtChunk, if_neg henough, hfields]
    split_ifs
    · exact hend
    · show (skip (readInt32 (skip f 8)).2 (size - 28)).rest = []
      rw [skip, rest_discard, readInt32_snd, rest_discard, hskip, List.drop_nil, List.drop_nil]
    · exact hskip _
  · have hread : wr.wav.rest = w.bytes ++ (extra ++ body).take (j - 16) := by
      rw [hrest, List.append_assoc, List.take_append, FmtFields.length_bytes,
        List.take_of_length_le (Nat.le_trans (Nat.le_of_eq (FmtFields.length_bytes w)) hwhole)]
    have hplain : ¬ (wr.withFmt w).format = 0xfffe := fun h => hformat ((withFmt_format wr w).mp h)
    have hleft : (size - 16).toNat = extra.length := by
      rw [UInt32.toNat_sub_of_le _ _ hle, hsize]
      exact Nat.add_sub_cancel_left _ _
    have hchunk : fmtChunk wr size =
        (true, { wr.withFmt w with wav := skip (wr.wav.advance 16) (size - 16) }) := by
      simp only [fmtChunk, if_neg henough, fmtFields_of_rest hread, if_neg hplain]
    rw [hchunk]
    refine ⟨?_, fun _ => ⟨rfl, rfl, rfl, rfl⟩⟩
    show (skip (wr.wav.advance 16) (size - 16)).rest = []
    rw [rest_skip (by omega), rest_advance, List.drop_drop, hrest]
    exact List.drop_of_length_le (by omega)

/-- A 'fmt ' chunk is cut through behind its header. -/
theorem stops_fmt {w : FmtFields} {extra : List UInt8}
    (h : CutAt s ((fmtOf w extra).bytes ++ body) k) (hsmall : s.length < 0x7fff0000)
    (hformat : w.format ≠ 0xfffe) (hlow : 8 ≤ k) (hk : k ≤ (fmtOf w extra).bytes.length) :
    ∃ wr : WavReader, StopsWith s { s with wr := wr } ∧ wr.dataLength = s.wr.dataLength ∧
      wr.streamed = s.wr.streamed ∧ (24 ≤ k → Describes wr w) := by
  rw [Chunk.length_bytes, length_fmtOf] at hk
  rcases h.header_ahead hlow with ⟨hround, hrest, hfits⟩
  have hsize : (fmtOf w extra).size.toNat = 16 + extra.length := h.toNat_size.trans length_fmtOf
  have hforward := forward_fmtChunk (s.advance 8).wr (fmtOf w extra).size
  rcases fmtChunk_dataLength (s.advance 8).wr (fmtOf w extra).size with ⟨hlength, hstreamed⟩
  rcases fmtChunk_cut hrest (by omega) hsize (h.size_lt hsmall) hformat with ⟨hend, hfields⟩
  refine ⟨(fmtChunk (s.advance 8).wr (fmtOf w extra).size).2, ?_, hlength, hstreamed,
    fun h => hfields (by omega)⟩
  have hround : riffBody s = subChunk (s.advance 8) (tag 'f' 'm' 't' ' ') (fmtOf w extra).size :=
    hround
  rw [subChunk_fmt hfits] at hround
  cases henough : (fmtChunk (s.advance 8).wr (fmtOf w extra).size).1 with
  | true =>
      rw [henough, if_pos rfl] at hround
      rcases stops_at_end (s := { s.advance 8 with
          wr := (fmtChunk (s.advance 8).wr (fmtOf w extra).size).2
          length := (s.advance 8).length - (fmtOf w extra).size }) hend with
        ⟨f, n, hends, hfile, hf⟩
      exact ⟨f, n, InnerEnds.next hround hends, hfile.trans hforward.contents, hf⟩
  | false =>
      rw [henough, if_neg Bool.false_ne_true] at hround
      exact ⟨_, _, innerEnds_brk hround, hforward.contents, hend⟩

/-! ## Runs of chunks -/

section

variable {cs : List PaddedChunk}

theorem RiffWalk.advance_lt {n : ℕ} (hn : n ≤ s.length.toNat) (h : s.length < 0x7fff0000) :
    (s.advance n).length < 0x7fff0000 := by
  rw [UInt32.lt_iff_toNat_lt] at h ⊢
  rw [RiffWalk.length_advance hn]
  omega

variable (hother : ∀ c ∈ cs, c.id ≠ tag 'f' 'm' 't' ' ' ∧ c.id ≠ tag 'd' 'a' 't' 'a')
  (heven : ∀ c ∈ cs, c.payload.length % 2 = 0)
include hother heven

/-- The file ends within them. -/
theorem stops_others (h : CutAt s (cs.flatMap PaddedChunk.padded ++ body) k)
    (hsmall : s.length < 0x7fff0000) (hk : k ≤ (cs.flatMap PaddedChunk.padded).length) :
    StopsWith s s := by
  induction cs generalizing s k with
  | nil =>
      apply stops_at_end
      rw [h.rest, Nat.le_zero.mp hk, List.take_zero]
  | cons c cs ih =>
      rw [List.flatMap_cons, PaddedChunk.padded_of_even (heven c (by simp))] at h hk
      rw [List.append_assoc] at h
      have hid := hother c (by simp)
      rcases Nat.le_total k c.bytes.length with hcut | hwhole
      · exact stops_other h hsmall hid.1 hid.2 hcut
      · have hahead := h.ahead hwhole
        have hpassed := h.passed (t := s.advance c.bytes.length) hwhole rfl rfl
        have hround := riffBody_other hahead hid.1 hid.2 (h.toNat_size ▸ h.size_lt hsmall)
        rw [List.length_append] at hk
        have hstops := ih (fun d hd => hother d (by simp [hd])) (fun d hd => heven d (by simp [hd]))
          hpassed (RiffWalk.advance_lt hahead.fits hsmall) (by omega)
        exact StopsWith.next hround rfl hstops

/-- The file goes on behind them. -/
theorem ends_others_cut (h : CutAt s (cs.flatMap PaddedChunk.padded ++ body) k)
    (hsmall : s.length < 0x7fff0000) (hk : (cs.flatMap PaddedChunk.padded).length ≤ k)
    {t : RiffWalk} (ht : StopsWith (s.advance (cs.flatMap PaddedChunk.padded).length) t) :
    StopsWith s t := by
  induction cs generalizing s k with
  | nil =>
      rw [List.flatMap_nil, List.length_nil, RiffWalk.advance_zero] at ht
      exact ht
  | cons c cs ih =>
      rw [List.flatMap_cons, PaddedChunk.padded_of_even (heven c (by simp))] at h hk ht
      rw [List.append_assoc] at h
      rw [List.length_append] at hk
      have hid := hother c (by simp)
      have hwhole : c.bytes.length ≤ k := by omega
      have hahead := h.ahead hwhole
      have hround := riffBody_other hahead hid.1 hid.2 (h.toNat_size ▸ h.size_lt hsmall)
      refine StopsWith.next hround rfl ?_
      refine ih (fun d hd => hother d (by simp [hd])) (fun d hd => heven d (by simp [hd]))
        (h.passed hwhole rfl rfl) (RiffWalk.advance_lt hahead.fits hsmall) (by omega) ?_
      rw [RiffWalk.advance_advance, ← List.length_append]
      exact ht

end

end WavReader

namespace WaveFile

open WavReader

/-! ## The walk through a file that is cut off -/

/-- Where the 'fmt ' chunk of a file starts. -/
def fmtStart (w : WaveFile) : ℕ := 12 + (w.before.flatMap PaddedChunk.padded).length

/-- Where its data starts. -/
def dataStart (w : WaveFile) : ℕ := 12 + w.frontLength + 8

/-- The inner loop in front of the first sub-chunk of a file of which `m` bytes are there. -/
def startCut (w : WaveFile) (m : ℕ) : RiffWalk :=
  Walk.enter ⟨fresh (fopen (w.contents.take m)), 0⟩ (w.size - 4)

variable {w : WaveFile} {m : ℕ}

theorem contents_take (hm : 12 ≤ m) :
    w.contents.take m = header (tag 'R' 'I' 'F' 'F') w.size ++
      (fourcc (tag 'W' 'A' 'V' 'E') ++ w.body.take (m - 12)) := by
  have hlength :
      (header (tag 'R' 'I' 'F' 'F') w.size ++ fourcc (tag 'W' 'A' 'V' 'E')).length = 12 := by
    rw [List.length_append, length_header, length_fourcc]
  rw [contents, ← List.append_assoc, List.take_append, hlength,
    List.take_of_length_le (hlength ▸ hm), List.append_assoc]

theorem startCut_at (hm : 12 ≤ m) : CutAt (w.startCut m) w.body (m - 12) where
  rest := by
    have hrest : (fopen (w.contents.take m)).rest = header (tag 'R' 'I' 'F' 'F') w.size ++
        (fourcc (tag 'W' 'A' 'V' 'E') ++ w.body.take (m - 12)) := contents_take hm
    have hbody := rest_advance_append _ (rest_advance_append _ hrest)
    rwa [length_header, length_fourcc, CFile.advance_advance] at hbody
  length := w.start_at.length
  eof := rfl

theorem startCut_lt : (w.startCut m).length < 0x7fff0000 := by
  have hknown := w.known
  rw [UInt32.lt_iff_toNat_lt]
  show w.start.length.toNat < 0x7fff0000
  rw [w.start_at.length]
  omega

theorem startCut_advance_lt {n : ℕ} (hn : n ≤ w.body.length) :
    ((w.startCut m).advance n).length < 0x7fff0000 := by
  apply RiffWalk.advance_lt
  · show n ≤ w.start.length.toNat
    rw [w.start_at.length]
    exact hn
  · exact startCut_lt

theorem frontLength_le (w : WaveFile) :
    (w.before.flatMap PaddedChunk.padded).length ≤ w.frontLength ∧
      w.frontLength ≤ w.body.length := by
  rw [frontLength]
  constructor
  · omega
  · have hbody := congrArg List.length w.body_eq
    have hpadded : w.fmtChunk.padded.length =
        w.fmtChunk.bytes.length + w.fmtChunk.padding.length := List.length_append
    simp only [List.length_append, hpadded] at hbody
    omega

/-- What a file that is cut off has noted when its inner loop ends. -/
structure Stopped (w : WaveFile) (m : ℕ) (t : RiffWalk) : Prop where
  streamed : t.wr.streamed = false
  behind : w.dataStart ≤ m →
    t.dataPos = w.dataStart ∧ t.wr.dataLength.toNat = w.data.length
  before : m < w.dataStart → t.wr.dataLength = 0
  blank : m < w.fmtStart + 8 → Blank t.wr
  fields : w.fmtStart + 24 ≤ m → Describes t.wr w.fields

section

variable (heven : ∀ c ∈ w.front ++ w.tail, c.payload.length % 2 = 0)
include heven

/-- Up to the 'fmt ' chunk. -/
theorem cut_fmt (hm : w.fmtStart ≤ m) :
    CutAt ((w.startCut m).advance (w.before.flatMap PaddedChunk.padded).length)
        (w.fmtChunk.bytes ++ (w.between.flatMap PaddedChunk.padded ++ (w.dataChunk.padded ++
          w.after.flatMap PaddedChunk.padded))) (m - w.fmtStart) ∧
      ∀ t, StopsWith ((w.startCut m).advance (w.before.flatMap PaddedChunk.padded).length) t →
        StopsWith (w.startCut m) t := by
  rw [fmtStart] at hm ⊢
  have hat := startCut_at (w := w) (m := m) (by omega)
  have hfmt : w.fmtChunk.payload.length % 2 = 0 := heven _ (by simp [WaveChunks.front])
  rw [body_eq, PaddedChunk.padded_of_even hfmt] at hat
  have hwhole : (w.before.flatMap PaddedChunk.padded).length ≤ m - 12 := by omega
  constructor
  · rw [← Nat.sub_sub]
    exact hat.passed hwhole rfl rfl
  · intro t ht
    exact ends_others_cut (fun c hc => w.others c (by simp [hc]))
      (fun c hc => heven c (by simp [WaveChunks.front, hc])) hat startCut_lt hwhole ht

/-- The file ends in front of the 'fmt ' chunk, or within its header. -/
theorem stops_before (hlow : 12 ≤ m) (hm : m < w.fmtStart + 8) :
    StopsWith (w.startCut m) (w.startCut m) := by
  rcases Nat.le_total m w.fmtStart with hcut | hwhole
  · have hat := startCut_at (w := w) hlow
    rw [body_eq] at hat
    rw [fmtStart] at hcut
    exact stops_others (fun c hc => w.others c (by simp [hc]))
      (fun c hc => heven c (by simp [WaveChunks.front, hc])) hat startCut_lt (by omega)
  · rcases cut_fmt heven hwhole with ⟨hat, hstops⟩
    have hlt := startCut_advance_lt (m := m) (w.frontLength_le.1.trans w.frontLength_le.2)
    exact hstops _ (stops_header hat (by omega) hlt)

/-- The file ends within the 'fmt ' chunk. -/
theorem stops_within_fmt (hlow : w.fmtStart + 8 ≤ m)
    (hm : m ≤ w.fmtStart + w.fmtChunk.bytes.length) :
    ∃ wr : WavReader, StopsWith (w.startCut m) { w.startCut m with wr := wr } ∧
      wr.dataLength = 0 ∧ wr.streamed = false ∧ (w.fmtStart + 24 ≤ m → Describes wr w.fields) := by
  rcases cut_fmt heven (Nat.le_trans (Nat.le_add_right _ 8) hlow) with ⟨hat, hstops⟩
  have hlt := startCut_advance_lt (m := m) (w.frontLength_le.1.trans w.frontLength_le.2)
  have hk : m - w.fmtStart ≤ w.fmtChunk.bytes.length := by omega
  rcases stops_fmt hat hlt w.plain (by omega) hk with ⟨wr, hends, hlength, hstreamed, hfields⟩
  exact ⟨wr, hstops _ hends, hlength, hstreamed, fun h => hfields (by omega)⟩

/-- Up to the chunks behind the 'fmt ' chunk. -/
theorem cut_between (hm : w.fmtStart + w.fmtChunk.bytes.length ≤ m) :
    CutAt (((w.startCut m).withFmt w.fields).advance
        ((w.before.flatMap PaddedChunk.padded).length + w.fmtChunk.bytes.length))
        (w.between.flatMap PaddedChunk.padded ++ (w.dataChunk.padded ++
          w.after.flatMap PaddedChunk.padded)) (m - w.fmtStart - w.fmtChunk.bytes.length) ∧
      ∀ t, StopsWith (((w.startCut m).withFmt w.fields).advance
          ((w.before.flatMap PaddedChunk.padded).length + w.fmtChunk.bytes.length)) t →
        StopsWith (w.startCut m) t := by
  rcases cut_fmt heven (Nat.le_trans (Nat.le_add_right _ _) hm) with ⟨hat, hstops⟩
  have hwhole : w.fmtChunk.bytes.length ≤ m - w.fmtStart := by omega
  have hlt := startCut_advance_lt (m := m) (w.frontLength_le.1.trans w.frontLength_le.2)
  have hsize := hat.size_lt hlt
  rw [hat.toNat_size] at hsize
  have hround := riffBody_fmt (hat.ahead hwhole) w.plain hsize
  have hsame : ((((w.startCut m).advance (w.before.flatMap PaddedChunk.padded).length).withFmt
      w.fields).advance (fmtOf w.fields w.extra).bytes.length) =
      ((w.startCut m).withFmt w.fields).advance
        ((w.before.flatMap PaddedChunk.padded).length + w.fmtChunk.bytes.length) := by
    rw [← RiffWalk.advance_advance]
    rfl
  rw [hsame] at hround
  constructor
  · apply hat.passed hwhole
    · rw [← hsame]
      rfl
    · rw [← hsame]
      rfl
  · intro t ht
    exact hstops t (StopsWith.next hround rfl ht)

/-- Up to the 'data' chunk. -/
theorem cut_data (hm : 12 + w.frontLength ≤ m) :
    CutAt (((w.startCut m).withFmt w.fields).advance w.frontLength)
        (w.dataChunk.bytes ++ w.after.flatMap PaddedChunk.padded) (m - (12 + w.frontLength)) ∧
      ∀ t, StopsWith (((w.startCut m).withFmt w.fields).advance w.frontLength) t →
        StopsWith (w.startCut m) t := by
  have hfront : 12 + w.frontLength = w.fmtStart + w.fmtChunk.bytes.length +
      (w.between.flatMap PaddedChunk.padded).length := by
    rw [frontLength, fmtStart]
    omega
  rw [hfront] at hm
  rcases cut_between heven (Nat.le_trans (Nat.le_add_right _ _) hm) with ⟨hat, hstops⟩
  have hdata : w.dataChunk.payload.length % 2 = 0 := heven _ (by simp [WaveChunks.tail])
  rw [PaddedChunk.padded_of_even hdata] at hat
  have hwhole : (w.between.flatMap PaddedChunk.padded).length ≤
      m - w.fmtStart - w.fmtChunk.bytes.length := by omega
  have hlt : (((w.startCut m).withFmt w.fields).advance
      ((w.before.flatMap PaddedChunk.padded).length + w.fmtChunk.bytes.length)).length <
      0x7fff0000 := by
    refine startCut_advance_lt (m := m) (Nat.le_trans ?_ w.frontLength_le.2)
    rw [frontLength]
    exact Nat.le_add_right _ _
  have hadvance : ((w.startCut m).withFmt w.fields).advance w.frontLength =
      (((w.startCut m).withFmt w.fields).advance
        ((w.before.flatMap PaddedChunk.padded).length + w.fmtChunk.bytes.length)).advance
          (w.between.flatMap PaddedChunk.padded).length := by
    rw [RiffWalk.advance_advance]
    rfl
  rw [hadvance]
  constructor
  · rw [hfront, ← Nat.sub_sub, ← Nat.sub_sub]
    exact hat.passed hwhole rfl rfl
  · intro t ht
    exact hstops t (ends_others_cut (fun c hc => w.others c (by simp [hc]))
      (fun c hc => heven c (by simp [WaveChunks.front, hc])) hat hlt hwhole ht)

/-- The file ends between the 'fmt ' chunk and the data. -/
theorem stops_between (hlow : w.fmtStart + w.fmtChunk.bytes.length ≤ m) (hm : m < w.dataStart) :
    StopsWith (w.startCut m) ((w.startCut m).withFmt w.fields) := by
  rw [dataStart] at hm
  rcases Nat.lt_or_ge m (12 + w.frontLength) with hcut | hwhole
  · rcases cut_between heven hlow with ⟨hat, hstops⟩
    have hlt := startCut_advance_lt (w := w) (m := m) (n :=
      (w.before.flatMap PaddedChunk.padded).length + w.fmtChunk.bytes.length) (by
        refine Nat.le_trans ?_ w.frontLength_le.2
        rw [frontLength]
        exact Nat.le_add_right _ _)
    rw [frontLength] at hcut
    rw [fmtStart] at hlow
    exact hstops _ (stops_others (fun c hc => w.others c (by simp [hc]))
      (fun c hc => heven c (by simp [WaveChunks.front, hc])) hat hlt (by rw [fmtStart]; omega))
  · rcases cut_data heven hwhole with ⟨hat, hstops⟩
    exact hstops _ (stops_header hat (by omega) (startCut_advance_lt (m := m) w.frontLength_le.2))

/-- The file ends within the data or behind it. -/
theorem stops_behind (hm : w.dataStart ≤ m) : StopsWith (w.startCut m)
    ((((w.startCut m).withFmt w.fields).advance w.frontLength).withData w.dataChunk.size) := by
  rw [dataStart] at hm
  rcases cut_data heven (Nat.le_trans (Nat.le_add_right _ 8) hm) with ⟨hat, hstops⟩
  have hlt : (((w.startCut m).withFmt w.fields).advance w.frontLength).length < 0x7fff0000 :=
    startCut_advance_lt (m := m) w.frontLength_le.2
  apply hstops
  rcases Nat.le_total (m - (12 + w.frontLength)) w.dataChunk.bytes.length with hcut | hwhole
  · exact stops_data hat rfl w.nonempty rfl (by omega) hcut
  · -- the chunks behind the data change nothing
    have hround := riffBody_data (hat.ahead hwhole) rfl w.nonempty rfl
    have hbehind := hat.passed (t := ((((w.startCut m).withFmt w.fields).advance
      w.frontLength).withData w.dataChunk.size).advance w.dataChunk.bytes.length) hwhole rfl rfl
    rw [← List.append_nil (w.after.flatMap PaddedChunk.padded)] at hbehind
    refine StopsWith.next hround rfl ?_
    rcases hbehind.within with ⟨k, hk, hat'⟩
    rw [List.append_nil] at hk
    exact stops_others (fun c hc => w.others c (by simp [hc]))
      (fun c hc => heven c (by simp [WaveChunks.tail, hc])) hat'
      (RiffWalk.advance_lt (hat.ahead hwhole).fits hlt) hk

/-- **The walk through a file that is cut off** behind its form type. -/
theorem exists_stopped (hm : 12 ≤ m) :
    ∃ t, StopsWith (w.startCut m) t ∧ w.Stopped m t := by
  have hfmt : (fmtOf w.fields w.extra).bytes.length = 24 + w.extra.length := by
    rw [Chunk.length_bytes, length_fmtOf]
    omega
  have hfront : w.fmtStart + (24 + w.extra.length) + 8 ≤ w.dataStart := by
    rw [dataStart, frontLength, fmtStart, ← hfmt]
    show _ ≤ 12 + (_ + (fmtOf w.fields w.extra).bytes.length + _) + 8
    omega
  rcases Nat.lt_or_ge m (w.fmtStart + 8) with hblank | hheader
  · refine ⟨_, stops_before heven hm hblank, rfl, ?_, fun _ => rfl, ?_, ?_⟩
    · intro h
      omega
    · intro _
      exact ⟨rfl, rfl, rfl, rfl, rfl, rfl⟩
    · intro h
      omega
  rcases Nat.lt_or_ge m (w.fmtStart + w.fmtChunk.bytes.length) with hwithin | hfields
  · have hless : m < w.fmtStart + (24 + w.extra.length) := hfmt ▸ hwithin
    rcases stops_within_fmt heven hheader (Nat.le_of_lt hwithin) with
      ⟨wr, hstops, hlength, hstreamed, hread⟩
    refine ⟨_, hstops, hstreamed, ?_, fun _ => hlength, ?_, hread⟩
    · intro h
      omega
    · intro h
      omega
  rcases Nat.lt_or_ge m w.dataStart with hbetween | hdata
  · refine ⟨_, stops_between heven hfields hbetween, rfl, ?_, fun _ => rfl, ?_, ?_⟩
    · intro h
      omega
    · intro h
      omega
    · intro _
      exact ⟨rfl, rfl, rfl, rfl⟩
  · have hsize : w.dataChunk.size.toNat = w.data.length := by
      have hsmall := w.length_data_lt
      apply Chunk.toNat_size
      show w.data.length < 2 ^ 32
      omega
    refine ⟨_, stops_behind heven hdata, rfl, ?_, ?_, ?_, ?_⟩
    · intro _
      exact ⟨rfl, hsize⟩
    · intro h
      omega
    · intro h
      omega
    · intro _
      exact ⟨rfl, rfl, rfl, rfl⟩

end

/-! ## What is read -/

/-- What a file of which `m` bytes are there hands out. -/
def handedOut (w : WaveFile) (m : ℕ) : List UInt8 :=
  if 4 ≤ m ∧ m < 8 then w.contents.take m else w.data.take (m - w.dataStart)

/-- What a reader of such a file is like. -/
structure ReadsCut (w : WaveFile) (m : ℕ) (wr : WavReader) : Prop where
  payload : wr.payload = w.handedOut m
  blank : m < w.fmtStart + 8 → wr.Blank
  fields : w.fmtStart + 24 ≤ m → Describes wr w.fields

theorem twelve_le (w : WaveFile) : 12 ≤ w.fmtStart ∧ w.fmtStart ≤ w.dataStart := by
  rw [dataStart, fmtStart]
  have hfront := w.frontLength_le.1
  omega

/-- In front of the data there is nothing to hand out. -/
theorem handedOut_nil (hm : m < 4 ∨ 8 ≤ m) (hlow : m ≤ w.dataStart) : w.handedOut m = [] := by
  rw [handedOut, if_neg (by omega), Nat.sub_eq_zero_of_le hlow]
  rfl

theorem payload_nil {wr : WavReader} (hlength : wr.dataLength = 0)
    (hstreamed : wr.streamed = false) : wr.payload = [] := by
  rw [payload, hstreamed, hlength]
  rfl

/-- A file that ends in front of its form type, where the reader noted nothing. -/
theorem readsCut_nothing {wr : WavReader} (hm : m < 4 ∨ 8 ≤ m) (hlow : m < 12)
    (hlength : wr.dataLength = 0) (hstreamed : wr.streamed = false) (hblank : wr.Blank) :
    w.ReadsCut m wr where
  payload := by
    have hstart := w.twelve_le
    rw [payload_nil hlength hstreamed, handedOut_nil hm (by omega)]
  blank := fun _ => hblank
  fields := by
    intro h
    have hstart := w.twelve_le
    omega

/-- Less than a tag. -/
theorem cut_in_tag (hm : m < 4) :
    ∃ wr, wavReadOpen (some (w.contents.take m)) = some wr ∧ w.ReadsCut m wr := by
  have hshort : (fopen (w.contents.take m)).rest.length < 4 := by
    show ((w.contents.take m).drop 0).length < 4
    rw [List.drop_zero, List.length_take]
    omega
  exact ⟨_, wavReadOpen_of_ends (ends_brk (chunkBody_short hshort)),
    readsCut_nothing (Or.inl hm) (by omega) rfl rfl ⟨rfl, rfl, rfl, rfl, rfl, rfl⟩⟩

/-- A RIFF chunk without a whole form type is skipped, which leads behind the end. -/
theorem chunk_form_cut {fuel : ℕ} {f : CFile} {length : UInt32} (hcut : f.rest.length < 4)
    (hlength : ¬ skipped length < 4) :
    ∃ g : CFile, chunk fuel ⟨fresh f, 0⟩ (tag 'R' 'I' 'F' 'F') length = some (.next
        ⟨{ fresh g with streamed := decide (length = 0 ∨ length ≥ 0x7fff0000) }, 0⟩) ∧
      g.contents = f.contents ∧ g.contents.length ≤ g.pos := by
  have hform : (readTag f).1 ≠ tag 'W' 'A' 'V' 'E' := by
    rw [readTag_of_cut hcut]
    decide
  have hgo : ¬ (tag 'R' 'I' 'F' 'F' ≠ tag 'R' 'I' 'F' 'F' ∨ skipped length < 4) := by
    rintro (hne | hless)
    · exact hne rfl
    · exact hlength hless
  have hend : (readTag f).2.rest = [] := by
    rw [readTag_snd, rest_discard]
    exact List.drop_of_length_le (Nat.le_of_lt hcut)
  refine ⟨(readTag f).2.fseekCur (skipped length - 4).toNat, ?_, (forward_readTag f).contents, ?_⟩
  · unfold skipped at hgo ⊢
    have htag : (readTag (fresh f).wav).1 ≠ tag 'W' 'A' 'V' 'E' := hform
    simp only [chunk, decide_eq_true_eq, if_neg hgo, if_pos htag]
    rfl
  · rw [rest, List.drop_eq_nil_iff] at hend
    exact Nat.le_trans hend (Nat.le_add_right _ _)

/-- The reader of a file of which nothing but the length of its RIFF chunk was noted. -/
theorem wavReadOpen_of_form_cut {contents : List UInt8} {g : CFile} {streamed : Bool}
    (hround : chunkBody (enoughFuel contents) ⟨fresh (fopen contents), 0⟩ =
      some (.next ⟨{ fresh g with streamed := streamed }, 0⟩))
    (hcontents : g.contents = contents) (hend : g.contents.length ≤ g.pos) :
    wavReadOpen (some contents) = some { fresh (fopen contents) with streamed := streamed } := by
  have hsame : (readTag g).2.contents = contents := (forward_readTag g).contents.trans hcontents
  rw [wavReadOpen_of_ends (Ends.next hround (ends_brk (chunkBody_eof hend)))]
  show some { fresh g with
    streamed := streamed
    wav := (readTag g).2.fseekSet 0 } = _
  rw [fseekSet, hsame]
  rfl

/-- The length of the RIFF chunk is cut through: the file is taken for a streamed one. -/
theorem cut_in_size (hlow : 4 ≤ m) (hm : m < 8) :
    ∃ wr, wavReadOpen (some (w.contents.take m)) = some wr ∧ w.ReadsCut m wr := by
  have hrest : (fopen (w.contents.take m)).rest = fourcc (tag 'R' 'I' 'F' 'F') ++
      (int32 w.size ++ (fourcc (tag 'W' 'A' 'V' 'E') ++ w.body)).take (m - 4) := by
    show w.contents.take m = _
    rw [contents, header, List.append_assoc, List.take_append, length_fourcc,
      List.take_of_length_le ((length_fourcc _).trans_le hlow)]
  have htag := readTag_of_rest hrest
  obtain ⟨f, hf⟩ : ∃ f, f = CFile.advance (fopen (w.contents.take m)) 4 := ⟨_, rfl⟩
  have hbehind : f.rest.length < 4 := by
    have hmore := rest_advance_append _ hrest
    rw [length_fourcc, ← hf] at hmore
    rw [hmore, List.length_take]
    omega
  -- the missing bytes make the length a huge one
  have hhuge := readInt32_of_cut hbehind
  have hskipped : skipped (readInt32 f).1 = 0xffffffff := if_pos (Or.inr hhuge)
  have hlong : ¬ skipped (readInt32 f).1 < 4 := by
    rw [hskipped]
    decide
  have hcut : (readInt32 f).2.rest.length < 4 := by
    rw [readInt32_snd, rest_discard, List.length_drop]
    omega
  rcases @chunk_form_cut (enoughFuel (w.contents.take m)) _ _ hcut hlong with
    ⟨g, hchunk, hcontents, hend⟩
  rw [decide_eq_true (Or.inr hhuge)] at hchunk
  have hround : chunkBody (enoughFuel (w.contents.take m)) ⟨fresh (fopen (w.contents.take m)), 0⟩ =
      some (.next ⟨{ fresh g with streamed := true }, 0⟩) := by
    rw [← hchunk]
    unfold chunkBody
    have heof : f.eof = false := by
      rw [hf]
      rfl
    simp only [fresh, htag, ← hf, heof, Bool.false_eq_true, if_false]
  have hsame : g.contents = w.contents.take m := by
    rw [hcontents, (forward_readInt32 f).contents, hf]
    rfl
  have hstart := w.twelve_le
  refine ⟨_, wavReadOpen_of_form_cut hround hsame hend, ?_, ?_, ?_⟩
  · rw [handedOut, if_pos ⟨hlow, hm⟩]
    rfl
  · intro _
    exact ⟨rfl, rfl, rfl, rfl, rfl, rfl⟩
  · intro h
    omega

/-- The form type is cut through. -/
theorem cut_in_form (hlow : 8 ≤ m) (hm : m < 12) :
    ∃ wr, wavReadOpen (some (w.contents.take m)) = some wr ∧ w.ReadsCut m wr := by
  have hrest : (fopen (w.contents.take m)).rest = header (tag 'R' 'I' 'F' 'F') w.size ++
      (fourcc (tag 'W' 'A' 'V' 'E') ++ w.body).take (m - 8) := by
    show w.contents.take m = _
    rw [contents, List.take_append, length_header,
      List.take_of_length_le ((length_header _ _).trans_le hlow)]
  have hcut : (CFile.advance (fopen (w.contents.take m)) 8).rest.length < 4 := by
    have hmore := rest_advance_append _ hrest
    rw [length_header] at hmore
    rw [hmore, List.length_take]
    omega
  have hknown := w.size_lt
  have hsize := w.toNat_size
  have hunknown : ¬ (w.size = 0 ∨ w.size ≥ 0x7fff0000) := by
    rintro (hzero | hlarge)
    · rw [hzero, UInt32.toNat_zero] at hsize
      omega
    · exact absurd hknown (UInt32.not_lt.mpr hlarge)
  have hlong : ¬ skipped w.size < 4 := by
    rw [skipped, if_neg hunknown, UInt32.lt_iff_toNat_lt, hsize]
    exact Nat.not_lt.mpr (Nat.le_add_right 4 _)
  rcases @chunk_form_cut (enoughFuel (w.contents.take m)) _ _ hcut hlong with
    ⟨g, hchunk, hcontents, hend⟩
  have hround := @chunkBody_header (enoughFuel (w.contents.take m))
    ⟨fresh (fopen (w.contents.take m)), 0⟩ _ _ _ hrest rfl
  rw [decide_eq_false hunknown] at hchunk
  exact ⟨_, wavReadOpen_of_form_cut (hround.trans hchunk) hcontents hend,
    readsCut_nothing (Or.inr hlow) hm rfl rfl ⟨rfl, rfl, rfl, rfl, rfl, rfl⟩⟩

/-- Behind the form type, the inner loop decides. -/
theorem cut_in_body (heven : ∀ c ∈ w.front ++ w.tail, c.payload.length % 2 = 0) (hm : 12 ≤ m) :
    ∃ wr, wavReadOpen (some (w.contents.take m)) = some wr ∧ w.ReadsCut m wr := by
  rcases exists_stopped heven hm with ⟨t, ⟨f, length, hends, hfile, hend⟩, hstopped⟩
  have hfour : 4 ≤ w.size.toNat := by
    rw [w.toNat_size]
    exact Nat.le_add_right 4 _
  have hround : ∀ fuel, chunkBody fuel ⟨fresh (fopen (w.contents.take m)), 0⟩ =
      riffChunk fuel (w.startCut m) := by
    intro fuel
    exact chunkBody_wave (contents_take hm) rfl hfour w.size_lt
  have hpos : (w.contents.take m).length ≤ f.pos := by
    have hfile' : f.contents = w.contents.take m := hfile
    rw [rest, List.drop_eq_nil_iff, hfile'] at hend
    exact hend
  have hbehind := Nat.le_trans hpos (Nat.le_add_right f.pos length.toNat)
  refine ⟨_, wavReadOpen_of_brk hround rfl hends hbehind, ?_, ?_, ?_⟩
  · rcases Nat.lt_or_ge m w.dataStart with hbefore | hbehind
    · rw [handedOut_nil (by omega) (Nat.le_of_lt hbefore)]
      exact payload_nil (hstopped.before hbefore) hstopped.streamed
    · rcases hstopped.behind hbehind with ⟨hdata, hlength⟩
      rcases rest_readerOf heven [] false with ⟨more, hrest⟩
      have hcontents : w.contents.drop w.dataStart = w.data ++ more := by
        rw [List.append_nil, rest] at hrest
        have hsame : (w.readerOf [] false).wav.contents = w.contents := List.append_nil _
        rw [hsame] at hrest
        exact hrest
      rw [payload]
      show (if t.wr.streamed then ((w.contents.take m).drop t.dataPos)
        else ((w.contents.take m).drop t.dataPos).take t.wr.dataLength.toNat) = _
      rw [hstopped.streamed, hdata, hlength, handedOut, if_neg Bool.false_ne_true,
        if_neg (by omega), List.drop_take, hcontents, List.take_take, Nat.min_comm,
        ← List.take_take, List.take_left]
  · intro h
    rcases hstopped.blank h with ⟨h₁, h₂, h₃, h₄, h₅, h₆⟩
    exact ⟨h₁, h₂, h₃, h₄, h₅, h₆⟩
  · intro h
    rcases hstopped.fields h with ⟨h₁, h₂, h₃, h₄⟩
    exact ⟨h₁, h₂, h₃, h₄⟩

/-- **A file that is cut off**, wherever that is: what requests are answered with is the data
that is there, and nothing else unless it is the length of the RIFF chunk that is cut through.
The header is read if its 'fmt ' chunk has its 16 bytes, and is blank if it has no size. -/
theorem wavReadOpen_cut (heven : ∀ c ∈ w.front ++ w.tail, c.payload.length % 2 = 0) (m : ℕ) :
    ∃ wr, wavReadOpen (some (w.contents.take m)) = some wr ∧
      (∀ lengths : List UInt32, (∀ length ∈ lengths, length.toNat < 2 ^ 31) →
        delivered wr lengths = (w.handedOut m).take (lengths.map UInt32.toNat).sum) ∧
      (m < w.fmtStart + 8 → wr.Blank) ∧ (w.fmtStart + 24 ≤ m → Describes wr w.fields) := by
  have hcases : ∃ wr, wavReadOpen (some (w.contents.take m)) = some wr ∧ w.ReadsCut m wr := by
    rcases Nat.lt_or_ge m 4 with hfour | hfour
    · exact cut_in_tag hfour
    rcases Nat.lt_or_ge m 8 with height | height
    · exact cut_in_size hfour height
    rcases Nat.lt_or_ge m 12 with htwelve | htwelve
    · exact cut_in_form height htwelve
    · exact cut_in_body heven htwelve
  rcases hcases with ⟨wr, hopen, hread⟩
  refine ⟨wr, hopen, ?_, hread.blank, hread.fields⟩
  intro lengths hsmall
  rw [delivered_eq wr hsmall, hread.payload]

/-- A file that breaks off behind the first byte of its data. -/
theorem wavReadOpen_cut_one : ∃ wr, wavReadOpen (some (evenFmtFile.contents.take
      (evenFmtFile.dataStart + 1))) = some wr ∧ delivered wr [64, 64] = [1] := by
  have heven : ∀ c ∈ evenFmtFile.front ++ evenFmtFile.tail, c.payload.length % 2 = 0 := by decide
  rcases wavReadOpen_cut heven (evenFmtFile.dataStart + 1) with ⟨wr, hopen, hdelivers, -, -⟩
  have hsmall : ∀ length ∈ [(64 : UInt32), 64], length.toNat < 2 ^ 31 := by
    intro length hmem
    have hlength : length = 64 := by simpa using hmem
    have hnat : length.toNat = 64 := congrArg UInt32.toNat hlength
    omega
  have hcut : evenFmtFile.handedOut (evenFmtFile.dataStart + 1) = [1] := by decide
  have hone := hdelivers _ hsmall
  rw [hcut] at hone
  exact ⟨wr, hopen, hone⟩

end WaveFile

end AudioProc
