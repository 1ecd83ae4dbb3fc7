import AudioProc.PadByte
import AudioProc.Requests

/-!
# Bytes behind the RIFF chunk

What a WAVE file is read as when other bytes follow its RIFF chunk, as a tag of some kind or
padding. The outer loop of `wav_read_open` goes on over them and takes them for chunks. As long
as none of them is a RIFF chunk, it touches nothing that was noted of the file, except for one
flag: a chunk whose length is 0 or from 0x7fff0000 on makes the reader a streamed one, whatever
its tag is, and a streamed reader does not stop at the end of the data.

* `KnownSizes` says of the bytes that they have no such chunk; a header of which only 4 to 7
  bytes are there is one;
* `ends_tail`: the outer loop over bytes without RIFF chunks;
* `readAlike_iff`: the bytes do not change what is read if and only if their sizes are known.
-/

namespace AudioProc

open CFile Loop Riff

namespace WavReader

/-- Bytes in which the outer loop finds no chunk of a length that it does not believe. -/
inductive KnownSizes : List UInt8 → Prop where
  | short {bytes : List UInt8} : bytes.length < 4 → KnownSizes bytes
  | chunk {id size : UInt32} {more : List UInt8} :
      0 < size → size < 0x7fff0000 → KnownSizes (more.drop size.toNat) →
      KnownSizes (header id size ++ more)

theorem knownSizes_header_iff {id size : UInt32} {more : List UInt8} :
    KnownSizes (header id size ++ more) ↔
      0 < size ∧ size < 0x7fff0000 ∧ KnownSizes (more.drop size.toNat) := by
  constructor
  · intro h
    generalize hbytes : header id size ++ more = bytes at h
    cases h with
    | short hshort =>
        rw [← hbytes, List.length_append, length_header] at hshort
        omega
    | chunk hpos hknown hmore =>
        rcases header_append_inj hbytes with ⟨-, rfl, rfl⟩
        exact ⟨hpos, hknown, hmore⟩
  · rintro ⟨hpos, hknown, hmore⟩
    exact KnownSizes.chunk hpos hknown hmore

/-- A header that is cut off has no length. -/
theorem not_knownSizes_of_cut {bytes : List UInt8} (hlow : 4 ≤ bytes.length)
    (hhigh : bytes.length < 8) : ¬ KnownSizes bytes := by
  intro h
  cases h with
  | short hshort => omega
  | chunk _ _ _ =>
      rw [List.length_append, length_header] at hhigh
      omega

/-! ## Rounds of the outer loop -/

/-- A length of which the last byte is missing is a huge one. -/
theorem readInt32_of_cut {f : CFile} (h : f.rest.length < 4) : (readInt32 f).1 ≥ 0x7fff0000 := by
  have hlast : f.fgetc.2.fgetc.2.fgetc.2.fgetc.1 = -1 := by
    have hrest : f.fgetc.2.fgetc.2.fgetc.2.rest = [] := by
      rw [rest_fgetc, rest_fgetc, rest_fgetc, List.drop_drop, List.drop_drop]
      exact List.drop_of_length_le (Nat.le_of_lt_succ h)
    rw [fgetc_of_rest_nil hrest]
  unfold readInt32
  simp only [hlast]
  rw [ge_iff_le, UInt32.le_iff_toNat_le, UInt32.toNat_or]
  exact Nat.le_trans (by decide) Nat.right_le_or

section

variable {fuel : ℕ} {s : Walk}

/-- How far the outer loop skips for a length. -/
def skipped (length : UInt32) : UInt32 :=
  if length = 0 ∨ length ≥ 0x7fff0000 then 0xffffffff else length

/-- A chunk that is not a RIFF chunk is skipped. -/
theorem chunk_other {id length : UInt32} (h : id ≠ tag 'R' 'I' 'F' 'F') :
    chunk fuel s id length = some (.next { s with
      wr := { s.wr with
        wav := s.wr.wav.fseekCur (skipped length).toNat
        streamed := s.wr.streamed || decide (length = 0 ∨ length ≥ 0x7fff0000) } }) := by
  have hother : ∀ len : UInt32, id ≠ tag 'R' 'I' 'F' 'F' ∨ len < 4 := fun _ => Or.inl h
  unfold chunk skipped
  simp only [if_pos (hother _), decide_eq_true_eq]

/-- Behind a header of which only 4 to 7 bytes are there. -/
theorem chunkBody_cut {T : List UInt8} (hrest : s.wr.wav.rest = T) (heof : s.wr.wav.eof = false)
    (hT : ¬ fourcc (tag 'R' 'I' 'F' 'F') <:+: T) (hlow : 4 ≤ T.length) (hhigh : T.length < 8) :
    ∃ g : CFile, chunkBody fuel s =
        some (.next { s with wr := { s.wr with wav := g, streamed := true } }) ∧
      g.contents = s.wr.wav.contents ∧ g.eof = false ∧ g.rest = [] := by
  rcases exists_fourcc hlow with ⟨id, more, rfl⟩
  have hid : id ≠ tag 'R' 'I' 'F' 'F' := by
    rintro rfl
    exact hT (List.prefix_append _ _).isInfix
  have htag := readTag_of_rest hrest
  have hmore : (s.wr.wav.advance 4).rest = more := by
    rw [← length_fourcc id]
    exact rest_advance_append _ hrest
  have hshort : (s.wr.wav.advance 4).rest.length < 4 := by
    rw [List.length_append, length_fourcc] at hhigh
    rw [hmore]
    omega
  have hhuge := readInt32_of_cut hshort
  have hforward := forward_readInt32 (s.wr.wav.advance 4)
  refine ⟨(readInt32 (s.wr.wav.advance 4)).2.fseekCur 0xffffffff, ?_, hforward.contents, rfl, ?_⟩
  · unfold chunkBody
    rw [htag]
    simp only [advance_eof, heof, Bool.false_eq_true, if_false]
    rw [chunk_other hid, skipped, if_pos (Or.inr hhuge), decide_eq_true (Or.inr hhuge),
      Bool.or_true]
    rfl
  · -- the seek leads far behind the end
    apply List.drop_of_length_le
    have hpos := hforward.pos_le
    have hcontents := hforward.contents
    rw [advance_pos] at hpos
    rw [advance_contents] at hcontents
    rw [rest_advance, List.length_drop, rest, List.length_drop] at hshort
    show (readInt32 (s.wr.wav.advance 4)).2.contents.length ≤
      (readInt32 (s.wr.wav.advance 4)).2.pos + 0xffffffff
    rw [hcontents]
    omega

theorem not_knownSizes_header_iff {id size : UInt32} {more : List UInt8} :
    ¬ KnownSizes (header id size ++ more) ↔
      (size = 0 ∨ size ≥ 0x7fff0000) ∨ ¬ KnownSizes (more.drop (skipped size).toNat) := by
  rw [knownSizes_header_iff]
  by_cases hunknown : size = 0 ∨ size ≥ 0x7fff0000
  · constructor
    · intro _
      exact Or.inl hunknown
    · rintro - ⟨hpos, hknown, -⟩
      rcases hunknown with rfl | hlarge
      · exact absurd hpos (by decide)
      · exact absurd hknown (UInt32.not_lt.mpr hlarge)
  · have hsame : skipped size = size := if_neg hunknown
    have hpos : 0 < size := UInt32.pos_iff_ne_zero.mpr fun hzero => hunknown (Or.inl hzero)
    have hknown : size < 0x7fff0000 := UInt32.not_le.mp fun hlarge => hunknown (Or.inr hlarge)
    rw [hsame]
    constructor
    · intro hnot
      exact Or.inr fun htail => hnot ⟨hpos, hknown, htail⟩
    · rintro (hbad | hnot)
      · exact absurd hbad hunknown
      · exact fun hall => hnot hall.2.2

/-- Behind a header that is there, and no RIFF header. -/
theorem chunkBody_whole {id size : UInt32} {more : List UInt8}
    (hrest : s.wr.wav.rest = header id size ++ more) (heof : s.wr.wav.eof = false)
    (hid : id ≠ tag 'R' 'I' 'F' 'F') :
    ∃ g : CFile, chunkBody fuel s = some (.next { s with wr := { s.wr with
        wav := g
        streamed := s.wr.streamed || decide (size = 0 ∨ size ≥ 0x7fff0000) } }) ∧
      g.contents = s.wr.wav.contents ∧ g.eof = false ∧
      g.rest = more.drop (skipped size).toNat := by
  refine ⟨(s.wr.wav.advance 8).fseekCur (skipped size).toNat, ?_, rfl, rfl, ?_⟩
  · rw [chunkBody_header hrest heof, chunk_other hid]
  · have hmore : (s.wr.wav.advance 8).rest = more := by
      rw [← length_header id size]
      exact rest_advance_append _ hrest
    rw [← hmore, rest, rest, List.drop_drop]
    rfl

/-- **A round of the outer loop** over bytes in which no RIFF chunk can be found. -/
theorem chunkBody_tail {T : List UInt8} (hrest : s.wr.wav.rest = T)
    (heof : s.wr.wav.eof = false) (hT : ¬ fourcc (tag 'R' 'I' 'F' 'F') <:+: T)
    (hlong : 4 ≤ T.length) :
    ∃ (g : CFile) (b : Bool) (k : ℕ), chunkBody fuel s = some (.next { s with
        wr := { s.wr with wav := g, streamed := s.wr.streamed || b } }) ∧
      g.contents = s.wr.wav.contents ∧ g.eof = false ∧ 4 ≤ k ∧ g.rest = T.drop k ∧
      (¬ KnownSizes T ↔ b = true ∨ ¬ KnownSizes (T.drop k)) := by
  by_cases hcut : T.length < 8
  · rcases chunkBody_cut hrest heof hT hlong hcut with ⟨g, hround, hcontents, hclear, hend⟩
    refine ⟨g, true, T.length, ?_, hcontents, hclear, hlong, ?_, ?_⟩
    · rw [hround, Bool.or_true]
    · rw [hend, List.drop_length]
    · constructor
      · intro _
        exact Or.inl rfl
      · intro _
        exact not_knownSizes_of_cut hlong hcut
  · rcases exists_header (Nat.not_lt.mp hcut) with ⟨id, size, more, rfl⟩
    have hid : id ≠ tag 'R' 'I' 'F' 'F' := by
      rintro rfl
      apply hT
      rw [header, List.append_assoc]
      exact (List.prefix_append _ _).isInfix
    rcases chunkBody_whole hrest heof hid with ⟨g, hround, hcontents, hclear, hbehind⟩
    have hdrop : (header id size ++ more).drop (8 + (skipped size).toNat) =
        more.drop (skipped size).toNat := by
      rw [← List.drop_drop, ← length_header id size, List.drop_left]
    refine ⟨g, _, 8 + (skipped size).toNat, hround, hcontents, hclear,
      Nat.le_add_right_of_le (by decide), ?_, ?_⟩
    · rw [hbehind, hdrop]
    · rw [hdrop, decide_eq_true_eq]
      exact not_knownSizes_header_iff

/-- **The outer loop** over bytes in which no RIFF chunk can be found. -/
theorem ends_tail {T : List UInt8} (hrest : s.wr.wav.rest = T) (heof : s.wr.wav.eof = false)
    (hT : ¬ fourcc (tag 'R' 'I' 'F' 'F') <:+: T) :
    ∃ t : Walk, Ends (chunkBody fuel) s (.inl t) ∧ t.dataPos = s.dataPos ∧
      t.wr.wav.contents = s.wr.wav.contents ∧
      t.wr = { s.wr with wav := t.wr.wav, streamed := t.wr.streamed } ∧
      (t.wr.streamed = true ↔ s.wr.streamed = true ∨ ¬ KnownSizes T) := by
  -- every round takes at least a tag, and what is behind it has no RIFF chunk either
  induction hn : T.length using Nat.strongRecOn generalizing s T with
  | ind n ih =>
      by_cases hshort : T.length < 4
      · refine ⟨_, ends_brk (chunkBody_short (hrest ▸ hshort)), rfl,
          (forward_readTag _).contents, rfl, ?_⟩
        constructor
        · intro hset
          exact Or.inl hset
        · rintro (hset | hnot)
          · exact hset
          · exact absurd (KnownSizes.short hshort) hnot
      · rcases @chunkBody_tail fuel s T hrest heof hT (Nat.not_lt.mp hshort) with
          ⟨g, b, k, hround, hcontents, hclear, hk, hbehind, hiff⟩
        have hless : (T.drop k).length < n := by
          rw [List.length_drop]
          omega
        have hfree : ¬ fourcc (tag 'R' 'I' 'F' 'F') <:+: T.drop k := by
          intro hfound
          exact hT (hfound.trans (List.drop_suffix k T).isInfix)
        rcases ih _ hless (s := { s with wr := { s.wr with
            wav := g, streamed := s.wr.streamed || b } }) hbehind hclear hfree rfl with
          ⟨t, hends, hdata, hfile, hfields, hflag⟩
        refine ⟨t, Ends.next hround hends, hdata, hfile.trans hcontents, hfields, ?_⟩
        rw [hflag, hiff, Bool.or_eq_true, or_assoc]

end

/-! ## What is read of a file -/

/-- Two readers report the same header and the same length of the data, and deliver the same
bytes to every sequence of requests. -/
structure Alike (wr wr' : WavReader) : Prop where
  format : wr'.format = wr.format
  channels : wr'.channels = wr.channels
  sampleRate : wr'.sampleRate = wr.sampleRate
  bitsPerSample : wr'.bitsPerSample = wr.bitsPerSample
  dataLength : wr'.dataLength = wr.dataLength
  delivers : ∀ lengths : List UInt32, delivered wr' lengths = delivered wr lengths

/-- Two files are opened and read alike. -/
def ReadAlike (contents contents' : List UInt8) : Prop :=
  ∃ wr wr', wavReadOpen (some contents) = some wr ∧ wavReadOpen (some contents') = some wr' ∧
    Alike wr wr'

/-- What is delivered is what the requests are answered with. -/
theorem delivered_eq_answers (wr : WavReader) (lengths : List UInt32) :
    delivered wr lengths = (answers wr lengths).flatMap fun a => a.2.take a.1.toNat := by
  induction lengths generalizing wr with
  | nil => rfl
  | cons length lengths ih =>
      rw [delivered, ih]
      rfl

end WavReader

namespace WaveFile

open WavReader

variable {w : WaveFile}

/-- The inner loop at the end of a RIFF chunk without pad bytes, from where it was in front of
the first sub-chunk. -/
def toEnd (w : WaveFile) (s : RiffWalk) : RiffWalk :=
  (((w.toData s).withData w.dataChunk.size).advance w.dataChunk.bytes.length).advance
    (w.after.flatMap PaddedChunk.padded).length

theorem ends_even {s : RiffWalk} {post : List UInt8} (hat : s.At w.body post)
    (heven : ∀ c ∈ w.front ++ w.tail, c.payload.length % 2 = 0)
    (hstreamed : s.wr.streamed = false) :
    (w.toEnd s).At [] post ∧ InnerEnds s (.inl (w.toEnd s)) := by
  have hfront : ∀ c ∈ w.front, c.payload.length % 2 = 0 := by
    intro c hc
    exact heven c (List.mem_append_left _ hc)
  have hdata : w.dataChunk.payload.length % 2 = 0 := by
    apply heven
    exact List.mem_append_right _ List.mem_cons_self
  have hafter : ∀ c ∈ w.after, c.payload.length % 2 = 0 := by
    intro c hc
    exact heven c (List.mem_append_right _ (List.mem_cons_of_mem _ hc))
  rcases ends_data_of_at hat hfront hstreamed with ⟨hbehind, hends⟩
  rw [PaddedChunk.padding_of_even hdata, List.nil_append, ← List.append_nil
    (w.after.flatMap PaddedChunk.padded)] at hbehind
  have hend : (w.toEnd s).At [] post := hbehind.passed rfl rfl
  refine ⟨hend, hends _ (ends_others hbehind (fun c hc => w.others c (by simp [hc])) hafter ?_ ?_)⟩
  · -- `skip` takes an `int`, which the length of the whole chunk fits into
    have hknown := w.known
    have hbody := congrArg List.length w.body_eq
    simp only [List.length_append] at hbody
    rw [hbehind.length, List.length_append, List.length_nil]
    omega
  · apply ends_short
    show (w.toEnd s).length.toNat < 8
    rw [hend.length]
    exact Nat.zero_lt_succ 7

/-- Nothing is left to the seek behind the inner loop. -/
theorem leave_of_at {t : RiffWalk} {post : List UInt8} (h : t.At [] post) :
    t.leave = t.toWalk := by
  have hzero : ¬ t.length > 0 := by
    rw [gt_iff_lt, UInt32.lt_iff_toNat_lt, h.length]
    exact Nat.lt_irrefl 0
  unfold RiffWalk.leave
  rw [if_neg hzero]

/-- The inner loop in front of the first sub-chunk, with other bytes behind the RIFF chunk. -/
def startBefore (w : WaveFile) (T : List UInt8) : RiffWalk :=
  Walk.enter ⟨fresh (fopen (w.contents ++ T)), 0⟩ (w.size - 4)

theorem rest_fopen (w : WaveFile) (T : List UInt8) :
    (fopen (w.contents ++ T)).rest = header (tag 'R' 'I' 'F' 'F') w.size ++
      (fourcc (tag 'W' 'A' 'V' 'E') ++ (w.body ++ T)) := by
  show w.contents ++ T = _
  simp only [contents, List.append_assoc]

theorem startBefore_at (w : WaveFile) (T : List UInt8) : (w.startBefore T).At w.body T :=
  at_enter (w.rest_fopen T) rfl w.toNat_size

/-- The reader of a file without pad bytes, with other bytes behind it. -/
def readerOf (w : WaveFile) (T : List UInt8) (streamed : Bool) : WavReader :=
  { (fresh (fopen (w.contents ++ T))).withFmt w.fields with
    wav := ⟨w.contents ++ T, 12 + w.frontLength + 8, false⟩
    dataLength := w.dataChunk.size
    streamed := streamed }

section

variable (heven : ∀ c ∈ w.front ++ w.tail, c.payload.length % 2 = 0) {T : List UInt8}
include heven

theorem wavReadOpen_append (hT : ¬ fourcc (tag 'R' 'I' 'F' 'F') <:+: T) :
    ∃ b : Bool, (b = true ↔ ¬ KnownSizes T) ∧
      wavReadOpen (some (w.contents ++ T)) = some (w.readerOf T b) := by
  have hfour : 4 ≤ w.size.toNat := by
    rw [w.toNat_size]
    exact Nat.le_add_right 4 _
  rcases ends_even (w.startBefore_at T) heven rfl with ⟨hend, hinner⟩
  have hround : chunkBody (enoughFuel (w.contents ++ T)) ⟨fresh (fopen (w.contents ++ T)), 0⟩ =
      some (.next (w.toEnd (w.startBefore T)).toWalk) := by
    rw [chunkBody_wave (w.rest_fopen T) rfl hfour w.size_lt, ← leave_of_at hend]
    exact riffChunk_of_brk (remaining_lt_enoughFuel rfl) hinner
  -- the outer loop goes on behind the RIFF chunk
  rcases ends_tail hend.rest hend.eof hT with ⟨t, hends, hdata, hfile, hfields, hflag⟩
  refine ⟨t.wr.streamed, ?_, ?_⟩
  · rw [hflag]
    constructor
    · rintro (hset | hnot)
      · exact absurd hset Bool.false_ne_true
      · exact hnot
    · intro hnot
      exact Or.inr hnot
  · have hseek : t.wr.wav.fseekSet t.dataPos =
        ⟨w.contents ++ T, 12 + w.frontLength + 8, false⟩ := by
      rw [fseekSet, hfile, hdata]
      rfl
    rw [wavReadOpen_of_ends (Ends.next hround hends)]
    simp only
    rw [hseek, hfields]
    rfl

/-- Chunks of known sizes leave the reader what it is. -/
theorem wavReadOpen_append_known (hT : ¬ fourcc (tag 'R' 'I' 'F' 'F') <:+: T)
    (h : KnownSizes T) : wavReadOpen (some (w.contents ++ T)) = some (w.readerOf T false) := by
  rcases wavReadOpen_append heven hT with ⟨b, hb, hopen⟩
  have hfalse : b = false := by
    rw [← Bool.not_eq_true, hb, not_not]
    exact h
  rwa [hfalse] at hopen

/-- The file alone. -/
theorem wavReadOpen_alone : wavReadOpen (some w.contents) = some (w.readerOf [] false) := by
  have hnone : ¬ fourcc (tag 'R' 'I' 'F' 'F') <:+: [] := by decide
  have hopen := wavReadOpen_append_known heven hnone (KnownSizes.short (Nat.zero_lt_succ 3))
  rwa [List.append_nil] at hopen

/-- The data, and what follows it. -/
theorem rest_readerOf (T : List UInt8) (b : Bool) :
    ∃ more, (w.readerOf T b).wav.rest = w.data ++ (more ++ T) := by
  have hdata := (ends_front_of_at (w.startBefore_at T)
    fun c hc => heven c (List.mem_append_left _ hc)).1
  rw [PaddedChunk.padded, List.append_assoc] at hdata
  exact ⟨_, hdata.ahead.rest_payload⟩

omit heven in
theorem length_data_lt (w : WaveFile) : w.data.length + 1 < 2 ^ 31 := by
  have hknown := w.known
  have hbody := congrArg List.length w.body_eq
  have hpayload : w.dataChunk.payload.length = w.data.length := rfl
  simp only [List.length_append, PaddedChunk.length_padded] at hbody
  omega

/-- A reader that is not a streamed one stops at the end of the data. -/
theorem payload_readerOf (T : List UInt8) : (w.readerOf T false).payload = w.data := by
  rcases rest_readerOf heven T false with ⟨more, hrest⟩
  have hsize : (w.readerOf T false).dataLength.toNat = w.data.length := by
    have hsmall := w.length_data_lt
    apply Chunk.toNat_size
    show w.data.length < 2 ^ 32
    omega
  unfold payload
  rw [hrest, hsize, List.take_left]
  rfl

/-- A streamed one goes on to the end of the file. -/
theorem payload_readerOf_streamed (T : List UInt8) :
    ∃ more, (w.readerOf T true).payload = w.data ++ (more ++ T) := by
  rcases rest_readerOf heven T true with ⟨more, hrest⟩
  exact ⟨more, hrest⟩

theorem readAlike_of_known (hT : ¬ fourcc (tag 'R' 'I' 'F' 'F') <:+: T) (h : KnownSizes T) :
    ReadAlike w.contents (w.contents ++ T) := by
  refine ⟨_, _, wavReadOpen_alone heven, wavReadOpen_append_known heven hT h, rfl, rfl, rfl, rfl, rfl, ?_⟩
  intro lengths
  -- both readers hand out the data, and no answer is too large for an `int`
  have hsmall := w.length_data_lt
  have hint : ∀ T : List UInt8, ∀ length ∈ lengths,
      min length.toNat (w.readerOf T false).payload.length < 2 ^ 31 := by
    intro T length _
    rw [payload_readerOf heven]
    omega
  rw [delivered_eq_answers, delivered_eq_answers, answers_eq (hint T), answers_eq (hint []),
    payload_readerOf heven, payload_readerOf heven]

/-- Asked for one byte more than the data has, the streamed reader delivers it. -/
theorem not_readAlike (hT : ¬ fourcc (tag 'R' 'I' 'F' 'F') <:+: T) (h : ¬ KnownSizes T) :
    ¬ ReadAlike w.contents (w.contents ++ T) := by
  rintro ⟨wr, wr', hwr, hwr', halike⟩
  rcases wavReadOpen_append heven hT with ⟨b, hb, hopen⟩
  rcases hb.mpr h with rfl
  rw [wavReadOpen_alone heven] at hwr
  rw [hopen] at hwr'
  rcases Option.some.inj hwr with rfl
  rcases Option.some.inj hwr' with rfl
  have hsmall := w.length_data_lt
  have hn : (UInt32.ofNat (w.data.length + 1)).toNat = w.data.length + 1 := by
    rw [UInt32.toNat_ofNat']
    exact Nat.mod_eq_of_lt (by omega)
  have hint : ∀ length ∈ [UInt32.ofNat (w.data.length + 1)], length.toNat < 2 ^ 31 := by
    intro length hmem
    rw [List.mem_singleton.mp hmem, hn]
    exact hsmall
  -- there is a byte behind the data to deliver
  have hlong : 4 ≤ T.length := by
    by_contra hshort
    exact h (KnownSizes.short (Nat.not_le.mp hshort))
  have hsame := congrArg List.length (halike.delivers [UInt32.ofNat (w.data.length + 1)])
  rcases payload_readerOf_streamed heven T with ⟨more, hpayload⟩
  rw [delivered_eq _ hint, delivered_eq _ hint, hpayload, payload_readerOf heven,
    List.map_singleton, List.sum_singleton, hn, List.length_take, List.length_take,
    List.length_append, List.length_append] at hsame
  omega

/-- **Bytes behind the RIFF chunk**, none of them the start of a RIFF chunk, do not change what
is read if and only if their sizes are known. -/
theorem readAlike_iff (hT : ¬ fourcc (tag 'R' 'I' 'F' 'F') <:+: T) :
    ReadAlike w.contents (w.contents ++ T) ↔ KnownSizes T := by
  constructor
  · intro halike
    by_contra hnot
    exact not_readAlike heven hT hnot halike
  · exact readAlike_of_known heven hT

end

/-- A chunk of two bytes behind the file does no harm. -/
theorem readAlike_iff_chunk :
    ReadAlike evenFmtFile.contents (evenFmtFile.contents ++
      (header (tag 'L' 'I' 'S' 'T') 2 ++ [1, 2])) := by
  refine (readAlike_iff (by decide) (by decide)).mpr (KnownSizes.chunk (by decide) (by decide) ?_)
  exact KnownSizes.short (by decide)

/-- Four zeros do. -/
theorem not_readAlike_zeros :
    ¬ ∀ (w : WaveFile) (T : List UInt8), (∀ c ∈ w.front ++ w.tail, c.payload.length % 2 = 0) →
      ¬ fourcc (tag 'R' 'I' 'F' 'F') <:+: T → ReadAlike w.contents (w.contents ++ T) := by
  intro h
  have hcut : ¬ KnownSizes [0, 0, 0, 0] := not_knownSizes_of_cut (by decide) (by decide)
  have hfree : ¬ fourcc (tag 'R' 'I' 'F' 'F') <:+: [0, 0, 0, 0] := by decide
  have heven : ∀ c ∈ evenFmtFile.front ++ evenFmtFile.tail, c.payload.length % 2 = 0 := by decide
  exact not_readAlike heven hfree hcut (h evenFmtFile _ heven hfree)

end WaveFile

end AudioProc
