import AudioProc.MalformedRiff

/-!
# Well-formed WAVE files

Files of one RIFF chunk of the form type 'WAVE', in which a 'fmt ' chunk comes before a
'data' chunk and other chunks stand anywhere.

`InStep` says where the missing treatment of pad bytes does no harm: in front of the data no
chunk is padded, and behind it either no chunk but the last is, or the bytes are `Quiet`, so
that it does not matter how they are cut into chunks. Such a file is understood
(`understood_of_inStep`): the header fields are reported and the data is handed out.
-/

namespace AudioProc

open CFile Loop Riff

namespace WavReader

/-! ## Runs of sub-chunks -/

variable {s : RiffWalk} {cs : List PaddedChunk}

/-- Chunks of even size that are neither 'fmt ' nor 'data' are passed over. -/
theorem ends_others {body post : List UInt8} {e : RiffWalk ⊕ WavReader}
    (hat : s.At (cs.flatMap PaddedChunk.padded ++ body) post)
    (hother : ∀ c ∈ cs, c.id ≠ tag 'f' 'm' 't' ' ' ∧ c.id ≠ tag 'd' 'a' 't' 'a')
    (heven : ∀ c ∈ cs, c.payload.length % 2 = 0) (hsmall : s.length.toNat < 2 ^ 31)
    (h : InnerEnds (s.advance (cs.flatMap PaddedChunk.padded).length) e) : InnerEnds s e := by
  induction cs generalizing s with
  | nil =>
      rw [List.flatMap_nil, List.length_nil, RiffWalk.advance_zero] at h
      exact h
  | cons c cs ih =>
      rw [List.flatMap_cons, PaddedChunk.padded_of_even (heven c (by simp))] at h hat
      rw [List.append_assoc] at hat
      have hsize := hat.ahead.fits
      rw [Chunk.length_bytes] at hsize
      have hid := hother c (by simp)
      refine InnerEnds.next (riffBody_other hat.ahead hid.1 hid.2 (by omega)) ?_
      refine ih (hat.passed rfl rfl) (fun d hd => hother d (by simp [hd]))
        (fun d hd => heven d (by simp [hd])) ?_ ?_
      · rw [RiffWalk.length_advance hat.ahead.fits]
        omega
      · rw [RiffWalk.advance_advance, ← List.length_append]
        exact h

/-- Where they are the last chunks, the last one may be of odd size. -/
theorem ends_last {post : List UInt8} (hat : s.At (cs.flatMap PaddedChunk.padded) post)
    (hother : ∀ c ∈ cs, c.id ≠ tag 'f' 'm' 't' ' ' ∧ c.id ≠ tag 'd' 'a' 't' 'a')
    (heven : ∀ c ∈ cs.dropLast, c.payload.length % 2 = 0) (hsmall : s.length.toNat < 2 ^ 31) :
    ∃ k ≤ s.length.toNat, InnerEnds s (.inl (s.advance k)) := by
  rcases List.eq_nil_or_concat cs with rfl | ⟨init, c, rfl⟩
  · refine ⟨0, Nat.zero_le _, ?_⟩
    rw [RiffWalk.advance_zero]
    apply ends_short
    rw [hat.length]
    exact Nat.zero_lt_succ 7
  · rw [List.concat_eq_append] at hat hother heven
    rw [List.dropLast_concat] at heven
    rw [List.flatMap_append, List.flatMap_singleton, PaddedChunk.padded] at hat
    have hlast := hat.passed (t := s.advance (init.flatMap PaddedChunk.padded).length) rfl rfl
    have hid := hother c (by simp)
    have hfits := hlast.ahead.fits
    have hlength := hat.length
    rw [List.length_append, List.length_append] at hlength
    have hsize := Chunk.length_bytes c.toChunk
    have hpad := c.length_padding_le
    refine ⟨(init.flatMap PaddedChunk.padded).length + c.bytes.length, by omega, ?_⟩
    refine ends_others hat (fun d hd => hother d (by simp [hd])) heven hsmall ?_
    rw [← RiffWalk.advance_advance]
    refine InnerEnds.next (riffBody_other hlast.ahead hid.1 hid.2 (by omega)) ?_
    -- at most the pad byte is left
    apply ends_short
    rw [RiffWalk.length_advance hfits, hlast.length, List.length_append]
    omega

/-- Bytes in which no 'fmt ' and no 'data' chunk can be found, wherever one looks. -/
structure Quiet (body : List UInt8) : Prop where
  fmt : ¬ fourcc (tag 'f' 'm' 't' ' ') <:+: body
  data : ¬ fourcc (tag 'd' 'a' 't' 'a') <:+: body

theorem Quiet.suffix {front body : List UInt8} (h : Quiet (front ++ body)) : Quiet body where
  fmt := fun hfound => h.fmt (hfound.trans (List.suffix_append front body).isInfix)
  data := fun hfound => h.data (hfound.trans (List.suffix_append front body).isInfix)

theorem Quiet.id_ne {c : Chunk} {more : List UInt8} (h : Quiet (c.bytes ++ more)) :
    c.id ≠ tag 'f' 'm' 't' ' ' ∧ c.id ≠ tag 'd' 'a' 't' 'a' := by
  have hfound : fourcc c.id <:+: c.bytes ++ more := by
    rw [Chunk.bytes, header, List.append_assoc, List.append_assoc]
    exact (List.prefix_append _ _).isInfix
  constructor
  · intro hid
    exact h.fmt (hid ▸ hfound)
  · intro hid
    exact h.data (hid ▸ hfound)

/-- Quiet bytes are walked through in whatever steps. -/
theorem ends_quiet {s : RiffWalk} {body post : List UInt8} (hat : s.At body post)
    (hquiet : Quiet body) (hsmall : s.length.toNat < 2 ^ 31) :
    ∃ k ≤ s.length.toNat, InnerEnds s (.inl (s.advance k)) := by
  induction hn : body.length using Nat.strongRecOn generalizing s body with
  | ind n ih =>
      by_cases hshort : body.length < 8
      · refine ⟨0, Nat.zero_le _, ?_⟩
        rw [RiffWalk.advance_zero]
        apply ends_short
        rw [hat.length]
        exact hshort
      rcases exists_header (Nat.not_lt.mp hshort) with ⟨id, size, more, rfl⟩
      by_cases hover : more.length < size.toNat
      · refine ⟨8, ?_, innerEnds_brk (riffBody_oversized hat hover)⟩
        rw [hat.length]
        exact Nat.not_lt.mp hshort
      · rcases exists_chunk id (Nat.not_lt.mp hover) with ⟨c, body, hbody⟩
        rw [hbody] at hat hquiet hn
        have hfits := hat.ahead.fits
        have hsize := Chunk.length_bytes c
        have hround := riffBody_other hat.ahead hquiet.id_ne.1 hquiet.id_ne.2 (by omega)
        have hlength := RiffWalk.length_advance hfits
        rw [List.length_append] at hn
        rcases ih body.length (by omega) (hat.passed rfl rfl) hquiet.suffix (by omega) rfl with
          ⟨k, hk, hends⟩
        rw [RiffWalk.advance_advance] at hends
        exact ⟨c.bytes.length + k, by omega, InnerEnds.next hround hends⟩

end WavReader

open WavReader

/-! ## Files -/

/-- The chunks of a WAVE file. -/
structure WaveChunks where
  before : List PaddedChunk
  fields : FmtFields
  extra : List UInt8
  fmtPad : UInt8
  between : List PaddedChunk
  data : List UInt8
  dataPad : UInt8
  after : List PaddedChunk

namespace WaveChunks

def fmtChunk (w : WaveChunks) : PaddedChunk where
  toChunk := fmtOf w.fields w.extra
  pad := w.fmtPad

def dataChunk (w : WaveChunks) : PaddedChunk where
  toChunk := dataOf w.data
  pad := w.dataPad

/-- The chunks in front of the data. -/
def front (w : WaveChunks) : List PaddedChunk := w.before ++ w.fmtChunk :: w.between

/-- The chunks from the data on. -/
def tail (w : WaveChunks) : List PaddedChunk := w.dataChunk :: w.after

/-- What stands behind the form type. -/
def body (w : WaveChunks) : List UInt8 := (w.front ++ w.tail).flatMap PaddedChunk.padded

end WaveChunks

/-- A well-formed WAVE file: the other chunks are neither 'fmt ' nor 'data' chunks, the format
is not the extensible one, the data is not empty, and the size of the RIFF chunk is a known
one. -/
structure WaveFile extends WaveChunks where
  others : ∀ c ∈ before ++ between ++ after,
    c.id ≠ tag 'f' 'm' 't' ' ' ∧ c.id ≠ tag 'd' 'a' 't' 'a'
  plain : fields.format ≠ 0xfffe
  nonempty : data ≠ []
  known : 4 + toWaveChunks.body.length < 0x7fff0000

namespace WaveFile

/-- The size of the RIFF chunk. -/
def size (w : WaveFile) : UInt32 := UInt32.ofNat (4 + w.body.length)

def contents (w : WaveFile) : List UInt8 :=
  header (tag 'R' 'I' 'F' 'F') w.size ++ (fourcc (tag 'W' 'A' 'V' 'E') ++ w.body)

/-- A reader reports what the file says, and hands out its data. -/
structure Reports (w : WaveFile) (wr : WavReader) : Prop extends Describes wr w.fields where
  dataLength : wr.dataLength.toNat = w.data.length
  delivers : ∀ lengths : List UInt32, (∀ length ∈ lengths, length.toNat < 2 ^ 31) →
    w.data.length ≤ (lengths.map UInt32.toNat).sum → delivered wr lengths = w.data

def Understood (w : WaveFile) : Prop :=
  ∃ wr, wavReadOpen (some w.contents) = some wr ∧ w.Reports wr

/-- From the data on no chunk but the last is padded, or nothing can be found behind it. -/
def InStepBehind (w : WaveFile) : Prop :=
  (∀ c ∈ w.tail.dropLast, c.payload.length % 2 = 0) ∨
    Quiet (w.dataChunk.padding ++ w.after.flatMap PaddedChunk.padded)

/-- The pad bytes that the file has do no harm. -/
structure InStep (w : WaveFile) : Prop where
  front : ∀ c ∈ w.front, c.payload.length % 2 = 0
  behind : w.InStepBehind

variable {w : WaveFile}

theorem toNat_size (w : WaveFile) : w.size.toNat = 4 + w.body.length := by
  have hknown := w.known
  rw [size, UInt32.toNat_ofNat']
  exact Nat.mod_eq_of_lt (by omega)

theorem size_lt (w : WaveFile) : w.size < 0x7fff0000 := by
  rw [UInt32.lt_iff_toNat_lt, toNat_size]
  exact w.known

/-- The inner loop in front of the first chunk. -/
def start (w : WaveFile) : RiffWalk := Walk.enter ⟨fresh (fopen w.contents), 0⟩ (w.size - 4)

theorem start_at (w : WaveFile) : w.start.At w.body [] := by
  refine at_enter ?_ rfl w.toNat_size
  rw [List.append_nil]
  rfl

theorem chunkBody_start (w : WaveFile) (fuel : ℕ) :
    chunkBody fuel ⟨fresh (fopen w.contents), 0⟩ = riffChunk fuel w.start := by
  refine @chunkBody_wave fuel _ w.size w.body rfl rfl ?_ w.size_lt
  rw [toNat_size]
  exact Nat.le_add_right 4 _

theorem start_length_lt (w : WaveFile) : w.start.length.toNat < 2 ^ 31 := by
  have hknown := w.known
  rw [w.start_at.length]
  omega

theorem body_eq (w : WaveFile) :
    w.body = w.before.flatMap PaddedChunk.padded ++ (w.fmtChunk.padded ++
      (w.between.flatMap PaddedChunk.padded ++ (w.dataChunk.padded ++
        w.after.flatMap PaddedChunk.padded))) := by
  simp only [WaveChunks.body, WaveChunks.front, WaveChunks.tail, List.flatMap_append,
    List.flatMap_cons, List.append_assoc]

/-! ## The walk through a file -/

/-- The length of the chunks in front of the data. -/
def frontLength (w : WaveFile) : ℕ :=
  (w.before.flatMap PaddedChunk.padded).length + w.fmtChunk.bytes.length +
    (w.between.flatMap PaddedChunk.padded).length

/-- The inner loop in front of the 'data' chunk, from where it was in front of the first one. -/
def toData (w : WaveFile) (s : RiffWalk) : RiffWalk :=
  (s.withFmt w.fields).advance w.frontLength

/-- The inner loop in front of the 'data' chunk. -/
def atData (w : WaveFile) : RiffWalk := (w.start.withFmt w.fields).advance w.frontLength

/-- The chunks in front of the data are passed over, whatever stands behind the RIFF chunk. -/
theorem ends_front_of_at {s : RiffWalk} {post : List UInt8} (hat : s.At w.body post)
    (h : ∀ c ∈ w.front, c.payload.length % 2 = 0) :
    (w.toData s).At (w.dataChunk.padded ++ w.after.flatMap PaddedChunk.padded) post ∧
      ∀ e, InnerEnds (w.toData s) e → InnerEnds s e := by
  have hsmall : s.length.toNat < 2 ^ 31 := by
    have hknown := w.known
    rw [hat.length]
    omega
  have hbefore := hat
  rw [body_eq, PaddedChunk.padded_of_even (h w.fmtChunk (by simp [WaveChunks.front]))] at hbefore
  -- where the walk stands in front of the fmt chunk and behind it; the chunks in front of the
  -- fmt chunk change no field, so that `withFmt` can be written first
  have hfmt := hbefore.passed
    (t := s.advance (w.before.flatMap PaddedChunk.padded).length) rfl rfl
  have hbetween := hfmt.passed
    (t := ((s.withFmt w.fields).advance (w.before.flatMap PaddedChunk.padded).length).advance
      w.fmtChunk.bytes.length) rfl rfl
  have hlength := hbefore.length
  have hlength₁ := hfmt.length
  have hlength₂ := hbetween.length
  have hsize := Chunk.length_bytes w.fmtChunk.toChunk
  simp only [List.length_append] at hlength hlength₁ hlength₂
  rw [RiffWalk.advance_advance] at hbetween
  have hdata : w.toData s = ((s.withFmt w.fields).advance
      ((w.before.flatMap PaddedChunk.padded).length + w.fmtChunk.bytes.length)).advance
        (w.between.flatMap PaddedChunk.padded).length := by
    rw [RiffWalk.advance_advance]
    rfl
  constructor
  · rw [hdata]
    exact hbetween.passed rfl rfl
  · intro e he
    rw [hdata] at he
    -- one run over the chunks before the fmt chunk, its own round, one run up to the data
    refine ends_others hbefore (fun c hc => w.others c (by simp [hc]))
      (fun c hc => h c (by simp [WaveChunks.front, hc])) hsmall ?_
    refine InnerEnds.next (riffBody_fmt hfmt.ahead w.plain ?_) ?_
    · show w.fmtChunk.payload.length < 2 ^ 31
      omega
    · show InnerEnds (((s.withFmt w.fields).advance _).advance w.fmtChunk.bytes.length) e
      rw [RiffWalk.advance_advance] at hlength₂ ⊢
      refine ends_others hbetween (fun c hc => w.others c (by simp [hc]))
        (fun c hc => h c (by simp [WaveChunks.front, hc])) ?_ he
      omega

theorem ends_front (h : ∀ c ∈ w.front, c.payload.length % 2 = 0) :
    w.atData.At (w.dataChunk.padded ++ w.after.flatMap PaddedChunk.padded) [] ∧
    ∀ e, InnerEnds w.atData e → InnerEnds w.start e :=
  ends_front_of_at w.start_at h

/-- The inner loop behind the data, in front of its pad byte if it has one. -/
def behindData (w : WaveFile) : RiffWalk :=
  (w.atData.withData w.dataChunk.size).advance w.dataChunk.bytes.length

/-- The 'data' chunk is noted and passed over. -/
theorem ends_data_of_at {s : RiffWalk} {post : List UInt8} (hat : s.At w.body post)
    (h : ∀ c ∈ w.front, c.payload.length % 2 = 0) (hstreamed : s.wr.streamed = false) :
    (((w.toData s).withData w.dataChunk.size).advance w.dataChunk.bytes.length).At
        (w.dataChunk.padding ++ w.after.flatMap PaddedChunk.padded) post ∧
      ∀ e, InnerEnds (((w.toData s).withData w.dataChunk.size).advance
        w.dataChunk.bytes.length) e → InnerEnds s e := by
  rcases ends_front_of_at hat h with ⟨hdata, hends⟩
  rw [PaddedChunk.padded, List.append_assoc] at hdata
  constructor
  · exact hdata.passed rfl rfl
  · intro e he
    exact hends e (InnerEnds.next (riffBody_data hdata.ahead rfl w.nonempty hstreamed) he)

theorem ends_data (h : ∀ c ∈ w.front, c.payload.length % 2 = 0) :
    w.behindData.At (w.dataChunk.padding ++ w.after.flatMap PaddedChunk.padded) [] ∧
    ∀ e, InnerEnds w.behindData e → InnerEnds w.start e :=
  ends_data_of_at w.start_at h rfl

/-- What is left behind the data is walked through. -/
theorem ends_behind (h : w.InStep) :
    ∃ k ≤ w.behindData.length.toNat,
      InnerEnds w.behindData (.inl (w.behindData.advance k)) := by
  have hbehind := (ends_data h.front).1
  have hsmall : w.behindData.length.toNat < 2 ^ 31 := by
    have hknown := w.known
    have hbody := congrArg List.length w.body_eq
    simp only [List.length_append, PaddedChunk.length_padded] at hbody
    rw [hbehind.length, List.length_append]
    omega
  rcases h.behind with heven | hquiet
  · cases hafter : w.after with
    | nil =>
        -- at most the pad byte of the data is left
        rw [hafter, List.flatMap_nil, List.append_nil] at hbehind
        have hpad := w.dataChunk.length_padding_le
        refine ⟨0, Nat.zero_le _, ?_⟩
        rw [RiffWalk.advance_zero]
        apply ends_short
        rw [hbehind.length]
        omega
    | cons c cs =>
        have hne : w.after ≠ [] := by
          rw [hafter]
          exact List.cons_ne_nil c cs
        rw [WaveChunks.tail, List.dropLast_cons_of_ne_nil hne] at heven
        rw [PaddedChunk.padding_of_even (heven _ List.mem_cons_self), List.nil_append] at hbehind
        exact ends_last hbehind (fun d hd => w.others d (by simp [hd]))
          (fun d hd => heven d (List.mem_cons_of_mem _ hd)) hsmall
  · exact ends_quiet hbehind hquiet hsmall

/-- **A file in step is understood.** -/
theorem understood_of_inStep (h : w.InStep) : w.Understood := by
  have hat := (ends_front h.front).1
  rw [PaddedChunk.padded, List.append_assoc] at hat
  rcases ends_data h.front with ⟨hbehind, hfile⟩
  rcases ends_behind h with ⟨k, hk, hends⟩
  -- the walk ends at the end of the file
  have hend : w.contents.length ≤
      (w.behindData.advance k).wr.wav.pos + (w.behindData.advance k).length.toNat := by
    have hle := hbehind.end_le
    have hlength := RiffWalk.length_advance hk
    show w.behindData.wr.wav.contents.length ≤ w.behindData.wr.wav.pos + k + _
    omega
  have hsize : w.dataChunk.size.toNat = w.data.length := hat.ahead.toNat_size
  refine ⟨_, wavReadOpen_of_brk w.chunkBody_start rfl (hfile _ hends) hend,
    ⟨rfl, rfl, rfl, rfl⟩, hsize, ?_⟩
  intro lengths hsmall hsum
  have hpayload : payload { (w.behindData.advance k).wr with
      wav := ⟨w.contents, w.atData.wr.wav.pos + 8, false⟩ } = w.data :=
    payload_of_ahead hat.ahead rfl rfl rfl
  rw [← hpayload] at hsum ⊢
  exact delivered_all hsmall hsum

end WaveFile

end AudioProc
