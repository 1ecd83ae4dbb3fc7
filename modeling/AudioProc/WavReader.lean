import AudioProc.CFile
import AudioProc.Loop
import Mathlib.Algebra.GroupWithZero.Nat

/-!
# wavreader

The WAV reader of `wavreader.c` over a regular file. `wavReadOpen` walks the chunks of the
file in an outer loop and the sub-chunks of a RIFF chunk in an inner one, remembering the
header fields and the position of the data; both are `Loop.iterate` over their bodies.
`wav_read_data` then hands out the data piece by piece.

* `wavReadOpen_terminates`: both loops end on every file, and the remaining length of the
  inner one does not underflow;
* `payload` is what the reader has left to hand out; `wavReadData_spec` says that a request
  takes its first bytes, and `delivered_all` that enough requests take all of it.
-/

namespace AudioProc

open CFile Loop

/-- `struct wav_reader`. The `int` fields hold the values `int` has after the
assignments. -/
structure WavReader where
  wav : CFile
  dataLength : UInt32
  format : ℤ
  sampleRate : ℤ
  bitsPerSample : ℤ
  channels : ℤ
  byteRate : ℤ
  blockAlign : ℤ
  streamed : Bool
deriving DecidableEq

namespace WavReader

/-- `TAG` -/
def tag (a b c d : Char) : UInt32 :=
  (a.val <<< 24) ||| (b.val <<< 16) ||| (c.val <<< 8) ||| d.val

/-- `read_tag`: four bytes, the first one on top. -/
@[irreducible]
def readTag (f : CFile) : UInt32 × CFile :=
  let (c₀, f) := f.fgetc
  let (c₁, f) := f.fgetc
  let (c₂, f) := f.fgetc
  let (c₃, f) := f.fgetc
  let tag : UInt32 := 0
  let tag := (tag <<< 8) ||| UInt32.ofInt c₀
  let tag := (tag <<< 8) ||| UInt32.ofInt c₁
  let tag := (tag <<< 8) ||| UInt32.ofInt c₂
  let tag := (tag <<< 8) ||| UInt32.ofInt c₃
  (tag, f)

/-- `read_int32`: four bytes, the first one at the bottom. -/
@[irreducible]
def readInt32 (f : CFile) : UInt32 × CFile :=
  let (c₀, f) := f.fgetc
  let (c₁, f) := f.fgetc
  let (c₂, f) := f.fgetc
  let (c₃, f) := f.fgetc
  let value := UInt32.ofInt c₀
  let value := value ||| (UInt32.ofInt c₁ <<< 8)
  let value := value ||| (UInt32.ofInt c₂ <<< 16)
  let value := value ||| (UInt32.ofInt c₃ <<< 24)
  (value, f)

/-- `read_int16` -/
@[irreducible]
def readInt16 (f : CFile) : UInt16 × CFile :=
  let (c₀, f) := f.fgetc
  let (c₁, f) := f.fgetc
  let value := UInt16.ofInt c₀
  let value := value ||| (UInt16.ofInt c₁ <<< 8)
  (value, f)

/-- `skip`: the parameter is an `int`, so that a count from 2^31 on skips nothing. -/
def skip (f : CFile) (n : UInt32) : CFile := discard n.toInt32.toInt.toNat f

/-- A reader for a file that was just opened. -/
def fresh (wav : CFile) : WavReader where
  wav := wav
  dataLength := 0
  format := 0
  sampleRate := 0
  bitsPerSample := 0
  channels := 0
  byteRate := 0
  blockAlign := 0
  streamed := false

/-! ## wav_read_open -/

/-- The variables of the outer loop. -/
structure Walk where
  wr : WavReader
  dataPos : ℕ

/-- The variables of the inner loop. -/
structure RiffWalk extends Walk where
  length : UInt32

/-- The 16 bytes every 'fmt ' sub-chunk starts with. -/
def fmtFields (wr : WavReader) : WavReader :=
  let (format, f) := readInt16 wr.wav
  let (channels, f) := readInt16 f
  let (sampleRate, f) := readInt32 f
  let (byteRate, f) := readInt32 f
  let (blockAlign, f) := readInt16 f
  let (bitsPerSample, f) := readInt16 f
  { wr with
    wav := f
    format := format.toNat
    channels := channels.toNat
    sampleRate := sampleRate.toInt32.toInt
    byteRate := byteRate.toInt32.toInt
    blockAlign := blockAlign.toNat
    bitsPerSample := bitsPerSample.toNat }

/-- The body of a 'fmt ' sub-chunk: whether it was long enough, and the reader after it. -/
def fmtChunk (wr : WavReader) (sublength : UInt32) : Bool × WavReader :=
  if sublength < 16 then
    -- insufficient data for 'fmt '
    (false, wr)
  else
    let wr := fmtFields wr
    if wr.format = 0xfffe then
      if sublength < 28 then
        -- insufficient data for waveformatex
        (false, wr)
      else
        let f := skip wr.wav 8
        let (format, f) := readInt32 f
        (true, { wr with
          format := format.toInt32.toInt
          wav := skip f (sublength - 28) })
    else
      (true, { wr with wav := skip wr.wav (sublength - 16) })

/-- A sub-chunk whose tag and length are read: `s.length` is what the RIFF chunk has left
after them. -/
def subChunk (s : RiffWalk) (subtag sublength : UInt32) : Flow RiffWalk WavReader :=
  if s.length < sublength then
    .brk s
  else if subtag = tag 'f' 'm' 't' ' ' then
    let (enough, wr) := fmtChunk s.wr sublength
    if enough then
      .next { s with
        wr := wr
        length := s.length - sublength }
    else
      .brk { s with wr := wr }
  else if subtag = tag 'd' 'a' 't' 'a' then
    let wr := { s.wr with dataLength := sublength }
    if sublength = 0 ∨ wr.streamed then
      .ret { wr with streamed := true }
    else
      .next { s with
        dataPos := s.wr.wav.ftell
        wr := { wr with wav := wr.wav.fseekCur sublength.toNat }
        length := s.length - sublength }
  else
    .next { s with
      wr := { s.wr with wav := skip s.wr.wav sublength }
      length := s.length - sublength }

/-- One round of the inner loop: a sub-chunk of the RIFF chunk. -/
def riffBody (s : RiffWalk) : Flow RiffWalk WavReader :=
  if s.length < 8 then
    .brk s
  else
    let (subtag, f) := readTag s.wr.wav
    if f.eof then
      .brk { s with wr := { s.wr with wav := f } }
    else
      let (sublength, f) := readInt32 f
      subChunk { s with
        wr := { s.wr with wav := f }
        length := s.length - 8 } subtag sublength

/-- The part of a RIFF chunk after its form type: iterate through it. `fuel` is for the
inner loop. -/
def riffChunk (fuel : ℕ) (s : RiffWalk) : Option (Flow Walk WavReader) :=
  match iterate (fun s => some (riffBody s)) fuel s with
  | none => none
  | some (.inr wr) => some (.ret wr)
  | some (.inl s) =>
    if s.length > 0 then
      -- bad chunk?
      some (.next { s.toWalk with
        wr := { s.wr with wav := s.wr.wav.fseekCur s.length.toNat } })
    else
      some (.next s.toWalk)

/-- A chunk whose tag and length are read. -/
def chunk (fuel : ℕ) (s : Walk) (chunkTag length : UInt32) : Option (Flow Walk WavReader) :=
  let unknown : Bool := length = 0 ∨ length ≥ 0x7fff0000
  let length := if unknown then 0xffffffff else length
  let wr := { s.wr with streamed := s.wr.streamed || unknown }
  if chunkTag ≠ tag 'R' 'I' 'F' 'F' ∨ length < 4 then
    some (.next { s with wr := { wr with wav := wr.wav.fseekCur length.toNat } })
  else
    let (tag2, f) := readTag wr.wav
    let length := length - 4
    if tag2 ≠ tag 'W' 'A' 'V' 'E' then
      some (.next { s with wr := { wr with wav := f.fseekCur length.toNat } })
    else
      riffChunk fuel { s with
        wr := { wr with wav := f }
        length := length }

/-- One round of the outer loop: a chunk of the file. -/
def chunkBody (fuel : ℕ) (s : Walk) : Option (Flow Walk WavReader) :=
  let (chunkTag, f) := readTag s.wr.wav
  if f.eof then
    some (.brk { s with wr := { s.wr with wav := f } })
  else
    let (length, f) := readInt32 f
    chunk fuel { s with wr := { s.wr with wav := f } } chunkTag length

/-- The rounds that are enough for both loops on a file. -/
def enoughFuel (contents : List UInt8) : ℕ := contents.length + 2

/-- `wav_read_open`, given what `fopen` finds: nothing, or the contents of the file. -/
def wavReadOpen : Option (List UInt8) → Option WavReader
  | none => none
  | some contents =>
    let fuel := enoughFuel contents
    match iterate (chunkBody fuel) fuel ⟨fresh (fopen contents), 0⟩ with
    | none => none
    | some (.inl s) => some { s.wr with wav := s.wr.wav.fseekSet s.dataPos }
    | some (.inr wr) => some wr

/-! ## wav_get_header, wav_read_data -/

/-- The value `wav_get_header` returns; the fields it copies are those of the reader. -/
def wavGetHeader (wr : WavReader) : Bool := wr.format ≠ 0 ∧ wr.sampleRate ≠ 0

/-- `wav_read_data`: the value returned, the bytes at the start of `data`, and the reader
after the request. -/
def wavReadData (wr : WavReader) (length : UInt32) : ℤ × List UInt8 × WavReader :=
  let length := if length > wr.dataLength ∧ ¬ wr.streamed then wr.dataLength else length
  let (bytes, f) := wr.wav.fread length.toNat
  ((UInt32.ofNat bytes.length).toInt32.toInt, bytes, { wr with
    wav := f
    dataLength := wr.dataLength - length })

/-- What a reader still has to hand out. -/
def payload (wr : WavReader) : List UInt8 :=
  if wr.streamed then wr.wav.rest else wr.wav.rest.take wr.dataLength.toNat

/-! ## Both loops end -/

theorem readTag_snd (f : CFile) : (readTag f).2 = discard 4 f := by
  unfold readTag
  rfl

theorem readInt32_snd (f : CFile) : (readInt32 f).2 = discard 4 f := by
  unfold readInt32
  rfl

theorem readInt16_snd (f : CFile) : (readInt16 f).2 = discard 2 f := by
  unfold readInt16
  rfl

theorem forward_readTag (f : CFile) : Forward f (readTag f).2 :=
  readTag_snd f ▸ forward_discard 4 f

theorem forward_readInt32 (f : CFile) : Forward f (readInt32 f).2 :=
  readInt32_snd f ▸ forward_discard 4 f

theorem forward_readInt16 (f : CFile) : Forward f (readInt16 f).2 :=
  readInt16_snd f ▸ forward_discard 2 f

theorem forward_skip (f : CFile) (n : UInt32) : Forward f (skip f n) := forward_discard _ f

theorem forward_fmtFields (wr : WavReader) : Forward wr.wav (fmtFields wr).wav := by
  have hformat := forward_readInt16 wr.wav
  have hchannels := hformat.trans (forward_readInt16 _)
  have hrate := hchannels.trans (forward_readInt32 _)
  have hbytes := hrate.trans (forward_readInt32 _)
  have halign := hbytes.trans (forward_readInt16 _)
  simp only [fmtFields]
  exact halign.trans (forward_readInt16 _)

theorem forward_fmtChunk (wr : WavReader) (sublength : UInt32) :
    Forward wr.wav (fmtChunk wr sublength).2.wav := by
  have hfields := forward_fmtFields wr
  have hskip := hfields.trans (forward_skip _ 8)
  have hformat := hskip.trans (forward_readInt32 _)
  simp only [fmtChunk]
  split_ifs
  · exact Forward.refl _
  · exact hfields
  · exact hformat.trans (forward_skip _ _)
  · exact hfields.trans (forward_skip _ _)

/-- A round started at `f` that read its four-byte tag inside the file, and is now at `g`. -/
structure Advanced (f g : CFile) : Prop where
  forward : Forward f g
  pos_lt : f.pos < g.pos
  inside : f.pos < f.contents.length

theorem Advanced.trans {f g h : CFile} (hfg : Advanced f g) (hgh : Forward g h) :
    Advanced f h :=
  ⟨hfg.forward.trans hgh, Nat.lt_of_lt_of_le hfg.pos_lt hgh.pos_le, hfg.inside⟩

theorem advanced_readTag {f : CFile} (h : (readTag f).2.eof = false) :
    Advanced f (readTag f).2 := by
  rw [readTag_snd] at h ⊢
  rcases discard_of_not_eof (by decide) h with ⟨hpos, hinside⟩
  refine ⟨forward_discard 4 f, ?_, by omega⟩
  omega

/-- A property of the stream where a round of the inner loop goes on, and one where it
breaks. -/
def Leaves (next brk : CFile → Prop) : Flow RiffWalk WavReader → Prop
  | .next s => next s.wr.wav
  | .brk s => brk s.wr.wav
  | .ret _ => True

/-- A round of the inner loop that has read the tag and the length of a sub-chunk. -/
def afterHeader (s : RiffWalk) : RiffWalk :=
  { s with
    wr := { s.wr with wav := (readInt32 (readTag s.wr.wav).2).2 }
    length := s.length - 8 }

theorem riffBody_of_short {s : RiffWalk} (h : s.length < 8) : riffBody s = .brk s := if_pos h

theorem riffBody_of_eof {s : RiffWalk} (h : ¬ s.length < 8)
    (heof : (readTag s.wr.wav).2.eof = true) :
    riffBody s = .brk { s with wr := { s.wr with wav := (readTag s.wr.wav).2 } } := by
  simp only [riffBody, if_neg h, heof, if_true]

theorem riffBody_of_header {s : RiffWalk} (h : ¬ s.length < 8)
    (heof : (readTag s.wr.wav).2.eof = false) :
    riffBody s = subChunk (afterHeader s) (readTag s.wr.wav).1
      (readInt32 (readTag s.wr.wav).2).1 := by
  simp only [riffBody, if_neg h, heof, Bool.false_eq_true, if_false]
  rfl

theorem subChunk_forward (s : RiffWalk) (subtag sublength : UInt32) :
    Leaves (Forward s.wr.wav) (Forward s.wr.wav) (subChunk s subtag sublength) := by
  have hfmt := forward_fmtChunk s.wr sublength
  simp only [subChunk]
  split_ifs
  · -- longer than the RIFF chunk
    exact Forward.refl _
  · exact hfmt
  · -- 'fmt ' is too short
    exact hfmt
  · -- streamed data: the function returns
    exact trivial
  · exact forward_fseekCur _ _
  · -- any other sub-chunk
    exact forward_skip _ _

/-- A round of the inner loop moves forward, by at least its tag when it goes on. -/
theorem riffBody_forward (s : RiffWalk) :
    Leaves (Advanced s.wr.wav) (Forward s.wr.wav) (riffBody s) := by
  have htag := forward_readTag s.wr.wav
  have hlength := forward_readInt32 (readTag s.wr.wav).2
  by_cases hshort : s.length < 8
  · rw [riffBody_of_short hshort]
    exact Forward.refl _
  cases heof : (readTag s.wr.wav).2.eof with
  | true =>
      rw [riffBody_of_eof hshort heof]
      exact htag
  | false =>
      -- the tag alone has moved the stream, whatever the sub-chunk does with it
      have hadv : Advanced s.wr.wav (afterHeader s).wr.wav :=
        (advanced_readTag heof).trans hlength
      have hsub := subChunk_forward (afterHeader s) (readTag s.wr.wav).1
        (readInt32 (readTag s.wr.wav).2).1
      rw [riffBody_of_header hshort heof]
      cases hflow : subChunk (afterHeader s) (readTag s.wr.wav).1
          (readInt32 (readTag s.wr.wav).2).1 with
      | next s' =>
          rw [hflow] at hsub
          exact hadv.trans hsub
      | brk s' =>
          rw [hflow] at hsub
          exact hadv.forward.trans hsub
      | ret wr => exact trivial

/-- The measure of both loops: what a stream can still advance inside its file. -/
def remaining (f : CFile) : ℕ := f.contents.length + 1 - f.pos

theorem Advanced.remaining_lt {f g : CFile} (h : Advanced f g) : remaining g < remaining f := by
  have hcontents := h.forward.contents
  have hpos := h.pos_lt
  have hinside := h.inside
  rw [remaining, remaining, hcontents]
  omega

theorem remaining_le (f : CFile) : remaining f ≤ f.contents.length + 1 := Nat.sub_le _ _

theorem remaining_lt_enoughFuel {f : CFile} {contents : List UInt8} (h : f.contents = contents) :
    remaining f < enoughFuel contents := by
  have hle := remaining_le f
  rw [h] at hle
  exact Nat.lt_succ_of_le hle

/-- The inner loop ends. -/
theorem inner_isSome {fuel : ℕ} (s : RiffWalk) (hfuel : remaining s.wr.wav < fuel) :
    (iterate (fun s => some (riffBody s)) fuel s).isSome := by
  refine iterate_isSome (fun _ => True) (fun s : RiffWalk => remaining s.wr.wav)
    ?_ ?_ trivial hfuel
  · intro s _
    exact Option.some_ne_none _
  · intro s s' _ hs'
    have hmoved := riffBody_forward s
    rw [Option.some.inj hs'] at hmoved
    exact ⟨trivial, Advanced.remaining_lt hmoved⟩

/-- It leaves the stream further on in the same file. -/
theorem inner_forward {fuel : ℕ} {s s' : RiffWalk}
    (h : iterate (fun s => some (riffBody s)) fuel s = some (.inl s')) :
    Forward s.wr.wav s'.wr.wav := by
  refine iterate_rule (fun t => Forward s.wr.wav t.wr.wav)
    (fun e => ∀ t, e = .inl t → Forward s.wr.wav t.wr.wav) ?_ ?_ ?_
    (Forward.refl _) h s' rfl
  · intro t t' ht hnext
    have hmoved := riffBody_forward t
    rw [Option.some.inj hnext] at hmoved
    exact ht.trans hmoved.forward
  · intro t t' ht hbrk u hu
    have hmoved := riffBody_forward t
    rw [Option.some.inj hbrk] at hmoved
    rcases Sum.inl.inj hu with rfl
    exact ht.trans hmoved
  · intro t wr _ _ u hu
    exact absurd hu (by simp)

theorem riffChunk_forward (fuel : ℕ) (s : RiffWalk) (hfuel : remaining s.wr.wav < fuel) :
    riffChunk fuel s ≠ none ∧
      ∀ s', riffChunk fuel s = some (.next s') → Forward s.wr.wav s'.wr.wav := by
  have hends := inner_isSome s hfuel
  unfold riffChunk
  cases he : iterate (fun s => some (riffBody s)) fuel s with
  | none =>
      rw [he] at hends
      exact absurd hends (by simp)
  | some e =>
      cases e with
      | inr wr => exact ⟨by simp, fun s' h => absurd h (by simp)⟩
      | inl t =>
          have ht := inner_forward he
          simp only
          split_ifs
          · refine ⟨Option.some_ne_none _, fun s' h => ?_⟩
            rcases Flow.next.inj (Option.some.inj h) with rfl
            exact ht.trans (forward_fseekCur _ _)
          · refine ⟨Option.some_ne_none _, fun s' h => ?_⟩
            rcases Flow.next.inj (Option.some.inj h) with rfl
            exact ht

/-- Once its tag and length are read, a chunk comes back, further on in the file. -/
theorem chunk_forward (fuel : ℕ) (s : Walk) (chunkTag length : UInt32)
    (hfuel : remaining s.wr.wav < fuel) :
    chunk fuel s chunkTag length ≠ none ∧
      ∀ s', chunk fuel s chunkTag length = some (.next s') → Forward s.wr.wav s'.wr.wav := by
  have htag := forward_readTag s.wr.wav
  have hrest : remaining (readTag s.wr.wav).2 < fuel := by
    have hcontents := htag.contents
    have hpos := htag.pos_le
    rw [remaining] at hfuel ⊢
    rw [hcontents]
    omega
  have hriff : ∀ t : RiffWalk, t.wr.wav = (readTag s.wr.wav).2 → riffChunk fuel t ≠ none ∧
      ∀ s', riffChunk fuel t = some (.next s') → Forward s.wr.wav s'.wr.wav := by
    intro t ht
    rcases riffChunk_forward fuel t (ht ▸ hrest) with ⟨hback, hnext⟩
    exact ⟨hback, fun s' h => htag.trans (ht ▸ hnext s' h)⟩
  simp only [chunk]
  generalize (if decide (length = 0 ∨ length ≥ 0x7fff0000) then 0xffffffff else length) = len
  split_ifs
  · refine ⟨Option.some_ne_none _, fun s' h => ?_⟩
    rcases Flow.next.inj (Option.some.inj h) with rfl
    exact forward_fseekCur _ _
  · refine ⟨Option.some_ne_none _, fun s' h => ?_⟩
    rcases Flow.next.inj (Option.some.inj h) with rfl
    exact htag.trans (forward_fseekCur _ _)
  · exact hriff _ rfl

/-- **One round of the outer loop** comes back, and goes on further in the file. -/
theorem chunkBody_advanced (fuel : ℕ) (s : Walk) (hfuel : remaining s.wr.wav < fuel) :
    chunkBody fuel s ≠ none ∧
      ∀ s', chunkBody fuel s = some (.next s') → Advanced s.wr.wav s'.wr.wav := by
  unfold chunkBody
  cases heof : (readTag s.wr.wav).2.eof with
  | true =>
      simp only [heof]
      exact ⟨Option.some_ne_none _, fun s' h => absurd h (by simp)⟩
  | false =>
      have hadv := (advanced_readTag heof).trans (forward_readInt32 (readTag s.wr.wav).2)
      have hrest := Nat.lt_trans hadv.remaining_lt hfuel
      simp only [heof]
      obtain ⟨hback, hnext⟩ := chunk_forward fuel
        { s with wr := { s.wr with wav := (readInt32 (readTag s.wr.wav).2).2 } }
        (readTag s.wr.wav).1 (readInt32 (readTag s.wr.wav).2).1 hrest
      exact ⟨hback, fun s' h => hadv.trans (hnext s' h)⟩

/-- The outer loop ends. -/
theorem outer_isSome (contents : List UInt8) :
    (iterate (chunkBody (enoughFuel contents)) (enoughFuel contents)
      ⟨fresh (fopen contents), 0⟩).isSome := by
  refine iterate_isSome (fun s : Walk => s.wr.wav.contents = contents)
    (fun s => remaining s.wr.wav) ?_ ?_ rfl (remaining_lt_enoughFuel rfl)
  · intro s hs
    exact (chunkBody_advanced _ s (remaining_lt_enoughFuel hs)).1
  · intro s s' hs hnext
    have hadv := (chunkBody_advanced _ s (remaining_lt_enoughFuel hs)).2 s' hnext
    exact ⟨hadv.forward.contents.trans hs, hadv.remaining_lt⟩

/-- **`wav_read_open` comes back** with a reader for every file there is. -/
theorem wavReadOpen_isSome (contents : List UInt8) : (wavReadOpen (some contents)).isSome := by
  have hends := outer_isSome contents
  simp only [wavReadOpen]
  cases he : iterate (chunkBody (enoughFuel contents)) (enoughFuel contents)
      ⟨fresh (fopen contents), 0⟩ with
  | none =>
      rw [he] at hends
      exact absurd hends (by simp)
  | some e => cases e <;> rfl

/-! ## The remaining length -/

/-- A sub-chunk takes its own length from the remaining one, which is not smaller. -/
theorem subChunk_length (s : RiffWalk) (subtag sublength : UInt32) :
    (∀ s', subChunk s subtag sublength = .next s' →
      sublength ≤ s.length ∧ s'.length = s.length - sublength) ∧
    ∀ s', subChunk s subtag sublength = .brk s' → s'.length = s.length := by
  simp only [subChunk]
  split_ifs with hlong
  · constructor
    · intro s' h
      exact absurd h (by simp)
    · intro s' h
      rw [Flow.brk.inj h]
  all_goals have hle : sublength ≤ s.length := UInt32.not_lt.mp hlong
  · -- 'fmt ' with enough data
    constructor
    · intro s' h
      rw [← Flow.next.inj h]
      exact ⟨hle, rfl⟩
    · intro s' h
      exact absurd h (by simp)
  · constructor
    · intro s' h
      exact absurd h (by simp)
    · intro s' h
      rw [← Flow.brk.inj h]
  · -- streamed data: the function returns
    constructor
    · intro s' h
      exact absurd h (by simp)
    · intro s' h
      exact absurd h (by simp)
  · constructor
    · intro s' h
      rw [← Flow.next.inj h]
      exact ⟨hle, rfl⟩
    · intro s' h
      exact absurd h (by simp)
  · -- any other sub-chunk
    constructor
    · intro s' h
      rw [← Flow.next.inj h]
      exact ⟨hle, rfl⟩
    · intro s' h
      exact absurd h (by simp)

/-- **No underflow**: a round of the inner loop takes 8 and then the length of a sub-chunk
from the remaining length, and each of them only where it is not larger. -/
theorem riffBody_length (s : RiffWalk) :
    (∀ s', riffBody s = .next s' → ∃ sublength : UInt32,
      8 + sublength.toNat + s'.length.toNat = s.length.toNat) ∧
    (∀ s', riffBody s = .brk s' → s'.length = s.length ∨ 8 + s'.length.toNat = s.length.toNat) ∧
    ∀ wr, riffBody s = .ret wr → 8 ≤ s.length.toNat := by
  by_cases hshort : s.length < 8
  · rw [riffBody_of_short hshort]
    refine ⟨fun s' h => absurd h (by simp), ?_, fun wr h => absurd h (by simp)⟩
    intro s' h
    rw [Flow.brk.inj h]
    exact Or.inl rfl
  have hle : (8 : UInt32) ≤ s.length := UInt32.not_lt.mp hshort
  have hle' : 8 ≤ s.length.toNat := UInt32.le_iff_toNat_le.mp hle
  -- the loop condition keeps the subtraction of the header from wrapping
  have hafter : (afterHeader s).length.toNat = s.length.toNat - 8 :=
    UInt32.toNat_sub_of_le _ _ hle
  cases heof : (readTag s.wr.wav).2.eof with
  | true =>
      rw [riffBody_of_eof hshort heof]
      refine ⟨fun s' h => absurd h (by simp), ?_, fun wr h => absurd h (by simp)⟩
      intro s' h
      rw [← Flow.brk.inj h]
      exact Or.inl rfl
  | false =>
      rw [riffBody_of_header hshort heof]
      rcases subChunk_length (afterHeader s) (readTag s.wr.wav).1
        (readInt32 (readTag s.wr.wav).2).1 with ⟨hnext, hbrk⟩
      refine ⟨?_, ?_, fun wr _ => hle'⟩
      · intro s' h
        rcases hnext s' h with ⟨hsize, hlength⟩
        have hsize' := UInt32.le_iff_toNat_le.mp hsize
        refine ⟨(readInt32 (readTag s.wr.wav).2).1, ?_⟩
        rw [hlength, UInt32.toNat_sub_of_le _ _ hsize]
        omega
      · intro s' h
        right
        rw [hbrk s' h]
        omega

/-- **`wav_read_open` terminates** on every file: both loops end, every round of the outer
one that goes on moves forward in the file, and the remaining length of the inner one never
underflows. -/
theorem wavReadOpen_terminates (contents : List UInt8) :
    (wavReadOpen (some contents)).isSome ∧
    (∀ s : RiffWalk, s.wr.wav.contents = contents →
      (iterate (fun s => some (riffBody s)) (enoughFuel contents) s).isSome) ∧
    (∀ s s' : Walk, s.wr.wav.contents = contents →
      chunkBody (enoughFuel contents) s = some (.next s') →
      s'.wr.wav.contents = contents ∧ s.wr.wav.pos < s'.wr.wav.pos) ∧
    ∀ s : RiffWalk,
      (∀ s', riffBody s = .next s' → ∃ sublength : UInt32,
        8 + sublength.toNat + s'.length.toNat = s.length.toNat) ∧
      (∀ s', riffBody s = .brk s' →
        s'.length = s.length ∨ 8 + s'.length.toNat = s.length.toNat) ∧
      ∀ wr, riffBody s = .ret wr → 8 ≤ s.length.toNat := by
  refine ⟨wavReadOpen_isSome contents, ?_, ?_, riffBody_length⟩
  · intro s hs
    exact inner_isSome s (remaining_lt_enoughFuel hs)
  · intro s s' hs hnext
    have hadv := (chunkBody_advanced _ s (remaining_lt_enoughFuel hs)).2 s' hnext
    exact ⟨hadv.forward.contents.trans hs, hadv.pos_lt⟩

/-! ## What a reader hands out -/

/-- The length a request comes down to, and the reader after it. -/
theorem wavReadData_eq (wr : WavReader) (length : UInt32) {n : UInt32}
    (hn : (if length > wr.dataLength ∧ ¬ wr.streamed then wr.dataLength else length) = n) :
    wavReadData wr length =
      ((UInt32.ofNat (wr.wav.rest.take n.toNat).length).toInt32.toInt,
        wr.wav.rest.take n.toNat, { wr with
          wav := (wr.wav.fread n.toNat).2
          dataLength := wr.dataLength - n }) := by
  subst hn
  rfl

/-- The bytes of a request and what stays for the next one. -/
theorem wavReadData_payload (wr : WavReader) (length : UInt32) :
    (wavReadData wr length).2.1 = wr.payload.take length.toNat ∧
    (wavReadData wr length).2.2.payload = wr.payload.drop length.toNat := by
  cases hstream : wr.streamed with
  | true =>
      -- the data ends where the file ends
      rw [wavReadData_eq wr length (if_neg (by simp [hstream]))]
      simp only [payload, hstream, if_true, fread_rest]
      exact ⟨trivial, trivial⟩
  | false =>
      by_cases hlong : length > wr.dataLength
      · -- cut to what is left of the data chunk
        have hle : wr.dataLength.toNat ≤ length.toNat :=
          Nat.le_of_lt (UInt32.lt_iff_toNat_lt.mp hlong)
        have hall : wr.payload.length ≤ length.toNat := by
          simp only [payload, hstream, Bool.false_eq_true, if_false, List.length_take]
          omega
        rw [wavReadData_eq wr length (if_pos ⟨hlong, by simp [hstream]⟩),
          List.take_of_length_le hall, List.drop_of_length_le hall]
        simp [payload, hstream]
      · have hle : length ≤ wr.dataLength := UInt32.not_lt.mp hlong
        have hle' : length.toNat ≤ wr.dataLength.toNat := UInt32.le_iff_toNat_le.mp hle
        rw [wavReadData_eq wr length (if_neg fun h => hlong h.1)]
        simp only [payload, hstream, Bool.false_eq_true, if_false, fread_rest,
          UInt32.toNat_sub_of_le _ _ hle]
        constructor
        · rw [List.take_take, Nat.min_eq_left hle']
        · rw [List.drop_take]

/-- **A request** takes the first bytes of the payload and returns their number. -/
theorem wavReadData_spec (wr : WavReader) {length : UInt32} (hlength : length.toNat < 2 ^ 31) :
    (wavReadData wr length).1 = (wr.payload.take length.toNat).length ∧
    (wavReadData wr length).2.1 = wr.payload.take length.toNat ∧
    (wavReadData wr length).2.2.payload = wr.payload.drop length.toNat := by
  rcases wavReadData_payload wr length with ⟨hbytes, hrest⟩
  refine ⟨?_, hbytes, hrest⟩
  have hsmall : (wr.payload.take length.toNat).length < 2 ^ 31 := by
    rw [List.length_take]
    omega
  have hret : (wavReadData wr length).1 =
      (UInt32.ofNat (wavReadData wr length).2.1.length).toInt32.toInt := rfl
  rw [hret, hbytes, UInt32.toInt32_ofNat', Int32.toInt_ofNat_of_lt hsmall]

/-! ## Sequences of requests -/

/-- The bytes that a sequence of requests yields: of each, as many as it returns. -/
def delivered : WavReader → List UInt32 → List UInt8
  | _, [] => []
  | wr, length :: lengths =>
    (wavReadData wr length).2.1.take (wavReadData wr length).1.toNat ++
      delivered (wavReadData wr length).2.2 lengths

/-- Requests yield the beginning of the payload. -/
theorem delivered_eq (wr : WavReader) {lengths : List UInt32}
    (hsmall : ∀ length ∈ lengths, length.toNat < 2 ^ 31) :
    delivered wr lengths = wr.payload.take (lengths.map UInt32.toNat).sum := by
  induction lengths generalizing wr with
  | nil => simp [delivered]
  | cons length lengths ih =>
      rcases wavReadData_spec wr (hsmall length (by simp)) with ⟨hreturn, hbytes, hrest⟩
      have hmore := ih (wavReadData wr length).2.2 fun n hn => hsmall n (by simp [hn])
      rw [delivered, hmore, hreturn, hbytes, hrest, Int.toNat_natCast, List.take_length,
        List.map_cons, List.sum_cons, List.take_add]

/-- Enough requests yield all of it. -/
theorem delivered_all {wr : WavReader} {lengths : List UInt32}
    (hsmall : ∀ length ∈ lengths, length.toNat < 2 ^ 31)
    (hsum : wr.payload.length ≤ (lengths.map UInt32.toNat).sum) :
    delivered wr lengths = wr.payload := by
  rw [delivered_eq wr hsmall]
  exact List.take_of_length_le hsum

end WavReader

end AudioProc
