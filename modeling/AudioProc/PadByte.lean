import AudioProc.WaveFile

/-!
# Pad bytes

RIFF pads a chunk of odd size, and `wav_read_open` does not skip the pad byte: behind such a
chunk the inner loop takes the pad byte for the beginning of the next header and is `Astray`,
one byte in front of the chunks that follow. If that is the 'data' chunk, it is not found,
unless the file contains the same chunk once more (`DataOnce`).

* `understood_iff`: a file that is in step is understood, and where only the chunk in front of
  the data can bring it out of step, it is not understood otherwise.
-/

namespace AudioProc

open CFile Loop Riff WavReader

namespace WaveFile

/-- The bytes from the 'data' chunk on. -/
def tailBytes (w : WaveFile) : List UInt8 := w.tail.flatMap PaddedChunk.padded

/-- The bytes of the 'data' chunk do not occur again behind the first of them. -/
def DataOnce (w : WaveFile) : Prop := ¬ w.dataChunk.bytes <:+: w.tailBytes.drop 1

/-- Only the chunk in front of the data can bring the reader out of step. -/
structure InStepButOne (w : WaveFile) : Prop where
  front : ∀ c ∈ w.front.dropLast, c.payload.length % 2 = 0
  behind : w.InStepBehind

variable {w : WaveFile}

/-- The 'data' chunk starts with two different bytes. -/
theorem dataChunk_bytes (w : WaveFile) :
    ∃ bytes, w.dataChunk.bytes = 0x64 :: 0x61 :: bytes := by
  have hid : fourcc (tag 'd' 'a' 't' 'a') = [0x64, 0x61, 0x74, 0x61] := by decide
  refine ⟨0x74 :: 0x61 :: (int32 w.dataChunk.size ++ w.data), ?_⟩
  show (fourcc (tag 'd' 'a' 't' 'a') ++ int32 w.dataChunk.size) ++ w.data = _
  rw [hid]
  rfl

/-- It does not occur one byte in front of itself. -/
theorem cons_dataChunk_ne (w : WaveFile) (x : UInt8) (more post : List UInt8) :
    x :: (w.dataChunk.bytes ++ more) ≠ w.dataChunk.bytes ++ post := by
  rcases w.dataChunk_bytes with ⟨bytes, hbytes⟩
  rw [hbytes]
  intro heq
  rw [List.cons_append, List.cons_append, List.cons_append, List.cons_append] at heq
  have hsecond := (List.cons.inj (List.cons.inj heq).2).1
  exact absurd hsecond (by decide)

/-- A 'data' chunk at the end of the file is the only one of its kind. -/
theorem dataOnce_of_last (h : w.after = []) : w.DataOnce := by
  have hbytes : w.tailBytes = w.dataChunk.bytes ++ w.dataChunk.padding := by
    simp only [tailBytes, WaveChunks.tail, h, List.flatMap_cons, List.flatMap_nil, List.append_nil,
      PaddedChunk.padded]
  have hpad := w.dataChunk.length_padding_le
  rintro ⟨pre, post, hfound⟩
  have hlength := congrArg List.length hfound
  rw [hbytes, List.length_drop] at hlength
  simp only [List.length_append] at hlength
  -- there is only room for a shift by one byte
  have hpre : pre = [] := List.eq_nil_of_length_eq_zero (by omega)
  have hpost : post = [] := List.eq_nil_of_length_eq_zero (by omega)
  rcases w.dataChunk_bytes with ⟨bytes, hdata⟩
  apply w.cons_dataChunk_ne 0x64 [] w.dataChunk.padding
  rw [hpre, hpost, hbytes, List.nil_append] at hfound
  rw [hfound, hdata]
  rfl

theorem body_eq_front (w : WaveFile) :
    w.body = w.front.flatMap PaddedChunk.padded ++ w.tailBytes := by
  simp only [WaveChunks.body, tailBytes, List.flatMap_append]

theorem tailBytes_eq (w : WaveFile) :
    w.tailBytes = w.dataChunk.bytes ++ (w.dataChunk.padding ++
      w.after.flatMap PaddedChunk.padded) := by
  simp only [tailBytes, WaveChunks.tail, List.flatMap_cons, PaddedChunk.padded, List.append_assoc]

/-- Seen from one byte in front of it, the 'data' chunk is nowhere but behind that byte. -/
theorem drop_tailBytes_ne (h : w.DataOnce) {x : UInt8} {k : ℕ} (hk : k ≠ 1) (post : List UInt8) :
    (x :: w.tailBytes).drop k ≠ w.dataChunk.bytes ++ post := by
  rcases k with _ | _ | k
  · rw [List.drop_zero, tailBytes_eq]
    exact w.cons_dataChunk_ne x _ post
  · exact absurd rfl hk
  · intro heq
    apply h
    rw [List.drop_succ_cons, Nat.add_comm, ← List.drop_drop] at heq
    refine (List.IsPrefix.isInfix ⟨post, heq.symm⟩).trans ?_
    exact (List.drop_suffix k _).isInfix

/-! ## One byte in front of the data -/

/-- What was noted leads to the data. -/
def LeadsToData (w : WaveFile) (noted : ℕ × UInt32 × Bool) : Prop :=
  noted.2.1.toNat = w.data.length ∧ (w.contents.drop noted.1).take w.data.length = w.data

/-- The walk was at the byte `x` in front of the 'data' chunk, or is behind its header. -/
structure Astray (w : WaveFile) (x : UInt8) (s : RiffWalk) : Prop where
  place : ∃ k ≠ 1, s.At ((x :: w.tailBytes).drop k) []
  contents : s.wr.wav.contents = w.contents
  streamed : s.wr.streamed = false
  missed : ¬ w.LeadsToData (noted s)

theorem length_drop_tailBytes (w : WaveFile) (x : UInt8) (k : ℕ) :
    ((x :: w.tailBytes).drop k).length < 2 ^ 31 := by
  have hknown := w.known
  have hbody := congrArg List.length w.body_eq_front
  rw [List.length_append] at hbody
  rw [List.length_drop, List.length_cons]
  omega

/-- A 'data' chunk that is passed over is another one. -/
theorem missed_of_ahead {s : RiffWalk} {c : Chunk} {more : List UInt8} (h : s.Ahead c more)
    (hcontents : s.wr.wav.contents = w.contents) (hid : c.id = tag 'd' 'a' 't' 'a')
    (hother : c ≠ w.dataChunk.toChunk) : ¬ w.LeadsToData (notedBehind s c) := by
  rw [notedBehind_data hid]
  rintro ⟨hlength, hbytes⟩
  have hsize : c.payload.length = w.data.length := h.toNat_size.symm.trans hlength
  have hrest : w.contents.drop (s.wr.wav.pos + 8) = c.payload ++ more := by
    rw [← hcontents]
    exact h.rest_payload
  have hpayload : c.payload = w.data := by
    rw [← hbytes]
    show _ = (w.contents.drop (s.wr.wav.pos + 8)).take w.data.length
    rw [hrest, ← hsize, List.take_left]
  apply hother
  cases c
  exact congrArg₂ Chunk.mk hid hpayload

/-- A round that goes on stays astray. -/
theorem Astray.next {x : UInt8} {s t : RiffWalk} (h : w.Astray x s) (honce : w.DataOnce)
    (hnext : riffBody s = .next t) : w.Astray x t := by
  rcases h.place with ⟨k, hk, hat⟩
  have hround := riffBody_round hat h.streamed (w.length_drop_tailBytes x k)
  have hmoved := riffBody_forward s
  rw [hnext] at hround hmoved
  generalize hbody : (x :: w.tailBytes).drop k = body at hround hat
  cases hround with
  | @passes c body _ hpasses hat' hnoted hpos =>
      refine ⟨⟨k + c.bytes.length, ?_, ?_⟩, hmoved.forward.contents.trans h.contents, ?_, ?_⟩
      · rw [Chunk.length_bytes]
        omega
      · rw [← List.drop_drop, hbody, List.drop_left]
        exact hat'
      · exact (streamed_of_notedBehind hnoted).trans h.streamed
      · rw [hnoted]
        by_cases hid : c.id = tag 'd' 'a' 't' 'a'
        · apply missed_of_ahead hat.ahead h.contents hid
          rintro rfl
          exact drop_tailBytes_ne honce hk body hbody
        · rw [notedBehind_other hid]
          exact h.missed

/-- A round that breaks has missed the data. -/
theorem Astray.brk {x : UInt8} {s t : RiffWalk} (h : w.Astray x s)
    (hbrk : riffBody s = .brk t) : t.wr.streamed = false ∧ ¬ w.LeadsToData (noted t) := by
  rcases h.place with ⟨k, -, hat⟩
  have hround := riffBody_round hat h.streamed (w.length_drop_tailBytes x k)
  rw [hbrk] at hround
  generalize (x :: w.tailBytes).drop k = body at hround
  have hnoted : noted t = noted s := by
    cases hround with
    | breaks _ hnoted _ => exact hnoted
    | overshoots _ hnoted _ => exact hnoted
  rw [hnoted, streamed_of_noted hnoted]
  exact ⟨h.streamed, h.missed⟩

theorem Astray.ret {x : UInt8} {s : RiffWalk} {wr : WavReader} (h : w.Astray x s)
    (hret : riffBody s = .ret wr) : wr.dataLength = 0 := by
  rcases h.place with ⟨k, -, hat⟩
  have hround := riffBody_round hat h.streamed (w.length_drop_tailBytes x k)
  rw [hret] at hround
  generalize (x :: w.tailBytes).drop k = body at hround
  cases hround with
  | returns hzero => exact hzero

/-- However the inner loop ends, the data is not found. -/
theorem Astray.ends {x : UInt8} {s : RiffWalk} (h : w.Astray x s) (honce : w.DataOnce)
    {e : RiffWalk ⊕ WavReader} (hends : InnerEnds s e) :
    (∀ t, e = .inl t → t.wr.streamed = false ∧ ¬ w.LeadsToData (noted t)) ∧
      ∀ wr, e = .inr wr → wr.dataLength = 0 := by
  rcases hends with ⟨fuel, hfuel⟩
  refine iterate_rule (w.Astray x)
    (fun e => (∀ t, e = .inl t → t.wr.streamed = false ∧ ¬ w.LeadsToData (noted t)) ∧
      ∀ wr, e = .inr wr → wr.dataLength = 0) ?_ ?_ ?_ h hfuel
  · intro s s' hs hnext
    exact hs.next honce (Option.some.inj hnext)
  · intro s s' hs hbrk
    constructor
    · intro t ht
      rcases Sum.inl.inj ht with rfl
      exact hs.brk (Option.some.inj hbrk)
    · intro wr hwr
      exact absurd hwr (by simp)
  · intro s wr hs hret
    constructor
    · intro t ht
      exact absurd ht (by simp)
    · intro wr' hwr'
      rcases Sum.inr.inj hwr' with rfl
      exact hs.ret (Option.some.inj hret)

/-! ## From the front of the file -/

/-- Chunks of even size are passed over one by one. -/
theorem exists_behind {cs : List PaddedChunk} {s : RiffWalk} {body : List UInt8}
    (hat : s.At (cs.flatMap PaddedChunk.padded ++ body) [])
    (hpasses : ∀ c ∈ cs, Passes c.toChunk ∧ c.id ≠ tag 'd' 'a' 't' 'a')
    (heven : ∀ c ∈ cs, c.payload.length % 2 = 0) (hstreamed : s.wr.streamed = false)
    (hsmall : s.length.toNat < 2 ^ 31) :
    ∃ t : RiffWalk, t.At body [] ∧ noted t = noted s ∧
      t.wr.wav.contents = s.wr.wav.contents ∧ ∀ e, InnerEnds t e → InnerEnds s e := by
  induction cs generalizing s with
  | nil => exact ⟨s, hat, rfl, rfl, fun e he => he⟩
  | cons c cs ih =>
      rw [List.flatMap_cons, PaddedChunk.padded_of_even (heven c (by simp)),
        List.append_assoc] at hat
      have hfits := hat.ahead.fits
      have hsize := Chunk.length_bytes c.toChunk
      rcases hpasses c (by simp) with ⟨hc, hid⟩
      -- the round over one chunk notes nothing, since the chunk is not the data
      rcases riffBody_passes hat.ahead hc hstreamed (by omega) with
        ⟨u, hnext, hwav, hlength, hnoted⟩
      rw [notedBehind_other hid] at hnoted
      have hstill := streamed_of_noted hnoted
      have hshorter : u.length.toNat < 2 ^ 31 := by
        rw [hlength, RiffWalk.length_advance hfits]
        omega
      rcases ih (hat.passed hwav hlength) (fun d hd => hpasses d (by simp [hd]))
        (fun d hd => heven d (by simp [hd])) (hstill.trans hstreamed) hshorter with
        ⟨t, ht, hnoted', hcontents, hends⟩
      refine ⟨t, ht, hnoted'.trans hnoted, ?_, ?_⟩
      · rw [hcontents, hwav]
        rfl
      · intro e he
        exact InnerEnds.next hnext (hends e he)

theorem passes_front (w : WaveFile) :
    ∀ c ∈ w.front, Passes c.toChunk ∧ c.id ≠ tag 'd' 'a' 't' 'a' := by
  intro c hc
  rw [WaveChunks.front, List.mem_append, List.mem_cons] at hc
  rcases hc with hc | rfl | hc
  · have hother := w.others c (by simp [hc])
    exact ⟨passes_of_other hother.1 hother.2, hother.2⟩
  · exact ⟨passes_fmtOf w.extra w.plain, tag_fmt_ne_data⟩
  · have hother := w.others c (by simp [hc])
    exact ⟨passes_of_other hother.1 hother.2, hother.2⟩

/-- An odd chunk in front of the data leads the inner loop astray. -/
theorem exists_astray {init : List PaddedChunk} {p : PaddedChunk} (hfront : w.front = init ++ [p])
    (heven : ∀ c ∈ init, c.payload.length % 2 = 0) (hodd : p.payload.length % 2 = 1) :
    ∃ t, w.Astray p.pad t ∧ ∀ e, InnerEnds t e → InnerEnds w.start e := by
  have hat := w.start_at
  rw [body_eq_front, hfront, List.flatMap_append, List.flatMap_singleton, List.append_assoc] at hat
  have hpasses := w.passes_front
  rw [hfront] at hpasses
  rcases exists_behind hat (fun c hc => hpasses c (by simp [hc])) heven rfl w.start_length_lt with
    ⟨s, hs, hnoted, hcontents, hends⟩
  -- the round that skips an odd payload leaves its pad byte in front of the walk
  have hpadded : p.padded = p.bytes ++ [p.pad] := by
    rw [PaddedChunk.padded, PaddedChunk.padding, if_pos hodd]
  rw [hpadded, List.append_assoc] at hs
  rcases hpasses p (by simp) with ⟨hp, hid⟩
  have hstreamed : s.wr.streamed = false := streamed_of_noted hnoted
  have hsmall : p.payload.length < 2 ^ 31 := by
    have hknown := w.known
    have hbody := congrArg List.length w.body_eq_front
    rw [hfront, List.flatMap_append, List.flatMap_singleton] at hbody
    simp only [List.length_append, PaddedChunk.length_padded] at hbody
    omega
  rcases riffBody_passes hs.ahead hp hstreamed hsmall with ⟨t, hnext, hwav, hlength, hnoted'⟩
  rw [notedBehind_other hid, hnoted] at hnoted'
  refine ⟨t, ⟨⟨0, by decide, hs.passed hwav hlength⟩, ?_, streamed_of_noted hnoted', ?_⟩, ?_⟩
  · rw [hwav]
    exact hcontents
  · rw [hnoted']
    rintro ⟨hzero, -⟩
    exact w.nonempty (List.eq_nil_of_length_eq_zero hzero.symm)
  · intro e he
    exact hends e (InnerEnds.next hnext he)

/-- The walk through the file ends at its end or behind it. -/
theorem start_ends_le {t : RiffWalk} (h : InnerEnds w.start (.inl t)) :
    w.contents.length ≤ t.wr.wav.pos + t.length.toNat := by
  have hknown := w.known
  have hend := w.start_at.end_le
  rw [w.start_at.length] at hend
  have hcontents : w.start.wr.wav.contents = w.contents := rfl
  rw [hcontents] at hend
  rcases h with ⟨fuel, hfuel⟩
  rcases inner_resumes w.start_at rfl (by omega) hfuel with ⟨-, hresumes⟩ | ⟨-, hresumes⟩
  · exact Nat.le_trans hend (Nat.le_of_eq hresumes.symm)
  · exact Nat.le_trans hend (Nat.le_trans (Nat.le_add_right _ 16) (Nat.le_of_eq hresumes.symm))

/-- A reader that reports what the file says was led to the data. -/
theorem leadsToData_of_reports {t : RiffWalk} (hstreamed : t.wr.streamed = false)
    (h : w.Reports { t.wr with wav := ⟨w.contents, t.dataPos, false⟩ }) :
    w.LeadsToData (noted t) := by
  have hknown := w.known
  have hbody := congrArg List.length w.body_eq_front
  simp only [tailBytes_eq, List.length_append, Chunk.length_bytes] at hbody
  have hlength : t.wr.dataLength.toNat = w.data.length := h.dataLength
  have hpayload : w.dataChunk.payload.length = w.data.length := rfl
  have hsmall : ∀ length ∈ [t.wr.dataLength], length.toNat < 2 ^ 31 := by
    intro length hmem
    rw [List.mem_singleton.mp hmem]
    omega
  have hsum : ([t.wr.dataLength].map UInt32.toNat).sum = w.data.length := by
    rw [List.map_singleton, List.sum_singleton, hlength]
  have hdata := h.delivers _ hsmall (Nat.le_of_eq hsum.symm)
  rw [delivered_eq _ hsmall, hsum] at hdata
  refine ⟨hlength, ?_⟩
  simp only [payload, hstreamed, Bool.false_eq_true, if_false, hlength, List.take_take,
    Nat.min_self] at hdata
  exact hdata

/-- **An odd chunk in front of the data** keeps it from being found. -/
theorem not_understood {init : List PaddedChunk} {p : PaddedChunk} (hfront : w.front = init ++ [p])
    (heven : ∀ c ∈ init, c.payload.length % 2 = 0) (hodd : p.payload.length % 2 = 1)
    (honce : w.DataOnce) : ¬ w.Understood := by
  rintro ⟨wr, hopen, hreports⟩
  rcases exists_astray hfront heven hodd with ⟨t, hastray, hends⟩
  have hsome := inner_isSome t (remaining_lt_enoughFuel hastray.contents)
  rcases Option.isSome_iff_exists.mp hsome with ⟨e, he⟩
  have hend : InnerEnds t e := ⟨_, he⟩
  rcases hastray.ends honce hend with ⟨hbrk, hret⟩
  cases e with
  | inr wr' =>
      have hopen' := wavReadOpen_of_ret w.chunkBody_start rfl (hends _ hend)
      rw [hopen] at hopen'
      rcases Option.some.inj hopen' with rfl
      have hlength := hreports.dataLength
      rw [hret wr rfl] at hlength
      exact w.nonempty (List.eq_nil_of_length_eq_zero hlength.symm)
  | inl u =>
      rcases hbrk u rfl with ⟨hstreamed, hmissed⟩
      have hopen' := wavReadOpen_of_brk w.chunkBody_start rfl (hends _ hend)
        (start_ends_le (hends _ hend))
      rw [hopen] at hopen'
      rcases Option.some.inj hopen' with rfl
      exact hmissed (leadsToData_of_reports hstreamed hreports)

/-- **Which files are understood**: those that are in step. Where only the chunk in front of
the data can bring the reader out of step, and the data is in the file once, no others are.
Every file that is not in step makes the reader read a header at a pad byte. Some of them are
understood all the same, by accident: one with an odd 'data' chunk may have a 'LIST' chunk
behind it with the bytes of a 'data' chunk in it. -/
theorem understood_iff (w : WaveFile) :
    (w.InStep → w.Understood) ∧
      (w.InStepButOne → w.DataOnce → (w.Understood ↔ w.InStep)) := by
  refine ⟨understood_of_inStep, fun hbut honce => ⟨?_, understood_of_inStep⟩⟩
  intro hunderstood
  rcases List.eq_nil_or_concat w.front with hnil | ⟨init, p, hfront⟩
  · exact absurd hnil (by simp [WaveChunks.front])
  rw [List.concat_eq_append] at hfront
  have hinit := hbut.front
  rw [hfront, List.dropLast_concat] at hinit
  refine ⟨?_, hbut.behind⟩
  intro c hc
  rw [hfront, List.mem_append, List.mem_singleton] at hc
  rcases hc with hc | rfl
  · exact hinit c hc
  · by_contra hodd
    exact not_understood hfront hinit (by omega) honce hunderstood

/-- A file with two bytes of data and an even 'fmt ' chunk. -/
def evenFmtFile : WaveFile where
  before := []
  fields := ⟨1, 1, 48000, 96000, 2, 16⟩
  extra := []
  fmtPad := 0
  between := []
  data := [1, 2]
  dataPad := 0
  after := []
  others := by decide
  plain := by decide
  nonempty := by decide
  known := by decide

/-- The same with a 'fmt ' chunk of 17 bytes. -/
def oddFmtFile : WaveFile where
  before := []
  fields := ⟨1, 1, 48000, 96000, 2, 16⟩
  extra := [0]
  fmtPad := 0
  between := []
  data := [1, 2]
  dataPad := 0
  after := []
  others := by decide
  plain := by decide
  nonempty := by decide
  known := by decide

theorem understood_iff_fmt :
    evenFmtFile.Understood ∧ (oddFmtFile.Understood ↔ oddFmtFile.InStep) := by
  constructor
  · exact (understood_iff evenFmtFile).1 ⟨by decide, Or.inl (by decide)⟩
  · exact (understood_iff oddFmtFile).2 ⟨by decide, Or.inl (by decide)⟩ (dataOnce_of_last rfl)

/-- Not all well-formed files are understood. -/
theorem not_understood_oddFmtFile : ¬ ∀ w : WaveFile, w.Understood := by
  intro h
  rcases h oddFmtFile with ⟨wr, hopen, hreports⟩
  have hzero : (wavReadOpen (some oddFmtFile.contents)).map (·.dataLength) = some 0 := by
    decide +kernel
  rw [hopen] at hzero
  have hlength := hreports.dataLength
  have hread : wr.dataLength = 0 := Option.some.inj hzero
  rw [hread] at hlength
  exact absurd hlength (by decide)

end WaveFile

end AudioProc
