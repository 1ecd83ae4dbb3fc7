import AudioProc.RiffWalk

/-!
# Malformed RIFF bodies

Where the outer loop of `wav_read_open` goes on after a RIFF chunk with an arbitrary body.
The inner loop can break out of a body at several places; a common seek by the remaining
length then makes up for what it has left.

`Resumes` is the position that seek leads to. Every round of the inner loop keeps it, and so
does every break but one: a 'fmt ' sub-chunk that declares the extensible format in fewer than
28 bytes has its 16 bytes of fields read before the break, but not taken from the remaining
length, and the outer loop goes on 16 bytes too far. `ShortExtensible` says of a body that the
inner loop comes to such a sub-chunk (`chunkBody_resumes_iff`).
-/

namespace AudioProc.WavReader

open CFile Loop Riff

/-! ## Bodies -/

/-- A 'fmt ' sub-chunk of the extensible format, in 16 to 27 bytes. -/
structure IsShortExtensible (c : Chunk) : Prop where
  id : c.id = tag 'f' 'm' 't' ' '
  format : c.payload.take 2 = int16 0xfffe
  fields : 16 ≤ c.payload.length
  short : c.payload.length < 28

/-- A sub-chunk that the inner loop passes over: a 'fmt ' sub-chunk has room for its fields,
which are more in the extensible format, and a 'data' sub-chunk is not empty. -/
structure Passes (c : Chunk) : Prop where
  fields : c.id = tag 'f' 'm' 't' ' ' → 16 ≤ c.payload.length
  extensible : c.id = tag 'f' 'm' 't' ' ' → c.payload.take 2 = int16 0xfffe →
    28 ≤ c.payload.length
  data : c.id = tag 'd' 'a' 't' 'a' → c.payload ≠ []

/-- A body in which a short extensible 'fmt ' sub-chunk comes behind sub-chunks that are
passed over. -/
inductive ShortExtensible : List UInt8 → Prop where
  | here {c : Chunk} {more : List UInt8} :
      IsShortExtensible c → ShortExtensible (c.bytes ++ more)
  | behind {c : Chunk} {more : List UInt8} :
      Passes c → ShortExtensible more → ShortExtensible (c.bytes ++ more)

theorem IsShortExtensible.not_passes {c : Chunk} (h : IsShortExtensible c) : ¬ Passes c := by
  intro hpasses
  have hlong := hpasses.extensible h.id h.format
  exact absurd h.short (Nat.not_lt.mpr hlong)

theorem passes_fmtOf {w : FmtFields} (extra : List UInt8) (h : w.format ≠ 0xfffe) :
    Passes (fmtOf w extra) where
  fields := by
    intro _
    rw [length_fmtOf]
    exact Nat.le_add_right 16 _
  extensible := fun _ hformat => absurd (int16_inj hformat) h
  data := fun hid => absurd hid tag_fmt_ne_data

/-- A chunk that is neither a 'fmt ' nor a 'data' chunk is always passed over. -/
theorem passes_of_other {c : Chunk} (hfmt : c.id ≠ tag 'f' 'm' 't' ' ')
    (hdata : c.id ≠ tag 'd' 'a' 't' 'a') : Passes c :=
  ⟨fun hid => absurd hid hfmt, fun hid => absurd hid hfmt, fun hid => absurd hid hdata⟩

/-- The ways not to be passed over. -/
theorem not_passes_cases {c : Chunk} (h : ¬ Passes c) :
    IsShortExtensible c ∨ (c.id = tag 'f' 'm' 't' ' ' ∧ c.payload.length < 16) ∨
      (c.id = tag 'd' 'a' 't' 'a' ∧ c.payload = []) := by
  by_cases hfmt : c.id = tag 'f' 'm' 't' ' '
  · have hdata : c.id ≠ tag 'd' 'a' 't' 'a' := hfmt ▸ tag_fmt_ne_data
    by_cases hfields : c.payload.length < 16
    · exact Or.inr (Or.inl ⟨hfmt, hfields⟩)
    have hlong := Nat.not_lt.mp hfields
    by_cases hformat : c.payload.take 2 = int16 0xfffe
    · -- too short for its format, or passed over after all
      left
      refine ⟨hfmt, hformat, hlong, ?_⟩
      by_contra hroom
      exact h ⟨fun _ => hlong, fun _ _ => Nat.not_lt.mp hroom, fun hid => absurd hid hdata⟩
    · exact absurd ⟨fun _ => hlong, fun _ hext => absurd hext hformat,
        fun hid => absurd hid hdata⟩ h
  · by_cases hempty : c.id = tag 'd' 'a' 't' 'a' ∧ c.payload = []
    · exact Or.inr (Or.inr hempty)
    · exact absurd ⟨fun hid => absurd hid hfmt, fun hid => absurd hid hfmt,
        fun hid hnil => hempty ⟨hid, hnil⟩⟩ h

/-- It starts with a whole sub-chunk. -/
theorem ShortExtensible.exists_chunk {body : List UInt8} (h : ShortExtensible body) :
    ∃ (c : Chunk) (more : List UInt8),
      body = c.bytes ++ more ∧ (IsShortExtensible c ∨ Passes c) := by
  cases h with
  | here hshort => exact ⟨_, _, rfl, Or.inl hshort⟩
  | behind hpasses _ => exact ⟨_, _, rfl, Or.inr hpasses⟩

theorem shortExtensible_append {c : Chunk} {more : List UInt8}
    (hsmall : (c.bytes ++ more).length < 2 ^ 32) :
    ShortExtensible (c.bytes ++ more) ↔
      IsShortExtensible c ∨ Passes c ∧ ShortExtensible more := by
  constructor
  · intro h
    generalize hbody : c.bytes ++ more = body at h hsmall
    cases h with
    | @here d more' hshort =>
        have hlength := congrArg List.length hbody
        simp only [List.length_append, Chunk.length_bytes] at hlength hsmall
        rcases Chunk.bytes_append_inj (by omega) (by omega) hbody with ⟨rfl, -⟩
        exact Or.inl hshort
    | @behind d more' hpasses hmore =>
        have hlength := congrArg List.length hbody
        simp only [List.length_append, Chunk.length_bytes] at hlength hsmall
        rcases Chunk.bytes_append_inj (by omega) (by omega) hbody with ⟨rfl, rfl⟩
        exact Or.inr ⟨hpasses, hmore⟩
  · rintro (hshort | ⟨hpasses, hmore⟩)
    · exact ShortExtensible.here hshort
    · exact ShortExtensible.behind hpasses hmore

/-! ## Rounds of the inner loop -/

/-- The common seek behind the inner loop leads to position `p`. -/
def Resumes (p : ℕ) (s : RiffWalk) : Prop := s.wr.wav.pos + s.length.toNat = p

/-- What the walk has noted of the data: its position, its length, whether it is streamed. -/
def noted (s : RiffWalk) : ℕ × UInt32 × Bool := (s.dataPos, s.wr.dataLength, s.wr.streamed)

/-- What it has noted behind sub-chunk `c`. -/
def notedBehind (s : RiffWalk) (c : Chunk) : ℕ × UInt32 × Bool :=
  if c.id = tag 'd' 'a' 't' 'a' then (s.wr.wav.pos + 8, c.size, s.wr.streamed) else noted s

theorem notedBehind_other {s : RiffWalk} {c : Chunk} (h : c.id ≠ tag 'd' 'a' 't' 'a') :
    notedBehind s c = noted s := if_neg h

theorem notedBehind_data {s : RiffWalk} {c : Chunk} (h : c.id = tag 'd' 'a' 't' 'a') :
    notedBehind s c = (s.wr.wav.pos + 8, c.size, s.wr.streamed) := if_pos h

theorem streamed_of_noted {s t : RiffWalk} (h : noted t = noted s) :
    t.wr.streamed = s.wr.streamed := congrArg (·.2.2) h

theorem streamed_of_notedBehind {s t : RiffWalk} {c : Chunk} (h : noted t = notedBehind s c) :
    t.wr.streamed = s.wr.streamed := by
  by_cases hid : c.id = tag 'd' 'a' 't' 'a'
  · rw [notedBehind_data hid] at h
    exact congrArg (·.2.2) h
  · rw [notedBehind_other hid] at h
    exact streamed_of_noted h

/-- A round that passes over a sub-chunk stays in step. -/
theorem riffBody_passes {s : RiffWalk} {c : Chunk} {more : List UInt8} (h : s.Ahead c more)
    (hpasses : Passes c) (hstreamed : s.wr.streamed = false) (hsmall : c.payload.length < 2 ^ 31) :
    ∃ t, riffBody s = .next t ∧ t.wr.wav = s.wr.wav.advance c.bytes.length ∧
      t.length = (s.advance c.bytes.length).length ∧ noted t = notedBehind s c := by
  by_cases hfmt : c.id = tag 'f' 'm' 't' ' '
  · have hnoted : notedBehind s c = noted s := notedBehind_other (hfmt ▸ tag_fmt_ne_data)
    rcases exists_fmtFields (hpasses.fields hfmt) with ⟨w, extra, hpayload⟩
    obtain rfl : c = fmtOf w extra := by
      cases c
      exact congrArg₂ Chunk.mk hfmt hpayload
    by_cases hformat : w.format = 0xfffe
    · have htake : (fmtOf w extra).payload.take 2 = int16 0xfffe := by
        rw [← hformat]
        rfl
      have hroom := hpasses.extensible rfl htake
      rw [length_fmtOf] at hroom
      rcases riffBody_extensible h hformat (by omega) hsmall with ⟨format, hbody⟩
      exact ⟨_, hbody, rfl, rfl, hnoted.symm⟩
    · exact ⟨_, riffBody_fmt h hformat hsmall, rfl, rfl, hnoted.symm⟩
  · by_cases hdata : c.id = tag 'd' 'a' 't' 'a'
    · exact ⟨_, riffBody_data h hdata (hpasses.data hdata) hstreamed, rfl, rfl,
        (notedBehind_data hdata).symm⟩
    · have hnoted : notedBehind s c = noted s := notedBehind_other hdata
      exact ⟨_, riffBody_other h hfmt hdata hsmall, rfl, rfl, hnoted.symm⟩

/-- What a round does in front of `body`, with `post` behind it. -/
inductive Round (s : RiffWalk) (post : List UInt8) :
    List UInt8 → Flow RiffWalk WavReader → Prop where
  | passes {c : Chunk} {body : List UInt8} {t : RiffWalk} :
      Passes c → t.At body post → noted t = notedBehind s c →
      t.wr.wav.pos = s.wr.wav.pos + c.bytes.length → Round s post (c.bytes ++ body) (.next t)
  | breaks {body : List UInt8} {t : RiffWalk} :
      ¬ ShortExtensible body → noted t = noted s → Resumes (s.wr.wav.pos + body.length) t →
      Round s post body (.brk t)
  | overshoots {body : List UInt8} {t : RiffWalk} :
      ShortExtensible body → noted t = noted s → Resumes (s.wr.wav.pos + body.length + 16) t →
      Round s post body (.brk t)
  | returns {body : List UInt8} {wr : WavReader} :
      wr.dataLength = 0 → Round s post body (.ret wr)

section

variable {s : RiffWalk} {c : Chunk} {body post more : List UInt8}

/-- A break right behind a header is made up for. -/
theorem resumes_header (h : 8 ≤ s.length.toNat) :
    Resumes (s.wr.wav.pos + s.length.toNat) (s.advance 8) := by
  have hlength := RiffWalk.length_advance h
  show s.wr.wav.pos + 8 + (s.advance 8).length.toNat = _
  omega

/-- A 'fmt ' sub-chunk without room for its fields. -/
theorem riffBody_fmt_short (h : s.Ahead c more) (hid : c.id = tag 'f' 'm' 't' ' ')
    (hshort : c.payload.length < 16) : riffBody s = .brk (s.advance 8) := by
  have hlt : c.size < 16 := by
    rw [UInt32.lt_iff_toNat_lt, h.toNat_size]
    exact hshort
  rw [h.riffBody_eq, hid, subChunk_fmt h.not_oversized, fmtChunk, if_pos hlt]
  rfl

/-- A sub-chunk that does not fit into what the RIFF chunk has left. -/
theorem riffBody_oversized {id size : UInt32} (h : s.At (header id size ++ more) post)
    (hover : more.length < size.toNat) : riffBody s = .brk (s.advance 8) := by
  have hrest := h.rest
  rw [List.append_assoc] at hrest
  have hlength := h.length
  rw [List.length_append, length_header] at hlength
  have hroom : 8 ≤ s.length.toNat := by omega
  have hlt : (s.advance 8).length < size := by
    rw [UInt32.lt_iff_toNat_lt, RiffWalk.length_advance hroom]
    omega
  rw [riffBody_header hrest hroom h.eof, subChunk, if_pos hlt]

theorem round_oversized {id size : UInt32} (h : s.At (header id size ++ more) post)
    (hover : more.length < size.toNat) : Round s post (header id size ++ more) (riffBody s) := by
  have hroom : 8 ≤ s.length.toNat := by
    rw [h.length, List.length_append, length_header]
    exact Nat.le_add_right 8 _
  rw [riffBody_oversized h hover]
  refine Round.breaks ?_ rfl ?_
  · -- no whole sub-chunk starts here
    intro hbody
    rcases hbody.exists_chunk with ⟨c, more', heq, -⟩
    rw [Chunk.bytes, List.append_assoc] at heq
    rcases header_append_inj heq with ⟨-, rfl, rfl⟩
    have hle := Nat.mod_le c.payload.length (2 ^ 32)
    rw [Chunk.size, UInt32.toNat_ofNat', List.length_append] at hover
    omega
  · rw [← h.length]
    exact resumes_header hroom

/-- The 16 bytes of fields that are read are not taken from the remaining length. -/
theorem round_short_extensible (h : s.At (c.bytes ++ body) post) (hext : IsShortExtensible c) :
    Round s post (c.bytes ++ body) (riffBody s) := by
  rcases exists_fmtFields hext.fields with ⟨w, extra, hpayload⟩
  obtain rfl : c = fmtOf w extra := by
    cases c
    exact congrArg₂ Chunk.mk hext.id hpayload
  have hformat : w.format = 0xfffe := int16_inj hext.format
  have hextra := hext.short
  rw [length_fmtOf] at hextra
  have hfits := h.ahead.fits
  rw [Chunk.length_bytes] at hfits
  have hlength : (s.advance 8).length.toNat = s.length.toNat - 8 :=
    RiffWalk.length_advance (by omega)
  rw [riffBody_extensible_short h.ahead hformat (by omega)]
  refine Round.overshoots (ShortExtensible.here hext) rfl ?_
  show s.wr.wav.pos + 24 + (s.advance 8).length.toNat = _
  rw [hlength, ← h.length]
  omega

/-- A whole sub-chunk. -/
theorem round_chunk (h : s.At (c.bytes ++ body) post) (hstreamed : s.wr.streamed = false)
    (hsmall : (c.bytes ++ body).length < 2 ^ 31) :
    Round s post (c.bytes ++ body) (riffBody s) := by
  have hsize := hsmall
  rw [List.length_append, Chunk.length_bytes] at hsize
  have hroom : 8 ≤ s.length.toNat := by
    have hfits := h.ahead.fits
    rw [Chunk.length_bytes] at hfits
    omega
  have hiff := @shortExtensible_append c body (by omega)
  by_cases hpasses : Passes c
  · rcases riffBody_passes h.ahead hpasses hstreamed (by omega) with
      ⟨t, hnext, hwav, hlength, hnoted⟩
    rw [hnext]
    refine Round.passes hpasses (h.passed hwav hlength) hnoted ?_
    rw [hwav]
    rfl
  · rcases not_passes_cases hpasses with hext | ⟨hfmt, hshort⟩ | ⟨hdata, hnil⟩
    · exact round_short_extensible h hext
    · rw [riffBody_fmt_short h.ahead hfmt hshort]
      refine Round.breaks ?_ rfl ?_
      · rw [hiff]
        rintro (hext | ⟨hbad, -⟩)
        · exact absurd hext.fields (Nat.not_le.mpr hshort)
        · exact hpasses hbad
      · rw [← h.length]
        exact resumes_header hroom
    · -- empty data: the function returns
      rw [riffBody_data_streamed h.ahead hdata (Or.inl hnil)]
      apply Round.returns
      show c.size = 0
      rw [Chunk.size, hnil]
      rfl

/-- **A round of the inner loop** over any body. -/
theorem riffBody_round (h : s.At body post) (hstreamed : s.wr.streamed = false)
    (hsmall : body.length < 2 ^ 31) : Round s post body (riffBody s) := by
  by_cases hshort : body.length < 8
  · have hlt : s.length < 8 := by
      rw [UInt32.lt_iff_toNat_lt, h.length]
      exact hshort
    rw [riffBody_of_short hlt]
    refine Round.breaks ?_ rfl ?_
    · intro hbody
      rcases hbody.exists_chunk with ⟨c, more, rfl, -⟩
      rw [List.length_append, Chunk.length_bytes] at hshort
      omega
    · exact congrArg (s.wr.wav.pos + ·) h.length
  · rcases exists_header (Nat.not_lt.mp hshort) with ⟨id, size, more, rfl⟩
    by_cases hover : more.length < size.toNat
    · exact round_oversized h hover
    · rcases exists_chunk id (Nat.not_lt.mp hover) with ⟨c, body, hbody⟩
      rw [hbody] at h hsmall ⊢
      exact round_chunk h hstreamed hsmall

end

/-! ## The whole chunk -/

/-- **The inner loop** over any body. -/
theorem inner_resumes {fuel : ℕ} {s t : RiffWalk} {body post : List UInt8} (h : s.At body post)
    (hstreamed : s.wr.streamed = false) (hsmall : body.length < 2 ^ 31)
    (hend : iterate (fun s => some (riffBody s)) fuel s = some (.inl t)) :
    (¬ ShortExtensible body ∧ Resumes (s.wr.wav.pos + body.length) t) ∨
      (ShortExtensible body ∧ Resumes (s.wr.wav.pos + body.length + 16) t) := by
  induction fuel generalizing s body with
  | zero => exact absurd hend (by simp [iterate])
  | succ fuel ih =>
      -- one round says which of the cases the rest of the body is in
      have hround := riffBody_round h hstreamed hsmall
      rw [iterate] at hend
      generalize riffBody s = flow at hround hend
      cases hround with
      | @passes c body u hpasses hat hnoted hpos =>
          have hstill := streamed_of_notedBehind hnoted
          rw [List.length_append] at hsmall
          have hiff := @shortExtensible_append c body (by
            rw [List.length_append]
            omega)
          have hsum : u.wr.wav.pos + body.length =
              s.wr.wav.pos + (c.bytes ++ body).length := by
            rw [hpos, List.length_append]
            omega
          -- a chunk that passes leaves both the condition and the place to resume at unchanged
          rcases ih hat (hstill.trans hstreamed) (by omega) hend with
            ⟨hnot, hresumes⟩ | ⟨hbad, hresumes⟩
          · left
            refine ⟨?_, hsum ▸ hresumes⟩
            rw [hiff]
            rintro (hext | ⟨-, hmore⟩)
            · exact hext.not_passes hpasses
            · exact hnot hmore
          · right
            exact ⟨ShortExtensible.behind hpasses hbad, hsum ▸ hresumes⟩
      | breaks hnot _ hresumes =>
          rcases Sum.inl.inj (Option.some.inj hend) with rfl
          exact Or.inl ⟨hnot, hresumes⟩
      | overshoots hbad _ hresumes =>
          rcases Sum.inl.inj (Option.some.inj hend) with rfl
          exact Or.inr ⟨hbad, hresumes⟩
      | returns _ => exact absurd hend (by simp)

/-- The common seek behind the inner loop. -/
theorem riffChunk_next {fuel : ℕ} {s : RiffWalk} {s' : Walk}
    (h : riffChunk fuel s = some (.next s')) :
    ∃ t, iterate (fun s => some (riffBody s)) fuel s = some (.inl t) ∧
      Resumes s'.wr.wav.pos t := by
  unfold riffChunk at h
  cases hend : iterate (fun s => some (riffBody s)) fuel s with
  | none =>
      rw [hend] at h
      exact absurd h (by simp)
  | some e =>
      rw [hend] at h
      cases e with
      | inr wr => exact absurd h (by simp)
      | inl t =>
          refine ⟨t, rfl, ?_⟩
          have hleave : s' = t.leave := by
            simp only at h
            split_ifs at h with hleft
            · rw [← Flow.next.inj (Option.some.inj h)]
              simp only [RiffWalk.leave, if_pos hleft]
            · rw [← Flow.next.inj (Option.some.inj h)]
              simp only [RiffWalk.leave, if_neg hleft]
          rw [hleave, leave_pos]
          rfl

/-- Where a round of the outer loop leaves the stream, if the loop goes on. -/
def nextPos : Option (Flow Walk WavReader) → Option ℕ
  | some (.next s) => some s.wr.wav.pos
  | _ => none

theorem nextPos_eq_some {flow : Option (Flow Walk WavReader)} {p : ℕ}
    (h : nextPos flow = some p) : ∃ s, flow = some (.next s) ∧ s.wr.wav.pos = p := by
  cases flow with
  | none => exact absurd h (by simp [nextPos])
  | some flow =>
      cases flow with
      | next s => exact ⟨s, rfl, Option.some.inj h⟩
      | brk s => exact absurd h (by simp [nextPos])
      | ret wr => exact absurd h (by simp [nextPos])

/-- A round that goes on did not start at the end of the file. -/
theorem eof_of_chunkBody_next {fuel : ℕ} {s s' : Walk}
    (h : chunkBody fuel s = some (.next s')) : s.wr.wav.eof = false := by
  cases heof : s.wr.wav.eof with
  | false => rfl
  | true =>
      have htag : (readTag s.wr.wav).2.eof = true := by
        rw [readTag_snd]
        exact eof_discard heof
      unfold chunkBody at h
      simp only [htag, if_true] at h
      exact absurd h (by simp)

/-- **Where the outer loop goes on** after a 'WAVE' chunk of `n` bytes that lies inside the
file: right behind it, unless its body comes to a short 'fmt ' sub-chunk of the extensible
format. -/
theorem chunkBody_resumes_iff {fuel p : ℕ} {s : Walk} {n : UInt32} {body post : List UInt8}
    (hrest : s.wr.wav.rest = header (tag 'R' 'I' 'F' 'F') n ++
      (fourcc (tag 'W' 'A' 'V' 'E') ++ (body ++ post)))
    (hn : n.toNat = 4 + body.length) (hknown : n < 0x7fff0000)
    (hstreamed : s.wr.streamed = false) (hnext : nextPos (chunkBody fuel s) = some p) :
    p = s.wr.wav.pos + 8 + n.toNat ↔ ¬ ShortExtensible body := by
  rcases nextPos_eq_some hnext with ⟨s', hs', hp⟩
  have heof := eof_of_chunkBody_next hs'
  have hfour : 4 ≤ n.toNat := by omega
  have hsmall : n.toNat < 0x7fff0000 := UInt32.lt_iff_toNat_lt.mp hknown
  rw [chunkBody_wave hrest heof hfour hknown] at hs'
  rcases riffChunk_next hs' with ⟨t, hend, hpos⟩
  have hstart : (s.enter (n - 4)).wr.wav.pos = s.wr.wav.pos + 12 := rfl
  unfold Resumes at hpos
  rcases inner_resumes (at_enter hrest heof hn) hstreamed (by omega) hend with
    ⟨hnot, hresumes⟩ | ⟨hbad, hresumes⟩
  · unfold Resumes at hresumes
    constructor
    · intro _
      exact hnot
    · intro _
      omega
  · unfold Resumes at hresumes
    constructor
    · intro hsame
      omega
    · intro hnot
      exact absurd hbad hnot

/-- A sub-chunk that declares more data than its RIFF chunk has. -/
theorem chunkBody_resumes_iff_oversized :
    23 = 0 + 8 + (15 : UInt32).toNat ↔
      ¬ ShortExtensible (header (tag 'd' 'a' 't' 'a') 100 ++ [1, 2, 3]) :=
  @chunkBody_resumes_iff 2 23
    ⟨fresh (fopen (header (tag 'R' 'I' 'F' 'F') 15 ++ (fourcc (tag 'W' 'A' 'V' 'E') ++
      (header (tag 'd' 'a' 't' 'a') 100 ++ [1, 2, 3] ++ [4])))), 0⟩
    15 (header (tag 'd' 'a' 't' 'a') 100 ++ [1, 2, 3]) [4]
    rfl (by decide) (by decide) rfl (by decide +kernel)

/-- The outer loop does not always go on right behind a RIFF chunk. -/
theorem chunkBody_not_resumes :
    ¬ ∀ (fuel p : ℕ) (s : Walk) (n : UInt32) (body post : List UInt8),
      s.wr.wav.rest = header (tag 'R' 'I' 'F' 'F') n ++
        (fourcc (tag 'W' 'A' 'V' 'E') ++ (body ++ post)) →
      n.toNat = 4 + body.length → n < 0x7fff0000 → s.wr.streamed = false →
      nextPos (chunkBody fuel s) = some p → p = s.wr.wav.pos + 8 + n.toNat := by
  intro h
  have hplace := h 2 52
    ⟨fresh (fopen (header (tag 'R' 'I' 'F' 'F') 28 ++ (fourcc (tag 'W' 'A' 'V' 'E') ++
      ((fmtOf ⟨0xfffe, 2, 48000, 192000, 4, 16⟩ []).bytes ++ [])))), 0⟩
    28 (fmtOf ⟨0xfffe, 2, 48000, 192000, 4, 16⟩ []).bytes []
    rfl (by decide) (by decide) rfl (by decide +kernel)
  exact absurd hplace (by decide)

end AudioProc.WavReader
