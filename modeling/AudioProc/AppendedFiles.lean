import AudioProc.TrailingBytes

/-!
# Files that follow each other

What is read of several WAVE files that were appended to one another. The outer loop of
`wav_read_open` goes through all of them, and every one overwrites what was noted of the one
before it: the fields of the header, the length of the data and its position. So the last file
is read, whatever the others are, and all the data in front of it is lost.

* `file_round`: one round of the outer loop over one file;
* `ends_files`: the loop over all files, by induction on them;
* `wavReadOpen_files`: what is read, also with other bytes behind the last file, as long as the
  four bytes 'RIFF' do not occur in them.
-/

namespace AudioProc

open CFile Loop Riff

namespace WaveFile

open WavReader

variable {w : WaveFile} {s t : Walk} {T : List UInt8} {fuel : ℕ}

/-- The outer loop in front of `bytes`, with nothing noted that is not of a plain file. -/
structure InFront (s : Walk) (bytes : List UInt8) : Prop where
  rest : s.wr.wav.rest = bytes
  eof : s.wr.wav.eof = false
  streamed : s.wr.streamed = false

/-- What a walk has noted is what file `w` says. -/
structure NotedOf (w : WaveFile) (t : Walk) : Prop extends Describes t.wr w.fields where
  dataLength : t.wr.dataLength.toNat = w.data.length
  data : ∃ more, t.wr.wav.contents.drop t.dataPos = w.data ++ more

/-- The stream and the flag are no part of it. -/
theorem NotedOf.keep {u : Walk} (h : w.NotedOf t)
    (hfields : u.wr = { t.wr with
      wav := u.wr.wav
      streamed := u.wr.streamed })
    (hpos : u.dataPos = t.dataPos) (hcontents : u.wr.wav.contents = t.wr.wav.contents) :
    w.NotedOf u where
  format := (congrArg WavReader.format hfields).trans h.format
  channels := (congrArg WavReader.channels hfields).trans h.channels
  sampleRate := (congrArg WavReader.sampleRate hfields).trans h.sampleRate
  bitsPerSample := (congrArg WavReader.bitsPerSample hfields).trans h.bitsPerSample
  dataLength := (congrArg (·.dataLength.toNat) hfields).trans h.dataLength
  data := by
    rw [hpos, hcontents]
    exact h.data

theorem InFront.enter_at (h : InFront s (w.contents ++ T)) :
    (s.enter (w.size - 4)).At w.body T := by
  refine at_enter ?_ h.eof w.toNat_size
  rw [h.rest]
  simp only [contents, List.append_assoc]

/-- **One file**: the walk is behind it, and what it noted before does not matter. -/
theorem file_round (heven : ∀ c ∈ w.front ++ w.tail, c.payload.length % 2 = 0)
    (h : InFront s (w.contents ++ T)) (hfuel : remaining s.wr.wav < fuel) :
    ∃ t, chunkBody fuel s = some (.next t) ∧ InFront t T ∧ w.NotedOf t ∧
      t.wr.wav.contents = s.wr.wav.contents := by
  have hat := h.enter_at
  have hfour : 4 ≤ w.size.toNat := by
    rw [w.toNat_size]
    exact Nat.le_add_right 4 _
  have hrest : s.wr.wav.rest = header (tag 'R' 'I' 'F' 'F') w.size ++
      (fourcc (tag 'W' 'A' 'V' 'E') ++ (w.body ++ T)) := by
    rw [h.rest]
    simp only [contents, List.append_assoc]
  have hless : remaining (s.enter (w.size - 4)).wr.wav < fuel := by
    refine Nat.lt_of_le_of_lt ?_ hfuel
    exact Nat.sub_le_sub_left (Nat.le_add_right s.wr.wav.pos 12) _
  rcases ends_even hat heven h.streamed with ⟨hend, hinner⟩
  refine ⟨(w.toEnd (s.enter (w.size - 4))).toWalk, ?_, ⟨hend.rest, hend.eof, h.streamed⟩, ?_, rfl⟩
  · rw [chunkBody_wave hrest h.eof hfour w.size_lt, ← leave_of_at hend]
    exact riffChunk_of_brk hless hinner
  · have hdata := (ends_front_of_at hat fun c hc => heven c (List.mem_append_left _ hc)).1
    rw [PaddedChunk.padded, List.append_assoc] at hdata
    exact ⟨⟨rfl, rfl, rfl, rfl⟩, hdata.ahead.toNat_size, _, hdata.ahead.rest_payload⟩

/-- **All files**: the walk has noted the last one. -/
theorem ends_files {files : List WaveFile}
    (heven : ∀ v ∈ files ++ [w], ∀ c ∈ v.front ++ v.tail, c.payload.length % 2 = 0)
    (h : InFront s ((files ++ [w]).flatMap contents ++ T)) (hfuel : remaining s.wr.wav < fuel) :
    ∃ t, (∀ e, Ends (chunkBody fuel) t e → Ends (chunkBody fuel) s e) ∧ InFront t T ∧
      w.NotedOf t ∧ t.wr.wav.contents = s.wr.wav.contents := by
  induction files generalizing s with
  | nil =>
      rw [List.nil_append, List.flatMap_singleton] at h
      rcases file_round (heven w (by simp)) h hfuel with ⟨t, hround, hfront, hnoted, hfile⟩
      exact ⟨t, fun e he => Ends.next hround he, hfront, hnoted, hfile⟩
  | cons v files ih =>
      rw [List.cons_append, List.flatMap_cons, List.append_assoc] at h
      rcases file_round (heven v (by simp)) h hfuel with ⟨u, hround, hfront, -, hfile⟩
      have hless : remaining u.wr.wav < fuel := by
        have hmoved := (chunkBody_advanced fuel s hfuel).2 u hround
        exact Nat.lt_trans hmoved.remaining_lt hfuel
      rcases ih (fun x hx => heven x (List.mem_cons_of_mem _ hx)) hfront hless with
        ⟨t, hends, ht⟩
      refine ⟨t, fun e he => Ends.next hround (hends e he), ht.1, ht.2.1, ?_⟩
      exact ht.2.2.trans hfile

/-- **Appended files are read as the last one**: its header is reported, and its data is what
requests are answered with. -/
theorem wavReadOpen_files {files : List WaveFile}
    (heven : ∀ v ∈ files ++ [w], ∀ c ∈ v.front ++ v.tail, c.payload.length % 2 = 0)
    (hT : ¬ fourcc (tag 'R' 'I' 'F' 'F') <:+: T) (hknown : KnownSizes T) :
    ∃ wr, wavReadOpen (some ((files ++ [w]).flatMap contents ++ T)) = some wr ∧ w.Reports wr := by
  have hstart : InFront ⟨fresh (fopen ((files ++ [w]).flatMap contents ++ T)), 0⟩
      ((files ++ [w]).flatMap contents ++ T) := ⟨rfl, rfl, rfl⟩
  rcases ends_files heven hstart (remaining_lt_enoughFuel rfl) with
    ⟨t, hends, hfront, hnoted, hfile⟩
  -- what is behind the last file is walked over
  rcases ends_tail hfront.rest hfront.eof hT with ⟨u, htail, hpos, hsame, hfields, hflag⟩
  have hplain : u.wr.streamed = false := by
    rw [← Bool.not_eq_true, hflag, hfront.streamed]
    rintro (hset | hnot)
    · exact absurd hset Bool.false_ne_true
    · exact hnot hknown
  rcases hnoted.keep hfields hpos hsame with ⟨hdescribes, hlength, more, hdata⟩
  refine ⟨_, wavReadOpen_of_ends (hends _ htail),
    ⟨hdescribes.1, hdescribes.2, hdescribes.3, hdescribes.4⟩, hlength, ?_⟩
  intro lengths hsmall hsum
  have hpayload : WavReader.payload { u.wr with wav := u.wr.wav.fseekSet u.dataPos } = w.data := by
    rw [WavReader.payload]
    show (if u.wr.streamed then u.wr.wav.contents.drop u.dataPos
      else (u.wr.wav.contents.drop u.dataPos).take u.wr.dataLength.toNat) = w.data
    rw [hplain, if_neg Bool.false_ne_true, hdata, hlength, List.take_left]
  simp only at hsum ⊢
  rw [← hpayload] at hsum ⊢
  exact delivered_all hsmall hsum

/-- A file of two samples at another rate. -/
def laterFile : WaveFile where
  before := []
  fields := ⟨1, 1, 16000, 32000, 2, 16⟩
  extra := []
  fmtPad := 0
  between := []
  data := [3, 4, 5, 6]
  dataPad := 0
  after := []
  others := evenFmtFile.others
  plain := evenFmtFile.plain
  nonempty := by decide
  known := by decide

/-- Behind another one, it is what is read. -/
theorem wavReadOpen_files_later :
    ∃ wr, wavReadOpen (some (([evenFmtFile] ++ [laterFile]).flatMap contents ++ [])) = some wr ∧
      laterFile.Reports wr :=
  wavReadOpen_files (by decide) (by decide) (KnownSizes.short (by decide))

end WaveFile

end AudioProc
