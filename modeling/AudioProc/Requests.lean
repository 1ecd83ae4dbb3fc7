import AudioProc.Machine
import AudioProc.WavReader

/-!
# Reading the data in pieces

What a sequence of `wav_read_data` requests gets out of a reader. The abstract reader is the
byte string that is left, and a request takes a prefix off it (`handedOut`); the reader of
`wavreader.c` refines it (`answers_eq`), although it counts the length of the data down by
what was asked for and not by what `fread` returned.

`requests_deliver` says what that means for a reader that was just opened and is not a
streamed one: however the requests are cut, they get the bytes of the data in order, up to the
end of the data or of the file, and nothing behind it.
-/

namespace AudioProc.WavReader

open CFile Loop

/-! ## Requests -/

/-- What a sequence of requests is answered with: the values returned and the bytes. -/
def answers : WavReader → List UInt32 → List (ℤ × List UInt8) :=
  Machine.observe (fun wr length => (wavReadData wr length).2.2)
    fun wr length => ((wavReadData wr length).1, (wavReadData wr length).2.1)

/-- The reader after a sequence of requests. -/
def afterRequests : WavReader → List UInt32 → WavReader :=
  Machine.run fun wr length => (wavReadData wr length).2.2

/-- What a byte string is handed out as: each request takes a prefix. -/
def handedOut : List UInt8 → List UInt32 → List (ℤ × List UInt8) :=
  Machine.observe (fun bytes length => bytes.drop length.toNat)
    fun bytes length => ((bytes.take length.toNat).length, bytes.take length.toNat)

/-- A request returns the number of its bytes, as long as that is an `int`. -/
theorem wavReadData_fst {wr : WavReader} {length : UInt32}
    (h : min length.toNat wr.payload.length < 2 ^ 31) :
    (wavReadData wr length).1 = (wr.payload.take length.toNat).length := by
  have hret : (wavReadData wr length).1 =
      (UInt32.ofNat (wavReadData wr length).2.1.length).toInt32.toInt := rfl
  rw [hret, (wavReadData_payload wr length).1, UInt32.toInt32_ofNat']
  apply Int32.toInt_ofNat_of_lt
  rw [List.length_take]
  exact h

/-- **A reader hands out its payload**, whatever the requests. -/
theorem answers_eq {wr : WavReader} {lengths : List UInt32}
    (h : ∀ length ∈ lengths, min length.toNat wr.payload.length < 2 ^ 31) :
    answers wr lengths = handedOut wr.payload lengths := by
  induction lengths generalizing wr with
  | nil => rfl
  | cons length lengths ih =>
      -- a request leaves the rest of the payload to the others
      rcases wavReadData_payload wr length with ⟨hbytes, hrest⟩
      have hmore : ∀ n ∈ lengths,
          min n.toNat (wavReadData wr length).2.2.payload.length < 2 ^ 31 := by
        intro n hn
        have hn' := h n (List.mem_cons_of_mem _ hn)
        rw [hrest, List.length_drop]
        omega
      have htail := ih hmore
      rw [hrest] at htail
      unfold answers handedOut at htail ⊢
      rw [Machine.observe_cons, Machine.observe_cons, htail, hbytes,
        wavReadData_fst (h length List.mem_cons_self)]

theorem handedOut_fst {bytes : List UInt8} {lengths : List UInt32} :
    ∀ a ∈ handedOut bytes lengths, a.1 = a.2.length := by
  induction lengths generalizing bytes with
  | nil =>
      intro a ha
      exact absurd ha List.not_mem_nil
  | cons length lengths ih =>
      intro a ha
      rcases List.mem_cons.mp ha with rfl | hmem
      · rfl
      · exact ih a hmem

/-- Together the requests take as much as they ask for. -/
theorem handedOut_bytes (bytes : List UInt8) (lengths : List UInt32) :
    (handedOut bytes lengths).flatMap Prod.snd =
      bytes.take (lengths.map UInt32.toNat).sum := by
  induction lengths generalizing bytes with
  | nil => exact List.take_zero.symm
  | cons length lengths ih =>
      have htail := ih (bytes.drop length.toNat)
      unfold handedOut at htail ⊢
      rw [Machine.observe_cons, List.flatMap_cons, htail, List.map_cons, List.sum_cons,
        List.take_add]

/-! ## The remaining length -/

/-- A request takes no more from the length of the data than is left of it. -/
theorem wavReadData_dataLength {wr : WavReader} (h : wr.streamed = false) (length : UInt32) :
    (wavReadData wr length).2.2.dataLength.toNat = wr.dataLength.toNat - length.toNat := by
  by_cases hlong : length > wr.dataLength
  · have hle : wr.dataLength.toNat ≤ length.toNat :=
      Nat.le_of_lt (UInt32.lt_iff_toNat_lt.mp hlong)
    rw [wavReadData_eq wr length (if_pos ⟨hlong, by simp [h]⟩), Nat.sub_eq_zero_of_le hle]
    show (wr.dataLength - wr.dataLength).toNat = 0
    rw [UInt32.sub_self]
    rfl
  · rw [wavReadData_eq wr length (if_neg fun hcut => hlong hcut.1)]
    exact UInt32.toNat_sub_of_le _ _ (UInt32.not_lt.mp hlong)

theorem dataLength_afterRequests {wr : WavReader} (h : wr.streamed = false)
    (lengths : List UInt32) :
    (afterRequests wr lengths).dataLength.toNat =
      wr.dataLength.toNat - (lengths.map UInt32.toNat).sum := by
  induction lengths generalizing wr with
  | nil => rfl
  | cons length lengths ih =>
      -- the subtraction stops at zero, as the sum goes on
      have hstill : (wavReadData wr length).2.2.streamed = false := h
      have htail := ih hstill
      unfold afterRequests at htail ⊢
      rw [Machine.run_cons, htail, wavReadData_dataLength h, List.map_cons, List.sum_cons]
      omega

/-! ## Opened readers -/

theorem subChunk_ret {s : RiffWalk} {subtag sublength : UInt32} {wr : WavReader}
    (h : subChunk s subtag sublength = .ret wr) : wr.streamed = true := by
  simp only [subChunk] at h
  split_ifs at h
  rcases Flow.ret.inj h with rfl
  rfl

theorem riffBody_ret {s : RiffWalk} {wr : WavReader} (h : riffBody s = .ret wr) :
    wr.streamed = true := by
  simp only [riffBody] at h
  split_ifs at h
  exact subChunk_ret h

theorem riffChunk_ret {fuel : ℕ} {s : RiffWalk} {wr : WavReader}
    (h : riffChunk fuel s = some (.ret wr)) : wr.streamed = true := by
  unfold riffChunk at h
  cases hend : iterate (fun s => some (riffBody s)) fuel s with
  | none =>
      rw [hend] at h
      exact absurd h (by simp)
  | some e =>
      rw [hend] at h
      cases e with
      | inl t =>
          simp only at h
          split_ifs at h <;> exact absurd h (by simp)
      | inr r =>
          rcases Flow.ret.inj (Option.some.inj h) with rfl
          -- only the round that returns says anything about the reader
          refine iterate_rule (fun _ => True) (fun e => ∀ r, e = .inr r → r.streamed = true)
            ?_ ?_ ?_ trivial hend r rfl
          · intro t t' _ _
            trivial
          · intro t t' _ _ r' hr'
            exact absurd hr' (by simp)
          · intro t r' _ hret r'' hr''
            rcases Sum.inr.inj hr'' with rfl
            exact riffBody_ret (Option.some.inj hret)

/-- Where the function returns from inside its loops, the reader is a streamed one. -/
theorem chunkBody_ret {fuel : ℕ} {s : Walk} {wr : WavReader}
    (h : chunkBody fuel s = some (.ret wr)) : wr.streamed = true := by
  simp only [chunkBody, chunk] at h
  split_ifs at h
  all_goals first
    | exact riffChunk_ret h
    | exact absurd h (by simp)

theorem riffChunk_ne_brk (fuel : ℕ) (s : RiffWalk) (t : Walk) :
    riffChunk fuel s ≠ some (.brk t) := by
  unfold riffChunk
  intro h
  split at h
  · exact absurd h (by simp)
  · exact absurd h (by simp)
  · split_ifs at h <;> exact absurd h (by simp)

/-- The outer loop is left where there is no further tag. -/
theorem chunkBody_brk {fuel : ℕ} {s t : Walk} (h : chunkBody fuel s = some (.brk t)) :
    t = { s with wr := { s.wr with wav := (readTag s.wr.wav).2 } } := by
  unfold chunkBody at h
  cases heof : (readTag s.wr.wav).2.eof with
  | true =>
      simp only [heof, if_true] at h
      exact (Flow.brk.inj (Option.some.inj h)).symm
  | false =>
      simp only [heof, Bool.false_eq_true, if_false, chunk] at h
      split_ifs at h
      all_goals first
        | exact absurd h (riffChunk_ne_brk _ _ _)
        | exact absurd h (by simp)

/-- The outer loop stays in its file, and is left by its break or with a streamed reader. -/
theorem outer_ends {contents : List UInt8} {e : Walk ⊕ WavReader}
    (h : iterate (chunkBody (enoughFuel contents)) (enoughFuel contents)
      ⟨fresh (fopen contents), 0⟩ = some e) :
    (∀ s, e = .inl s → s.wr.wav.contents = contents) ∧ ∀ wr, e = .inr wr → wr.streamed = true := by
  refine iterate_rule (fun s : Walk => s.wr.wav.contents = contents)
    (fun e => (∀ s, e = .inl s → s.wr.wav.contents = contents) ∧
      ∀ wr, e = .inr wr → wr.streamed = true) ?_ ?_ ?_ rfl h
  · intro s s' hs hnext
    have hadv := (chunkBody_advanced _ s (remaining_lt_enoughFuel hs)).2 s' hnext
    exact hadv.forward.contents.trans hs
  · intro s s' hs hbrk
    constructor
    · intro t ht
      rcases Sum.inl.inj ht with rfl
      rw [chunkBody_brk hbrk]
      exact (forward_readTag _).contents.trans hs
    · intro wr hwr
      exact absurd hwr (by simp)
  · intro s wr _ hret
    constructor
    · intro t ht
      exact absurd ht (by simp)
    · intro wr' hwr'
      rcases Sum.inr.inj hwr' with rfl
      exact chunkBody_ret hret

/-- A reader that is not a streamed one has had the position of the data restored. -/
theorem exists_walk {contents : List UInt8} {wr : WavReader}
    (hopen : wavReadOpen (some contents) = some wr) (hstreamed : wr.streamed = false) :
    ∃ s : Walk, iterate (chunkBody (enoughFuel contents)) (enoughFuel contents)
        ⟨fresh (fopen contents), 0⟩ = some (.inl s) ∧
      wr = { s.wr with wav := ⟨contents, s.dataPos, false⟩ } := by
  rcases Option.isSome_iff_exists.mp (outer_isSome contents) with ⟨e, he⟩
  rcases outer_ends he with ⟨hinside, hret⟩
  simp only [wavReadOpen, he] at hopen
  cases e with
  | inl s =>
      refine ⟨s, he, ?_⟩
      rw [← Option.some.inj hopen, ← hinside s rfl]
      rfl
  | inr r =>
      have hset := hret r rfl
      rw [Option.some.inj hopen, hstreamed] at hset
      exact absurd hset (by decide)

/-- **The data, and nothing else**: let `p` be the position of the data that `wav_read_open`
restores, `N` the length it reports and `A` what the file has from `p` on. Every request
returns the number of its bytes, together the requests get the first bytes from `p` on, as
many as they ask for up to `N` and `A`, and the remaining length counts down to 0 at most. -/
theorem requests_deliver {contents : List UInt8} {wr : WavReader}
    (hopen : wavReadOpen (some contents) = some wr) (hstreamed : wr.streamed = false) :
    ∃ s : Walk, iterate (chunkBody (enoughFuel contents)) (enoughFuel contents)
        ⟨fresh (fopen contents), 0⟩ = some (.inl s) ∧
      let p := s.dataPos
      let N := wr.dataLength.toNat
      let A := contents.length - p
      wr.wav = (s.wr.wav.fseekSet p) ∧
      ∀ lengths : List UInt32, (∀ length ∈ lengths, length.toNat ≤ 2 ^ 31 - 1) →
        (∀ a ∈ answers wr lengths, a.1 = a.2.length) ∧
        (answers wr lengths).flatMap Prod.snd =
          (contents.drop p).take (min (min (lengths.map UInt32.toNat).sum N) A) ∧
        (afterRequests wr lengths).dataLength.toNat +
          min (lengths.map UInt32.toNat).sum N = N := by
  rcases exists_walk hopen hstreamed with ⟨s, hs, hwr⟩
  refine ⟨s, hs, ?_⟩
  intro p N A
  -- from here on it is the abstract reader that hands out the bytes from `p` on
  have hpayload : wr.payload = (contents.drop p).take N := by
    have hrest : wr.wav.rest = contents.drop p := by
      rw [hwr]
      rfl
    unfold payload
    rw [if_neg (by simp [hstreamed]), hrest]
  have hseek : wr.wav = s.wr.wav.fseekSet p := by
    rw [hwr, fseekSet, (outer_ends hs).1 s rfl]
  refine ⟨hseek, ?_⟩
  intro lengths hsmall
  have hanswers : answers wr lengths = handedOut wr.payload lengths := by
    apply answers_eq
    intro length hmem
    have hle := hsmall length hmem
    omega
  refine ⟨?_, ?_, ?_⟩
  · intro a ha
    rw [hanswers] at ha
    exact handedOut_fst a ha
  -- taking `N` of at most `A` bytes, then as many as the requests ask for
  · have hlength : (contents.drop p).length = A := List.length_drop
    rw [hanswers, handedOut_bytes, hpayload, List.take_take, List.take_eq_take_iff, hlength]
    omega
  · rw [dataLength_afterRequests hstreamed]
    omega

/-- A file that ends three bytes into its eight bytes of data. -/
def truncatedFile : List UInt8 :=
  [0x52, 0x49, 0x46, 0x46, 20, 0, 0, 0, 0x57, 0x41, 0x56, 0x45,
    0x64, 0x61, 0x74, 0x61, 8, 0, 0, 0, 1, 2, 3]

/-- Two requests for two bytes each get three, and are taken for four. -/
theorem requests_deliver_truncated :
    let wr := { fresh ⟨truncatedFile, 20, false⟩ with dataLength := 8 }
    (answers wr [2, 2]).flatMap Prod.snd = truncatedFile.drop 20 ∧
      (afterRequests wr [2, 2]).dataLength.toNat + 4 = 8 := by
  intro wr
  rcases @requests_deliver truncatedFile wr (by decide +kernel) rfl with ⟨s, -, hwav, hall⟩
  have hpos : 20 = s.dataPos := congrArg CFile.pos hwav
  have hint : ∀ length ∈ [(2 : UInt32), 2], length.toNat ≤ 2 ^ 31 - 1 := by
    intro length hmem
    have htwo : length = 2 := by simpa using hmem
    have hnat : length.toNat = 2 := congrArg UInt32.toNat htwo
    omega
  rcases hall [2, 2] hint with ⟨-, hbytes, hlength⟩
  rw [← hpos] at hbytes
  exact ⟨hbytes, hlength⟩

end AudioProc.WavReader
