import AudioProc.Decimal
import AudioProc.DetectorProgram

/-!
# The dump files of a program

The number of a detector is part of the names of its dump files, so that no two detectors
write to one file (`fileName_inj`). `dump_files` says what follows: however the detectors of a
program are made, called and destroyed in between each other, the file of a signal of one
detector holds that signal and nothing else.
-/

namespace AudioProc

open ApmDataDumper CString

/-! ## The bytes of strings and numbers -/

theorem ascii_append (s t : String) : ascii (s ++ t) = ascii s ++ ascii t := by
  simp [ascii]

theorem ascii_inj {s t : String} (h : ascii s = ascii t) : s = t := by
  apply String.toByteArray_inj.mp
  apply ByteArray.ext
  exact Array.toList_inj.mp h

/-- A character below 128 is one byte. -/
theorem ascii_ofList {cs : List Char} (h : ∀ c ∈ cs, c.toNat < 128) :
    ascii (String.ofList cs) = cs.map Decimal.digit := by
  have hone : ∀ c ∈ cs, String.utf8EncodeChar c = [Decimal.digit c] := by
    intro c hc
    have hsize : c.utf8Size = 1 := by
      unfold Char.utf8Size
      rw [if_pos]
      exact Nat.le_of_lt_succ (h c hc)
    rw [String.utf8EncodeChar_eq_singleton hsize]
    rfl
  have hbytes : ascii (String.ofList cs) = cs.flatMap String.utf8EncodeChar := by
    rw [ascii, String.toUTF8_eq_toByteArray, String.toByteArray_ofList, List.utf8Encode,
      List.data_toByteArray]
  rw [hbytes]
  clear hbytes h
  induction cs with
  | nil => rfl
  | cons c cs ih =>
      rw [List.flatMap_cons, hone c List.mem_cons_self,
        ih fun c' hc' => hone c' (List.mem_cons_of_mem c hc')]
      rfl

theorem ascii_natCast (n : ℕ) : ascii (toString n) = Decimal.digits n := by
  rw [Nat.toString_eq_ofList_toDigits, ascii_ofList]
  · rfl
  · intro c hc
    have hdigit := Char.isDigit_iff_toNat.mp (Decimal.isDigit_of_mem hc)
    exact Nat.lt_of_le_of_lt hdigit.2 (by decide)

theorem ascii_toString (i : ℤ) : ascii (toString i) = Decimal.ofInt i := by
  rw [Int.toString_eq_repr, Int.repr_eq_if, Decimal.ofInt]
  split_ifs with hi
  · exact ascii_natCast _
  · rw [ascii_append]
    exact congrArg _ (ascii_natCast _)

/-! ## File names -/

namespace Program

/-- The index of a detector: the counter when it was made. -/
def indexOf (k : ℕ) : Int32 := Int32.ofNat (k + 1)

/-- The name of a dump file of a detector. -/
def fileName (behind dir : List UInt8) (k : ℕ) (s : Signal) : List UInt8 :=
  formFileName behind dir (ascii s.name) (indexOf k) (ascii ".pcm")

theorem indexOf_inj {k k' : ℕ} (hk : k + 1 < 2 ^ 32) (hk' : k' + 1 < 2 ^ 32)
    (h : (indexOf k).toInt = (indexOf k').toInt) : k = k' := by
  have hword := congrArg Int32.toUInt32 (Int32.toInt_inj.mp h)
  have hnat : (UInt32.ofNat (k + 1)).toNat = (UInt32.ofNat (k' + 1)).toNat := by
    rw [indexOf, indexOf, Int32.toUInt32_ofNat', Int32.toUInt32_ofNat'] at hword
    exact congrArg UInt32.toNat hword
  rw [UInt32.toNat_ofNat', UInt32.toNat_ofNat'] at hnat
  omega

/-- The directory in front of the names, with what follows it. -/
def pathFront (behind dir : List UInt8) : List UInt8 :=
  if 0 < dir.length then
    if dir.getLast? ≠ some kPathDelimiter then dir ++ kPathDelimiter :: behind else dir
  else []

theorem fileName_eq (behind dir : List UInt8) (k : ℕ) (s : Signal) :
    fileName behind dir k s = pathFront behind dir ++ ascii s.name ++ ascii "_" ++
      Decimal.ofInt (indexOf k).toInt ++ ascii ".pcm" := by
  rw [fileName, formFileName, ascii_toString]
  rfl

/-- **Different files**: the name of a dump file says which detector and which signal it is
of. -/
theorem fileName_inj {behind dir : List UInt8} {k k' : ℕ} {s s' : Signal}
    (hk : k + 1 < 2 ^ 32) (hk' : k' + 1 < 2 ^ 32)
    (h : fileName behind dir k s = fileName behind dir k' s') : k = k' ∧ s = s' := by
  rw [fileName_eq, fileName_eq, List.append_left_inj] at h
  have hbar : ascii "_" = [0x5f] := by decide
  -- no underscore is in the index, so that the one in front of it is the last
  have hnone : ∀ i : ℤ, 0x5f ∉ Decimal.ofInt i := fun i => Decimal.not_mem_ofInt (by decide)
  simp only [hbar, List.append_assoc, List.singleton_append] at h
  rw [← List.append_assoc, ← List.append_assoc] at h
  rcases Decimal.append_separator_inj (hnone _) (hnone _) h with ⟨hfront, hindex⟩
  exact ⟨indexOf_inj hk hk' (Decimal.ofInt_inj hindex),
    Signal.name_inj (ascii_inj (List.append_cancel_left hfront))⟩

/-- A dump file is none of the report files. -/
theorem formFileName_ne_report (behind dir name : List UInt8) (index : Int32) :
    formFileName behind dir name index (ascii ".pcm") ≠ Report.csvName ∧
      formFileName behind dir name index (ascii ".pcm") ≠ Report.datName := by
  have hlast : (formFileName behind dir name index (ascii ".pcm")).getLast? = some 0x6d := by
    have hpcm : ascii ".pcm" = [0x2e, 0x70, 0x63, 0x6d] := by decide
    rw [formFileName, hpcm, List.getLast?_append]
    rfl
  constructor
  · intro h
    rw [h] at hlast
    exact absurd hlast (by decide)
  · intro h
    rw [h] at hlast
    exact absurd hlast (by decide)

theorem fileName_ne_report (behind dir : List UInt8) (k : ℕ) (s : Signal) :
    fileName behind dir k s ≠ Report.csvName ∧ fileName behind dir k s ≠ Report.datName :=
  formFileName_ne_report behind dir _ _

/-! ## One dump -/

/-- What the dumps of a detector write. -/
def fileLog (behind dir : List UInt8) (k : ℕ) (dumps : List (Signal × List Float32)) :
    List (List UInt8 × List UInt8) :=
  dumps.map fun entry => (fileName behind dir k entry.1, entry.2.flatMap floatBytes)

/-- The dumper of detector `k`, and its files on a disk, after these dumps. -/
structure Holds (before disk : Files) (behind dir : List UInt8) (k : ℕ)
    (dumps : List (Signal × List Float32)) (d : DiskDumper) : Prop where
  index : d.instanceIndex = indexOf k
  atEnd : ∀ s, Disk.AtEnd (d.rawFiles (fileName behind dir k s)) (fileLog behind dir k dumps)
    (fileName behind dir k s)
  recorded : ∀ s, Disk.Recorded before disk (fileLog behind dir k dumps)
    (fileName behind dir k s)

end Program

namespace DiskDumper

open Program

variable {behind dir : List UInt8} {outputDir : Buffer kOutputDirMaxLength}

/-- What `DumpRaw` does. -/
theorem dumpRaw_eq {d d' : DiskDumper} {disk disk' : Files} {s : Signal} {k : ℕ}
    {v : List Float32} {opens : List UInt8 → Bool} (hdir : outputDir.string = some dir)
    (hindex : d.instanceIndex = indexOf k)
    (h : d.dumpRaw disk behind outputDir (ascii s.name) v opens = some (disk', d')) :
    let name := fileName behind dir k s
    let bytes := v.flatMap floatBytes
    disk' = disk.append (d.rawFiles name) name bytes ∧
      d' = { d with
        rawFiles := Function.update d.rawFiles name
          (some ((d.rawFiles name).getD 0 + bytes.length)) } := by
  intro name bytes
  have hname : formFileName behind dir (ascii s.name) (indexOf k) (ascii ".pcm") = name := rfl
  simp only [dumpRaw, getRawFile, hdir, hindex, hname] at h
  cases hopen : d.rawFiles name with
  | some pos =>
      simp only [hopen] at h
      rcases Prod.mk.inj (Option.some.inj h) with ⟨rfl, rfl⟩
      exact ⟨rfl, rfl⟩
  | none =>
      simp only [hopen] at h
      split_ifs at h with hopens
      · rcases Prod.mk.inj (Option.some.inj h) with ⟨rfl, rfl⟩
        refine ⟨rfl, ?_⟩
        rw [Function.update_idem, hindex]
        rfl

/-- **One dump** is appended to the file of its signal, and no other file is touched. -/
theorem holds_dumpRaw {before disk disk' : Files} {k : ℕ} (hk : k + 1 < 2 ^ 32)
    {dumps : List (Signal × List Float32)} {d d' : DiskDumper} {s : Signal} {v : List Float32}
    {opens : List UInt8 → Bool} (hdir : outputDir.string = some dir)
    (hd : Holds before disk behind dir k dumps d)
    (h : d.dumpRaw disk behind outputDir (ascii s.name) v opens = some (disk', d')) :
    Holds before disk' behind dir k (dumps ++ [(s, v)]) d' ∧
      ∀ name, name ≠ fileName behind dir k s → disk' name = disk name := by
  have hlog : fileLog behind dir k (dumps ++ [(s, v)]) =
      fileLog behind dir k dumps ++ [(fileName behind dir k s, v.flatMap floatBytes)] :=
    List.map_append
  have hother : ∀ s', s' ≠ s → fileName behind dir k s ≠ fileName behind dir k s' := by
    intro s' hs' hsame
    exact hs' (fileName_inj hk hk hsame).2.symm
  rcases dumpRaw_eq hdir hd.index h with ⟨rfl, rfl⟩
  refine ⟨⟨hd.index, ?_, ?_⟩, ?_⟩
  · intro s'
    rw [hlog]
    by_cases hs' : s' = s
    · subst hs'
      show Disk.AtEnd (Function.update d.rawFiles _ _ _) _ _
      rw [Function.update_self]
      exact (hd.atEnd s').append _
    · show Disk.AtEnd (Function.update d.rawFiles _ _ _) _ _
      rw [Function.update_of_ne (hother s' hs').symm, Disk.atEnd_concat_other (hother s' hs')]
      exact hd.atEnd s'
  · intro s'
    rw [hlog]
    by_cases hs' : s' = s
    · subst hs'
      exact (hd.recorded s').append (hd.atEnd s') _
    · exact (hd.recorded s').append_other (hother s' hs') _
  · intro name hname
    exact Disk.append_other disk _ hname _

/-- **The dumps of a call**. -/
theorem holds_dumpAll {before : Files} {k : ℕ} (hk : k + 1 < 2 ^ 32)
    (hdir : outputDir.string = some dir) {opens : List UInt8 → Bool}
    (more : List (Signal × List Float32)) {disk disk' : Files}
    {dumps : List (Signal × List Float32)} {d d' : DiskDumper}
    (hd : Holds before disk behind dir k dumps d)
    (h : dumpAll behind outputDir opens d disk more = some (disk', d')) :
    Holds before disk' behind dir k (dumps ++ more) d' ∧
      ∀ name, (∀ s, name ≠ fileName behind dir k s) → disk' name = disk name := by
  induction more generalizing disk dumps d with
  | nil =>
      rcases Prod.mk.inj (Option.some.inj h) with ⟨rfl, rfl⟩
      rw [List.append_nil]
      exact ⟨hd, fun _ _ => rfl⟩
  | cons entry more ih =>
      rcases entry with ⟨s, v⟩
      rw [dumpAll] at h
      cases hone : d.dumpRaw disk behind outputDir (ascii s.name) v opens with
      | none =>
          rw [hone] at h
          exact absurd h (by simp)
      | some next =>
          rcases next with ⟨disk₁, d₁⟩
          rw [hone] at h
          rcases holds_dumpRaw hk hdir hd hone with ⟨hd₁, hsame⟩
          rcases ih hd₁ h with ⟨hd', hrest⟩
          rw [List.append_assoc] at hd'
          refine ⟨hd', ?_⟩
          intro name hname
          rw [hrest name hname, hsame name (hname s)]

end DiskDumper

/-! ## Other files -/

namespace Report

theorem print_other (s : Streams) (n : ℤ) {name : List UInt8} (h : name ≠ csvName) :
    (s.print n).disk name = s.disk name :=
  Disk.write_other s.disk h _ _

theorem writeInt_other (s : Streams) (n : ℤ) {name : List UInt8} (h : name ≠ datName) :
    (s.writeInt n).disk name = s.disk name :=
  Disk.write_other s.disk h _ _

/-- A destructor only writes to the two report files. -/
theorem write_other (disk : Files) (histogram : RtcHistogram) {name : List UInt8}
    (hcsv : name ≠ csvName) (hdat : name ≠ datName) :
    write disk histogram name = disk name := by
  have hentries : ∀ (samples : List (ℤ × ℤ)) (s : Streams),
      (s.entries samples).disk name = s.disk name := by
    intro samples
    induction samples with
    | nil =>
        intro s
        rfl
    | cons it samples ih =>
        intro s
        rw [Streams.entries, List.foldl_cons, ← Streams.entries, ih, writeInt_other _ _ hdat,
          print_other _ _ hcsv]
  unfold write
  rw [print_other _ _ hcsv, hentries]

end Report

/-! ## Whole runs -/

namespace Program

/-- What others write to other files does not matter. -/
theorem Holds.congr {behind dir : List UInt8} {before disk disk' : Files} {k : ℕ}
    {dumps : List (Signal × List Float32)} {d : DiskDumper}
    (h : Holds before disk behind dir k dumps d)
    (hsame : ∀ s, disk' (fileName behind dir k s) = disk (fileName behind dir k s)) :
    Holds before disk' behind dir k dumps d where
  index := h.index
  atEnd := h.atEnd
  recorded := fun s => (h.recorded s).congr (hsame s)

variable {behind dir : List UInt8} {outputDir : Buffer kOutputDirMaxLength} {before : Files}
  {ops : List Op} {p p' : Program} {i : ℕ}

/-- The dump files of a program, and the streams of the detectors that are there. -/
structure Dumped (before : Files) (behind dir : List UInt8)
    (outputDir : Buffer kOutputDirMaxLength) (ops : List Op) (p : Program) : Prop where
  directory : p.outputDir = outputDir
  recorded : ∀ k s, k + 1 < 2 ^ 32 → Disk.Recorded before p.disk
    (fileLog behind dir k (ResidualEchoDetector.dumped (callsOf k ops))) (fileName behind dir k s)
  dumper : ∀ k o, k + 1 < 2 ^ 32 → p.object k = some o →
    Holds before p.disk behind dir k (ResidualEchoDetector.dumped (callsOf k ops)) o.dataDumper

theorem dumped_start (before : Files) (behind dir : List UInt8)
    (outputDir : Buffer kOutputDirMaxLength) :
    Dumped before behind dir outputDir [] (start outputDir before) where
  directory := rfl
  recorded := fun k s _ => Disk.recorded_nil before _
  dumper := fun k o _ h => absurd h (by simp [object, start])

theorem Dumped.construct (hmade : Made ops p) (hd : Dumped before behind dir outputDir ops p)
    {opens : List UInt8 → Bool} (h : p.step behind (.construct opens) = some p') :
    Dumped before behind dir outputDir (ops ++ [.construct opens]) p' := by
  rcases step_construct h with rfl
  have hcalls : ∀ k, callsOf k (ops ++ [.construct opens]) = callsOf k ops :=
    callsOf_concat (by simp)
  -- the two files that are emptied are no dump files
  have hsame : ∀ k s, ((p.disk.create Report.csvName).create Report.datName)
      (fileName behind dir k s) = p.disk (fileName behind dir k s) := by
    intro k s
    rcases fileName_ne_report behind dir k s with ⟨hcsv, hdat⟩
    rw [Disk.create_other _ hdat, Disk.create_other _ hcsv]
  refine ⟨hd.directory, ?_, ?_⟩
  · intro k s hk
    rw [hcalls]
    exact (hd.recorded k s hk).congr (hsame k s)
  · intro k o hk ho
    rw [hcalls]
    rcases object_of_concat ho with hold | ⟨rfl, hnew⟩
    · exact (hd.dumper k o hk hold).congr (hsame k)
    · -- the new detector has dumped nothing yet
      rcases Option.some.inj hnew with rfl
      have hnone := hmade.unborn _ hmade.length.ge
      rw [hnone]
      refine ⟨?_, fun s => rfl, ?_⟩
      · show p.instanceCount + 1 = indexOf p.detectors.length
        rw [indexOf, Int32.ofNat_add, hmade.length, hmade.count]
        rfl
      · intro s
        have hrecorded := hd.recorded _ s hk
        rw [hnone] at hrecorded
        exact hrecorded.congr (hsame _ s)

theorem Dumped.destroy (hd : Dumped before behind dir outputDir ops p)
    (h : p.step behind (.destroy i) = some p') :
    Dumped before behind dir outputDir (ops ++ [.destroy i]) p' := by
  rcases step_destroy h with ⟨o₀, -, rfl⟩
  have hcalls : ∀ k, callsOf k (ops ++ [.destroy i]) = callsOf k ops := callsOf_concat (by simp)
  have hsame : ∀ k s, Report.write p.disk o₀.detector.echoLikelihoodHistogram
      (fileName behind dir k s) = p.disk (fileName behind dir k s) := by
    intro k s
    rcases fileName_ne_report behind dir k s with ⟨hcsv, hdat⟩
    exact Report.write_other p.disk _ hcsv hdat
  refine ⟨hd.directory, ?_, ?_⟩
  · intro k s hk
    rw [hcalls]
    exact (hd.recorded k s hk).congr (hsame k s)
  · intro k o hk ho
    rw [hcalls]
    rcases object_of_set ho with ⟨-, hobject⟩ | ⟨-, hnone⟩
    · exact (hd.dumper k o hk hobject).congr (hsame k)
    · exact absurd hnone (by simp)

theorem Dumped.call (hdir : outputDir.string = some dir) (hmade : Made ops p)
    (hcount : constructed ops < 2 ^ 32) (hd : Dumped before behind dir outputDir ops p)
    {c : Call Float32} {opens : List UInt8 → Bool}
    (h : p.step behind (.call i c opens) = some p') :
    Dumped before behind dir outputDir (ops ++ [.call i c opens]) p' := by
  rcases step_call h with ⟨o₀, disk', d', ho₀, hdumps, rfl⟩
  have hi : i < constructed ops := hmade.length ▸ object_lt ho₀
  have hsmall : i + 1 < 2 ^ 32 := by omega
  rw [hd.directory] at hdumps
  rcases DiskDumper.holds_dumpAll hsmall hdir _ (hd.dumper i o₀ hsmall ho₀) hdumps with
    ⟨hholds, hrest⟩
  have hdumped : ResidualEchoDetector.dumped (callsOf i ops ++ [c]) =
      ResidualEchoDetector.dumped (callsOf i ops) ++ o₀.detector.dumps c := by
    rw [ResidualEchoDetector.dumped_concat, hmade.detector i o₀ ho₀]
  rw [← hdumped, ← callsOf_call_self i c opens] at hholds
  -- the files of the other detectors have other names
  have hsame : ∀ k s, k + 1 < 2 ^ 32 → k ≠ i →
      disk' (fileName behind dir k s) = p.disk (fileName behind dir k s) := by
    intro k s hk hne
    apply hrest
    intro s' hname
    exact hne (fileName_inj hk hsmall hname).1
  refine ⟨hd.directory, ?_, ?_⟩
  · intro k s hk
    by_cases hne : k = i
    · subst hne
      exact hholds.recorded s
    · rw [callsOf_call_other hne]
      exact (hd.recorded k s hk).congr (hsame k s hk hne)
  · intro k o hk ho
    rcases object_of_set ho with ⟨hne, hobject⟩ | ⟨rfl, hnew⟩
    · rw [callsOf_call_other hne]
      exact (hd.dumper k o hk hobject).congr fun s => hsame k s hk hne
    · rcases Option.some.inj hnew with rfl
      exact hholds

/-- **The run** of a program whose directory stays what it is. -/
theorem dumped_run (hdir : outputDir.string = some dir) (hkeeps : KeepsDirectory ops)
    (hcount : constructed ops < 2 ^ 32)
    (h : run behind (start outputDir before) ops = some p) :
    Dumped before behind dir outputDir ops p := by
  induction ops using List.reverseRecOn generalizing p with
  | nil =>
      rcases Option.some.inj h with rfl
      exact dumped_start before behind dir outputDir
  | append_singleton ops op ih =>
      rw [constructed_append] at hcount
      rw [run_concat] at h
      rcases Option.bind_eq_some_iff.mp h with ⟨q, hq, hstep⟩
      have hd := ih (fun d hd => hkeeps d (List.mem_append_left _ hd)) (by omega) hq
      cases op with
      | construct opens => exact hd.construct (made_run hq) hstep
      | destroy i => exact hd.destroy hstep
      | setOutputDirectory d =>
          exact absurd (List.mem_append_right _ List.mem_cons_self) (hkeeps d)
      | call i c opens => exact hd.call hdir (made_run hq) (by omega) hstep

/-! ## The dump files -/

theorem mem_fileLog {k : ℕ} (hk : k + 1 < 2 ^ 32) (s : Signal)
    (dumps : List (Signal × List Float32)) :
    fileName behind dir k s ∈ (fileLog behind dir k dumps).map Prod.fst ↔
      s ∈ dumps.map Prod.fst := by
  simp only [fileLog, List.map_map, List.mem_map, Function.comp]
  constructor
  · rintro ⟨entry, hentry, hname⟩
    exact ⟨entry, hentry, (fileName_inj hk hk hname).2⟩
  · rintro ⟨entry, hentry, rfl⟩
    exact ⟨entry, hentry, rfl⟩

theorem writtenTo_fileLog {k : ℕ} (hk : k + 1 < 2 ^ 32) (s : Signal)
    (dumps : List (Signal × List Float32)) :
    writtenTo (fileName behind dir k s) (fileLog behind dir k dumps) =
      (writtenTo s dumps).flatMap floatBytes := by
  induction dumps with
  | nil => rfl
  | cons entry dumps ih =>
      have hiff : fileName behind dir k entry.1 = fileName behind dir k s ↔ entry.1 = s :=
        ⟨fun hname => (fileName_inj hk hk hname).2, fun hs => hs ▸ rfl⟩
      rw [fileLog, List.map_cons, writtenTo_cons, ← fileLog, ih, writtenTo_cons,
        List.flatMap_append]
      by_cases hs : entry.1 = s
      · rw [if_pos (hiff.mpr hs), if_pos hs]
      · rw [if_neg (mt hiff.mp hs), if_neg hs]
        rfl

/-- **The dump files**: after every run of a program that does not change the directory of the
dump files and makes fewer than `2 ^ 32` detectors, however their lives and calls are
interleaved and whatever was on the disk before, the dump file of a signal of a detector holds
the values of that signal over all calls of that detector, in order. Where there were none,
nothing was written to that name. The streams of a detector that is still there may hold the
end of this back: it is on the disk when they are closed, or the program ends. -/
theorem dump_files (hdir : outputDir.string = some dir) (hkeeps : KeepsDirectory ops)
    (hcount : constructed ops < 2 ^ 32)
    (h : run behind (start outputDir before) ops = some p) {k : ℕ} (hk : k + 1 < 2 ^ 32)
    (s : Signal) :
    let name := formFileName behind dir (ascii s.name) (indexOf k) (ascii ".pcm")
    (s.Seen (callsOf k ops) →
      p.disk name = some ((s.stream (callsOf k ops)).flatMap floatBytes)) ∧
    (¬ s.Seen (callsOf k ops) → p.disk name = before name) := by
  intro name
  let dumps := ResidualEchoDetector.dumped (callsOf k ops)
  have hrecorded : Disk.Recorded before p.disk (fileLog behind dir k dumps) name :=
    (dumped_run hdir hkeeps hcount h).recorded k s hk
  have hiff : name ∈ (fileLog behind dir k dumps).map Prod.fst ↔ s.Seen (callsOf k ops) :=
    (mem_fileLog hk s dumps).trans (ResidualEchoDetector.mem_dumped s _)
  have hbytes : writtenTo name (fileLog behind dir k dumps) =
      (s.stream (callsOf k ops)).flatMap floatBytes := by
    rw [← ResidualEchoDetector.writtenTo_dumped]
    exact writtenTo_fileLog hk s dumps
  rw [Disk.Recorded, hbytes] at hrecorded
  constructor
  · intro hseen
    rwa [if_pos (hiff.mpr hseen)] at hrecorded
  · intro hnone
    rwa [if_neg (mt hiff.mp hnone)] at hrecorded

/-- Two detectors that are called in turn, in the current directory. -/
def twoDetectors : List Op :=
  [.construct fun _ => true, .construct fun _ => true,
    .call 0 (.analyzeRenderAudio [1]) fun _ => true,
    .call 1 (.analyzeRenderAudio [3]) fun _ => true, .destroy 1,
    .call 0 (.analyzeRenderAudio [2]) fun _ => true]

theorem dump_files_two :
    ∃ p, run [] (start (.empty kOutputDirMaxLength) fun _ => none) twoDetectors = some p ∧
      p.disk (formFileName [] [] (ascii "ed_render_16k_mono") (indexOf 0) (ascii ".pcm")) =
        some ([1, 2].flatMap floatBytes) := by
  rcases Option.isSome_iff_exists.mp (show (run [] (start (.empty kOutputDirMaxLength)
    fun _ => none) twoDetectors).isSome by decide +kernel) with ⟨p, hp⟩
  have hkeeps : KeepsDirectory twoDetectors := by
    intro dir hdir
    simp [twoDetectors] at hdir
  have hstring : (Buffer.empty kOutputDirMaxLength).string = some [] :=
    (Buffer.holds_empty (by decide)).string_eq
  refine ⟨p, hp, ((dump_files hstring hkeeps (by decide) hp (k := 0) (by decide)
    .render16kMono).1 ?_)⟩
  exact List.cons_ne_nil _ _

end Program

end AudioProc
