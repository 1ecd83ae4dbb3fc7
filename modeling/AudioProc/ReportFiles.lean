import AudioProc.DumpFiles
import AudioProc.HistogramRuns

/-!
# The report files

Every detector opens `echo_likelihood.csv` and `echo_likelihood.dat` when it is made, which
empties them, and writes its histogram to them when it is destroyed, from the beginning of the
files on. So the reports of the detectors that were destroyed since the last one was made are
laid over each other (`report_files`): as with the directories of the dump files, the end of a
longer report is left behind a shorter one.

`report_readable` says what one report is: the counts of the buckets in ascending order, with
their number behind them in the text file. They can be read back, and they account for all
frames that the detector processed.
-/

namespace AudioProc

open ApmDataDumper CString

universe u

/-! ## The two streams of a destructor -/

namespace Report

/-- The text of a report. -/
def csvReport (h : RtcHistogram) : List UInt8 :=
  (h.samples.toList.flatMap fun it => printed it.2) ++ printed h.samples.toList.length

/-- The numbers of a report. -/
def datReport (h : RtcHistogram) : List UInt8 :=
  h.samples.toList.flatMap fun it => intBytes it.2

theorem length_datReport (h : RtcHistogram) : (datReport h).length = 4 * h.samples.size := by
  have hbytes : ∀ it : ℤ × ℤ, (intBytes it.2).length = 4 := by
    intro it
    exact LittleEndian.length_toBytes 4 _
  rw [datReport, List.length_flatMap, List.map_congr_left fun it _ => hbytes it, List.map_const',
    List.sum_replicate, smul_eq_mul, Std.TreeMap.length_toList, Nat.mul_comm]

theorem csvName_ne_datName : csvName ≠ datName := by decide

namespace Streams

/-- The stream of the text file. -/
def csv (s : Streams) : OutFile := s.disk.stream csvName s.csvPos

/-- The stream of the other file. -/
def dat (s : Streams) : OutFile := s.disk.stream datName s.datPos

theorem csv_print (s : Streams) (n : ℤ) : (s.print n).csv = s.csv.fwrite (printed n) :=
  s.disk.stream_write_same _ _ _

theorem dat_print (s : Streams) (n : ℤ) : (s.print n).dat = s.dat :=
  s.disk.stream_write_other csvName_ne_datName.symm _ _ _

theorem dat_writeInt (s : Streams) (n : ℤ) : (s.writeInt n).dat = s.dat.fwrite (intBytes n) :=
  s.disk.stream_write_same _ _ _

theorem csv_writeInt (s : Streams) (n : ℤ) : (s.writeInt n).csv = s.csv :=
  s.disk.stream_write_other csvName_ne_datName _ _ _

theorem disk_print (s : Streams) (n : ℤ) :
    (s.print n).disk csvName = some (s.csv.fwrite (printed n)).contents :=
  Disk.write_same s.disk csvName s.csvPos (printed n)

theorem disk_writeInt (s : Streams) (n : ℤ) :
    (s.writeInt n).disk datName = some (s.dat.fwrite (intBytes n)).contents :=
  Disk.write_same s.disk datName s.datPos (intBytes n)

theorem entries_concat (s : Streams) (samples : List (ℤ × ℤ)) (it : ℤ × ℤ) :
    s.entries (samples ++ [it]) = ((s.entries samples).print it.2).writeInt it.2 := by
  rw [entries, List.foldl_append]
  rfl

/-- **The loop** writes the counts to both files, each behind the other. -/
theorem entries_eq (s : Streams) (hcsv : s.csvPos = 0) (hdat : s.datPos = 0)
    (samples : List (ℤ × ℤ)) :
    (s.entries samples).csv = s.csv.fwrite (samples.flatMap fun it => printed it.2) ∧
      (s.entries samples).dat = s.dat.fwrite (samples.flatMap fun it => intBytes it.2) := by
  induction samples using List.reverseRecOn with
  | nil =>
      have hstart : ∀ f : OutFile, f.pos = 0 → f.fwrite [] = f := by
        rintro ⟨contents, pos⟩ rfl
        simp [OutFile.fwrite]
      exact ⟨(hstart s.csv hcsv).symm, (hstart s.dat hdat).symm⟩
  | append_singleton samples it ih =>
      rcases ih with ⟨ihcsv, ihdat⟩
      rw [entries_concat, csv_writeInt, csv_print, dat_writeInt, dat_print, ihcsv, ihdat,
        OutFile.fwrite_fwrite, OutFile.fwrite_fwrite, List.flatMap_append, List.flatMap_append,
        List.flatMap_singleton, List.flatMap_singleton]
      exact ⟨rfl, rfl⟩

end Streams

/-! ## One report -/

/-- A report is laid over the text file. -/
theorem write_csv {disk : Files} {old : List UInt8} (h : disk csvName = some old)
    (histogram : RtcHistogram) :
    write disk histogram csvName = some (overlay (csvReport histogram) old) := by
  have hentries := (Streams.entries_eq ⟨disk, 0, 0⟩ rfl rfl histogram.samples.toList).1
  rw [write, Streams.disk_print, hentries, OutFile.fwrite_fwrite, ← csvReport,
    ← Disk.write_start h, Disk.write_same]
  rfl

/-- A report is laid over the other file. -/
theorem write_dat {disk : Files} {old : List UInt8} (h : disk datName = some old)
    (histogram : RtcHistogram) :
    write disk histogram datName = some (overlay (datReport histogram) old) := by
  have hentries := (Streams.entries_eq ⟨disk, 0, 0⟩ rfl rfl histogram.samples.toList).2
  have hthere : ∀ samples : List (ℤ × ℤ),
      ∃ bytes, (Streams.entries ⟨disk, 0, 0⟩ samples).disk datName = some bytes := by
    intro samples
    induction samples using List.reverseRecOn with
    | nil => exact ⟨old, h⟩
    | append_singleton samples it ih =>
        rw [Streams.entries_concat]
        exact ⟨_, Streams.disk_writeInt _ _⟩
  rcases hthere histogram.samples.toList with ⟨bytes, hbytes⟩
  have hcontents := congrArg OutFile.contents hentries
  rw [Streams.dat, Disk.stream, hbytes, ← datReport] at hcontents
  show (Streams.print _ _).disk datName = _
  rw [print_other _ _ csvName_ne_datName.symm, hbytes, ← Disk.write_start h, Disk.write_same]
  exact congrArg some hcontents

/-- What the program does with one of the two files: a new detector empties it, a destroyed one
lays its report over it, and no dump is written to it. -/
structure IsReportFile (name : List UInt8) (report : RtcHistogram → List UInt8) : Prop where
  emptied : ∀ disk : Files, ((disk.create csvName).create datName) name = some []
  written : ∀ {disk : Files} {old : List UInt8}, disk name = some old →
    ∀ histogram, write disk histogram name = some (overlay (report histogram) old)
  no_dump : ∀ behind dir signal index, name ≠ formFileName behind dir signal index (ascii ".pcm")

theorem isReportFile_csv : IsReportFile csvName csvReport where
  emptied := by
    intro disk
    rw [Disk.create_other _ csvName_ne_datName, Disk.create_same]
  written := fun h histogram => write_csv h histogram
  no_dump := fun behind dir signal index =>
    (Program.formFileName_ne_report behind dir signal index).1.symm

theorem isReportFile_dat : IsReportFile datName datReport where
  emptied := fun _ => Disk.create_same _ _
  written := fun h histogram => write_dat h histogram
  no_dump := fun behind dir signal index =>
    (Program.formFileName_ne_report behind dir signal index).2.symm

end Report

/-! ## Dumps do not touch the reports -/

namespace DiskDumper

variable {d d' : DiskDumper} {disk disk' : Files} {behind : List UInt8}
  {outputDir : Buffer kOutputDirMaxLength} {opens : List UInt8 → Bool}

/-- `DumpRaw` leaves every file alone that is no dump file. -/
theorem dumpRaw_other {name : List UInt8} {v : List Float32} {other : List UInt8}
    (hother : ∀ dir index, other ≠ formFileName behind dir name index (ascii ".pcm"))
    (h : d.dumpRaw disk behind outputDir name v opens = some (disk', d')) :
    disk' other = disk other := by
  unfold dumpRaw getRawFile at h
  cases hdir : outputDir.string with
  | none =>
      rw [hdir] at h
      exact absurd h (by simp)
  | some dir =>
      simp only [hdir] at h
      have hne := hother dir d.instanceIndex
      generalize formFileName behind dir name d.instanceIndex (ascii ".pcm") = filename at h hne
      cases hopen : d.rawFiles filename with
      | some pos =>
          simp only [hopen] at h
          rcases Prod.mk.inj (Option.some.inj h) with ⟨rfl, -⟩
          exact Disk.write_other disk hne _ _
      | none =>
          simp only [hopen] at h
          split_ifs at h
          · rcases Prod.mk.inj (Option.some.inj h) with ⟨rfl, -⟩
            rw [Disk.write_other _ hne, Disk.create_other disk hne]

theorem dumpAll_other {dumps : List (Signal × List Float32)} {other : List UInt8}
    (hother : ∀ dir name index, other ≠ formFileName behind dir name index (ascii ".pcm"))
    (h : dumpAll behind outputDir opens d disk dumps = some (disk', d')) :
    disk' other = disk other := by
  induction dumps generalizing d disk with
  | nil =>
      rcases Prod.mk.inj (Option.some.inj h) with ⟨rfl, -⟩
      rfl
  | cons entry dumps ih =>
      rcases entry with ⟨s, v⟩
      rw [dumpAll] at h
      cases hone : d.dumpRaw disk behind outputDir (ascii s.name) v opens with
      | none =>
          rw [hone] at h
          exact absurd h (by simp)
      | some next =>
          rcases next with ⟨disk₁, d₁⟩
          rw [hone] at h
          rw [ih h, dumpRaw_other (fun dir index => hother dir _ index) hone]

end DiskDumper

/-! ## Whole runs -/

namespace Program

/-- The detectors that were destroyed since the last one was made. -/
def destroyedSince (ops : List Op) : List ℕ :=
  Machine.run (fun l op =>
    match op with
    | .construct _ => []
    | .destroy i => l ++ [i]
    | .setOutputDirectory _ => l
    | .call _ _ _ => l) [] ops

/-- The histogram of a detector. -/
def histogramOf (ops : List Op) (i : ℕ) : RtcHistogram :=
  (ResidualEchoDetector.run (callsOf i ops)).echoLikelihoodHistogram

/-- A report file of a program, when a detector was made. -/
structure Reported (name : List UInt8) (report : RtcHistogram → List UInt8) (ops : List Op)
    (p : Program) : Prop where
  dead : ∀ i ∈ destroyedSince ops, p.object i = none
  file : 0 < constructed ops →
    p.disk name = some (overlays ((destroyedSince ops).map fun i => report (histogramOf ops i)))

variable {behind : List UInt8} {outputDir : Buffer kOutputDirMaxLength} {before : Files}
  {ops : List Op} {p p' : Program} {i : ℕ} {name : List UInt8}
  {report : RtcHistogram → List UInt8}

theorem destroyedSince_construct (opens : List UInt8 → Bool) :
    destroyedSince (ops ++ [.construct opens]) = [] :=
  Machine.run_concat _ _ ops _

theorem destroyedSince_destroy (i : ℕ) :
    destroyedSince (ops ++ [.destroy i]) = destroyedSince ops ++ [i] :=
  Machine.run_concat _ _ ops _

theorem destroyedSince_setOutputDirectory (dir : List UInt8) :
    destroyedSince (ops ++ [.setOutputDirectory dir]) = destroyedSince ops :=
  Machine.run_concat _ _ ops _

theorem destroyedSince_call (i : ℕ) (c : Call Float32) (opens : List UInt8 → Bool) :
    destroyedSince (ops ++ [.call i c opens]) = destroyedSince ops :=
  Machine.run_concat _ _ ops _

/-- What is written of the detectors destroyed is known, as long as none of them is called. -/
theorem map_report {ops' : List Op} {l : List ℕ} (f : RtcHistogram → List UInt8)
    (h : ∀ i ∈ l, callsOf i ops' = callsOf i ops) :
    l.map (fun i => f (histogramOf ops' i)) = l.map fun i => f (histogramOf ops i) := by
  apply List.map_congr_left
  intro i hi
  rw [histogramOf, histogramOf, h i hi]

/-- The places of destroyed detectors stay empty. -/
theorem dead_of_set {x : Option DetectorObject} {j : ℕ} (hdead : p.object j = none)
    (hx : j = i → x = none) : ((p.detectors.set i x)[j]?).join = none := by
  rw [Option.eq_none_iff_forall_ne_some]
  intro o ho
  rcases object_of_set ho with ⟨-, hobject⟩ | ⟨heq, hsome⟩
  · rw [hdead] at hobject
    exact absurd hobject (by simp)
  · rw [hx heq] at hsome
    exact absurd hsome (by simp)

/-- An operation that neither makes nor destroys a detector leaves the file alone. -/
theorem Reported.keep {ops' : List Op} (hr : Reported name report ops p)
    (hconstructed : constructed ops' = constructed ops)
    (hdestroyed : destroyedSince ops' = destroyedSince ops)
    (hcalls : ∀ j ∈ destroyedSince ops, callsOf j ops' = callsOf j ops)
    (hdisk : p'.disk name = p.disk name)
    (hdead : ∀ j ∈ destroyedSince ops, p'.object j = none) : Reported name report ops' p' where
  dead := by
    rw [hdestroyed]
    exact hdead
  file := by
    rw [hconstructed, hdestroyed, map_report report hcalls, hdisk]
    exact hr.file

/-- A detector that is made empties the file. -/
theorem Reported.construct (hfile : Report.IsReportFile name report)
    {opens : List UInt8 → Bool} (h : p.step behind (.construct opens) = some p') :
    Reported name report (ops ++ [.construct opens]) p' := by
  rcases step_construct h with rfl
  constructor
  · intro j hj
    rw [destroyedSince_construct] at hj
    exact absurd hj List.not_mem_nil
  · intro _
    rw [destroyedSince_construct]
    exact hfile.emptied p.disk

/-- One that is destroyed lays its report over it. -/
theorem Reported.destroy (hfile : Report.IsReportFile name report) (hmade : Made ops p)
    (hr : Reported name report ops p) (h : p.step behind (.destroy i) = some p') :
    Reported name report (ops ++ [.destroy i]) p' := by
  rcases step_destroy h with ⟨o, ho, rfl⟩
  have hcalls : ∀ k, callsOf k (ops ++ [.destroy i]) = callsOf k ops := callsOf_concat (by simp)
  have hpos : 0 < constructed ops := by
    have hi := object_lt ho
    rw [hmade.length] at hi
    exact Nat.zero_lt_of_lt hi
  have hhistogram : o.detector.echoLikelihoodHistogram = histogramOf ops i := by
    rw [hmade.detector i o ho]
    rfl
  constructor
  · intro j hj
    rw [destroyedSince_destroy] at hj
    by_cases heq : j = i
    · -- its own place
      rw [heq, object, List.getElem?_set_self']
      cases p.detectors[i]? <;> rfl
    · rcases List.mem_append.mp hj with hold | hnew
      · exact dead_of_set (hr.dead j hold) fun _ => rfl
      · exact absurd (List.mem_singleton.mp hnew) heq
  · intro _
    rw [destroyedSince_destroy, map_report report fun k _ => hcalls k, List.map_append,
      List.map_singleton, overlays_concat, ← hhistogram]
    exact hfile.written (hr.file hpos) _

theorem Reported.setOutputDirectory (hr : Reported name report ops p) {dir : List UInt8}
    (h : p.step behind (.setOutputDirectory dir) = some p') :
    Reported name report (ops ++ [.setOutputDirectory dir]) p' := by
  rcases step_setOutputDirectory h with ⟨buf, rfl⟩
  have hsame : constructed (ops ++ [.setOutputDirectory dir]) = constructed ops :=
    constructed_append ops _
  have hcalls : ∀ k, callsOf k (ops ++ [.setOutputDirectory dir]) = callsOf k ops :=
    callsOf_concat (by simp)
  exact hr.keep hsame (destroyedSince_setOutputDirectory dir) (fun k _ => hcalls k) rfl hr.dead

/-- A call writes to dump files, and the detector called is none of those destroyed. -/
theorem Reported.call (hfile : Report.IsReportFile name report) (hr : Reported name report ops p)
    {c : Call Float32} {opens : List UInt8 → Bool}
    (h : p.step behind (.call i c opens) = some p') :
    Reported name report (ops ++ [.call i c opens]) p' := by
  rcases step_call h with ⟨o, disk', d', ho, hdumps, rfl⟩
  have hsame : constructed (ops ++ [.call i c opens]) = constructed ops :=
    constructed_append ops _
  have hne : ∀ j ∈ destroyedSince ops, j ≠ i := by
    rintro j hj rfl
    rw [hr.dead j hj] at ho
    exact absurd ho (by simp)
  refine hr.keep hsame (destroyedSince_call i c opens) ?_ ?_ ?_
  · intro j hj
    exact callsOf_call_other (hne j hj) c opens
  · exact DiskDumper.dumpAll_other (fun dir signal index => hfile.no_dump behind dir signal index)
      hdumps
  · intro j hj
    exact dead_of_set (hr.dead j hj) fun heq => absurd heq (hne j hj)

/-- **One operation**. -/
theorem Reported.step {op : Op} (hfile : Report.IsReportFile name report) (hmade : Made ops p)
    (hr : Reported name report ops p) (h : p.step behind op = some p') :
    Reported name report (ops ++ [op]) p' := by
  cases op with
  | construct opens => exact Reported.construct hfile h
  | destroy i => exact hr.destroy hfile hmade h
  | setOutputDirectory dir => exact hr.setOutputDirectory h
  | call i c opens => exact hr.call hfile h

theorem reported_run (hfile : Report.IsReportFile name report)
    (h : run behind (start outputDir before) ops = some p) : Reported name report ops p := by
  induction ops using List.reverseRecOn generalizing p with
  | nil =>
      rcases Option.some.inj h with rfl
      refine ⟨fun i hi => absurd hi List.not_mem_nil, ?_⟩
      intro hpos
      exact absurd hpos (Nat.lt_irrefl 0)
  | append_singleton ops op ih =>
      rw [run_concat] at h
      rcases Option.bind_eq_some_iff.mp h with ⟨q, hq, hstep⟩
      exact (ih hq).step hfile (made_run hq) hstep

/-- **The report files**: after every run of a program that has made a detector, whatever it
did else, each of the two files holds the reports of the detectors that were destroyed since
the last one was made, laid over each other in the order in which they were destroyed. The
file of numbers is the report of the one destroyed last if and only if none of the others has
more buckets. -/
theorem report_files (h : run behind (start outputDir before) ops = some p)
    (hmade : 0 < constructed ops) :
    p.disk Report.csvName =
      some (overlays ((destroyedSince ops).map fun i => Report.csvReport (histogramOf ops i))) ∧
    p.disk Report.datName =
      some (overlays ((destroyedSince ops).map fun i => Report.datReport (histogramOf ops i))) ∧
    ∀ i, (destroyedSince ops).getLast? = some i →
      (p.disk Report.datName = some (Report.datReport (histogramOf ops i)) ↔
        ∀ j ∈ destroyedSince ops,
          (histogramOf ops j).samples.size ≤ (histogramOf ops i).samples.size) := by
  have hdat := (reported_run Report.isReportFile_dat h).file hmade
  refine ⟨(reported_run Report.isReportFile_csv h).file hmade, hdat, ?_⟩
  intro i hi
  have hlast : ((destroyedSince ops).map fun i => Report.datReport (histogramOf ops i)).getLast? =
      some (Report.datReport (histogramOf ops i)) := by
    rw [List.getLast?_map, hi]
    rfl
  rw [hdat, Option.some_inj, overlays_eq_last_iff hlast]
  simp only [List.mem_map, forall_exists_index, and_imp, forall_apply_eq_imp_iff₂,
    Report.length_datReport]
  constructor
  · intro hle j hj
    exact Nat.le_of_mul_le_mul_left (hle j hj) (by decide)
  · intro hle j hj
    exact Nat.mul_le_mul_left 4 (hle j hj)

/-- Two detectors that process a frame each and are then destroyed, the second one first. -/
def twoReports : List Op :=
  let call (i : ℕ) (c : Call Float32) : Op := .call i c fun _ => true
  [.construct fun _ => true, .construct fun _ => true,
    call 0 (.analyzeCaptureAudio [1]), call 1 (.analyzeCaptureAudio [1]),
    call 0 (.analyzeRenderAudio [1]), call 1 (.analyzeRenderAudio [2]),
    call 1 (.analyzeCaptureAudio [2]), call 0 (.analyzeCaptureAudio [1]),
    .destroy 1, .destroy 0]

theorem report_files_two :
    (ResidualEchoDetector.likelihoods (callsOf 0 twoReports)).length = 1 ∧
    (ResidualEchoDetector.likelihoods (callsOf 1 twoReports)).length = 1 ∧
    ∃ p, run [] (start (.empty kOutputDirMaxLength) fun _ => none) twoReports = some p ∧
      p.disk Report.csvName = some (overlays
        [Report.csvReport (histogramOf twoReports 1), Report.csvReport (histogramOf twoReports 0)]) ∧
      (p.disk Report.datName = some (Report.datReport (histogramOf twoReports 0)) ↔
        ∀ j ∈ [1, 0], (histogramOf twoReports j).samples.size ≤
          (histogramOf twoReports 0).samples.size) := by
  refine ⟨by decide +kernel, by decide +kernel, ?_⟩
  rcases Option.isSome_iff_exists.mp (show (run [] (start (.empty kOutputDirMaxLength)
    fun _ => none) twoReports).isSome by decide +kernel) with ⟨p, hp⟩
  rcases report_files hp (by decide) with ⟨hcsv, -, hdat⟩
  exact ⟨p, hp, hcsv, hdat 0 rfl⟩

end Program

/-! ## Reading a report -/

namespace Report

/-- The numbers of four bytes each. -/
def words : List UInt8 → List ℕ
  | b₀ :: b₁ :: b₂ :: b₃ :: bytes => LittleEndian.ofBytes [b₀, b₁, b₂, b₃] :: words bytes
  | _ => []

theorem words_toBytes {n : ℕ} (h : n < 2 ^ 32) (bytes : List UInt8) :
    words (LittleEndian.toBytes 4 n ++ bytes) = n :: words bytes :=
  congrArg (· :: words bytes) (LittleEndian.ofBytes_toBytes 4 n h)

theorem printed_natCast (n : ℕ) : printed (n : ℤ) = Decimal.line n := by
  have hbreak : ascii "\n" = [Decimal.newline] := by decide
  have hnonneg : (0 : ℤ) ≤ n := Int.natCast_nonneg n
  rw [printed, ascii_toString, Decimal.ofInt, if_pos hnonneg, hbreak]
  rfl

theorem intBytes_natCast {n : ℕ} (h : n < 2 ^ 31) :
    intBytes (n : ℤ) = LittleEndian.toBytes 4 n := by
  have hword : (UInt32.ofInt (n : ℤ)).toNat = n := by
    rw [UInt32.ofInt, UInt32.toNat_ofNat']
    omega
  rw [intBytes, hword]

/-- What can be read in the two files of a report. -/
structure Reads (h : RtcHistogram) (counts : List ℕ) : Prop where
  csv : Decimal.numbers (csvReport h) = counts ++ [counts.length]
  dat : words (datReport h) = counts

theorem reads_of_counts {h : RtcHistogram} {counts : List ℕ}
    (hcounts : h.samples.toList.map Prod.snd = counts.map Int.ofNat)
    (hsmall : ∀ n ∈ counts, n < 2 ^ 31) : Reads h counts where
  csv := by
    have hlength : h.samples.toList.length = counts.length := by
      simpa using congrArg List.length hcounts
    have hlines : (h.samples.toList.flatMap fun it => printed it.2) =
        counts.flatMap Decimal.line := by
      rw [← List.flatMap_map, hcounts, List.flatMap_map]
      exact List.flatMap_congr fun n _ => printed_natCast n
    rw [csvReport, hlines, hlength, printed_natCast, ← List.flatMap_singleton Decimal.line,
      ← List.flatMap_append, Decimal.numbers_lines]
  dat := by
    have hbytes : datReport h = counts.flatMap (LittleEndian.toBytes 4) := by
      rw [datReport, ← List.flatMap_map, hcounts, List.flatMap_map]
      exact List.flatMap_congr fun n hn => intBytes_natCast (hsmall n hn)
    rw [hbytes]
    clear hcounts hbytes
    induction counts with
    | nil => rfl
    | cons n counts ih =>
        have hn := hsmall n List.mem_cons_self
        rw [List.flatMap_cons, words_toBytes (by omega),
          ih fun m hm => hsmall m (List.mem_cons_of_mem n hm)]

end Report

/-! ## What a detector reports -/

namespace ResidualEchoDetector

open RtcHistogram CappedBag FloatOps

variable {F : Type u} [FloatMath F]

/-- The bucket of every likelihood that a run reported. -/
def buckets (calls : List (Call F)) : List ℤ :=
  (likelihoods calls).map fun e => clampTo 0 100 (truncate (e * ofInt 100))

/-- The histogram is filled by the likelihoods reported. -/
theorem histogram_run (calls : List (Call F)) :
    (run calls).echoLikelihoodHistogram =
      Machine.run RtcHistogram.step (new : ResidualEchoDetector F).echoLikelihoodHistogram
        ((likelihoods calls).map fun e => .add (truncate (e * ofInt 100))) := by
  induction calls using List.reverseRecOn with
  | nil => rfl
  | append_singleton calls c ih =>
      rw [run_concat, step_histogram, likelihoods_concat, List.map_append, Machine.run_append, ih]
      cases (run calls).reported c with
      | none => rfl
      | some e => rfl

theorem added_likelihoods (samples : List ℤ) :
    addedSinceEmptied (samples.map Op.add) = samples ∧ adds (samples.map Op.add) = samples.length := by
  induction samples using List.reverseRecOn with
  | nil => exact ⟨rfl, rfl⟩
  | append_singleton samples s ih =>
      rcases ih with ⟨hadded, hadds⟩
      rw [List.map_append, addedSinceEmptied, List.map_singleton, Machine.run_concat, adds_append,
        hadds, List.length_append]
      constructor
      · show addedSinceEmptied (samples.map Op.add) ++ [s] = _
        rw [hadded]
      · rfl

/-- The histogram of a run stores the buckets. -/
theorem stores_run (calls : List (Call F)) (hsmall : (likelihoods calls).length < 2 ^ 31) :
    Stores (run calls).echoLikelihoodHistogram.samples (buckets calls) := by
  let samples := (likelihoods calls).map fun e : F => truncate (e * ofInt 100)
  have hsamples : ((likelihoods calls).map fun e => Op.add (truncate (e * ofInt 100))) =
      samples.map Op.add := by
    rw [List.map_map]
    rfl
  have hlength : samples.length = (likelihoods calls).length := List.length_map _
  have ht : RtcHistogram.Tracks 0 100 (Machine.run RtcHistogram.step
      (new : ResidualEchoDetector F).echoLikelihoodHistogram (samples.map Op.add))
      (addedSinceEmptied (samples.map Op.add)) := by
    apply RtcHistogram.tracks_run
    · omega
    · omega
    · rw [(added_likelihoods samples).2, hlength]
      exact hsmall
  have hstores := ht.stores
  have hbuckets : samples.map (clampTo 0 100) = buckets calls := List.map_map
  rw [(added_likelihoods samples).1, hbuckets] at hstores
  rw [histogram_run, hsamples]
  exact hstores

/-- The range has 102 buckets, so that none is left out. -/
theorem length_eraseDups_buckets (calls : List (Call F)) :
    (buckets calls).eraseDups.length ≤ kMaxSampleMapSize := by
  have hclamped := length_eraseDups_clamped (show (0 : ℤ) ≤ 100 by decide) (by decide)
    ((likelihoods calls).map fun e : F => truncate (e * ofInt 100))
  rwa [List.map_map] at hclamped

theorem kept_buckets (calls : List (Call F)) :
    kept kMaxSampleMapSize (buckets calls) = (buckets calls).eraseDups :=
  List.take_of_length_le (length_eraseDups_buckets calls)

/-- Every bucket has the number of likelihoods that fell into it. -/
theorem numEvents_run (calls : List (Call F)) (hsmall : (likelihoods calls).length < 2 ^ 31)
    (b : ℤ) : (run calls).echoLikelihoodHistogram.numEvents b = (buckets calls).count b := by
  rw [RtcHistogram.numEvents_eq_getD, Std.TreeMap.getD_eq_getD_getElem?,
    stores_run calls hsmall b, kept_buckets]
  split_ifs with hb
  · rfl
  · rw [List.mem_eraseDups] at hb
    rw [List.count_eq_zero.mpr hb]
    rfl

/-- **The report of a detector**: after every run with fewer than `2 ^ 31` processed frames,
whatever the numbers are, both files hold the counts of the buckets that are not empty, in
ascending order of the buckets; the text file ends in their number, and the counts add up to
the number of frames processed since the detector was made. -/
theorem report_readable (calls : List (Call F)) (hsmall : (likelihoods calls).length < 2 ^ 31) :
    ∃ found : List ℤ, found.Pairwise (· < ·) ∧ (∀ b, b ∈ found ↔ b ∈ buckets calls) ∧
      let counts := found.map fun b => (buckets calls).count b
      Decimal.numbers (Report.csvReport (run calls).echoLikelihoodHistogram) =
        counts ++ [counts.length] ∧
      Report.words (Report.datReport (run calls).echoLikelihoodHistogram) = counts ∧
      counts.sum = (likelihoods calls).length := by
  have hstores := stores_run calls hsmall
  have hlength : (buckets calls).length = (likelihoods calls).length := List.length_map _
  have hall := length_eraseDups_buckets calls
  have hkept := kept_buckets calls
  refine ⟨(run calls).echoLikelihoodHistogram.samples.keys, ?_, ?_, ?_⟩
  · exact Std.TreeMap.ordered_keys.imp fun h => Int.compare_eq_lt.mp h
  · intro b
    rw [Std.TreeMap.mem_keys, hstores.mem_iff, hkept, List.mem_eraseDups]
  · intro counts
    have hcounts : (run calls).echoLikelihoodHistogram.samples.toList.map Prod.snd =
        counts.map Int.ofNat := by
      rw [hstores.toList_snd, List.map_map]
      rfl
    have hreads : Report.Reads (run calls).echoLikelihoodHistogram counts := by
      refine Report.reads_of_counts hcounts ?_
      intro n hn
      rcases List.mem_map.mp hn with ⟨b, -, rfl⟩
      have hle := List.count_le_length (a := b) (l := buckets calls)
      omega
    refine ⟨hreads.csv, hreads.dat, ?_⟩
    have hsum := hstores.sum_eq.trans (sum_kept_eq_total (buckets calls))
    rw [hcounts, total_eq_length hall, hlength] at hsum
    have hcast : (counts.map Int.ofNat).sum = (counts.sum : ℤ) := by
      rw [Nat.cast_list_sum]
      rfl
    rw [hcast] at hsum
    exact_mod_cast hsum

/-- A run that processes one frame at most. -/
theorem report_readable_short :
    let calls : List (Call Float32) :=
      [.analyzeCaptureAudio [1], .analyzeRenderAudio [1], .analyzeCaptureAudio [1]]
    ∃ counts : List ℕ,
      Report.words (Report.datReport (run calls).echoLikelihoodHistogram) = counts ∧
      counts.sum = (likelihoods calls).length := by
  intro calls
  have hsmall : (likelihoods calls).length < 2 ^ 31 :=
    (length_likelihoods_le calls).trans_lt (by decide)
  rcases report_readable calls hsmall with ⟨found, -, -, -, hdat, hsum⟩
  exact ⟨_, hdat, hsum⟩

end ResidualEchoDetector

end AudioProc
