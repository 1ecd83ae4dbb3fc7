import AudioProc.ApmDataDumper
import AudioProc.DebugSignals

/-!
# Programs with detectors, and the files they leave

A program makes and destroys detectors, calls them and sets the directory of their dump
files. Each detector has a dumper of its own, with a stream for each file name; the files are
on one disk, where other detectors write too and older files may lie. What is written to a
file that could not be opened is not defined, and neither is a call of a detector that is not
there: there is no program after these.

All detectors open the two report files, and each writes its histogram to them when it is
destroyed.

* `DiskDumper.view_dumpAll`: the dumper on the disk refines that of `ApmDataDumper`, which has
  files of its own: the files that it has open are its view of the disk;
* `made_run`: what holds of the detectors of every program. The files are in `DumpFiles` and
  `ReportFiles`.
-/

namespace AudioProc

open ApmDataDumper CString

/-! ## The dumper on a disk -/

/-- An `ApmDataDumper`: `rawFiles` are the positions of the streams in its map. -/
structure DiskDumper where
  instanceIndex : Int32
  rawFiles : List UInt8 → Option ℕ

/-- The files of the program. -/
abbrev Files := Disk (List UInt8)

namespace DiskDumper

/-- The constructor. -/
def new (instanceIndex : Int32) : DiskDumper where
  instanceIndex := instanceIndex
  rawFiles := fun _ => none

/-- `GetRawFile`: the name and the position of the stream that it hands out. -/
def getRawFile (d : DiskDumper) (disk : Files) (behind : List UInt8)
    (outputDir : Buffer kOutputDirMaxLength) (name : List UInt8) (opens : List UInt8 → Bool) :
    Option (List UInt8 × ℕ × Files × DiskDumper) :=
  match outputDir.string with
  | none => none
  | some dir =>
    let filename := formFileName behind dir name d.instanceIndex (ascii ".pcm")
    match d.rawFiles filename with
    | some pos => some (filename, pos, disk, d)
    | none =>
      if opens filename then
        some (filename, 0, disk.create filename,
          { d with rawFiles := Function.update d.rawFiles filename (some 0) })
      else
        none

/-- `DumpRaw` -/
def dumpRaw (d : DiskDumper) (disk : Files) (behind : List UInt8)
    (outputDir : Buffer kOutputDirMaxLength) (name : List UInt8) (v : List Float32)
    (opens : List UInt8 → Bool) : Option (Files × DiskDumper) :=
  match d.getRawFile disk behind outputDir name opens with
  | none => none
  | some (filename, pos, disk, d) =>
    let bytes := v.flatMap floatBytes
    some (disk.write filename pos bytes,
      { d with rawFiles := Function.update d.rawFiles filename (some (pos + bytes.length)) })

/-- Several `DumpRaw` calls. -/
def dumpAll (behind : List UInt8) (outputDir : Buffer kOutputDirMaxLength)
    (opens : List UInt8 → Bool) :
    DiskDumper → Files → List (Signal × List Float32) → Option (Files × DiskDumper)
  | d, disk, [] => some (disk, d)
  | d, disk, (signal, v) :: dumps =>
    match d.dumpRaw disk behind outputDir (ascii signal.name) v opens with
    | none => none
    | some (disk, d) => dumpAll behind outputDir opens d disk dumps

/-! ### The dumper on files of its own -/

section View

/-- The dumper with the files that it has open, as if nobody else wrote to them. -/
def view (d : DiskDumper) (disk : Files) : ApmDataDumper where
  instanceIndex := d.instanceIndex
  rawFiles := fun name => (d.rawFiles name).map fun pos => disk.stream name pos

theorem view_rawFiles (d : DiskDumper) (disk : Files) (name : List UInt8) :
    (d.view disk).rawFiles name =
      (d.rawFiles name).map fun pos => disk.stream name pos := rfl

/-- One file of the view changes with the stream and the contents of that file. -/
theorem view_update (d : DiskDumper) {disk disk' : Files} (name : List UInt8) (pos : ℕ)
    (hsame : ∀ name', name' ≠ name → disk' name' = disk name') :
    view ⟨d.instanceIndex, Function.update d.rawFiles name (some pos)⟩ disk' =
      ⟨d.instanceIndex, Function.update (d.view disk).rawFiles name
        (some (disk'.stream name pos))⟩ := by
  have hfiles : ∀ name', Option.map (fun pos => disk'.stream name' pos)
      (Function.update d.rawFiles name (some pos) name') =
        Function.update (d.view disk).rawFiles name (some (disk'.stream name pos)) name' := by
    intro name'
    by_cases h : name' = name
    · subst h
      rw [Function.update_self, Function.update_self]
      rfl
    · rw [Function.update_of_ne h, Function.update_of_ne h]
      simp only [Disk.stream, hsame name' h]
      rfl
  exact congrArg (ApmDataDumper.mk d.instanceIndex) (funext hfiles)

variable {d d' : DiskDumper} {disk disk' : Files} {behind : List UInt8}
  {outputDir : Buffer kOutputDirMaxLength} {name filename : List UInt8} {pos : ℕ}
  {opens : List UInt8 → Bool}

theorem view_getRawFile
    (h : d.getRawFile disk behind outputDir name opens = some (filename, pos, disk', d')) :
    (d.view disk).getRawFile behind outputDir name true = some (filename, d'.view disk') ∧
      d'.rawFiles filename = some pos := by
  unfold getRawFile at h
  unfold ApmDataDumper.getRawFile
  cases hdir : outputDir.string with
  | none =>
      rw [hdir] at h
      exact absurd h (by simp)
  | some dir =>
      simp only [hdir, view_rawFiles] at h ⊢
      have hindex : (d.view disk).instanceIndex = d.instanceIndex := rfl
      rw [hindex]
      generalize formFileName behind dir name d.instanceIndex (ascii ".pcm") = file at h ⊢
      cases hopen : d.rawFiles file with
      | some pos =>
          simp only [hopen] at h
          cases h
          exact ⟨rfl, hopen⟩
      | none =>
          simp only [hopen] at h
          split_ifs at h
          cases h
          refine ⟨?_, Function.update_self _ _ _⟩
          have hupdate := d.view_update filename 0 (fun name' hne => Disk.create_other disk hne)
          rw [hupdate, Disk.stream, Disk.create_same]
          rfl

/-- **`DumpRaw` on a disk** does what it does with files of its own. -/
theorem view_dumpRaw {v : List Float32}
    (h : d.dumpRaw disk behind outputDir name v opens = some (disk', d')) :
    (d.view disk).dumpRaw behind outputDir name v true = some (d'.view disk') := by
  unfold dumpRaw at h
  cases hraw : d.getRawFile disk behind outputDir name opens with
  | none =>
      rw [hraw] at h
      exact absurd h (by simp)
  | some found =>
      rcases found with ⟨filename, pos, disk₁, d₁⟩
      rw [hraw] at h
      rcases Prod.mk.inj (Option.some.inj h) with ⟨rfl, rfl⟩
      rcases view_getRawFile hraw with ⟨hview, hopen⟩
      have hfile : (d₁.view disk₁).rawFiles filename = some (disk₁.stream filename pos) := by
        rw [view_rawFiles, hopen]
        rfl
      have hupdate := d₁.view_update filename (pos + (v.flatMap floatBytes).length)
        (fun name' hne => Disk.write_other disk₁ hne pos (v.flatMap floatBytes))
      rw [hupdate, Disk.stream_write_same]
      simp only [ApmDataDumper.dumpRaw, hview, hfile]
      rfl

/-- **The dumps of a call** are those of a dumper with files of its own. -/
theorem view_dumpAll {dumps : List (Signal × List Float32)}
    (h : dumpAll behind outputDir opens d disk dumps = some (disk', d')) :
    dumps.foldlM (fun dumper entry =>
      ApmDataDumper.dumpRaw dumper behind outputDir (ascii entry.1.name) entry.2 true)
      (d.view disk) = some (d'.view disk') := by
  induction dumps generalizing d disk with
  | nil =>
      rcases Prod.mk.inj (Option.some.inj h) with ⟨rfl, rfl⟩
      rfl
  | cons entry dumps ih =>
      rcases entry with ⟨s, v⟩
      rw [dumpAll] at h
      cases hone : d.dumpRaw disk behind outputDir (ascii s.name) v opens with
      | none =>
          rw [hone] at h
          exact absurd h (by simp)
      | some next =>
          rcases next with ⟨disk₁, d₁⟩
          rw [hone] at h
          rw [List.foldlM_cons, view_dumpRaw hone]
          exact ih h

end View

end DiskDumper

/-! ## The report of a detector -/

namespace Report

/-- The file `likelihood_csv_`. -/
def csvName : List UInt8 := ascii "echo_likelihood.csv"

/-- The file `likelihood_m_`. -/
def datName : List UInt8 := ascii "echo_likelihood.dat"

/-- What `fprintf` writes for "%d\n" or "%lu\n". -/
def printed (n : ℤ) : List UInt8 := ascii (toString n) ++ ascii "\n"

/-- The bytes of an `int` in memory. -/
def intBytes (n : ℤ) : List UInt8 := LittleEndian.toBytes 4 (UInt32.ofInt n).toNat

/-- The disk and the positions of the two streams. -/
structure Streams where
  disk : Files
  csvPos : ℕ
  datPos : ℕ

namespace Streams

/-- `fprintf(likelihood_csv_, …, n)` -/
def print (s : Streams) (n : ℤ) : Streams :=
  { s with
    disk := s.disk.write csvName s.csvPos (printed n)
    csvPos := s.csvPos + (printed n).length }

/-- `fwrite(&n, sizeof(int), 1, likelihood_m_)` -/
def writeInt (s : Streams) (n : ℤ) : Streams :=
  { s with
    disk := s.disk.write datName s.datPos (intBytes n)
    datPos := s.datPos + (intBytes n).length }

/-- The loop over the histogram. -/
def entries (s : Streams) (samples : List (ℤ × ℤ)) : Streams :=
  samples.foldl (fun s it => (s.print it.2).writeInt it.2) s

end Streams

/-- `ResidualEchoDetector::~ResidualEchoDetector`: nothing was written to the two streams
before. -/
def write (disk : Files) (histogram : RtcHistogram) : Files :=
  let samples := histogram.samples.toList
  ((Streams.entries ⟨disk, 0, 0⟩ samples).print samples.length).disk

end Report

/-! ## Programs -/

/-- A detector with its dumper. -/
structure DetectorObject where
  detector : ResidualEchoDetector Float32
  dataDumper : DiskDumper

/-- The static variables, the disk and the detectors, in the order in which they were made;
a destroyed one leaves its place. -/
structure Program where
  outputDir : Buffer kOutputDirMaxLength
  instanceCount : Int32
  disk : Files
  detectors : List (Option DetectorObject)

namespace Program

/-- What a program can do with detectors. `opens` says which files can be opened. -/
inductive Op where
  | construct (opens : List UInt8 → Bool)
  | destroy (detector : ℕ)
  | setOutputDirectory (outputDir : List UInt8)
  | call (detector : ℕ) (c : Call Float32) (opens : List UInt8 → Bool)

/-- Before the first detector is made. -/
def start (outputDir : Buffer kOutputDirMaxLength) (disk : Files) : Program where
  outputDir := outputDir
  instanceCount := 0
  disk := disk
  detectors := []

/-- The constructor of a detector. -/
def construct (p : Program) (opens : List UInt8 → Bool) : Option Program :=
  if opens Report.csvName = true ∧ opens Report.datName = true then
    let instanceCount := p.instanceCount + 1
    some { p with
      instanceCount := instanceCount
      disk := (p.disk.create Report.csvName).create Report.datName
      detectors := p.detectors ++ [some ⟨.new, .new instanceCount⟩] }
  else
    none

/-- The detector at a place. -/
def object (p : Program) (i : ℕ) : Option DetectorObject := (p.detectors[i]?).join

/-- One operation. -/
def step (behind : List UInt8) (p : Program) : Op → Option Program
  | .construct opens => p.construct opens
  | .destroy i =>
    (p.object i).map fun o =>
      { p with
        disk := Report.write p.disk o.detector.echoLikelihoodHistogram
        detectors := p.detectors.set i none }
  | .setOutputDirectory outputDir =>
    (p.outputDir.strncpy outputDir outputDir.length).map fun buf => { p with outputDir := buf }
  | .call i c opens =>
    match p.object i with
    | none => none
    | some o =>
      (DiskDumper.dumpAll behind p.outputDir opens o.dataDumper p.disk (o.detector.dumps c)).map
        fun (disk, dataDumper) =>
          { p with
            disk := disk
            detectors := p.detectors.set i (some ⟨o.detector.step c, dataDumper⟩) }

/-- The program after a run. -/
def run (behind : List UInt8) (p : Program) (ops : List Op) : Option Program :=
  Machine.run (fun p op => p.bind fun p => p.step behind op) (some p) ops

/-- How many detectors a run makes. -/
def constructed : List Op → ℕ
  | [] => 0
  | .construct _ :: ops => constructed ops + 1
  | _ :: ops => constructed ops

/-- The calls of one detector. -/
def callsOf (i : ℕ) : List Op → List (Call Float32)
  | [] => []
  | .call j c _ :: ops => if j = i then c :: callsOf i ops else callsOf i ops
  | _ :: ops => callsOf i ops

/-- The directory stays what it is. -/
def KeepsDirectory (ops : List Op) : Prop := ∀ dir, .setOutputDirectory dir ∉ ops

/-! ### Runs -/

variable {behind : List UInt8} {ops : List Op} {op : Op} {p p' : Program} {i : ℕ}

theorem constructed_append (ops ops' : List Op) :
    constructed (ops ++ ops') = constructed ops + constructed ops' := by
  induction ops with
  | nil => exact (Nat.zero_add _).symm
  | cons op ops ih =>
      cases op with
      | construct opens =>
          rw [List.cons_append, constructed, constructed, ih]
          omega
      | destroy i => exact ih
      | setOutputDirectory outputDir => exact ih
      | call i c opens => exact ih

theorem callsOf_append (i : ℕ) (ops ops' : List Op) :
    callsOf i (ops ++ ops') = callsOf i ops ++ callsOf i ops' := by
  induction ops with
  | nil => rfl
  | cons op ops ih =>
      cases op with
      | construct opens => exact ih
      | destroy j => exact ih
      | setOutputDirectory outputDir => exact ih
      | call j c opens =>
          rw [List.cons_append, callsOf, callsOf, ih]
          split_ifs <;> rfl

theorem run_nil (behind : List UInt8) (p : Program) : run behind p [] = some p := rfl

theorem run_concat (behind : List UInt8) (p : Program) (ops : List Op) (op : Op) :
    run behind p (ops ++ [op]) = (run behind p ops).bind fun p => p.step behind op :=
  Machine.run_concat _ _ ops op

/-! ### The detectors there are -/

/-- A detector that was made behind the others. -/
theorem object_of_concat {x : Option DetectorObject} {k : ℕ} {o : DetectorObject}
    (h : ((p.detectors ++ [x])[k]?).join = some o) :
    p.object k = some o ∨ k = p.detectors.length ∧ x = some o := by
  rcases Nat.lt_trichotomy k p.detectors.length with hlt | rfl | hgt
  · rw [List.getElem?_append_left hlt] at h
    exact Or.inl h
  · rw [List.getElem?_concat_length] at h
    exact Or.inr ⟨rfl, h⟩
  · rw [List.getElem?_eq_none (by rw [List.length_append, List.length_singleton]; omega)] at h
    exact absurd h (by simp)

/-- A detector whose place was changed, or another one. -/
theorem object_of_set {x : Option DetectorObject} {i k : ℕ} {o : DetectorObject}
    (h : ((p.detectors.set i x)[k]?).join = some o) :
    (k ≠ i ∧ p.object k = some o) ∨ k = i ∧ x = some o := by
  by_cases hk : k = i
  · subst hk
    rw [List.getElem?_set_self'] at h
    cases hplace : p.detectors[k]? with
    | none =>
        rw [hplace] at h
        exact absurd h (by simp)
    | some y =>
        rw [hplace] at h
        exact Or.inr ⟨rfl, h⟩
  · rw [List.getElem?_set_ne (Ne.symm hk)] at h
    exact Or.inl ⟨hk, h⟩

theorem object_lt {k : ℕ} {o : DetectorObject} (h : p.object k = some o) :
    k < p.detectors.length := by
  by_contra hge
  rw [object, List.getElem?_eq_none (Nat.not_lt.mp hge)] at h
  exact absurd h (by simp)

/-! ### What an operation does -/

theorem step_construct {opens : List UInt8 → Bool}
    (h : p.step behind (.construct opens) = some p') :
    p' = { p with
      instanceCount := p.instanceCount + 1
      disk := (p.disk.create Report.csvName).create Report.datName
      detectors := p.detectors ++ [some ⟨.new, .new (p.instanceCount + 1)⟩] } := by
  rw [step, construct] at h
  split_ifs at h
  exact (Option.some.inj h).symm

theorem step_destroy (h : p.step behind (.destroy i) = some p') :
    ∃ o, p.object i = some o ∧ p' = { p with
      disk := Report.write p.disk o.detector.echoLikelihoodHistogram
      detectors := p.detectors.set i none } := by
  rcases Option.map_eq_some_iff.mp h with ⟨o, ho, rfl⟩
  exact ⟨o, ho, rfl⟩

theorem step_setOutputDirectory {dir : List UInt8}
    (h : p.step behind (.setOutputDirectory dir) = some p') :
    ∃ buf, p' = { p with outputDir := buf } := by
  rcases Option.map_eq_some_iff.mp h with ⟨buf, -, rfl⟩
  exact ⟨buf, rfl⟩

theorem step_call {c : Call Float32} {opens : List UInt8 → Bool}
    (h : p.step behind (.call i c opens) = some p') :
    ∃ o disk' d', p.object i = some o ∧
      DiskDumper.dumpAll behind p.outputDir opens o.dataDumper p.disk (o.detector.dumps c) =
        some (disk', d') ∧
      p' = { p with
        disk := disk'
        detectors := p.detectors.set i (some ⟨o.detector.step c, d'⟩) } := by
  cases ho : p.object i with
  | none =>
      rw [step, ho] at h
      exact absurd h (by simp)
  | some o =>
      rw [step, ho] at h
      rcases Option.map_eq_some_iff.mp h with ⟨⟨disk', d'⟩, hdumps, rfl⟩
      exact ⟨o, disk', d', rfl, hdumps, rfl⟩

/-! ### The detectors of a program -/

/-- The detectors after a run: how many were made, and what those that are there have become. -/
structure Made (ops : List Op) (p : Program) : Prop where
  length : p.detectors.length = constructed ops
  count : p.instanceCount = Int32.ofNat (constructed ops)
  -- nobody has called a detector that was not made
  unborn : ∀ k, constructed ops ≤ k → callsOf k ops = []
  detector : ∀ k o, p.object k = some o → o.detector = ResidualEchoDetector.run (callsOf k ops)

theorem made_start (outputDir : Buffer kOutputDirMaxLength) (before : Files) :
    Made [] (start outputDir before) where
  length := rfl
  count := rfl
  unborn := fun _ _ => rfl
  detector := fun k o h => absurd h (by simp [object, start])

/-- An operation that is no call changes no detector. -/
theorem callsOf_concat (hop : ∀ i c opens, op ≠ .call i c opens) (k : ℕ) :
    callsOf k (ops ++ [op]) = callsOf k ops := by
  rw [callsOf_append]
  cases op with
  | construct opens => exact List.append_nil _
  | destroy i => exact List.append_nil _
  | setOutputDirectory dir => exact List.append_nil _
  | call i c opens => exact absurd rfl (hop i c opens)

theorem callsOf_call_self (i : ℕ) (c : Call Float32) (opens : List UInt8 → Bool) :
    callsOf i (ops ++ [.call i c opens]) = callsOf i ops ++ [c] := by
  rw [callsOf_append, callsOf, if_pos rfl]
  rfl

theorem callsOf_call_other {k : ℕ} (hk : k ≠ i) (c : Call Float32)
    (opens : List UInt8 → Bool) : callsOf k (ops ++ [.call i c opens]) = callsOf k ops := by
  rw [callsOf_append, callsOf, if_neg (Ne.symm hk)]
  exact List.append_nil _

/-- An operation that calls no detector and leaves at most those that were there. -/
theorem Made.keep {ops' : List Op} (hmade : Made ops p)
    (hconstructed : constructed ops' = constructed ops)
    (hcalls : ∀ k, callsOf k ops' = callsOf k ops)
    (hlength : p'.detectors.length = p.detectors.length)
    (hcount : p'.instanceCount = p.instanceCount)
    (hobject : ∀ k o, p'.object k = some o → p.object k = some o) : Made ops' p' where
  length := by rw [hlength, hconstructed, hmade.length]
  count := by rw [hcount, hconstructed, hmade.count]
  unborn := by
    intro k hk
    rw [hconstructed] at hk
    rw [hcalls, hmade.unborn k hk]
  detector := by
    intro k o ho
    rw [hcalls]
    exact hmade.detector k o (hobject k o ho)

theorem Made.construct (hmade : Made ops p) {opens : List UInt8 → Bool}
    (h : p.step behind (.construct opens) = some p') : Made (ops ++ [.construct opens]) p' := by
  rcases step_construct h with rfl
  have hone : constructed (ops ++ [.construct opens]) = constructed ops + 1 :=
    constructed_append ops _
  have hcalls : ∀ k, callsOf k (ops ++ [.construct opens]) = callsOf k ops :=
    callsOf_concat (by simp)
  constructor
  · rw [hone, ← hmade.length]
    exact List.length_append
  · rw [hone, Int32.ofNat_add, ← hmade.count]
    rfl
  · intro k hk
    rw [hcalls]
    exact hmade.unborn k (by omega)
  · intro k o ho
    rw [hcalls]
    rcases object_of_concat ho with hold | ⟨rfl, hnew⟩
    · exact hmade.detector k o hold
    · -- nobody has called the new one
      rcases Option.some.inj hnew with rfl
      rw [hmade.unborn _ hmade.length.ge]
      rfl

theorem Made.destroy (hmade : Made ops p) (h : p.step behind (.destroy i) = some p') :
    Made (ops ++ [.destroy i]) p' := by
  rcases step_destroy h with ⟨o₀, -, rfl⟩
  have hsame : constructed (ops ++ [.destroy i]) = constructed ops := constructed_append ops _
  refine hmade.keep hsame (callsOf_concat (by simp)) List.length_set rfl ?_
  intro k o ho
  rcases object_of_set ho with ⟨-, hobject⟩ | ⟨-, hnone⟩
  · exact hobject
  · exact absurd hnone (by simp)

theorem Made.setOutputDirectory (hmade : Made ops p) {dir : List UInt8}
    (h : p.step behind (.setOutputDirectory dir) = some p') :
    Made (ops ++ [.setOutputDirectory dir]) p' := by
  rcases step_setOutputDirectory h with ⟨buf, rfl⟩
  have hsame : constructed (ops ++ [.setOutputDirectory dir]) = constructed ops :=
    constructed_append ops _
  exact hmade.keep hsame (callsOf_concat (by simp)) rfl rfl fun _ _ ho => ho

theorem Made.call (hmade : Made ops p) {c : Call Float32} {opens : List UInt8 → Bool}
    (h : p.step behind (.call i c opens) = some p') : Made (ops ++ [.call i c opens]) p' := by
  rcases step_call h with ⟨o₀, disk', d', ho₀, -, rfl⟩
  have hi : i < constructed ops := hmade.length ▸ object_lt ho₀
  have hsame : constructed (ops ++ [.call i c opens]) = constructed ops :=
    constructed_append ops _
  constructor
  · rw [hsame, ← hmade.length]
    exact List.length_set
  · rw [hsame]
    exact hmade.count
  · intro k hk
    rw [hsame] at hk
    rw [callsOf_call_other (by omega)]
    exact hmade.unborn k hk
  · intro k o ho
    rcases object_of_set ho with ⟨hne, hobject⟩ | ⟨rfl, hnew⟩
    · rw [callsOf_call_other hne]
      exact hmade.detector k o hobject
    · rcases Option.some.inj hnew with rfl
      rw [callsOf_call_self, ResidualEchoDetector.run_concat, ← hmade.detector k o₀ ho₀]

/-- **One operation**: a detector is made, destroyed or called, or none of these. -/
theorem Made.step (hmade : Made ops p) (h : p.step behind op = some p') :
    Made (ops ++ [op]) p' := by
  cases op with
  | construct opens => exact hmade.construct h
  | destroy i => exact hmade.destroy h
  | setOutputDirectory dir => exact hmade.setOutputDirectory h
  | call i c opens => exact hmade.call h

/-- **Every run** of a program. -/
theorem made_run {outputDir : Buffer kOutputDirMaxLength} {before : Files}
    (h : run behind (start outputDir before) ops = some p) : Made ops p := by
  induction ops using List.reverseRecOn generalizing p with
  | nil =>
      rcases Option.some.inj h with rfl
      exact made_start outputDir before
  | append_singleton ops op ih =>
      rw [run_concat] at h
      rcases Option.bind_eq_some_iff.mp h with ⟨q, hq, hstep⟩
      exact (ih hq).step hstep

end Program

end AudioProc
