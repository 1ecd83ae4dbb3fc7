import AudioProc.CString
import AudioProc.LittleEndian
import AudioProc.Machine
import AudioProc.OutFile

/-!
# ApmDataDumper

The dump files of `logging/apm_data_dumper`. A dumper keeps one open file for each file name;
the directory in front of the names is a static buffer that all dumpers share and that
`SetOutputDirectory` overwrites in place. `Process` is that buffer with the dumpers of a
program, and `Op` what the program can do with them.

`SetOutputDirectory` copies the new directory without its NUL, so that the end of a longer one
stays behind it: the buffer holds the directories of a run laid over each other
(`holds_run`). `rawFile_in_last_iff` says when that is the last one.
-/

namespace AudioProc

open CString

/-- The bytes of a string literal or a number. -/
def ascii (s : String) : List UInt8 := s.toUTF8.data.toList

structure ApmDataDumper where
  instanceIndex : Int32
  -- the pointers in the map, null where it has none
  rawFiles : List UInt8 → Option OutFile

namespace ApmDataDumper

def kOutputDirMaxLength : ℕ := 1024

def kPathDelimiter : UInt8 := 0x2f

/-- The constructor. -/
def new (instanceIndex : Int32) : ApmDataDumper where
  instanceIndex := instanceIndex
  rawFiles := fun _ => none

/-- `FormFileName`. The delimiter is appended as the C string that starts at it: `behind` is
what memory holds between it and the next NUL. -/
def formFileName (behind outputDir name : List UInt8) (instanceIndex : Int32)
    (suffix : List UInt8) : List UInt8 :=
  let ss :=
    if 0 < outputDir.length then
      if outputDir.getLast? ≠ some kPathDelimiter then
        outputDir ++ kPathDelimiter :: behind
      else
        outputDir
    else
      []
  ss ++ name ++ ascii "_" ++ ascii (toString instanceIndex.toInt) ++ suffix

/-- `GetRawFile`: the name of the entry it hands out and the dumper with that entry; `opens`
says whether `fopen` succeeds, if it is called. -/
def getRawFile (d : ApmDataDumper) (behind : List UInt8) (outputDir : Buffer kOutputDirMaxLength)
    (name : List UInt8) (opens : Bool) : Option (List UInt8 × ApmDataDumper) :=
  match outputDir.string with
  | none => none
  | some dir =>
    let filename := formFileName behind dir name d.instanceIndex (ascii ".pcm")
    match d.rawFiles filename with
    | some _ => some (filename, d)
    | none =>
      let f := if opens then some OutFile.fopen else none
      some (filename, { d with rawFiles := Function.update d.rawFiles filename f })

/-- The bytes of a `float` in memory. -/
def floatBytes (v : Float32) : List UInt8 := LittleEndian.toBytes 4 v.toBits.toNat

/-- `DumpRaw`, of an array or of one value. Writing to a file that could not be opened is not
defined. -/
def dumpRaw (d : ApmDataDumper) (behind : List UInt8) (outputDir : Buffer kOutputDirMaxLength)
    (name : List UInt8) (v : List Float32) (opens : Bool) : Option ApmDataDumper :=
  match d.getRawFile behind outputDir name opens with
  | none => none
  | some (filename, d) =>
    match d.rawFiles filename with
    | none => none
    | some f =>
      some { d with rawFiles :=
        Function.update d.rawFiles filename (some (f.fwrite (v.flatMap floatBytes))) }

end ApmDataDumper

open ApmDataDumper

/-! ## Programs that dump -/

/-- The static buffer and the dumpers of a program. -/
structure Process where
  outputDir : Buffer kOutputDirMaxLength
  dumpers : List ApmDataDumper

namespace Process

/-- What a program can do with dumpers. -/
inductive Op where
  | construct (instanceIndex : Int32)
  | destroy (dumper : ℕ)
  | setOutputDirectory (outputDir : List UInt8)
  | dumpRaw (dumper : ℕ) (name : List UInt8) (v : List Float32) (opens : Bool)

def start : Process where
  outputDir := Buffer.empty kOutputDirMaxLength
  dumpers := []

/-- `SetOutputDirectory` -/
def setOutputDirectory (p : Process) (outputDir : List UInt8) : Option Process :=
  (p.outputDir.strncpy outputDir outputDir.length).map fun buf => { p with outputDir := buf }

/-- One operation. There is no process after one that is not defined. -/
def step (behind : List UInt8) (p : Process) : Op → Option Process
  | .construct instanceIndex => some { p with dumpers := p.dumpers ++ [new instanceIndex] }
  | .destroy i => some { p with dumpers := p.dumpers.eraseIdx i }
  | .setOutputDirectory outputDir => p.setOutputDirectory outputDir
  | .dumpRaw i name v opens =>
    match p.dumpers[i]? with
    | none => none
    | some d =>
      (d.dumpRaw behind p.outputDir name v opens).map fun d =>
        { p with dumpers := p.dumpers.set i d }

/-- The process after a run. -/
def run (behind : List UInt8) (ops : List Op) : Option Process :=
  Machine.run (fun p op => p.bind fun p => p.step behind op) (some start) ops

/-- The directories set in a run, the last one at the end. -/
def directories (ops : List Op) : List (List UInt8) :=
  ops.filterMap fun
    | .setOutputDirectory outputDir => some outputDir
    | _ => none

/-- A directory name that fits into the buffer with its NUL. -/
structure IsDirectory (dir : List UInt8) : Prop where
  nul : 0 ∉ dir
  fits : dir.length < kOutputDirMaxLength
  delimiter : dir.getLast? = some kPathDelimiter

instance (dir : List UInt8) : Decidable (IsDirectory dir) :=
  decidable_of_iff
    (0 ∉ dir ∧ dir.length < kOutputDirMaxLength ∧ dir.getLast? = some kPathDelimiter)
    ⟨fun h => ⟨h.1, h.2.1, h.2.2⟩, fun h => ⟨h.nul, h.fits, h.delimiter⟩⟩

variable {behind : List UInt8} {ops : List Op} {p : Process}

/-! ## The buffer along a run -/

theorem directories_concat (ops : List Op) (op : Op) :
    directories (ops ++ [op]) = directories ops ++ directories [op] :=
  List.filterMap_append

/-- Only `SetOutputDirectory` writes to the buffer. -/
theorem outputDir_step {p' : Process} {op : Op} (h : p.step behind op = some p') :
    (directories [op] = [] ∧ p'.outputDir = p.outputDir) ∨
      ∃ dir, directories [op] = [dir] ∧
        p.outputDir.strncpy dir dir.length = some p'.outputDir := by
  cases op with
  | construct instanceIndex =>
      rcases Option.some.inj h with rfl
      exact Or.inl ⟨rfl, rfl⟩
  | destroy i =>
      rcases Option.some.inj h with rfl
      exact Or.inl ⟨rfl, rfl⟩
  | setOutputDirectory dir =>
      rcases Option.map_eq_some_iff.mp h with ⟨buf, hbuf, rfl⟩
      exact Or.inr ⟨dir, rfl, hbuf⟩
  | dumpRaw i name v opens =>
      simp only [step] at h
      split at h
      · exact absurd h (by simp)
      · rcases Option.map_eq_some_iff.mp h with ⟨d, -, rfl⟩
        exact Or.inl ⟨rfl, rfl⟩

/-- **The buffer** after a run holds the directories of the run laid over each other. -/
theorem holds_run (hdirs : ∀ dir ∈ directories ops, IsDirectory dir)
    (h : run behind ops = some p) : p.outputDir.Holds (overlays (directories ops)) := by
  -- the run grows at its end, so that the last copy is the one on top
  induction ops using List.reverseRecOn generalizing p with
  | nil =>
      rcases Option.some.inj h with rfl
      exact Buffer.holds_empty (by decide)
  | append_singleton ops op ih =>
      rw [directories_concat] at hdirs ⊢
      rw [run, Machine.run_concat, ← run] at h
      rcases Option.bind_eq_some_iff.mp h with ⟨q, hq, hstep⟩
      have hbefore := ih (fun dir hdir => hdirs dir (List.mem_append_left _ hdir)) hq
      rcases outputDir_step hstep with ⟨hnone, hsame⟩ | ⟨dir, hone, hcopy⟩
      · rw [hnone, List.append_nil, hsame]
        exact hbefore
      · rw [hone] at hdirs ⊢
        have hdir := hdirs dir (List.mem_append_right _ List.mem_cons_self)
        rcases Buffer.holds_strncpy hbefore hdir.nul hdir.fits with ⟨buf, hbuf, hafter⟩
        rw [hcopy] at hbuf
        rw [Option.some.inj hbuf, overlays_concat]
        exact hafter

/-! ## File names -/

end Process

namespace ApmDataDumper

theorem formFileName_of_delimiter {dir : List UInt8} (h : dir.getLast? = some kPathDelimiter)
    (behind name : List UInt8) (instanceIndex : Int32) (suffix : List UInt8) :
    formFileName behind dir name instanceIndex suffix =
      dir ++ name ++ ascii "_" ++ ascii (toString instanceIndex.toInt) ++ suffix := by
  have hpos : 0 < dir.length := by
    cases dir with
    | nil => exact absurd h (by simp)
    | cons c cs => exact Nat.zero_lt_succ _
  unfold formFileName
  rw [if_pos hpos, if_neg (not_not.mpr h)]

/-- Whatever a dumper has open, the entry is that of the file name formed. -/
theorem getRawFile_name (d : ApmDataDumper) {outputDir : Buffer kOutputDirMaxLength}
    {dir : List UInt8} (h : outputDir.string = some dir) (behind name : List UInt8)
    (opens : Bool) :
    ∃ d', d.getRawFile behind outputDir name opens =
      some (formFileName behind dir name d.instanceIndex (ascii ".pcm"), d') := by
  unfold getRawFile
  rw [h]
  simp only
  split
  · -- the file is open already
    exact ⟨_, rfl⟩
  · exact ⟨_, rfl⟩

end ApmDataDumper

namespace Process

/-- The file names of a run start with all of its directories laid over each other. -/
theorem rawFile_of_run (hdirs : ∀ dir ∈ directories ops, IsDirectory dir)
    (hne : directories ops ≠ []) (h : run behind ops = some p) (d : ApmDataDumper)
    (name : List UInt8) (opens : Bool) :
    ∃ d', d.getRawFile behind p.outputDir name opens =
      some (overlays (directories ops) ++ name ++ ascii "_" ++
        ascii (toString d.instanceIndex.toInt) ++ ascii ".pcm", d') := by
  have hstring := (holds_run hdirs h).string_eq
  -- every directory ends in the delimiter, so `FormFileName` appends none
  have hlast := getLast?_overlays hne fun dir hdir => (hdirs dir hdir).delimiter
  rcases d.getRawFile_name hstring behind name opens with ⟨d', hname⟩
  rw [formFileName_of_delimiter hlast] at hname
  exact ⟨d', hname⟩

/-- A dump file is in the directory that the directories of the run laid over each other make. -/
theorem rawFile_in_iff {D : List UInt8} (hdirs : ∀ dir ∈ directories ops, IsDirectory dir)
    (hne : directories ops ≠ []) (h : run behind ops = some p) (d : ApmDataDumper)
    (name : List UInt8) (opens : Bool) :
    (∃ d', d.getRawFile behind p.outputDir name opens =
      some (D ++ name ++ ascii "_" ++ ascii (toString d.instanceIndex.toInt) ++ ascii ".pcm",
        d')) ↔ overlays (directories ops) = D := by
  rcases rawFile_of_run hdirs hne h d name opens with ⟨d', hused⟩
  constructor
  · -- what stands behind the directory is the same in both names
    rintro ⟨d'', hsame⟩
    rw [hused] at hsame
    have hnames := congrArg Prod.fst (Option.some.inj hsame)
    simpa only [List.append_left_inj] using hnames
  · rintro rfl
    exact ⟨d', hused⟩

/-- **Which directory a dump file is in**: the last one set, if and only if none that was set
before is longer. Otherwise the end of a longer one is left between it and the name. -/
theorem rawFile_in_last_iff {D : List UInt8}
    (hdirs : ∀ dir ∈ directories ops, IsDirectory dir)
    (hD : (directories ops).getLast? = some D) (h : run behind ops = some p)
    (d : ApmDataDumper) (name : List UInt8) (opens : Bool) :
    (∃ d', d.getRawFile behind p.outputDir name opens =
      some (D ++ name ++ ascii "_" ++ ascii (toString d.instanceIndex.toInt) ++ ascii ".pcm",
        d')) ↔
      ∀ dir ∈ directories ops, dir.length ≤ D.length := by
  have hne : directories ops ≠ [] := by
    intro hnil
    rw [hnil] at hD
    exact absurd hD (by simp)
  rw [← overlays_eq_last_iff hD]
  exact rawFile_in_iff hdirs hne h d name opens

/-- A longer directory after a shorter one is used as it is. -/
theorem rawFile_in_last_iff_longer :
    ∃ p, run [] [.setOutputDirectory (ascii "/tmp/"), .setOutputDirectory (ascii "/tmp/pcm/")] =
        some p ∧
      ((∃ d', (new 1).getRawFile [] p.outputDir (ascii "echo") true =
        some (ascii "/tmp/pcm/" ++ ascii "echo" ++ ascii "_" ++
          ascii (toString (1 : Int32).toInt) ++ ascii ".pcm", d')) ↔
        ∀ dir ∈ [ascii "/tmp/", ascii "/tmp/pcm/"], dir.length ≤ (ascii "/tmp/pcm/").length) := by
  rcases Option.isSome_iff_exists.mp (show (run [] [.setOutputDirectory (ascii "/tmp/"),
    .setOutputDirectory (ascii "/tmp/pcm/")]).isSome by decide +kernel) with ⟨p, hp⟩
  exact ⟨p, hp, rawFile_in_last_iff (by decide +kernel) rfl hp (new 1) (ascii "echo") true⟩

/-- A shorter directory after a longer one is not. -/
theorem rawFile_not_in_last :
    ¬ ∀ (behind : List UInt8) (ops : List Op) (p : Process) (D : List UInt8) (d : ApmDataDumper)
      (name : List UInt8) (opens : Bool), (∀ dir ∈ directories ops, IsDirectory dir) →
      (directories ops).getLast? = some D → run behind ops = some p →
      ∃ d', d.getRawFile behind p.outputDir name opens =
        some (D ++ name ++ ascii "_" ++ ascii (toString d.instanceIndex.toInt) ++ ascii ".pcm",
          d') := by
  intro h
  let ops : List Op :=
    [.setOutputDirectory (ascii "/tmp/pcm/"), .setOutputDirectory (ascii "/tmp/")]
  have hdirs : ∀ dir ∈ directories ops, IsDirectory dir := by decide +kernel
  rcases Option.isSome_iff_exists.mp (show (run [] ops).isSome by decide +kernel) with ⟨p, hp⟩
  have hclaimed := h [] ops p (ascii "/tmp/") (new 1) (ascii "echo") true hdirs rfl hp
  rw [rawFile_in_iff hdirs (List.cons_ne_nil _ _) hp] at hclaimed
  have hne : overlays (directories ops) ≠ ascii "/tmp/" := by decide +kernel
  exact hne hclaimed

end Process

end AudioProc
