import SourceDocs.Proofs.CommandLine.Inputs

namespace SourceDocs.CommandLine

open Files

structure Exit.SameButLog (a b : Exit) : Prop where
  code : a.code = b.code
  stdout : a.stdout = b.stdout
  error : a.error = b.error
  tree : a.tree = b.tree

namespace Job

def Extracted.isDocument : Extracted → Bool
  | document _ => true
  | _ => false

variable {job : Job} {read? : String → Option String} {forced : Option Profile} {path : String}

theorem extractFile_eq_unreadable :
    job.extractFile read? forced path = .unreadable ↔ read? path = none := by
  unfold extractFile
  cases read? path
  case none => simp
  case some source =>
    dsimp only
    split <;> simp

-- A file that is skipped leaves no document and no error, so it may as well not be there.
theorem extractFiles_filter {paths : List String} {keep : String → Bool}
    (h : ∀ p ∈ paths, keep p = false → (read? p).isSome ∧
      (job.extractFile read? forced p).isDocument = false) :
    job.extractFiles read? forced (paths.filter keep) = job.extractFiles read? forced paths := by
  induction paths
  case nil => rfl
  case cons p paths hi =>
    replace hi := hi fun q hq => h q (.tail _ hq)
    cases hp : keep p
    case true =>
      rw [List.filter_cons_of_pos hp, extractFiles, extractFiles, hi]
    case false =>
      have ⟨hread, hdoc⟩ := h p (.head _) hp
      rw [List.filter_cons_of_neg (by simp [hp]), hi, extractFiles]
      cases he : job.extractFile read? forced p
      case document => simp [he, Extracted.isDocument] at hdoc
      case skipped => rfl
      case unreadable => simp [extractFile_eq_unreadable.mp he] at hread

-- The first file that cannot be read ends the batch, whatever comes before it.
theorem extractFiles_unreadable (job : Job) (forced : Option Profile) {paths : List String}
    (h : path ∈ paths) (hread : read? path = none) :
    ∃ p ∈ paths, read? p = none ∧
      job.extractFiles read? forced paths = .error ("failed to read " ++ p) := by
  induction paths
  case nil => cases h
  case cons p paths hi =>
    rw [extractFiles]
    cases he : job.extractFile read? forced p
    case unreadable => exact ⟨p, .head _, extractFile_eq_unreadable.mp he, rfl⟩
    -- Any other file is not the one that cannot be read, which is still to come.
    all_goals
      have hne : path ≠ p := by
        rintro rfl
        simp [extractFile_eq_unreadable.mpr hread] at he
      have ⟨q, hq, hnone, herror⟩ := hi (List.mem_of_ne_of_mem hne h)
      refine ⟨q, .tail _ hq, hnone, ?_⟩
      simp [herror, bind, Except.bind]

variable {directory : String} {format : Render.Format} {tree : Tree}

-- The warnings before the first file go to the log alone.
theorem processFiles_filter {paths : List String} {keep : String → Bool}
    (h : ∀ p ∈ paths, keep p = false → (tree.read? p).isSome ∧
      (job.extractFile tree.read? forced p).isDocument = false) (warnings warnings' : List String) :
    (job.processFiles directory format forced tree warnings paths).SameButLog
      (job.processFiles directory format forced tree warnings' (paths.filter keep)) := by
  simp only [processFiles, extractFiles_filter h]
  cases job.extractFiles tree.read? forced paths
  case error => constructor <;> rfl
  case ok documents =>
    dsimp only
    split <;> constructor <;> rfl

def withInputs (job : Job) (inputs : List String) : Job :=
  { job with arguments := { job.arguments with inputs } }

theorem expand_withInputs (job : Job) (others : List String) (tree : Tree) (inputs : List String) :
    (job.withInputs others).expand tree inputs = job.expand tree inputs := by
  induction inputs
  case nil => rfl
  case cons input inputs hi =>
    rw [expand, expand, hi]
    rfl

theorem extractFiles_withInputs (job : Job) (others : List String) (read? : String → Option String)
    (forced : Option Profile) (paths : List String) :
    (job.withInputs others).extractFiles read? forced paths
      = job.extractFiles read? forced paths := by
  induction paths
  case nil => rfl
  case cons p paths hi =>
    rw [extractFiles, extractFiles, hi]
    rfl

theorem processFiles_withInputs (job : Job) (others : List String) (directory : String)
    (format : Render.Format) (forced : Option Profile) (tree : Tree) (warnings paths : List String) :
    (job.withInputs others).processFiles directory format forced tree warnings paths
      = job.processFiles directory format forced tree warnings paths := by
  rw [processFiles, processFiles, extractFiles_withInputs]
  rfl

-- What becomes of a run with a file of which there will be no document. If all spellings of it
-- among the input files can be read, then the run does what it does without them. If an input file
-- cannot be read, the run fails, names such a file, and leaves all files as they were.
theorem runInto_failing_files {warnings paths : List String}
    (hformat : job.format = .ok format) (hforced : job.forced = .ok forced)
    (hpaths : job.expand tree job.arguments.inputs = (warnings, .ok paths)) :
    (∀ failing others warnings',
      (∀ p ∈ paths, Path.same failing p = true → (tree.read? p).isSome ∧
        (job.extractFile tree.read? forced p).isDocument = false) →
      job.expand tree others = (warnings', .ok (paths.filter (!Path.same failing ·))) →
      (job.runInto directory tree).SameButLog ((job.withInputs others).runInto directory tree)) ∧
    ∀ p ∈ sortPaths paths, tree.read? p = none →
      ∃ q ∈ sortPaths paths, tree.read? q = none ∧
        (job.runInto directory tree).code = 1 ∧
        (job.runInto directory tree).error = some ("failed to read " ++ q) ∧
        (job.runInto directory tree).tree = tree := by
  have hrun : job.runInto directory tree =
      job.processFiles directory format forced tree warnings (sortPaths paths) := by
    simp only [runInto, hformat, hforced, hpaths]
  constructor
  case left =>
    intro failing others warnings' hfailing hothers
    have hrun' : (job.withInputs others).runInto directory tree =
        job.processFiles directory format forced tree warnings'
          (sortPaths (paths.filter (!Path.same failing ·))) := by
      have hformat' : (job.withInputs others).format = .ok format := hformat
      have hforced' : (job.withInputs others).forced = .ok forced := hforced
      have hothers' : (job.withInputs others).expand tree (job.withInputs others).arguments.inputs
          = (warnings', .ok (paths.filter (!Path.same failing ·))) := by
        rw [← hothers]
        exact expand_withInputs ..
      simp only [runInto, hformat', hforced', hothers', processFiles_withInputs]
    have hkeep (p q : String) (hpq : Path.same p q = true) :
        (!Path.same failing p) = !Path.same failing q := by
      simp only [Path.same, decide_eq_true_eq] at hpq ⊢
      rw [hpq]
    -- Sorting and leaving out may change places, since all spellings of a path go together.
    rw [hrun, hrun', sortPaths_filter paths hkeep]
    refine processFiles_filter (fun p hp hs => ?_) warnings warnings'
    exact hfailing p (mem_of_mem_sortPaths hp) (by simpa using hs)
  case right =>
    intro p hp hread
    obtain ⟨q, hq, hnone, herror⟩ := extractFiles_unreadable job forced hp hread
    refine ⟨q, hq, hnone, ?_⟩
    rw [hrun]
    simp [processFiles, herror, Exit.failure]

-- A file whose time is up is passed over, and one that is not in UTF-8 ends the run.
theorem runInto_failing_files_two :
    let source := Tree.file "// Function: F".toUTF8
    let tree := (Tree.directory [("a.c", source), ("b.c", source), ("c.c", .file ⟨#[0xff]⟩),
      ("out", .empty)]).around
    let job (inputs : List String) : Job :=
      { arguments := { Arguments.initial with inputs, timeout := some 5 }
        registry := .builtin
        elapsed := fun path _ => if path = "b.c" then 5 else 0
        paths? := Glob.paths? }
    ((job ["a.c", "b.c"]).runInto "out" tree).SameButLog ((job ["a.c"]).runInto "out" tree) ∧
      ((job ["a.c", "c.c"]).runInto "out" tree).code = 1 := by
  intro source tree job
  have hskipped := @runInto_failing_files (job ["a.c", "b.c"]) none "out" .json tree [] ["a.c", "b.c"]
    (by decide +kernel) (by decide +kernel) (by decide +kernel)
  have hstopped := @runInto_failing_files (job ["a.c", "c.c"]) none "out" .json tree [] ["a.c", "c.c"]
    (by decide +kernel) (by decide +kernel) (by decide +kernel)
  refine ⟨hskipped.1 "b.c" ["a.c"] [] (by decide +kernel) (by decide +kernel), ?_⟩
  have ⟨_, _, _, hcode, _⟩ := hstopped.2 "c.c" (by decide +kernel) (by decide +kernel)
  exact hcode

theorem unreadable_file_stops_run :
    let good := Tree.file "// Function: F".toUTF8
    let tree := Tree.directory [("a.c", good), ("b.c", .file ⟨#[0xff]⟩)]
    let alone := CommandLine.run ["-o", "out", "a.c"] tree .empty
    let both := CommandLine.run ["-o", "out", "a.c", "b.c"] tree .empty
    alone.code = 0 ∧ (alone.tree.find? ["out", "a.c.json"]).isSome ∧
      both.code = 1 ∧ (both.tree.find? ["out", "a.c.json"]).isNone := by
  decide +kernel

end Job
end SourceDocs.CommandLine
