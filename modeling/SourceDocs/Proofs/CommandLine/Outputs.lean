import SourceDocs.Proofs.CommandLine.Inputs
import SourceDocs.Proofs.Files.Tree

namespace SourceDocs.CommandLine.Job

open Files

variable {directory : String} {format : Render.Format} {tree after : Tree} {folder : List String}

def outputFile (format : Render.Format) (path : String) : String :=
  Path.outputName path ++ "." ++ format.extension

theorem outputFile_inj {p q : String} :
    outputFile format p = outputFile format q ↔ Path.outputName p = Path.outputName q := by
  simp [outputFile, ← String.toList_inj]

theorem outputPath_inj {p q : String} :
    outputPath directory format p = outputPath directory format q ↔
      Path.outputName p = Path.outputName q :=
  Path.join_inj.trans outputFile_inj

theorem outputFile_chars (format : Render.Format) (path : String) :
    '/' ∉ (outputFile format path).toList ∧ 3 < (outputFile format path).toList.length := by
  have := Path.slash_notMem_outputName path
  cases format <;> simp [outputFile, Render.Format.extension, this]

-- All outputs lie directly in this directory, as far as they can be written at all.
def LiesIn (directory : String) (format : Render.Format) (tree : Tree) (folder : List String) :
    Prop :=
  ∀ path place, tree.place? (outputPath directory format path) = some place →
    place = folder ++ [outputFile format path]

theorem exists_liesIn (directory : String) (format : Render.Format) (tree : Tree) :
    ∃ folder, LiesIn directory format tree folder := by
  obtain ⟨pieces, hpieces⟩ := Path.exists_splitBy_join directory
  let start : List String := if directory.toList.head? = some '/' then [] else Tree.workingPlace
  refine ⟨(tree.follow? pieces start).getD [], fun path place h => ?_⟩
  have ⟨hslash, hlong⟩ := outputFile_chars format path
  unfold Tree.place? at h
  split at h
  case isTrue => cases h
  case isFalse =>
    have hsplit : Text.splitBy (· = '/') (outputPath directory format path).toList =
        pieces ++ [(outputFile format path).toList] := hpieces _ hslash
    have hhead : (outputPath directory format path).toList.head? = some '/' ↔
        directory.toList.head? = some '/' := Path.head?_join directory hslash
    simp only [hsplit, hhead] at h
    rw [Tree.follow?_append] at h
    obtain ⟨found, hfound, h⟩ := Option.bind_eq_some_iff.mp h
    have hstart : tree.follow? pieces start = some found := hfound
    rw [hstart, Option.getD_some]
    -- The name is no dot and no two dots, so it leads one step down.
    rw [Tree.follow?] at h
    split at h
    case isTrue => cases h
    case isFalse =>
      split at h
      case isTrue hdot =>
        exfalso
        simp only [Bool.or_eq_true, decide_eq_true_eq] at hdot
        rcases hdot with hdot | hdot <;> simp [hdot] at hlong
      case isFalse =>
        split at h
        case isTrue hdots => simp [hdots] at hlong
        case isFalse =>
          split at h
          case isTrue => cases h
          case isFalse => simpa [Tree.follow?] using h.symm

theorem LiesIn.written {place : List String} {text : String} (h : LiesIn directory format tree folder)
    (hw : tree.Written after place text) : LiesIn directory format after folder := by
  intro path place hp
  rw [Tree.place?_congr hw.isDirectory] at hp
  exact h path place hp

-- What a whole sequence of writes does: it leads to the same places, and each output that is not
-- written again is there.
structure AllWritten (directory : String) (format : Render.Format) (folder : List String)
    (tree after : Tree) (documents : List (String × Document)) : Prop where
  place : ∀ path, after.place? path = tree.place? path
  found : ∀ a ∈ documents, tree.place? (outputPath directory format a.1) =
    some (folder ++ [outputFile format a.1])
  apart : ∀ path, (∀ a ∈ documents, Path.outputName a.1 ≠ Path.outputName path) →
    after.find? (folder ++ [outputFile format path]) =
      tree.find? (folder ++ [outputFile format path])
  last : ∀ before p d later, documents = before ++ (p, d) :: later →
    (∀ a ∈ later, Path.outputName a.1 ≠ Path.outputName p) →
    tree.find? (folder ++ [outputFile format p]) ≠ some .device →
    after.find? (folder ++ [outputFile format p]) = some (.file (format.render d).toUTF8)

-- Another name stands for another place.
theorem find?_other {path q text : String}
    (hw : tree.Written after (folder ++ [outputFile format path]) text)
    (hq : Path.outputName path ≠ Path.outputName q) :
    after.find? (folder ++ [outputFile format q]) = tree.find? (folder ++ [outputFile format q]) := by
  refine hw.apart _ (by simp) fun he => ?_
  have hfile : outputFile format path = outputFile format q := by simpa using he.symm
  exact hq (outputFile_inj.mp hfile)

-- A write does not leave a device where there was none.
theorem device_of_written {path q text : String}
    (hw : tree.Written after (folder ++ [outputFile format path]) text)
    (h : after.find? (folder ++ [outputFile format q]) = some .device) :
    tree.find? (folder ++ [outputFile format q]) = some .device := by
  by_cases hq : Path.outputName path = Path.outputName q
  case neg => exact (find?_other hw hq).symm.trans h
  case pos =>
    rw [← outputFile_inj.mpr hq] at h ⊢
    by_contra hnot
    cases (hw.here hnot).symm.trans h

theorem allWritten_writeAll {documents : List (String × Document)}
    (hf : LiesIn directory format tree folder)
    (h : writeAll directory format tree documents = (after, none)) :
    AllWritten directory format folder tree after documents := by
  induction documents generalizing tree
  case nil =>
    obtain rfl : tree = after := congrArg Prod.fst h
    exact ⟨fun _ => rfl, by simp, fun _ _ => rfl, by simp⟩
  case cons a documents hi =>
    obtain ⟨path, d⟩ := a
    rw [writeAll] at h
    split at h
    case h_2 => cases h
    case h_1 next hwrite =>
      obtain ⟨place, hplace, hw⟩ := Tree.written_of_write? hwrite
      obtain rfl := hf path place hplace
      have hall := hi (hf.written hw) h
      constructor
      case place => exact fun q => (hall.place q).trans (Tree.place?_congr hw.isDirectory q)
      case found =>
        intro b hb
        rcases List.mem_cons.mp hb with rfl | hb
        case inl => exact hplace
        case inr => exact (Tree.place?_congr hw.isDirectory _).symm.trans (hall.found b hb)
      case apart =>
        intro q hq
        rw [hall.apart q fun b hb => hq b (.tail _ hb), find?_other hw (hq (path, d) (.head _))]
      case last =>
        intro before p e later hsplit hlater hdevice
        cases before
        case nil =>
          obtain ⟨ha, rfl⟩ := List.cons.inj hsplit
          obtain ⟨rfl, rfl⟩ := Prod.mk.inj ha
          rw [hall.apart path hlater]
          exact hw.here hdevice
        case cons b before =>
          obtain ⟨-, hsplit⟩ := List.cons.inj hsplit
          exact hall.last before p e later hsplit hlater fun hnext =>
            hdevice (device_of_written hw hnext)

-- Two inputs have one output path exactly if they have one name. After a run that succeeds, the
-- document of an input is in its output file if no input behind it has the same name.
theorem runInto_outputs {job : Job} {forced : Option Profile} {warnings paths : List String}
    {documents : List (String × Document)} (hformat : job.format = .ok format)
    (hforced : job.forced = .ok forced)
    (hpaths : job.expand tree job.arguments.inputs = (warnings, .ok paths))
    (hdocuments : job.extractFiles tree.read? forced (sortPaths paths) = .ok documents)
    (hrun : (job.runInto directory tree).code = 0) :
    (∀ p q, outputPath directory format p = outputPath directory format q ↔
      Path.outputName p = Path.outputName q) ∧
    ∀ before p d later, documents = before ++ (p, d) :: later →
      (∀ a ∈ later, Path.outputName a.1 ≠ Path.outputName p) →
      tree.entry? (outputPath directory format p) ≠ some .device →
      (job.runInto directory tree).tree.entry? (outputPath directory format p) =
        some (.file (format.render d).toUTF8) := by
  refine ⟨fun _ _ => outputPath_inj, fun before p d later hsplit hlater hdevice => ?_⟩
  obtain ⟨folder, hf⟩ := exists_liesIn directory format tree
  simp only [runInto, hformat, hforced, hpaths, processFiles, hdocuments] at hrun ⊢
  split at hrun
  case h_1 => cases hrun
  case h_2 after hall =>
    have hall := allWritten_writeAll hf hall
    have hplace := hall.found (p, d) (by simp [hsplit])
    rw [Tree.entry?, hplace, Option.bind_some] at hdevice
    rw [Exit.success, Tree.entry?, hall.place, hplace, Option.bind_some]
    exact hall.last before p d later hsplit hlater hdevice

-- Two names in two directories.
theorem runInto_outputs_two :
    let source := Tree.file "// Function: F".toUTF8
    let tree := (Tree.directory [("x", .directory [("a.c", source)]),
      ("y", .directory [("a.h", source)]), ("out", .empty)]).around
    let job : Job :=
      ⟨{ Arguments.initial with inputs := ["y", "x"] }, .builtin, fun _ _ => 0, Glob.paths?⟩
    ∃ d e, job.extractFiles tree.read? none ["x/a.c", "y/a.h"] = .ok [("x/a.c", d), ("y/a.h", e)] ∧
      (job.runInto "out" tree).tree.entry? "out/a.c.json" = some (.file d.structured.toUTF8) ∧
      (job.runInto "out" tree).tree.entry? "out/a.h.json" = some (.file e.structured.toUTF8) := by
  intro source tree job
  have hsorted : sortPaths ["y/a.h", "x/a.c"] = ["x/a.c", "y/a.h"] := by decide +kernel
  have hread : (job.extractFiles tree.read? none ["x/a.c", "y/a.h"]).toOption.map (·.map (·.1)) =
      some ["x/a.c", "y/a.h"] := by decide +kernel
  obtain ⟨documents, hdocuments, hnames⟩ := Option.map_eq_some_iff.mp hread
  obtain ⟨d, e, rfl⟩ : ∃ d e, documents = [("x/a.c", d), ("y/a.h", e)] := by
    match documents, hnames with
    | [(_, d), (_, e)], hnames => exact ⟨d, e, by simp_all⟩
  replace hdocuments : job.extractFiles tree.read? none ["x/a.c", "y/a.h"] =
      .ok [("x/a.c", d), ("y/a.h", e)] := by
    cases h : job.extractFiles tree.read? none ["x/a.c", "y/a.h"] <;> simp_all [Except.toOption]
  have ⟨_, hkept⟩ := @runInto_outputs "out" .json tree job none [] ["y/a.h", "x/a.c"]
    [("x/a.c", d), ("y/a.h", e)] (by decide +kernel) (by decide +kernel) (by decide +kernel)
    (hsorted ▸ hdocuments) (by decide +kernel)
  have hnew (p : String) (hp : p ∈ ["x/a.c", "y/a.h"]) :
      tree.entry? (outputPath "out" .json p) ≠ some .device := by
    have hnone : ∀ p ∈ ["x/a.c", "y/a.h"],
        (tree.entry? (outputPath "out" .json p)).isNone := by decide +kernel
    simp [Option.isNone_iff_eq_none.mp (hnone p hp)]
  refine ⟨d, e, hdocuments, ?_, ?_⟩
  · have hname : Path.outputName "y/a.h" ≠ Path.outputName "x/a.c" := by decide +kernel
    exact hkept [] "x/a.c" d [("y/a.h", e)] rfl (by simpa using hname) (hnew "x/a.c" (by simp))
  · exact hkept [("x/a.c", d)] "y/a.h" e [] rfl (by simp) (hnew "y/a.h" (by simp))

-- Two files of one name. Either of them leaves an output, and both leave that of the second one.
theorem same_name_overwritten :
    let tree := Tree.directory [("x", .directory [("a.c", .file .empty)]),
      ("y", .directory [("a.c", .file .empty)])]
    let left (inputs : List String) : List (String × List UInt8) :=
      ((CommandLine.run ("-ftext" :: "-oout" :: inputs) tree .empty).tree.files "").map fun f =>
        (f.1, f.2.data.toList)
    (left ["x/a.c"]).map (·.1) = ["x/a.c", "y/a.c", "out/a.c.txt"] ∧
      left ["x/a.c"] ≠ left ["y/a.c"] ∧ left ["x/a.c", "y/a.c"] = left ["y/a.c"] := by
  decide +kernel

end SourceDocs.CommandLine.Job
