import ScriptCheck.Proofs.MendedFiles

/-!
# The same targets

What a run finds depends on which paths it is given, not on their order or on how often
each is given. Several paths may stand for the same file, such as a file and a folder
that it is in. It is then gathered several times, and of the paths that take the same
steps one is kept. Which one it is does not matter: every path that is gathered leads to a
file, and the steps of a path tell where it leads, so all of them are read with the same text.

Nor does it matter in which order a walker finds the files below a folder, or which walker it
is, if the same files are found.
-/

namespace ScriptCheck

open ScriptCheck.Path (Step)

/-- Paths with the same steps are read with the same text. -/
theorem FileTree.readText_eq_of_steps {tree : FileTree} {path path' : String} {place place' : Place}
    (leads : tree.locate path = .ok place) (leads' : tree.locate path' = .ok place')
    (same : Path.steps path = Path.steps path') : tree.readText path = tree.readText path' := by
  have there : place = place' := by
    rw [eq_foldl_of_locate leads, eq_foldl_of_locate leads', same]
  rw [readText, readText, leads, leads', there]

namespace Workspace

variable {walker walker' : Walker} {tree : FileTree} {selection : Selection} {path file : String}

/-! ### What a path stands for -/

/-- A path stands for the file that it names, or else for the files that are taken below the
folder that it names. -/
inductive StandsFor (walker : Walker) (tree : FileTree) (selection : Selection) (path : String) :
    String → Prop where
  | file (isFile : (tree.file? path).isSome = true) : StandsFor walker tree selection path path
  | below {folder names : Place} (noFile : tree.file? path = none)
      (isFolder : tree.folder? path = some folder) (found : names ∈ walker.below tree folder)
      (taken : selection.takes (FileTree.pathBytes names) = true) :
      StandsFor walker tree selection path (Path.join path names)

/-- The files that are listed for a path are those that it stands for, in whatever order the walker
finds them. -/
theorem mem_filesOf_iff {found : List String}
    (listed : filesOf walker tree selection path = .ok found) :
    file ∈ found ↔ StandsFor walker tree selection path file := by
  rw [filesOf] at listed
  split at listed
  · rename_i place _ isFile
    cases listed
    rw [List.mem_singleton]
    constructor
    · rintro rfl
      exact .file (by rw [isFile]; rfl)
    · intro stands
      cases stands with
      | file => rfl
      | below noFile => cases isFile.symm.trans noFile
  · rename_i folder noFile isFolder
    cases listed
    simp only [List.mem_map, List.mem_filter]
    constructor
    · rintro ⟨names, ⟨found, taken⟩, rfl⟩
      exact .below noFile isFolder found taken
    · intro stands
      cases stands with
      | file isFile =>
        rw [noFile] at isFile
        cases isFile
      | @below folder' names _ isFolder' found taken =>
        cases isFolder.symm.trans isFolder'
        exact ⟨names, ⟨found, taken⟩, rfl⟩
  · cases listed

/-- What a path stands for is a file. What a walker finds is no folder, so it goes by names that
lead on from the folder, and can be reached by them. -/
theorem StandsFor.exists_locate (stands : StandsFor walker tree selection path file) :
    ∃ place, tree.locate file = .ok place := by
  cases stands with
  | file isFile =>
    obtain ⟨place, isFile⟩ := Option.isSome_iff_exists.mp isFile
    exact ⟨place, (FileTree.file?_eq_some_iff.mp isFile).1⟩
  | @below folder names _ isFolder found _ =>
    have isFile := walker.isFile tree folder names found
    have further : names ≠ [] := by
      rintro rfl
      rw [List.append_nil] at isFile
      exact FileTree.not_isFolderAt isFile (FileTree.folder?_eq_some_iff.mp isFolder).2
    refine ⟨_, FileTree.locate_join isFolder further ?_⟩
    rw [FileTree.isSome_content?_eq, Bool.and_eq_true] at isFile
    exact isFile.1

/-- A path stands for the same files with a walker that finds the same. -/
theorem standsFor_congr (sameWalks : ∀ folder names,
      names ∈ walker'.below tree folder ↔ names ∈ walker.below tree folder) :
    StandsFor walker' tree selection path file ↔ StandsFor walker tree selection path file := by
  constructor
  · intro stands
    cases stands with
    | file isFile => exact .file isFile
    | below noFile isFolder found taken =>
      exact .below noFile isFolder ((sameWalks _ _).mp found) taken
  · intro stands
    cases stands with
    | file isFile => exact .file isFile
    | below noFile isFolder found taken =>
      exact .below noFile isFolder ((sameWalks _ _).mpr found) taken

/-- Whether a path stands for anything does not depend on the walker. -/
theorem exists_filesOf {found : List String}
    (listed : filesOf walker tree selection path = .ok found) (walker' : Walker) :
    ∃ found', filesOf walker' tree selection path = .ok found' := by
  rw [filesOf] at listed ⊢
  split at listed
  · exact ⟨_, rfl⟩
  · exact ⟨_, rfl⟩
  · cases listed

/-! ### Targets -/

variable {input : Bytes} {paths : List String}

/-- Paths without standard input can be gathered if each of them stands for something. -/
theorem exists_targets (input : Bytes) (noInput : inputPath ∉ paths)
    (listed : ∀ path ∈ paths, ∃ found, filesOf walker tree selection path = .ok found) :
    ∃ files, targets walker tree selection input paths = .ok ([], files) := by
  induction paths with
  | nil => exact ⟨[], rfl⟩
  | cons path rest ih =>
    rw [List.mem_cons, not_or] at noInput
    rw [List.forall_mem_cons] at listed
    obtain ⟨⟨found, first⟩, others⟩ := listed
    obtain ⟨files, further⟩ := ih noInput.2 others
    refine ⟨found ++ files, ?_⟩
    rw [targets, if_neg (Ne.symm noInput.1), first, further]
    rfl

/-- Without standard input, what is gathered is what some path stands for. The induction is on the
paths, each of which adds its own files. -/
theorem of_targets (noInput : inputPath ∉ paths) {fromInput : List Source} {files : List String}
    (answered : targets walker tree selection input paths = .ok (fromInput, files)) :
    fromInput = [] ∧
      (∀ path ∈ paths, ∃ found, filesOf walker tree selection path = .ok found) ∧
      ∀ file, file ∈ files ↔ ∃ path ∈ paths, StandsFor walker tree selection path file := by
  induction paths generalizing fromInput files with
  | nil =>
    cases answered
    simp
  | cons path rest ih =>
    rw [List.mem_cons, not_or] at noInput
    rw [targets, if_neg (Ne.symm noInput.1)] at answered
    obtain ⟨found, listed, answered⟩ := bind_eq_ok_iff.mp answered
    obtain ⟨⟨sources, files'⟩, further, answered⟩ := bind_eq_ok_iff.mp answered
    cases answered
    obtain ⟨none, others, mem_iff⟩ := ih noInput.2 further
    refine ⟨none, List.forall_mem_cons.mpr ⟨⟨found, listed⟩, others⟩, ?_⟩
    intro file
    rw [List.mem_append, mem_filesOf_iff listed, mem_iff]
    simp

/-! ### Reading -/

/-- What is read, with the steps that lead there. -/
def Source.reading (source : Source) : List Step × Text := (Path.steps source.path, source.text)

/-- What is read of some files, in order. -/
def readings (tree : FileTree) (files : List String) : List (List Step × Text) :=
  ((Path.arrange files).filterMap (fileSource? tree)).map Source.reading

/-- Where every path leads somewhere, each file is read whichever of its paths is kept: paths with
the same steps lead to the same place. -/
theorem mem_readings_iff {files : List String}
    (located : ∀ file ∈ files, ∃ place, tree.locate file = .ok place) {taken : List Step}
    {text : Text} : (taken, text) ∈ readings tree files ↔
      ∃ file ∈ files, Path.steps file = taken ∧ tree.readText file = .ok text := by
  constructor
  · intro member
    obtain ⟨source, listed, reading⟩ := List.mem_map.mp member
    obtain ⟨file, arranged, read⟩ := List.mem_filterMap.mp listed
    obtain ⟨rfl, -, read⟩ := fileSource?_eq_some_iff.mp read
    cases reading
    exact ⟨_, Path.mem_of_mem_arrange arranged, rfl, read⟩
  · rintro ⟨file, member, rfl, read⟩
    -- Another path with these steps may be kept. It is read with the same text.
    obtain ⟨kept, arranged, same⟩ := Path.exists_mem_arrange member
    obtain ⟨place, leads⟩ := located file member
    obtain ⟨place', leads'⟩ := located kept (Path.mem_of_mem_arrange arranged)
    rw [← FileTree.readText_eq_of_steps leads' leads same] at read
    refine List.mem_map.mpr ⟨⟨kept, false, text⟩, ?_, congrArg (·, text) same⟩
    exact List.mem_filterMap.mpr ⟨kept, arranged, fileSource?_eq_some_iff.mpr ⟨rfl, rfl, read⟩⟩

/-- What is read is in strict order. -/
theorem pairwise_readings (tree : FileTree) (files : List String) :
    (readings tree files).Pairwise fun left right => Path.Precedes left.1 right.1 := by
  rw [readings, List.pairwise_map]
  refine (Path.pairwise_arrange files).filterMap _ ?_
  intro file file' before source read source' read'
  obtain ⟨rfl, -⟩ := fileSource?_eq_some_iff.mp read
  obtain ⟨rfl, -⟩ := fileSource?_eq_some_iff.mp read'
  exact before

/-- Every file that some path stands for is read once if it is a text, in the order of the
steps, and nothing else is read. -/
structure ReadOnce (walker : Walker) (tree : FileTree) (selection : Selection)
    (paths : List String) (gathered : List Source) : Prop where
  /-- Every path stands for something. -/
  present : ∀ path ∈ paths, ∃ found, filesOf walker tree selection path = .ok found
  ordered : (gathered.map Source.reading).Pairwise fun left right => Path.Precedes left.1 right.1
  mem_iff : ∀ taken text, (taken, text) ∈ gathered.map Source.reading ↔
    ∃ path ∈ paths, ∃ file, StandsFor walker tree selection path file ∧
      Path.steps file = taken ∧ tree.readText file = .ok text

/-- Without standard input, what is gathered is read once, in the order of the steps, and the
settings select the files. -/
theorem exists_readOnce {settings : Settings} {gathered : List Source}
    (noInput : inputPath ∉ paths)
    (found : sources walker tree settings input paths = .ok gathered) :
    ∃ selection, Selection.ofSettings settings = .ok selection ∧
      ReadOnce walker tree selection paths gathered := by
  obtain ⟨selection, fromInput, files, selects, listed, rfl⟩ := sources_eq_ok_iff.mp found
  obtain ⟨rfl, present, mem_iff⟩ := of_targets noInput listed
  have located : ∀ file ∈ files, ∃ place, tree.locate file = .ok place := by
    intro file member
    obtain ⟨path, -, stands⟩ := (mem_iff file).mp member
    exact stands.exists_locate
  refine ⟨selection, selects, present, pairwise_readings tree files, ?_⟩
  intro taken text
  refine (mem_readings_iff located).trans ?_
  simp only [mem_iff]
  constructor
  · rintro ⟨file, ⟨path, member, stands⟩, read⟩
    exact ⟨path, member, file, stands, read⟩
  · rintro ⟨path, member, file, stands, read⟩
    exact ⟨file, ⟨path, member, stands⟩, read⟩

/-- What can be gathered from paths can be from the same paths. -/
theorem ReadOnce.exists_sources {settings : Settings} {paths' : List String}
    {gathered : List Source} (read : ReadOnce walker tree selection paths gathered)
    (selects : Selection.ofSettings settings = .ok selection) (walker' : Walker)
    (noInput : inputPath ∉ paths') (samePaths : ∀ path, path ∈ paths' ↔ path ∈ paths)
    (input : Bytes) : ∃ gathered', sources walker' tree settings input paths' = .ok gathered' := by
  have present : ∀ path ∈ paths', ∃ found, filesOf walker' tree selection path = .ok found := by
    intro path member
    obtain ⟨found, listed⟩ := read.present path ((samePaths path).mp member)
    exact exists_filesOf listed walker'
  obtain ⟨files, listed⟩ := exists_targets input noInput present
  exact ⟨_, sources_eq_ok_iff.mpr ⟨selection, [], files, selects, listed, rfl⟩⟩

/-- The same paths give the same to read: both are in strict order, so it is enough that the
same is read. -/
theorem ReadOnce.readings_eq {paths' : List String} {gathered gathered' : List Source}
    (read : ReadOnce walker tree selection paths gathered)
    (read' : ReadOnce walker' tree selection paths' gathered')
    (sameWalks : ∀ folder names,
      names ∈ walker'.below tree folder ↔ names ∈ walker.below tree folder)
    (samePaths : ∀ path, path ∈ paths' ↔ path ∈ paths) :
    gathered'.map Source.reading = gathered.map Source.reading := by
  refine Path.eq_of_pairwise_precedes Prod.fst read'.ordered read.ordered ?_
  rintro ⟨taken, text⟩
  simp only [read.mem_iff, read'.mem_iff, samePaths, standsFor_congr sameWalks]

/-! ### Checking -/

/-- What a source is found to have, with the steps that lead to it: its path may be written
in several ways. -/
def answer (file : Surveyed) : List Step × Text × List Finding :=
  (Path.steps file.path, file.source, file.findings)

/-- The answers depend only on what is read, and by which steps. -/
theorem map_answer_surveyAll (checker : Checker) (gathered : List Source) :
    (surveyAll checker gathered).files.map answer =
      (gathered.map Source.reading).map fun reading =>
        (reading.1, reading.2, checker.inspect reading.2) := by
  rw [surveyAll, List.map_map, List.map_map]
  rfl

/-- An answer is what the checker finds in a text that was read. -/
theorem mem_map_answer_surveyAll {checker : Checker} {gathered : List Source} {taken : List Step}
    {text : Text} {findings : List Finding} :
    (taken, text, findings) ∈ (surveyAll checker gathered).files.map answer ↔
      findings = checker.inspect text ∧ (taken, text) ∈ gathered.map Source.reading := by
  rw [map_answer_surveyAll, List.mem_map]
  constructor
  · rintro ⟨reading, member, same⟩
    cases same
    exact ⟨rfl, member⟩
  · rintro ⟨rfl, member⟩
    exact ⟨_, member, rfl⟩

/-- The findings of a survey are those of its answers in a row. -/
theorem findings_eq_flatMap (result : Survey) :
    result.findings = (result.files.map answer).flatMap fun found => found.2.2 := by
  rw [List.flatMap_map]
  rfl

/-- With any checker and settings, in any tree. If paths without standard input can be checked,
then so can any list of the same paths, whatever their order and however often each is given,
and with any walker that finds the same files below each folder. The files that are checked are
those that some path stands for, as far as they are texts. Both runs have the same files in
the same strict order of their steps, with the same texts, findings and counts. -/
theorem scan_same_targets (checker : Checker) (settings : Settings) (tree : FileTree)
    {walker walker' : Walker} (sameWalks : ∀ folder names,
      names ∈ walker'.below tree folder ↔ names ∈ walker.below tree folder)
    {paths paths' : List String} (noInput : inputPath ∉ paths)
    (samePaths : ∀ path, path ∈ paths' ↔ path ∈ paths) {input : Bytes} (input' : Bytes)
    {result : Survey} (scanned : scan walker checker tree settings input paths = .ok result) :
    ∃ result', scan walker' checker tree settings input' paths' = .ok result' ∧
      result'.files.map answer = result.files.map answer ∧
      (result.files.map fun file => Path.steps file.path).Pairwise Path.Precedes ∧
      (∃ selection, Selection.ofSettings settings = .ok selection ∧
        ∀ taken text findings, (taken, text, findings) ∈ result.files.map answer ↔
          findings = checker.inspect text ∧
            ∃ path ∈ paths, ∃ file, StandsFor walker tree selection path file ∧
              Path.steps file = taken ∧ tree.readText file = .ok text) ∧
      result'.filesScanned = result.filesScanned ∧ result'.rulesLoaded = result.rulesLoaded ∧
      ∀ severity, result'.count severity = result.count severity := by
  have noInput' : inputPath ∉ paths' := fun member => noInput ((samePaths _).mp member)
  obtain ⟨gathered, found, rfl⟩ := scan_eq_ok_iff.mp scanned
  obtain ⟨selection, selects, read⟩ := exists_readOnce noInput found
  obtain ⟨gathered', found'⟩ := read.exists_sources selects walker' noInput' samePaths input'
  obtain ⟨_, selects', read'⟩ := exists_readOnce noInput' found'
  cases selects.symm.trans selects'
  have answers : (surveyAll checker gathered').files.map answer =
      (surveyAll checker gathered).files.map answer := by
    rw [map_answer_surveyAll, map_answer_surveyAll, read.readings_eq read' sameWalks samePaths]
  refine ⟨_, scan_eq_ok_iff.mpr ⟨_, found', rfl⟩, answers, ?_, ⟨selection, selects, ?_⟩, ?_, rfl,
    ?_⟩
  · have ordered := read.ordered
    rw [List.pairwise_map] at ordered
    exact List.pairwise_map.mpr (List.pairwise_map.mpr ordered)
  · intro taken text findings
    rw [← read.mem_iff]
    exact mem_map_answer_surveyAll
  · have lengths := congrArg List.length answers
    rwa [List.length_map answer, List.length_map answer] at lengths
  · intro severity
    rw [Survey.count, Survey.count, findings_eq_flatMap, findings_eq_flatMap]
    exact congrArg (fun found => (List.flatMap _ found).countP _) answers

/-- A folder is given by its path from the root, together with two files in it: one by another
spelling of its path, and one from the working folder, which would not be taken below the folder.
Given in another order, the folder twice, to a walker that finds files the other way round, each
is still checked once. -/
theorem scan_same_targets_spellings :
    let checker : Checker := ⟨⟨[Spelling.documentName]⟩, fun _ => .accepted, .none⟩
    let settings : Settings := { Settings.default with includes := ["*.js"], excludes := [] }
    let lib : FileName := ⟨"lib", by decide⟩
    let script : FileName := ⟨"a.js", by decide⟩
    let note : FileName := ⟨"b.txt", by decide⟩
    let tree : FileTree := ⟨[([lib], .folder),
      ([lib, script], .file (Text.encode "docuemnt".toList)),
      ([lib, note], .file (Text.encode "note".toList))], [lib]⟩
    let backwards : Walker :=
      ⟨fun tree folder => (tree.walk folder).reverse,
        fun _ _ _ found => FileTree.isSome_content?_of_mem_walk (List.mem_reverse.mp found)⟩
    let paths := ["/lib", "/lib//a.js", "../lib/b.txt"]
    ∃ result result', scan .usual checker tree settings [] paths = .ok result ∧
      scan backwards checker tree settings [] ["../lib/b.txt", "/lib", "/lib//a.js", "/lib"] =
        .ok result' ∧
      result'.files.map answer = result.files.map answer ∧
      (result.files.map answer).map (fun found => (found.1, found.2.2.length)) =
        [([.root, .name lib, .name script], 1), ([.above, .name lib, .name note], 0)] ∧
      result'.filesScanned = 2 := by
  intro checker settings lib script note tree backwards paths
  have samePaths (path : String) :
      path ∈ ["../lib/b.txt", "/lib", "/lib//a.js", "/lib"] ↔ path ∈ paths := by
    simp only [paths, List.mem_cons, List.not_mem_nil]
    tauto
  have sameWalks (folder names : Place) :
      names ∈ backwards.below tree folder ↔ names ∈ Walker.usual.below tree folder :=
    List.mem_reverse
  let files : List String := ["/lib/a.js", "/lib//a.js", "../lib/b.txt"]
  have arranged : Path.arrange files = ["/lib/a.js", "../lib/b.txt"] := by
    rw [Path.arrange, List.mergeSort_of_pairwise (by decide)]
    decide +kernel
  obtain ⟨selection, selects⟩ : ∃ selection, Selection.ofSettings settings = .ok selection :=
    ⟨_, rfl⟩
  have listed : targets .usual tree selection [] paths = .ok ([], files) := by
    cases selects
    decide +kernel
  have found := sources_eq_ok_iff.mpr ⟨selection, [], files, selects, listed, rfl⟩
  rw [arranged] at found
  have scanned : scan .usual checker tree settings [] paths = .ok (surveyAll checker _) :=
    scan_eq_ok_iff.mpr ⟨_, found, rfl⟩
  obtain ⟨result', scanned', answers, -, -, counted, -⟩ :=
    scan_same_targets checker settings tree sameWalks (by decide) samePaths [] scanned
  refine ⟨_, result', scanned, scanned', answers, by decide +kernel, ?_⟩
  rw [counted]
  decide +kernel

end Workspace

end ScriptCheck
