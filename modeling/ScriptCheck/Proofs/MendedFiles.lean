import ScriptCheck.Program
import ScriptCheck.Proofs.Locating
import ScriptCheck.Proofs.Settling

/-!
# Mending files

All sources are read before any file is written, and a file is written only if remedies
were applied to its text. Files are read and written through the paths that they go by. One
file may have been gathered under several paths: then it is read and written several times,
each time with the same text.

After a run every gathered file holds its mended text, whether or not it was written, and
nothing else in the tree has changed: no file, no folder, and where a path leads. A dry
run gives the same account of it and writes nothing. Checking the same files afterwards
finds what the account said would remain.

A file that could be read can be written: a tree knows no files that may only be read.
-/

namespace ScriptCheck

/-- What checking a mended source finds, going by the account of the mending. -/
def Mended.surveyed (file : Mended) : Surveyed := ⟨file.path, file.report.text, file.remaining⟩

namespace Workspace

variable {walker : Walker} {checker : Checker} {tree : FileTree} {source other : Source}
  {place : Place}

/-! ### Sources -/

/-- The path of a source leads to a place in the tree, unless it comes from standard input. -/
def Source.LeadsTo (tree : FileTree) (source : Source) (place : Place) : Prop :=
  source.fromInput = false ∧ tree.locate source.path = .ok place

/-- The text of a source is the one that its path is read with, unless it comes from standard
input. -/
def Source.ReadFrom (tree : FileTree) (source : Source) : Prop :=
  source.fromInput = false → tree.readText source.path = .ok source.text

/-- The text of a source stands where its path leads to. -/
theorem Source.ReadFrom.content? (read : source.ReadFrom tree) (leads : source.LeadsTo tree place) :
    tree.content? place = some (Text.encode source.text) := by
  obtain ⟨found, leads', stands⟩ := FileTree.readText_eq_ok_iff.mp (read leads.1)
  cases leads.2.symm.trans leads'
  exact stands

/-- A file that is gathered twice is read with the same text. -/
theorem Source.ReadFrom.text_eq (read : source.ReadFrom tree) (read' : other.ReadFrom tree)
    (leads : source.LeadsTo tree place) (leads' : other.LeadsTo tree place) :
    source.text = other.text := by
  have same := read.content? leads
  rw [read'.content? leads'] at same
  exact (Text.encode_injective (Option.some.inj same)).symm

/-- A source not from standard input has a place in the tree. -/
theorem Source.ReadFrom.exists_leadsTo (read : source.ReadFrom tree)
    (isFile : source.fromInput = false) : ∃ place, source.LeadsTo tree place := by
  obtain ⟨place, leads, -⟩ := FileTree.readText_eq_ok_iff.mp (read isFile)
  exact ⟨place, isFile, leads⟩

/-! ### Writing back -/

/-- A source is written when remedies were applied to its text and it does not come from
standard input. -/
def Source.IsWritten (checker : Checker) (source : Source) : Prop :=
  (mend checker source).changed = true ∧ source.fromInput = false

/-- A source that is not changed keeps its text. -/
theorem text_mend_of_not_isWritten (isFile : source.fromInput = false)
    (idle : ¬source.IsWritten checker) : (checker.mend source.text).text = source.text := by
  have idle' : ¬(mend checker source).changed = true := fun changed => idle ⟨changed, isFile⟩
  have applied : (mend checker source).report.applied = 0 := by simpa [Mended.changed] using idle'
  exact Repair.text_run_of_applied applied

/-- A source that is not written is passed over. -/
theorem writeAll_cons_of_not_isWritten (idle : ¬source.IsWritten checker) (rest : List Mended) :
    writeAll tree (mend checker source :: rest) = writeAll tree rest := by
  have idle' : ¬((mend checker source).changed && !(mend checker source).fromInput) = true := by
    rw [Bool.and_eq_true, Bool.not_eq_true']
    exact idle
  rw [writeAll, if_neg idle']

/-- A source that is written takes the place of its file. -/
theorem writeAll_cons_of_isWritten (written : source.IsWritten checker)
    (isFile : tree.file? source.path = some place) (rest : List Mended) :
    writeAll tree (mend checker source :: rest) =
      writeAll (tree.set place (.file (Text.encode (checker.mend source.text).text))) rest := by
  have written' : ((mend checker source).changed && !(mend checker source).fromInput) = true := by
    rw [Bool.and_eq_true, Bool.not_eq_true']
    exact written
  have writes : tree.write (mend checker source).path
      (Text.encode (mend checker source).report.text) =
        .ok (tree.set place (.file (Text.encode (checker.mend source.text).text))) :=
    FileTree.write_of_file? isFile _
  rw [writeAll, if_pos written', writes]

/-- What a run of writing does where the path of every source leads to a file. It comes to its end,
the tree keeps its shape, and what stands at a place afterwards is what stood there, or else is the
mended text of a source that was written there. The induction is on the sources that are still to be
written: writing one leads no path elsewhere. -/
theorem exists_writeAll (checker : Checker) {sources : List Source}
    (isFile : ∀ source ∈ sources, source.fromInput = false →
      ∃ place, tree.file? source.path = some place) :
    ∃ after, writeAll tree (sources.map (mend checker)) = (.ok (), after) ∧
      FileTree.SameShape tree after ∧ ∀ place,
        (after.get? place = tree.get? place ∧
          ∀ source ∈ sources, source.IsWritten checker → ¬source.LeadsTo tree place) ∨
        ∃ source ∈ sources, source.LeadsTo tree place ∧
          after.get? place = some (.file (Text.encode (checker.mend source.text).text)) := by
  induction sources generalizing tree with
  | nil => exact ⟨tree, rfl, .refl tree, fun place => .inl ⟨rfl, by simp⟩⟩
  | cons source sources ih =>
    rw [List.forall_mem_cons] at isFile
    rw [List.map_cons]
    by_cases written : source.IsWritten checker
    · obtain ⟨here, isHere⟩ := isFile.1 written.2
      obtain ⟨leads, stands⟩ := FileTree.file?_eq_some_iff.mp isHere
      obtain ⟨old, stood⟩ := Option.isSome_iff_exists.mp stands
      let content := Text.encode (checker.mend source.text).text
      have shape := FileTree.sameShape_set stood content
      have isFile' : ∀ source ∈ sources, source.fromInput = false →
          ∃ place, (tree.set here (.file content)).file? source.path = some place := by
        intro other member isFile'
        obtain ⟨place, found⟩ := isFile.2 other member isFile'
        exact ⟨place, (shape.file?_eq _).trans found⟩
      obtain ⟨after, run, shape', further⟩ := ih isFile'
      refine ⟨after, (writeAll_cons_of_isWritten written isHere _).trans run,
        shape.trans shape', ?_⟩
      intro place
      simp only [Source.LeadsTo, shape.locate_eq] at further
      rcases further place with ⟨kept, others⟩ | ⟨other, member, leads', holds⟩
      · rw [FileTree.get?_set stood] at kept
        by_cases same : place = here
        · subst same
          rw [if_pos rfl] at kept
          exact .inr ⟨source, .head _, ⟨written.2, leads⟩, kept⟩
        · rw [if_neg same] at kept
          refine .inl ⟨kept, List.forall_mem_cons.mpr ⟨fun _ leads' => same ?_, others⟩⟩
          exact Except.ok.inj (leads'.2.symm.trans leads)
      · exact .inr ⟨other, .tail _ member, leads', holds⟩
    · obtain ⟨after, run, shape, further⟩ := ih isFile.2
      refine ⟨after, (writeAll_cons_of_not_isWritten written _).trans run, shape, ?_⟩
      intro place
      rcases further place with ⟨kept, others⟩ | ⟨other, member, leads, holds⟩
      · exact .inl ⟨kept, List.forall_mem_cons.mpr ⟨fun changed => absurd changed written, others⟩⟩
      · exact .inr ⟨other, .tail _ member, leads, holds⟩

/-- The tree after a run of writing: it has the shape it had, the file that a source leads to
holds its mended text, and what no source leads to stands as it stood. -/
structure MendedIn (checker : Checker) (tree after : FileTree) (sources : List Source) : Prop where
  shape : FileTree.SameShape tree after
  mended : ∀ source ∈ sources, ∀ place, source.LeadsTo tree place →
    after.content? place = some (Text.encode (checker.mend source.text).text)
  kept : ∀ place, (∀ source ∈ sources, ¬source.LeadsTo tree place) →
    after.get? place = tree.get? place

/-- Sources that were read from a tree are mended in it. A source that is not written has its mended
text already: from the start, or because it was gathered under another path too and is written by
that one. -/
theorem exists_mendedIn (checker : Checker) {sources : List Source}
    (read : ∀ source ∈ sources, source.ReadFrom tree) :
    ∃ after, writeAll tree (sources.map (mend checker)) = (.ok (), after) ∧
      MendedIn checker tree after sources := by
  have isFile : ∀ source ∈ sources, source.fromInput = false →
      ∃ place, tree.file? source.path = some place := by
    intro source member isFile
    obtain ⟨place, leads⟩ := (read source member).exists_leadsTo isFile
    refine ⟨place, FileTree.file?_eq_some_iff.mpr ⟨leads.2, ?_⟩⟩
    rw [(read source member).content? leads]
    rfl
  obtain ⟨after, run, shape, stands⟩ := exists_writeAll checker isFile
  refine ⟨after, run, shape, ?_, ?_⟩
  · intro source member place leads
    rw [FileTree.content?_eq_some_iff]
    rcases stands place with ⟨kept, idle⟩ | ⟨other, member', leads', holds⟩
    · have idle' : ¬source.IsWritten checker := fun written => idle source member written leads
      rw [kept, text_mend_of_not_isWritten leads.1 idle', ← FileTree.content?_eq_some_iff]
      exact (read source member).content? leads
    · rw [holds, (read source member).text_eq (read other member') leads leads']
  · intro place none
    rcases stands place with ⟨kept, -⟩ | ⟨other, member', leads', -⟩
    · exact kept
    · exact absurd leads' (none other member')

/-! ### Gathering -/

/-- What is read from standard input is marked as such. -/
theorem fromInput_of_inputSource {input : Bytes} (read : inputSource input = .ok source) :
    source.fromInput = true := by
  rw [inputSource] at read
  split at read
  · cases read
  · cases read
    rfl

/-- As many sources come from standard input as it is named, and all of them are marked as such. The
induction is on the paths. -/
theorem fromInput_of_targets {selection : Selection} {input : Bytes} {paths : List String}
    {fromInput : List Source} {files : List String}
    (found : targets walker tree selection input paths = .ok (fromInput, files)) :
    fromInput.length = paths.count inputPath ∧
      ∀ source ∈ fromInput, source.fromInput = true := by
  induction paths generalizing input fromInput files with
  | nil =>
    cases found
    simp
  | cons path rest ih =>
    rw [targets] at found
    split at found
    · rename_i named
      obtain ⟨source, read, found⟩ := bind_eq_ok_iff.mp found
      obtain ⟨⟨sources, files'⟩, found', answered⟩ := bind_eq_ok_iff.mp found
      obtain ⟨counted, given⟩ := ih found'
      cases answered
      rw [named, List.length_cons, List.count_cons_self, counted, List.forall_mem_cons]
      exact ⟨rfl, fromInput_of_inputSource read, given⟩
    · rename_i other
      obtain ⟨listed, found⟩ := bind_eq_ok_iff.mp found
      obtain ⟨⟨sources, files'⟩, found', answered⟩ := bind_eq_ok_iff.mp found.2
      obtain ⟨counted, given⟩ := ih found'
      cases answered
      rw [List.count_cons_of_ne other]
      exact ⟨counted, given⟩

/-- A file gives a source with its path, its place and its text. -/
theorem fileSource?_eq_some_iff {path : String} : fileSource? tree path = some source ↔
    source.path = path ∧ source.fromInput = false ∧ tree.readText path = .ok source.text := by
  obtain ⟨path', fromInput, text⟩ := source
  rw [fileSource?]
  cases tree.readText path with
  | error => simp
  | ok read =>
    simp only [Option.some.injEq, Source.mk.injEq, Except.ok.injEq]
    grind

/-- What it takes to gather sources. -/
theorem sources_eq_ok_iff {settings : Settings} {input : Bytes} {paths : List String}
    {gathered : List Source} :
    sources walker tree settings input paths = .ok gathered ↔
      ∃ selection fromInput files, Selection.ofSettings settings = .ok selection ∧
        targets walker tree selection input paths = .ok (fromInput, files) ∧
        gathered = fromInput ++ (Path.arrange files).filterMap (fileSource? tree) := by
  constructor
  · intro found
    obtain ⟨selection, selects, found⟩ := bind_eq_ok_iff.mp found
    obtain ⟨⟨fromInput, files⟩, listed, answered⟩ := bind_eq_ok_iff.mp found
    cases answered
    exact ⟨selection, fromInput, files, selects, listed, rfl⟩
  · rintro ⟨selection, fromInput, files, selects, listed, rfl⟩
    exact bind_eq_ok_iff.mpr ⟨selection, selects, bind_eq_ok_iff.mpr ⟨_, listed, rfl⟩⟩

/-- The result of checking some sources. -/
def surveyAll (checker : Checker) (gathered : List Source) : Survey :=
  ⟨gathered.map (survey checker), (gathered.map (survey checker)).length, checker.catalogue.size⟩

/-- Checking fails only where gathering does. -/
theorem scan_eq_ok_iff {settings : Settings} {input : Bytes} {paths : List String}
    {result : Survey} :
    scan walker checker tree settings input paths = .ok result ↔
      ∃ gathered, sources walker tree settings input paths = .ok gathered ∧
        result = surveyAll checker gathered := by
  constructor
  · intro scanned
    obtain ⟨gathered, found, answered⟩ := bind_eq_ok_iff.mp scanned
    cases answered
    exact ⟨gathered, found, rfl⟩
  · rintro ⟨gathered, found, rfl⟩
    exact bind_eq_ok_iff.mpr ⟨gathered, found, rfl⟩

/-- What is gathered: the sources that come from standard input, as often as it is named,
and then files of the tree. -/
structure Gathered (tree : FileTree) (paths : List String) (sources fromInput files : List Source) :
    Prop where
  split : sources = fromInput ++ files
  counted : fromInput.length = paths.count inputPath
  given : ∀ source ∈ fromInput, source.fromInput = true
  read : ∀ source ∈ files, fileSource? tree source.path = some source

/-- What is gathered is standard input and then files of the tree. -/
theorem exists_gathered {settings : Settings} {input : Bytes} {paths : List String}
    {gathered : List Source} (found : sources walker tree settings input paths = .ok gathered) :
    ∃ fromInput files, Gathered tree paths gathered fromInput files := by
  obtain ⟨selection, fromInput, files, -, listed, rfl⟩ := sources_eq_ok_iff.mp found
  obtain ⟨counted, given⟩ := fromInput_of_targets listed
  refine ⟨fromInput, _, rfl, counted, given, ?_⟩
  intro source member
  obtain ⟨path, -, read⟩ := List.mem_filterMap.mp member
  rwa [(fileSource?_eq_some_iff.mp read).1]

/-- The paths of the files among some sources. -/
def filePaths (sources : List Source) : List String :=
  (sources.filter fun source => !source.fromInput).map Source.path

namespace Gathered

variable {paths : List String} {sources fromInput files : List Source}

/-- Every file that is gathered was read from the tree. -/
theorem readFrom (gathered : Gathered tree paths sources fromInput files) :
    ∀ source ∈ sources, source.ReadFrom tree := by
  intro source member isFile
  rw [gathered.split] at member
  rcases List.mem_append.mp member with input | file
  · rw [gathered.given source input] at isFile
    cases isFile
  · exact (fileSource?_eq_some_iff.mp (gathered.read source file)).2.2

/-- The sources that are no files come first. -/
theorem filter_eq (gathered : Gathered tree paths sources fromInput files) :
    sources.filter (fun source => !source.fromInput) = files := by
  have input : fromInput.filter (fun source => !source.fromInput) = [] := by
    rw [List.filter_eq_nil_iff]
    intro source member
    simp [gathered.given source member]
  have files : files.filter (fun source => !source.fromInput) = files := by
    rw [List.filter_eq_self]
    intro source member
    simp [(fileSource?_eq_some_iff.mp (gathered.read source member)).2.1]
  rw [gathered.split, List.filter_append, input, files, List.nil_append]

/-- A run that gathers the same files after they were mended reads them mended: a file is known by
its path, and its path leads where it led. -/
theorem files_eq_of_mendedIn (gathered : Gathered tree paths sources fromInput files)
    {after : FileTree} (mended : MendedIn checker tree after sources) {paths' : List String}
    {sources' fromInput' files' : List Source}
    (later : Gathered after paths' sources' fromInput' files')
    (same : filePaths sources' = filePaths sources) :
    files' = files.map fun source => { source with text := (checker.mend source.text).text } := by
  rw [filePaths, filePaths, later.filter_eq, gathered.filter_eq] at same
  have reread : (files'.map Source.path).filterMap (fileSource? after) = files' := by
    rw [List.filterMap_map]
    exact (List.filterMap_congr later.read).trans List.filterMap_some
  rw [← reread, same, List.filterMap_map, ← List.filterMap_eq_map]
  apply List.filterMap_congr
  intro source member
  have member' : source ∈ sources := by
    rw [gathered.split]
    exact List.mem_append_right _ member
  obtain ⟨-, isFile, -⟩ := fileSource?_eq_some_iff.mp (gathered.read source member)
  obtain ⟨place, leads⟩ := (gathered.readFrom source member').exists_leadsTo isFile
  refine fileSource?_eq_some_iff.mpr ⟨rfl, isFile, FileTree.readText_eq_ok_iff.mpr ⟨place, ?_, ?_⟩⟩
  · rw [mended.shape.locate_eq]
    exact leads.2
  · exact mended.mended source member' place leads

/-- Checking gives one answer for each source, files last. -/
theorem exists_scan {settings : Settings} {input : Bytes} (checker : Checker)
    (found : Workspace.sources walker tree settings input paths = .ok sources)
    (gathered : Gathered tree paths sources fromInput files) :
    ∃ result, scan walker checker tree settings input paths = .ok result ∧
      result.files.drop (paths.count inputPath) = files.map (survey checker) := by
  refine ⟨_, scan_eq_ok_iff.mpr ⟨sources, found, rfl⟩, ?_⟩
  show (sources.map (survey checker)).drop _ = _
  rw [gathered.split, List.map_append, ← gathered.counted]
  exact List.drop_left' (List.length_map _)

end Gathered

/-! ### Whole runs -/

/-- A command is carried out with the settings it is given. -/
theorem withSettings_of_ok [Engine] {named : Option String} {found : Settings} {built : Checker}
    {action : Settings → Checker → Except Problem Program.Outcome} {outcome : Program.Outcome}
    (read : settings tree named = .ok found) (builds : Workspace.checker found = .ok built)
    (acts : action found built = .ok outcome) :
    Program.withSettings tree named action = outcome := by
  have result : (settings tree named >>= fun found =>
      Workspace.checker found >>= fun built => action found built) = .ok outcome :=
    bind_eq_ok_iff.mpr ⟨found, read, bind_eq_ok_iff.mpr ⟨built, builds, acts⟩⟩
  rw [Program.withSettings]
  simp only [result]

/-- With any walker, checker, settings and paths. If the sources can be gathered, a run and a
dry run give the same account of them, and no write fails. The dry run leaves the tree as it is.
After the other run the file that the path of a source leads to holds the mended text of that
source, all else stands as it stood, and every path leads where it led. Checking the tree
afterwards in a run that gathers the same files finds in each what the account says to remain.
If the sources cannot be gathered, that is the answer, and the program leaves the tree as it
is. -/
theorem fix_rewrites_gathered [Engine] (walker : Walker) (checker : Checker) (tree : FileTree)
    (settings : Settings) (input : Bytes) (paths : List String) :
    (∀ gathered, sources walker tree settings input paths = .ok gathered →
      ∃ files after,
        fix walker checker tree settings input paths false = (.ok ⟨files, false⟩, after) ∧
        fix walker checker tree settings input paths true = (.ok ⟨files, true⟩, tree) ∧
        (files = gathered.map fun source =>
          ⟨source.path, source.fromInput, checker.mend source.text,
            checker.inspect (checker.mend source.text).text⟩) ∧
        (∀ source ∈ gathered, source.fromInput = false →
          ∃ place, tree.locate source.path = .ok place ∧
            tree.content? place = some (Text.encode source.text) ∧
            after.content? place = some (Text.encode (checker.mend source.text).text)) ∧
        (∀ place, (∀ source ∈ gathered, source.fromInput = false →
            tree.locate source.path ≠ .ok place) →
          after.get? place = tree.get? place) ∧
        (∀ path, after.locate path = tree.locate path) ∧
        ∀ walker' settings' input' paths' later,
          sources walker' after settings' input' paths' = .ok later →
          filePaths later = filePaths gathered →
          ∃ survey, scan walker' checker after settings' input' paths' = .ok survey ∧
            survey.files.drop (paths'.count inputPath) =
              (files.filter fun file => !file.fromInput).map Mended.surveyed) ∧
      ∀ problem, sources walker tree settings input paths = .error problem →
        (∀ dryRun, fix walker checker tree settings input paths dryRun = (.error problem, tree)) ∧
        ∀ named dryRun, Workspace.settings tree named = .ok settings →
          Workspace.checker settings = .ok checker →
          (Program.fix walker tree input paths named dryRun).tree = tree := by
  constructor
  · intro gathered found
    obtain ⟨fromInput, files, isGathered⟩ := exists_gathered found
    have read := isGathered.readFrom
    obtain ⟨after, run, mended⟩ := exists_mendedIn checker read
    refine ⟨gathered.map (mend checker), after, ?_, ?_, rfl, ?_, ?_, mended.shape.locate_eq, ?_⟩
    · simp only [fix, found, run]
      rfl
    · simp only [fix, found]
      rfl
    · intro source member isFile
      obtain ⟨place, leads⟩ := (read source member).exists_leadsTo isFile
      exact ⟨place, leads.2, (read source member).content? leads,
        mended.mended source member place leads⟩
    · intro place none
      exact mended.kept place fun source member leads => none source member leads.1 leads.2
    · intro walker' settings' input' paths' later found' same
      obtain ⟨fromInput', files', isLater⟩ := exists_gathered found'
      obtain ⟨result, scanned, answers⟩ := isLater.exists_scan checker found'
      refine ⟨result, scanned, ?_⟩
      have account : (gathered.map (mend checker)).filter (fun file => !file.fromInput) =
          files.map (mend checker) := by
        rw [List.filter_map, ← isGathered.filter_eq]
        rfl
      rw [answers, account, isGathered.files_eq_of_mendedIn mended isLater same, List.map_map,
        List.map_map]
      rfl
  · intro problem failed
    have refused (dryRun : Bool) :
        fix walker checker tree settings input paths dryRun = (.error problem, tree) := by
      rw [fix, failed]
    refine ⟨refused, ?_⟩
    intro named dryRun settled built
    rw [Program.fix, withSettings_of_ok settled built (by rw [refused]; rfl)]
    rfl

/-- A file of the working folder is gathered under three paths, from the root, through the folder
above and by its name, next to one that is no text. It is read and written three times, and then
found to be in order under each path. A second path that leads nowhere keeps it from being
written. -/
theorem fix_rewrites_three_spellings :
    let _ : Engine := .unlimited
    let checker : Checker := ⟨⟨[Spelling.documentName]⟩, fun _ => .accepted, .none⟩
    let lib : FileName := ⟨"lib", by decide⟩
    let tree (word : String) : FileTree :=
      ⟨[([lib, ⟨"a.js", by decide⟩], .file (Text.encode word.toList)),
        ([lib, ⟨"b.js", by decide⟩], .file [255]), ([lib], .folder)], [lib]⟩
    let settings : Settings := { Settings.default with includes := [], excludes := [] }
    let paths := ["/lib/a.js", "../lib/a.js", "a.js", "b.js"]
    ∃ gathered later files survey,
      sources .usual (tree "docuemnt") settings [] paths = .ok gathered ∧
        sources .usual (tree "document") settings [] paths = .ok later ∧
        filePaths later = filePaths gathered ∧
        fix .usual checker (tree "docuemnt") settings [] paths false =
          (.ok ⟨files, false⟩, tree "document") ∧
        files.map (fun file => (file.path, file.report.applied, file.remaining.length)) =
          [("/lib/a.js", 1, 0), ("../lib/a.js", 1, 0), ("a.js", 1, 0)] ∧
        scan .usual checker (tree "document") settings [] paths = .ok survey ∧
        survey.files = (files.filter fun file => !file.fromInput).map Mended.surveyed ∧
        sources .usual (tree "docuemnt") .default [] ["a.js", "c.js"] =
          .error (.noSuchPath "c.js") ∧
        (Program.fix .usual (tree "docuemnt") [] ["a.js", "c.js"] none false).tree =
          tree "docuemnt" := by
  intro _ checker lib tree settings paths
  have sorted : Path.arrange paths = paths := by
    rw [Path.arrange, List.mergeSort_of_pairwise (by decide)]
    decide +kernel
  have gathers (word : String)
      (found : targets .usual (tree word) ⟨[], []⟩ [] paths = .ok ([], paths)) :
      sources .usual (tree word) settings [] paths =
        .ok (paths.filterMap (fileSource? (tree word))) := by
    refine sources_eq_ok_iff.mpr ⟨⟨[], []⟩, [], paths, rfl, found, ?_⟩
    rw [sorted, List.nil_append]
  have before := gathers "docuemnt" (by decide +kernel)
  have after := gathers "document" (by decide +kernel)
  obtain ⟨files, written, run, -, account, -, -, -, further⟩ :=
    (fix_rewrites_gathered .usual checker (tree "docuemnt") settings [] paths).1 _ before
  have outcome : written = tree "document" := by
    have left : (fix .usual checker (tree "docuemnt") settings [] paths false).2 = written :=
      congrArg Prod.snd run
    rw [fix, before] at left
    have nodes : written.nodes = (tree "document").nodes := by
      rw [← left]
      decide +kernel
    have working : written.working = [lib] := by
      rw [← left]
      decide +kernel
    obtain ⟨_, _⟩ := written
    cases nodes
    cases working
    rfl
  subst outcome
  have same : filePaths (paths.filterMap (fileSource? (tree "document"))) =
      filePaths (paths.filterMap (fileSource? (tree "docuemnt"))) := by
    decide +kernel
  obtain ⟨survey, scanned, answers⟩ := further .usual settings [] paths _ after same
  have noInput : paths.count inputPath = 0 := by decide
  rw [noInput, List.drop_zero] at answers
  have failed : sources .usual (tree "docuemnt") .default [] ["a.js", "c.js"] =
      .error (.noSuchPath "c.js") := rfl
  obtain ⟨usual, built⟩ : ∃ usual, Workspace.checker .default = .ok usual := ⟨_, rfl⟩
  obtain ⟨-, unwritten⟩ :=
    (fix_rewrites_gathered .usual usual (tree "docuemnt") .default [] ["a.js", "c.js"]).2 _ failed
  refine ⟨_, _, files, survey, before, after, same, run, ?_, scanned, answers, failed,
    unwritten none false rfl built⟩
  rw [account]
  decide +kernel

/-- With any of the built-in rules left out, any parser and any known names: remedies are
applied to a source exactly when its text comes out changed. Several remedies never cancel
out, and a source is told to have changed exactly when it has. -/
theorem mend_changes_text_iff [Engine] (keep : Rule → Bool) (parse : Text → Verdict)
    (globals : Globals) (source : Source) :
    let checker := Checker.keeping keep parse globals
    (0 < (checker.mend source.text).applied ↔ (checker.mend source.text).text ≠ source.text) ∧
      ((mend checker source).changed = true ↔
        (mend checker source).report.text ≠ source.text) := by
  intro checker
  have changes : 0 < (checker.mend source.text).applied ↔
      (checker.mend source.text).text ≠ source.text := by
    constructor
    · intro applied
      apply Checker.text_mend_ne
      rw [Checker.applied_mend] at applied
      exact List.ne_nil_of_length_pos applied
    · intro changed
      apply Nat.pos_of_ne_zero
      intro idle
      exact changed (Repair.text_run_of_applied idle)
  refine ⟨changes, ?_⟩
  rw [Mended.changed, decide_eq_true_eq]
  exact changes

end Workspace

end ScriptCheck
