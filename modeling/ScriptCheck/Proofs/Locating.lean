import ScriptCheck.FileTree
import ScriptCheck.Proofs.PathOrder
import ScriptCheck.Proofs.Streams

/-!
# Where paths lead

What stands at a place stands in folders all the way from the root, so names that lead to a
place from a folder around it can be followed one by one. A path leads to the place that its
steps tell, if it leads anywhere. Two paths with the same steps may still differ in that one of
them leads nowhere: a slash behind the name of a file asks for a folder.

A path that leads to a file is a path that this file is written by. Writing it changes what
stands there, and neither what stands elsewhere nor where any path leads.
-/

namespace ScriptCheck

open ScriptCheck.Path (Step)

/-- A run that answers has gone through its first step: a failure there would have been the answer.
So a chain of steps that may fail is taken apart from its front. -/
theorem bind_eq_ok_iff {ε α β : Type} {first : Except ε α} {next : α → Except ε β} {answer : β} :
    (first >>= next) = .ok answer ↔ ∃ value, first = .ok value ∧ next value = .ok answer := by
  cases first with
  | error problem =>
    constructor
    · intro impossible
      cases impossible
    · rintro ⟨_, impossible, -⟩
      cases impossible
  | ok value =>
    constructor
    · intro answered
      exact ⟨value, rfl, answered⟩
    · rintro ⟨_, same, answered⟩
      cases same
      exact answered

/-- A file name is not empty. -/
theorem FileName.text_ne_empty (name : FileName) : name.text ≠ "" := by
  intro empty
  have proper := name.proper
  rw [empty] at proper
  exact absurd proper (by decide)

namespace FileTree

variable {tree other : FileTree} {place folder names : Place} {path : String}

/-! ### What stands at a place -/

/-- There is a folder at a place exactly if it is what stands there. -/
theorem isFolderAt_iff : tree.isFolderAt place = true ↔ tree.get? place = some .folder :=
  beq_iff_eq

/-- A place has a content exactly if a file with that content stands there. -/
theorem content?_eq_some_iff {content : Bytes} :
    tree.content? place = some content ↔ tree.get? place = some (.file content) := by
  rw [content?]
  split
  · rename_i found
    rw [found]
    simp
  · rename_i other
    constructor
    · intro impossible
      cases impossible
    · intro found
      exact absurd found (other content)

/-- What stands at a place is a file or a folder, and not both. -/
theorem isSome_content?_eq (tree : FileTree) (place : Place) :
    (tree.content? place).isSome = ((tree.get? place).isSome && !tree.isFolderAt place) := by
  rw [content?, isFolderAt]
  rcases tree.get? place with _ | ⟨content⟩ | _ <;> rfl

/-- Where a file stands there is no folder. -/
theorem not_isFolderAt (isFile : (tree.content? place).isSome = true) :
    ¬tree.isFolderAt place = true := by
  rw [isSome_content?_eq, Bool.and_eq_true, Bool.not_eq_true'] at isFile
  simp [isFile.2]

/-- The folders around a place are those on the way to it. -/
theorem mem_foldersAround : folder ∈ foldersAround place ↔
    folder ≠ [] ∧ ∃ names, names ≠ [] ∧ place = folder ++ names := by
  rw [foldersAround, List.mem_filter, List.mem_map]
  constructor
  · rintro ⟨⟨length, inside, rfl⟩, present⟩
    refine ⟨by simpa using present, place.drop length, ?_, (List.take_append_drop _ _).symm⟩
    simpa using inside
  · rintro ⟨present, names, further, rfl⟩
    refine ⟨⟨folder.length, ?_, List.take_left⟩, by simpa using present⟩
    simpa using List.length_pos_of_ne_nil further

/-- What stands below the root is listed, and so are the folders around it. Without them it could
not be reached. -/
theorem get?_eq_some_iff (below : place ≠ []) {node : Node} :
    tree.get? place = some node ↔ tree.nodes.lookup place = some node ∧
      ∀ folder ∈ foldersAround place, tree.nodes.lookup folder = some .folder := by
  have present : ¬place.isEmpty = true := by simpa using below
  rw [get?, if_neg present]
  split
  · rename_i around
    simp only [List.all_eq_true, decide_eq_true_eq] at around
    constructor
    · intro listed
      exact ⟨listed, around⟩
    · exact And.left
  · rename_i around
    simp only [List.all_eq_true, decide_eq_true_eq] at around
    constructor
    · intro impossible
      cases impossible
    · rintro ⟨-, around'⟩
      exact absurd around' around

/-- Whatever stands at a place stands in a folder, and so on up to the root. -/
theorem isFolderAt_of_isSome (stands : (tree.get? (folder ++ names)).isSome = true)
    (further : names ≠ []) : tree.isFolderAt folder = true := by
  rw [isFolderAt_iff]
  by_cases root : folder = []
  · rw [root]
    rfl
  · obtain ⟨node, stands⟩ := Option.isSome_iff_exists.mp stands
    obtain ⟨-, around⟩ := (get?_eq_some_iff (by simp [root])).mp stands
    refine (get?_eq_some_iff root).mpr ⟨around folder ?_, ?_⟩
    · exact mem_foldersAround.mpr ⟨root, names, further, rfl⟩
    · intro outer member
      obtain ⟨present, inner, -, rfl⟩ := mem_foldersAround.mp member
      exact around outer (mem_foldersAround.mpr
        ⟨present, inner ++ names, by simp [further], List.append_assoc _ _ _⟩)

/-- What is above a folder is a folder. -/
theorem isFolderAt_dropLast (inFolder : tree.isFolderAt place = true) :
    tree.isFolderAt place.dropLast = true := by
  rcases List.eq_nil_or_concat place with rfl | ⟨front, last, rfl⟩
  · exact inFolder
  · rw [List.concat_eq_append, List.dropLast_concat]
    refine isFolderAt_of_isSome ?_ (List.cons_ne_nil last [])
    rw [← List.concat_eq_append, isFolderAt_iff.mp inFolder]
    rfl

/-! ### Following names -/

/-- What one piece of a path can do: it leads from a folder to what its step tells, if that is
there, and stays in the folder if it tells none. -/
theorem advance_eq_ok_iff {piece : String} {next : Place} :
    tree.advance place piece = .ok next ↔ tree.isFolderAt place = true ∧
      ((Path.step? piece = none ∧ next = place) ∨
        ∃ step, Path.step? piece = some step ∧ next = step.follow place ∧
          (tree.get? next).isSome = true) := by
  rw [advance]
  cases tree.isFolderAt place with
  | false => simp
  | true =>
    cases Path.step? piece with
    | none => grind
    | some step =>
      by_cases present : (tree.get? (step.follow place)).isSome = true
      · simp only [present, if_true, Except.ok.injEq]
        grind
      · simp only [present, if_true]
        grind

/-- A path is followed to where its front leads, and from there on. -/
theorem locateFrom_append_eq_ok_iff {front back : List String} {found : Place} :
    tree.locateFrom place (front ++ back) = .ok found ↔
      ∃ next, tree.locateFrom place front = .ok next ∧ tree.locateFrom next back = .ok found := by
  rw [locateFrom, List.foldlM_append]
  exact bind_eq_ok_iff

/-- A path is followed piece by piece, and each step must succeed. -/
theorem locateFrom_cons_eq_ok_iff {piece : String} {rest : List String} {found : Place} :
    tree.locateFrom place (piece :: rest) = .ok found ↔
      ∃ next, tree.advance place piece = .ok next ∧ tree.locateFrom next rest = .ok found := by
  rw [locateFrom, List.foldlM_cons]
  exact bind_eq_ok_iff

/-- A path of one piece is followed by one step. -/
theorem locateFrom_singleton (tree : FileTree) (place : Place) (piece : String) :
    tree.locateFrom place [piece] = tree.advance place piece := by
  rw [locateFrom, List.foldlM_cons]
  exact bind_pure _

/-- Pieces lead to the place that their steps tell, if they lead anywhere. -/
theorem eq_foldl_of_locateFrom {pieces : List String} {found : Place}
    (leads : tree.locateFrom place pieces = .ok found) :
    found = (pieces.filterMap Path.step?).foldl Step.follow place := by
  induction pieces generalizing place with
  | nil =>
    cases leads
    rfl
  | cons piece rest ih =>
    obtain ⟨next, first, further⟩ := locateFrom_cons_eq_ok_iff.mp leads
    rw [ih further]
    obtain ⟨-, ⟨still, rfl⟩ | ⟨step, taken, rfl, -⟩⟩ := advance_eq_ok_iff.mp first
    · rw [List.filterMap_cons_none still]
    · rw [List.filterMap_cons_some taken]
      rfl

/-- The names that lead from a folder to what stands below it are followed one by one: on the way
there are folders only. -/
theorem locateFrom_map_text (inFolder : tree.isFolderAt folder = true)
    (stands : (tree.get? (folder ++ names)).isSome = true) :
    tree.locateFrom folder (names.map FileName.text) = .ok (folder ++ names) := by
  induction names generalizing folder with
  | nil =>
    rw [List.append_nil]
    rfl
  | cons name names ih =>
    have regroup : folder ++ name :: names = (folder ++ [name]) ++ names := by simp
    rw [regroup] at stands ⊢
    have inNext (further : names ≠ []) : tree.isFolderAt (folder ++ [name]) = true :=
      isFolderAt_of_isSome stands further
    have next : tree.advance folder name.text = .ok (folder ++ [name]) := by
      refine advance_eq_ok_iff.mpr ⟨inFolder, .inr ⟨_, Path.step?_text name, rfl, ?_⟩⟩
      by_cases last : names = []
      · simpa [last] using stands
      · rw [isFolderAt_iff.mp (inNext last)]
        rfl
    refine locateFrom_cons_eq_ok_iff.mpr ⟨_, next, ?_⟩
    by_cases last : names = []
    · rw [last, List.append_nil]
      rfl
    · exact ih (inNext last) stands

/-! ### Paths -/

/-- The empty path leads nowhere, any other one is followed. -/
theorem locate_eq_ok_iff : tree.locate path = .ok place ↔
    path ≠ "" ∧ tree.locateFrom (tree.origin path) (Path.pieces path) = .ok place := by
  rw [locate]
  split <;> simp_all

/-- A path leads to the place that its steps tell, if anywhere. -/
theorem eq_foldl_of_locate (leads : tree.locate path = .ok place) :
    place = (Path.steps path).foldl Step.follow tree.working := by
  rw [eq_foldl_of_locateFrom (locate_eq_ok_iff.mp leads).2, origin, Path.steps]
  split
  · rfl
  · split <;> rfl

/-- A path names a file exactly if it leads to one. -/
theorem file?_eq_some_iff : tree.file? path = some place ↔
    tree.locate path = .ok place ∧ (tree.content? place).isSome = true := by
  rw [file?]
  split
  · rename_i found leads
    rw [leads]
    split <;> grind
  · rename_i leads
    simp [leads]

/-- A path names a folder exactly if it leads to one. -/
theorem folder?_eq_some_iff : tree.folder? path = some place ↔
    tree.locate path = .ok place ∧ tree.isFolderAt place = true := by
  rw [folder?]
  split
  · rename_i found leads
    rw [leads]
    split <;> grind
  · rename_i leads
    simp [leads]

/-- A text is read by a path that leads to a file with its bytes. Bytes that encode no text are not
read. -/
theorem readText_eq_ok_iff {text : Text} : tree.readText path = .ok text ↔
    ∃ place, tree.locate path = .ok place ∧ tree.content? place = some (Text.encode text) := by
  rw [readText, bind_eq_ok_iff]
  refine exists_congr fun place => and_congr_right fun _ => ?_
  cases tree.content? place with
  | none => simp
  | some content =>
    constructor
    · intro read
      dsimp only at read
      split at read
      · cases read
      · rename_i decoded
        cases read
        rw [Text.encode_of_decode? decoded]
    · intro same
      cases same
      dsimp only
      rw [Text.decode?_encode]

/-- What stands below a folder has a path below the path of the folder. A slash that ends the path
of a folder leads nowhere else, so it makes no difference. -/
theorem locate_join (isFolder : tree.folder? path = some folder) (further : names ≠ [])
    (stands : (tree.get? (folder ++ names)).isSome = true) :
    tree.locate (Path.join path names) = .ok (folder ++ names) := by
  obtain ⟨leads, inFolder⟩ := folder?_eq_some_iff.mp isFolder
  obtain ⟨written, leads⟩ := locate_eq_ok_iff.mp leads
  obtain ⟨front, pieces, joined⟩ := Path.exists_pieces_join path further
  have start : tree.origin (Path.join path names) = tree.origin path := by
    rw [origin, origin, Path.isAbsolute_join written]
  have toFolder : tree.locateFrom (tree.origin path) front = .ok folder := by
    rcases pieces with same | slash
    · rwa [same] at leads
    · rw [slash] at leads
      obtain ⟨next, first, last⟩ := locateFrom_append_eq_ok_iff.mp leads
      rw [locateFrom_singleton] at last
      obtain ⟨-, ⟨-, rfl⟩ | ⟨step, impossible, -⟩⟩ := advance_eq_ok_iff.mp last
      · exact first
      · cases impossible
  refine locate_eq_ok_iff.mpr ⟨Path.join_ne_empty written names, ?_⟩
  rw [start, joined]
  exact locateFrom_append_eq_ok_iff.mpr ⟨folder, toFolder, locateFrom_map_text inFolder stands⟩

/-! ### Writing -/

/-- A path that leads to a file ends in the name of the file. Any other end, such as a slash or two
dots, leads to a folder. -/
theorem exists_pieces_of_file? (isFile : tree.file? path = some place) :
    path ≠ "" ∧ ∃ front name folder, Path.pieces path = front ++ [FileName.text name] ∧
      tree.locateFrom (tree.origin path) front = .ok folder ∧ tree.isFolderAt folder = true ∧
      place = folder ++ [name] := by
  obtain ⟨leads, isFile⟩ := file?_eq_some_iff.mp isFile
  obtain ⟨written, leads⟩ := locate_eq_ok_iff.mp leads
  have noFolder := not_isFolderAt isFile
  refine ⟨written, ?_⟩
  rcases List.eq_nil_or_concat (Path.pieces path) with none | ⟨front, last, pieces⟩
  · exact absurd none (Path.pieces_ne_nil path)
  · rw [List.concat_eq_append] at pieces
    rw [pieces] at leads
    obtain ⟨folder, first, leads⟩ := locateFrom_append_eq_ok_iff.mp leads
    rw [locateFrom_singleton] at leads
    obtain ⟨inFolder, ⟨-, rfl⟩ | ⟨step, taken, rfl, -⟩⟩ := advance_eq_ok_iff.mp leads
    · exact absurd inFolder noFolder
    · rcases Path.step?_eq_some taken with rfl | ⟨name, rfl, rfl⟩
      · exact absurd (isFolderAt_dropLast inFolder) noFolder
      · exact ⟨front, name, folder, pieces, first, inFolder, rfl⟩

/-- A file can be written by every path that it can be read by: the folder that the path leads
through is there, and no folder is in the way. -/
theorem writable_of_file? (isFile : tree.file? path = some place) :
    tree.writable path = .ok place := by
  obtain ⟨written, front, name, folder, pieces, leads, inFolder, rfl⟩ :=
    exists_pieces_of_file? isFile
  have noFolder := not_isFolderAt (file?_eq_some_iff.mp isFile).2
  have whole : ((front ++ [name.text]).reverse.dropWhile (· = "")).reverse =
      front ++ [name.text] := by
    rw [List.reverse_append, List.reverse_singleton, List.singleton_append,
      List.dropWhile_cons_of_neg (by simpa using name.text_ne_empty)]
    simp
  rw [writable, if_neg written]
  simp only [pieces, whole, List.getLast?_concat, List.dropLast_concat, Path.step?_text]
  refine bind_eq_ok_iff.mpr ⟨folder, leads, ?_⟩
  simp [inFolder, noFolder]

/-- Writing by a path that can be read never fails. -/
theorem write_of_file? (isFile : tree.file? path = some place) (content : Bytes) :
    tree.write path content = .ok (tree.set place (.file content)) := by
  rw [write, writable_of_file? isFile]
  rfl

/-- Taking out the entries of a place leaves the others. -/
theorem lookup_filter_ne (nodes : List (Place × Node)) {place other : Place}
    (elsewhere : other ≠ place) :
    (nodes.filter fun entry => entry.1 ≠ place).lookup other = nodes.lookup other := by
  induction nodes with
  | nil => rfl
  | cons entry nodes ih =>
    obtain ⟨listed, node⟩ := entry
    rw [List.filter_cons, List.lookup_cons]
    by_cases there : listed = place
    · have missed : (other == listed) = false := by simpa [there] using elsewhere
      rw [if_neg (by simpa using there), ih, missed]
    · rw [if_pos (by simpa using there), List.lookup_cons, ih]

/-- A tree lists what was put at a place, and all else as before. -/
theorem lookup_set (tree : FileTree) (place : Place) (node : Node) (other : Place) :
    (tree.set place node).nodes.lookup other =
      if other = place then some node else tree.nodes.lookup other := by
  rw [set, List.lookup_cons]
  by_cases same : other = place
  · have found : (other == place) = true := by simpa using same
    rw [if_pos same, found]
  · have missed : (other == place) = false := by simpa using same
    rw [if_neg same, missed]
    exact lookup_filter_ne tree.nodes same

/-- A file that takes the place of a file stands there, and all else stands as before. Nothing
stands below a file, so nothing below the place appears or goes. -/
theorem get?_set {old : Bytes} (stood : tree.content? place = some old) (content : Bytes)
    (other : Place) : (tree.set place (.file content)).get? other =
      if other = place then some (.file content) else tree.get? other := by
  rw [content?_eq_some_iff] at stood
  have below : place ≠ [] := by
    rintro rfl
    cases stood
  obtain ⟨listed, around⟩ := (get?_eq_some_iff below).mp stood
  have folders (folder : Place) : (tree.set place (.file content)).nodes.lookup folder =
      some .folder ↔ tree.nodes.lookup folder = some .folder := by
    rw [lookup_set]
    by_cases same : folder = place <;> simp [same, listed]
  by_cases root : other = []
  · rw [root, if_neg below.symm]
    rfl
  · apply Option.ext
    intro node
    rw [get?_eq_some_iff root, lookup_set]
    simp only [folders]
    by_cases same : other = place
    · subst same
      simpa using fun _ => around
    · rw [if_neg same, if_neg same, get?_eq_some_iff root]

/-- The same files and folders stand in two trees, with the same working folder. Only the
contents of files may differ. -/
structure SameShape (tree other : FileTree) : Prop where
  working : other.working = tree.working
  folders : ∀ place, other.isFolderAt place = tree.isFolderAt place
  present : ∀ place, (other.get? place).isSome = (tree.get? place).isSome

/-- A tree has the shape of itself. -/
theorem SameShape.refl (tree : FileTree) : SameShape tree tree :=
  ⟨rfl, fun _ => rfl, fun _ => rfl⟩

/-- Shapes are compared through a third tree. -/
theorem SameShape.trans {middle last : FileTree} (first : SameShape tree middle)
    (second : SameShape middle last) : SameShape tree last where
  working := second.working.trans first.working
  folders := fun place => (second.folders place).trans (first.folders place)
  present := fun place => (second.present place).trans (first.present place)

/-- A path leads to the same place in trees of the same shape. -/
theorem SameShape.locate_eq (shape : SameShape tree other) (path : String) :
    other.locate path = tree.locate path := by
  have advance : other.advance = tree.advance := by
    funext place piece
    simp only [FileTree.advance, shape.folders, shape.present]
  rw [locate, locate, locateFrom, locateFrom, origin, origin, advance, shape.working]

/-- In a tree of the same shape a file is where a file was. -/
theorem SameShape.isSome_content? (shape : SameShape tree other) (place : Place) :
    (other.content? place).isSome = (tree.content? place).isSome := by
  rw [isSome_content?_eq, isSome_content?_eq, shape.present, shape.folders]

/-- In trees of the same shape a path names the same file or none. -/
theorem SameShape.file?_eq (shape : SameShape tree other) (path : String) :
    other.file? path = tree.file? path := by
  simp only [file?, shape.locate_eq, shape.isSome_content?]

/-- Writing over a file keeps the shape: a file stands at that place before and afterwards, and all
other places are as they were. -/
theorem sameShape_set {old : Bytes} (stood : tree.content? place = some old) (content : Bytes) :
    SameShape tree (tree.set place (.file content)) where
  working := rfl
  folders := by
    intro other
    rw [content?_eq_some_iff] at stood
    rw [isFolderAt, isFolderAt, get?_set (content?_eq_some_iff.mpr stood)]
    by_cases same : other = place
    · rw [if_pos same, same, stood]
      rfl
    · rw [if_neg same]
  present := by
    intro other
    rw [get?_set stood]
    by_cases same : other = place
    · rw [if_pos same, same, content?_eq_some_iff.mp stood]
      rfl
    · rw [if_neg same]

end FileTree

end ScriptCheck
