import ScriptCheck.Json.Value

/-!
# The members of an object

However the members of an object are given, they end up sorted by name, each name once,
and of two with one name the later one is found. Members that are sorted already stay as
they are.
-/

namespace ScriptCheck.Json

/-- Members in the order of their names, each name once. -/
def Sorted (members : List (Text × Json)) : Prop :=
  members.Pairwise fun member other => member.1 < other.1

/-- A member of an object with one more member put in is that one, or was there before. Putting in
replaces, but adds nothing else. -/
theorem mem_insertMember {name : Text} {value : Json} {members : List (Text × Json)}
    {member : Text × Json} (mem : member ∈ insertMember name value members) :
    member = (name, value) ∨ member ∈ members := by
  induction members with
  | nil => exact .inl (List.mem_singleton.mp mem)
  | cons first rest ih =>
    rw [insertMember] at mem
    split at mem
    · rcases List.mem_cons.mp mem with same | later
      · exact .inl same
      · exact .inr (List.mem_cons_of_mem _ later)
    · split at mem
      · exact List.mem_cons.mp mem
      · rcases List.mem_cons.mp mem with same | later
        · exact .inr (List.mem_cons.mpr (.inl same))
        · rcases ih later with same | older
          · exact .inl same
          · exact .inr (List.mem_cons_of_mem _ older)

/-- A member is put where the names stay in order. If its name is there already, the value is
replaced in place. -/
theorem sorted_insertMember (name : Text) (value : Json) {members : List (Text × Json)}
    (sorted : Sorted members) : Sorted (insertMember name value members) := by
  induction members with
  | nil => exact List.pairwise_singleton _ _
  | cons first rest ih =>
    obtain ⟨least, sorted⟩ := List.pairwise_cons.mp sorted
    rw [insertMember]
    split
    · rename_i same
      exact List.pairwise_cons.mpr ⟨fun member mem => same ▸ least member mem, sorted⟩
    · rename_i differ
      split
      · rename_i before
        apply List.pairwise_cons.mpr ⟨_, List.pairwise_cons.mpr ⟨least, sorted⟩⟩
        intro member mem
        rcases List.mem_cons.mp mem with rfl | later
        · exact before
        · exact List.lt_trans before (least member later)
      · rename_i notBefore
        apply List.pairwise_cons.mpr ⟨_, ih sorted⟩
        intro member mem
        rcases mem_insertMember mem with rfl | older
        · apply Classical.byContradiction
          intro notAfter
          exact differ (Std.Trichotomous.trichotomous name first.1 notBefore notAfter)
        · exact least member older

/-- A member whose name is above all others goes last. -/
theorem insertMember_of_forall_lt {name : Text} (value : Json) {members : List (Text × Json)}
    (greatest : ∀ member ∈ members, member.1 < name) :
    insertMember name value members = members ++ [(name, value)] := by
  induction members with
  | nil => rfl
  | cons first rest ih =>
    have below : first.1 < name := greatest first List.mem_cons_self
    have differ : name ≠ first.1 := by
      intro same
      rw [same] at below
      exact List.lt_irrefl _ below
    rw [insertMember, if_neg differ, if_neg (List.lt_asymm below), List.cons_append,
      ih fun member mem => greatest member (List.mem_cons_of_mem _ mem)]

/-- A name is looked up in the first member, then in the others. -/
theorem lookup_cons_eq {α : Type} [DecidableEq α] [BEq α] [LawfulBEq α] (name : α)
    (member : α × Json) (rest : List (α × Json)) :
    (member :: rest).lookup name = if name = member.1 then some member.2 else rest.lookup name := by
  obtain ⟨key, value⟩ := member
  by_cases same : name = key
  · rw [same, List.lookup_cons_self, if_pos rfl]
  · rw [List.lookup_cons, beq_false_of_ne same, if_neg same]

/-- A member put in is found under its name, and the others as before. The induction is on the
members. -/
theorem lookup_insertMember (name other : Text) (value : Json) (members : List (Text × Json)) :
    (insertMember name value members).lookup other =
      if other = name then some value else members.lookup other := by
  induction members with
  | nil => exact lookup_cons_eq other (name, value) []
  | cons first rest ih =>
    rw [insertMember]
    split
    · rename_i same
      subst same
      simp only [lookup_cons_eq]
      split <;> rfl
    · rename_i differ
      split
      · exact lookup_cons_eq other (name, value) (first :: rest)
      · rw [lookup_cons_eq, lookup_cons_eq, ih]
        split
        · rename_i here
          rw [if_neg (here ▸ Ne.symm differ)]
        · rfl

/-! ### Objects -/

/-- Put members in their places, one after the other. -/
def insertAll (members sorted : List (Text × Json)) : List (Text × Json) :=
  members.foldl (fun sorted member => insertMember member.1 member.2 sorted) sorted

/-- An object is made by putting its members in one by one. -/
theorem ofMembers_eq (members : List (Text × Json)) :
    ofMembers members = object (insertAll members []) := rfl

/-- Putting members in one by one keeps the names in order. -/
theorem sorted_insertAll (members : List (Text × Json)) {sorted : List (Text × Json)}
    (inOrder : Sorted sorted) : Sorted (insertAll members sorted) := by
  induction members generalizing sorted with
  | nil => exact inOrder
  | cons member rest ih =>
    exact ih (sorted_insertMember member.1 member.2 inOrder)

/-- What is there in the end was put in, or was there before. -/
theorem mem_insertAll {members sorted : List (Text × Json)} {member : Text × Json}
    (mem : member ∈ insertAll members sorted) : member ∈ members ∨ member ∈ sorted := by
  induction members generalizing sorted with
  | nil => exact .inr mem
  | cons first rest ih =>
    rcases ih mem with later | inserted
    · exact .inl (List.mem_cons_of_mem _ later)
    · rcases mem_insertMember inserted with rfl | older
      · exact .inl List.mem_cons_self
      · exact .inr older

/-- Members that are sorted already stay as they are. -/
theorem insertAll_of_sorted {members front : List (Text × Json)}
    (inOrder : Sorted (front ++ members)) : insertAll members front = front ++ members := by
  induction members generalizing front with
  | nil => exact (List.append_nil front).symm
  | cons member rest ih =>
    have greatest : ∀ other ∈ front, other.1 < member.1 := fun other mem =>
      (List.pairwise_append.mp inOrder).2.2 other mem member List.mem_cons_self
    have together : front ++ member :: rest = (front ++ [member]) ++ rest := by simp
    rw [together] at inOrder ⊢
    rw [← ih inOrder, ← insertMember_of_forall_lt member.2 greatest]
    rfl

/-- Of two members with one name the later one is found. -/
theorem lookup_insertAll (members sorted : List (Text × Json)) (name : Text) :
    (insertAll members sorted).lookup name =
      (members.reverse.lookup name).or (sorted.lookup name) := by
  induction members generalizing sorted with
  | nil => rfl
  | cons member rest ih =>
    have last : (rest.reverse ++ [member]).lookup name =
        (rest.reverse.lookup name).or (if name = member.1 then some member.2 else none) := by
      rw [List.lookup_append, lookup_cons_eq, List.lookup_nil]
    have first := ih (insertMember member.1 member.2 sorted)
    rw [lookup_insertMember] at first
    rw [List.reverse_cons, last, Option.or_assoc]
    refine first.trans (congrArg _ ?_)
    split <;> rfl

/-- The member of a record is the last one given by that name. -/
theorem member?_record (name : String) (members : List (String × Json)) :
    (record members).member? name = members.reverse.lookup name := by
  have unnamed (given : List (String × Json)) :
      (given.map fun member => (member.1.toList, member.2)).lookup name.toList =
        given.lookup name := by
    induction given with
    | nil => rfl
    | cons member rest ih =>
      simp only [List.map_cons, lookup_cons_eq, String.toList_inj, ih]
  rw [← unnamed, List.map_reverse]
  exact (lookup_insertAll _ [] _).trans Option.or_none

end ScriptCheck.Json
