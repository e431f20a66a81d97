import ScriptCheck.Catalogue
import ScriptCheck.Proofs.Boundaries
import ScriptCheck.Proofs.Confirmation
import ScriptCheck.Proofs.Position

/-!
# What the checks decide

A check may look at what earlier matches of its search have left behind, and it may fail.
With sound answers kept, a check of a built-in rule does not fail and decides about its
match as a plain function of the match and the text does. These functions are stated here,
one for each check that is written as a computation, and the matches a rule keeps are
those its function picks.

The checks cut at places that their match, the lines and the layout give them, so that
the boundaries of the text settle that none of them fails.
-/

namespace ScriptCheck

/-- Every answer kept is the one that belongs to its key. -/
def Memo.Sound (answer : Text → Bool) (memo : Memo) : Prop :=
  ∀ key value, memo.lookup key = some value → value = answer key

namespace Check

variable {α β : Type} {answer : Text → Bool}

/-- Whatever sound answers are kept, the check gives the value and keeps sound answers. -/
def Decides (answer : Text → Bool) (check : Check α) (value : α) : Prop :=
  ∀ memo : Memo, memo.Sound answer → ∃ memo', check memo = some (value, memo') ∧ memo'.Sound answer

/-- A check that just answers decides for that answer. -/
theorem decides_pure (value : α) : (pure value : Check α).Decides answer value :=
  fun memo sound => ⟨memo, rfl, sound⟩

/-- Two checks in a row decide for the value of the second. -/
theorem Decides.bind {check : Check α} {next : α → Check β} {first : α} {second : β}
    (decides : check.Decides answer first) (decides' : (next first).Decides answer second) :
    (check >>= next).Decides answer second := by
  intro memo sound
  obtain ⟨middle, result, sound'⟩ := decides memo sound
  obtain ⟨memo', result', sound''⟩ := decides' middle sound'
  exact ⟨memo', Option.bind_eq_some_iff.mpr ⟨(first, middle), result, result'⟩, sound''⟩

/-- A check that says no under a condition and otherwise goes on. -/
theorem Decides.unless {check : Check Bool} {value : Bool} (condition : Bool)
    (decides : check.Decides answer value) :
    (if condition = true then pure false else check).Decides answer (!condition && value) := by
  cases condition with
  | true => exact decides_pure false
  | false => exact decides

/-- A check that needs a value decides for it if it is there. -/
theorem decides_need {value : Option α} {found : α} (present : value = some found) :
    (need value).Decides answer found :=
  fun memo sound => ⟨memo, by rw [need, present]; rfl, sound⟩

/-- The distance between two offsets in order is decided for. -/
theorem decides_distance {offset start : Nat} (behind : start ≤ offset) :
    (distance offset start).Decides answer (offset - start) :=
  decides_need (if_pos behind)

/-- Asking for some element to pass decides if each test does. -/
theorem decides_anyM {test : α → Check Bool} {holds : α → Bool} {elements : List α}
    (each : ∀ element ∈ elements, (test element).Decides answer (holds element)) :
    (elements.anyM test).Decides answer (elements.any holds) := by
  induction elements with
  | nil => exact decides_pure false
  | cons first rest ih =>
    rw [List.anyM, List.any_cons]
    refine (each first (.head _)).bind ?_
    cases holds first with
    | true => exact decides_pure true
    | false => exact ih fun element listed => each element (.tail _ listed)

/-- What is remembered under a key is what would be computed for it, as long as sound answers are
kept. -/
theorem decides_remember (key : Text) :
    (remember key fun _ => answer key).Decides answer (answer key) := by
  intro memo sound
  rw [remember]
  cases kept : memo.lookup key with
  | some value => exact ⟨memo, by rw [sound key value kept], sound⟩
  | none =>
    refine ⟨(key, answer key) :: memo, rfl, ?_⟩
    intro other value found
    rw [List.lookup_cons] at found
    split at found
    · rename_i same
      obtain rfl : other = key := by simpa using same
      exact (Option.some.inj found).symm
    · exact sound other value found

end Check

open Check

namespace Rule

/-- A check that decides at every match keeps those it decides for. -/
theorem decides_confirmed {answer : Text → Bool} {check : Match → Check Bool}
    {holds : Match → Bool} {candidates : List Match}
    (each : ∀ found ∈ candidates, (check found).Decides answer (holds found)) :
    (confirmed check candidates).Decides answer (candidates.filter holds) := by
  induction candidates with
  | nil => exact decides_pure []
  | cons first rest ih =>
    have others := ih fun found member => each found (by simp [member])
    refine (each first (by simp)).bind (others.bind ?_)
    rw [List.filter_cons]
    exact decides_pure _

/-- A rule that decides at every match finds those it decides for. -/
theorem accepted?_of_decides {rule : Rule} {check : Site → Check Bool}
    (confirm : rule.confirm = some check) {known : Text → Bool} {text : Text}
    {answer : Text → Bool} {holds : Match → Bool}
    (each : ∀ found ∈ rule.pattern.allMatches text,
      (check ⟨text, text.layout, known, found⟩).Decides answer (holds found)) :
    rule.accepted? known text = some ((rule.pattern.allMatches text).filter holds) := by
  have empty : Memo.Sound answer [] := fun key value found => by cases found
  obtain ⟨memo, result, -⟩ := decides_confirmed each [] empty
  rw [accepted?, acceptedAmong?, confirm]
  show (confirmed _ _ []).map Prod.fst = _
  rw [result]
  rfl

/-- What a rule reports, given what its check decides. -/
theorem findings?_of_decides {rule : Rule} {check : Site → Check Bool}
    (confirm : rule.confirm = some check) {known : Text → Bool} {text : Text}
    {answer : Text → Bool} {holds : Match → Bool}
    (each : ∀ found ∈ rule.pattern.allMatches text,
      (check ⟨text, text.layout, known, found⟩).Decides answer (holds found)) :
    rule.findings? known text =
      some (((rule.pattern.allMatches text).filter holds).map (rule.finding text)) := by
  exact congrArg (Option.map _) (accepted?_of_decides confirm each)

/-- A match is reported when its own check picks it. -/
theorem exists_finding_iff {rule : Rule} {text : Text} {holds : Match → Bool} {found : Match}
    (member : found ∈ rule.pattern.allMatches text) :
    (∃ finding ∈ ((rule.pattern.allMatches text).filter holds).map (rule.finding text),
        finding.offset = found.start) ↔ holds found = true := by
  constructor
  · rintro ⟨finding, listed, offset⟩
    obtain ⟨other, kept, rfl⟩ := List.mem_map.mp listed
    obtain ⟨member', picked⟩ := List.mem_filter.mp kept
    obtain rfl := Pattern.eq_of_start_eq member' member offset
    exact picked
  · intro picked
    exact ⟨rule.finding text found,
      List.mem_map_of_mem (List.mem_filter.mpr ⟨member, picked⟩), rfl⟩

end Rule

variable {found : Match} {text left right : Text} {captures : List Capture} {known : Text → Bool}

/-! ### What a match gives -/

/-- What fits a sequence with a fixed text in it is not empty. -/
theorem Pattern.Fits.ne_nil_of_lit (text : String) {patterns : List Pattern}
    {before body after : Text} (fits : (sequence patterns).Fits before body after captures)
    (listed : lit text ∈ patterns) (present : text.toList ≠ []) : body ≠ [] := by
  induction patterns generalizing before body captures with
  | nil => simp at listed
  | cons first rest ih =>
    obtain ⟨front, back, earlier, later, rfl, rfl, fits', further⟩ := fits_sequence_cons.mp fits
    rcases List.mem_cons.mp listed with rfl | listed
    · obtain ⟨rfl, -⟩ := fits_lit.mp fits'
      simp [present]
    · have present' : back ≠ [] := ih further listed
      simp [present']

namespace Match.Occurs

variable {pattern : Pattern}

/-- The text in front of an occurrence is what is to its left. -/
theorem upTo?_start (occurs : found.Occurs pattern text left right captures) :
    text.upTo? found.start = some left := by
  have whole : text = left ++ (found.body ++ right) := by rw [occurs.whole, List.append_assoc]
  rw [occurs.start_eq, whole, Text.upTo?_width]

/-- The text behind an occurrence is what is to its right. -/
theorem from?_stop (occurs : found.Occurs pattern text left right captures) :
    text.from? found.stop = some right := by
  rw [occurs.stop_eq, occurs.whole, ← Text.width_append, Text.from?_width]

/-- An occurrence stops where the text can be cut. -/
theorem boundary_stop (occurs : found.Occurs pattern text left right captures) :
    text.Boundary found.stop := by
  rw [occurs.stop_eq, occurs.whole, ← Text.width_append]
  exact .append _ _

/-- A match that is not empty does not stop at the start. -/
theorem one_le_stop (occurs : found.Occurs pattern text left right captures)
    (present : found.body ≠ []) : 1 ≤ found.stop := by
  have wide : found.body.width ≠ 0 := mt (Text.width_eq_zero_iff _).mp present
  rw [occurs.stop_eq]
  omega

end Match.Occurs

/-! ### The checks -/

namespace Semicolon

/-- Whether a line lacks its semicolon, given the text in front of its blank end. -/
def isReported (text left : Text) : Bool :=
  mayEnd left.reverse && endsInCode text.layout left.width (left.width - 1) &&
    (!looksCommented left.lastLine.trim && isStatement left.lastLine.trim &&
      isFinished text left.width)

/-- The check for a missing semicolon decides at every occurrence of its pattern. Its cuts are at
ends of fronts, and never fail. -/
theorem decides_isMissing (answer : Text → Bool)
    (occurs : found.Occurs missing.pattern text left right captures) :
    (isMissing ⟨text, text.layout, known, found⟩).Decides answer (isReported text left) := by
  have start := occurs.start_eq
  rw [isReported]
  refine (decides_need occurs.upTo?_start).bind ?_
  cases ends : mayEnd left.reverse with
  | false => exact decides_pure false
  | true =>
    have wide : left.width ≠ 0 := by
      intro narrow
      obtain rfl := (Text.width_eq_zero_iff left).mp narrow
      cases ends
    refine (decides_distance (show 1 ≤ found.start by omega)).bind ?_
    rw [start]
    cases inCode : endsInCode text.layout left.width (left.width - 1) with
    | false => exact decides_pure false
    | true =>
      obtain ⟨above, whole, stands⟩ := left.exists_append_lastLine
      have cut : left.from? (text.lineBounds left.width).1 = some left.lastLine := by
        rw [occurs.whole, List.append_assoc, Text.lineBounds_width]
        exact (Text.from?_eq_some_iff _ _ _).mpr ⟨above, whole, stands⟩
      exact (decides_need cut).bind (decides_pure _)

/-- The same for a match of the search. -/
theorem decides_isMissing_of_mem (answer : Text → Bool)
    (member : found ∈ missing.pattern.allMatches text) :
    (isMissing ⟨text, text.layout, known, found⟩).Decides answer
      (isReported text found.whole.start.before.reverse) := by
  obtain ⟨left, right, captures, occurs⟩ := Pattern.occurs_of_mem_allMatches member
  rw [occurs.before, List.reverse_reverse]
  exact decides_isMissing answer occurs

end Semicolon

namespace Block

/-- Whether a body is a chained `if`. -/
def chains (body : Text) : Bool :=
  body.startsWith "if".toList && Text.delimits (body.drop 2).head?

/-- Whether the body of an `else` is a bare statement. -/
def isReported (site : Site) : Bool :=
  (site.found.group? 1).any fun body =>
    !chains body.body && site.layout.inCode site.found.start && isWrappable body.body

/-- The check for a chained condition decides at every body. -/
theorem decides_isChained (answer : Text → Bool) (body : Text) :
    (isChained body).Decides answer (chains body) := by
  rw [isChained, chains]
  cases starts : body.startsWith "if".toList with
  | false => exact decides_pure false
  | true =>
    obtain ⟨rest, rfl⟩ := List.isPrefixOf_iff_prefix.mp starts
    have cut : Text.from? ("if".toList ++ rest) 2 = some rest := Text.from?_width "if".toList rest
    exact (decides_need cut).bind (decides_pure _)

/-- The check for a bare alternative decides at every place. -/
theorem decides_isBareElse (answer : Text → Bool) (site : Site) :
    (isBareElse site).Decides answer (isReported site) := by
  rw [isBareElse, isReported]
  cases site.found.group? 1 with
  | none => exact decides_pure false
  | some body => exact (decides_isChained answer body.body).bind (decides_pure _)

end Block

namespace Reassignment

/-- Whether a text ends in a keyword that declares a variable. -/
def declares (before : Text) : Bool :=
  ["let", "var", "const"].any fun keyword =>
    before.trimEnd.endsWith keyword.toList &&
      Text.delimits (before.trimEnd.take
        (before.trimEnd.length - keyword.toList.length)).getLast?

/-- Whether a match of an assignment, in the text behind `front`, assigns the name. -/
def assigns (text front : Text) (assigned : Match) : Bool :=
  (assigned.group? 1).any fun target =>
    !declares (front ++ target.start.before.reverse) &&
      text.layout.inCode (front.width + target.stop.offset - 1)

/-- Whether the rest of the text assigns the declared name, as far as the engine searches it
for assignments to that name. -/
def isReported [Engine] (text : Text) (found : Match) : Bool :=
  (found.group? 1).any fun declared =>
    text.layout.inCode found.start && Engine.takes (assignmentTo declared.body) &&
      ((assignmentTo declared.body).allMatches found.whole.stop.after).any
        (assigns text found.whole.stop.before.reverse)

/-- The check for a declaring keyword decides at every text. If the text ends in the keyword, it is
long enough to be cut in front of it. -/
theorem decides_endsInDeclarator (answer : Text → Bool) (before : Text) :
    (endsInDeclarator before).Decides answer (declares before) := by
  refine decides_anyM fun keyword _ => ?_
  cases ends : before.trimEnd.endsWith keyword.toList with
  | false => exact decides_pure false
  | true =>
    obtain ⟨front, whole⟩ := List.isSuffixOf_iff_suffix.mp ends
    have total : before.trimEnd.width = Text.width front + Text.width keyword.toList := by
      rw [← whole, Text.width_append]
    have stands : before.trimEnd.width - Text.width keyword.toList = Text.width front := by omega
    have cut : before.trimEnd.upTo? (before.trimEnd.width - Text.width keyword.toList) =
        some front :=
      (Text.upTo?_eq_some_iff _ _ _).mpr ⟨keyword.toList, whole.symm, stands.symm⟩
    have taken : before.trimEnd.take (before.trimEnd.length - keyword.toList.length) = front := by
      rw [← whole]
      simp
    rw [taken]
    exact (decides_distance (by omega)).bind ((decides_need cut).bind (decides_pure _))

/-- An assignment is judged by what stands in front of it and at its last byte. -/
theorem decides_isAssignment (answer : Text → Bool) {target : Text} {assigned : Match}
    (occurs : found.Occurs declaration text left right captures)
    (listed : assigned ∈ (assignmentTo target).allMatches right) :
    (isAssignment ⟨text, text.layout, known, found⟩ assigned).Decides answer
      (assigns text (left ++ found.body) assigned) := by
  rw [isAssignment, assigns]
  cases group : assigned.group? 1 with
  | none => exact decides_pure false
  | some piece =>
    have present : found.body ≠ [] :=
      Pattern.Fits.ne_nil_of_lit "const" occurs.fits (by simp) (by decide)
    have stop : found.stop = (left ++ found.body).width := by rw [occurs.stop_eq, Text.width_append]
    have whole : right = piece.start.before.reverse ++ piece.start.after :=
      (Pattern.within_of_mem_allMatches listed group).start
    have cut : text.upTo? (found.stop + piece.start.offset) =
        some (left ++ found.body ++ piece.start.before.reverse) := by
      refine (Text.upTo?_eq_some_iff _ _ _).mpr ⟨piece.start.after, ?_, ?_⟩
      · rw [occurs.whole, whole, List.append_assoc (left ++ found.body)]
      · rw [stop, Text.width_append (left ++ found.body), Text.width_reverse, piece.start.placed]
    have positive : 1 ≤ found.stop + piece.stop.offset :=
      Nat.le_trans (occurs.one_le_stop present) (Nat.le_add_right _ _)
    refine (decides_need cut).bind ((decides_endsInDeclarator answer _).bind ?_)
    rw [Option.any_some, ← stop]
    exact .unless _ ((decides_distance positive).bind (decides_pure _))

/-- The check of a constant decides at every declaration: the rest of the text and the fronts of
assignments can be cut. -/
theorem decides_isReassigned [Engine] (answer : Text → Bool)
    (occurs : found.Occurs declaration text left right captures) :
    (isReassigned ⟨text, text.layout, known, found⟩).Decides answer (isReported text found) := by
  have behind : found.whole.stop.before.reverse = left ++ found.body := by
    rw [occurs.spans.behind, occurs.before]
    simp
  rw [isReassigned, isReported, occurs.after, behind]
  cases found.group? 1 with
  | none => exact decides_pure false
  | some declared =>
    simp only [Option.any_some]
    cases inCode : text.layout.inCode found.start with
    | false => exact decides_pure false
    | true =>
      cases Engine.takes (assignmentTo declared.body) with
      | false => exact decides_pure false
      | true =>
        exact (decides_need occurs.from?_stop).bind
          (decides_anyM fun assigned listed => decides_isAssignment answer occurs listed)

end Reassignment

namespace Return

/-- Code is gathered from regions that are texts. -/
theorem exists_codeOf {regions : List Region}
    (each : ∀ region ∈ regions, ∃ piece, text.slice? region.start region.stop = some piece) :
    ∃ code, codeOf text regions = some code := by
  induction regions with
  | nil => exact ⟨[], rfl⟩
  | cons region rest ih =>
    obtain ⟨piece, cut⟩ := each region (.head _)
    obtain ⟨others, gathered⟩ :=
      ih fun region listed => each region (.tail _ listed)
    by_cases kind : region.kind = .code <;> simp [codeOf, kind, cut, gathered]

/-- A body ends at a boundary behind its opener: at the closer, or with the text. -/
theorem bodyEnd_spec {opened : Nat} (opens : text.Boundary (opened + 1)) :
    opened < (text.layout.matchingClose? opened).getD text.width ∧
      text.Boundary ((text.layout.matchingClose? opened).getD text.width) := by
  cases pair : text.layout.matchingClose? opened with
  | none =>
    obtain ⟨front, rest, whole, stands⟩ := opens
    have total : text.width = Text.width front + Text.width rest := by rw [whole, Text.width_append]
    refine ⟨?_, text.boundary_width⟩
    show opened < text.width
    omega
  | some closed =>
    obtain ⟨behind, closes, -⟩ := Text.of_matchingClose? pair
    exact ⟨behind, closes⟩

/-- Where the body of a function found stops: at its closing brace, or with the text. -/
def bodyEnd (text : Text) (found : Match) : Nat :=
  (text.layout.matchingClose? (found.stop - 1)).getD text.width

/-- Whether the body of a function found has no `return`. -/
def isReported (text : Text) (found : Match) : Bool :=
  !((found.group? 1).any fun name => name.body.head?.any Char.isUpper) &&
    (text.layout.inCode found.start &&
      (codeOf text (text.layout.regionsWithin found.stop (bodyEnd text found))).any fun body =>
        !body.containsWord "return".toList)

/-- The check for a return decides at every head of a function. Its body lies between boundaries, so
that its code can be gathered. -/
theorem decides_lacksReturn (answer : Text → Bool)
    (occurs : found.Occurs functionHead text left right captures) :
    (lacksReturn ⟨text, text.layout, known, found⟩).Decides answer (isReported text found) := by
  have present : found.body ≠ [] :=
    Pattern.Fits.ne_nil_of_lit "function" occurs.fits (by simp) (by decide)
  have positive := occurs.one_le_stop present
  have behind : found.stop - 1 + 1 = found.stop := by omega
  have opens : text.Boundary (found.stop - 1 + 1) := by
    rw [behind]
    exact occurs.boundary_stop
  obtain ⟨ordered, closes⟩ := bodyEnd_spec opens
  obtain ⟨body, gathered⟩ := exists_codeOf fun region listed =>
    Text.exists_slice?_of_regionsWithin opens closes ordered listed
  rw [behind] at gathered
  rw [lacksReturn, isReported, bodyEnd, gathered]
  refine .unless _ ?_
  cases inCode : text.layout.inCode found.start with
  | false => exact decides_pure false
  | true =>
    refine (decides_distance positive).bind ((decides_distance (Nat.le_of_lt ordered)).bind ?_)
    rw [behind]
    exact (decides_need gathered).bind (decides_pure _)

end Return

namespace Call

/-- Whether the parentheses that close a match are followed by a block. -/
def opensBlock (site : Site) : Bool :=
  (site.layout.matchingClose? (site.found.stop - 1)).any fun closed =>
    (site.text.from? (closed + 1)).any fun rest => rest.trimStart.startsWith ['\x7b']

/-- Whether a call is of a function that nothing defines, the text being searched for its
name anew. -/
def isReported [Engine] (site : Site) : Bool :=
  (site.found.group? 1).any fun piece =>
    !keywords.contains (String.ofList piece.body) &&
      !((site.text.upTo? site.found.start).any fun before =>
        before.getLast?.any fun c => c == '.' || isIdentifierChar c) &&
      site.layout.inCode site.found.start && !site.known piece.body &&
      !isDeclared site.text piece.body && !opensBlock site

/-- The check for a definition decides at every call: if its parentheses close, the text behind them
can be cut. -/
theorem decides_isDefinition (answer : Text → Bool) :
    (isDefinition ⟨text, text.layout, known, found⟩ (found.stop - 1)).Decides answer
      (opensBlock ⟨text, text.layout, known, found⟩) := by
  rw [isDefinition, opensBlock]
  split
  · rename_i absent
    rw [absent]
    exact decides_pure false
  · rename_i closed pair
    obtain ⟨-, -, front, rest, whole, stands⟩ := Text.of_matchingClose? pair
    have cut : text.from? (closed + 1) = some rest :=
      (Text.from?_eq_some_iff _ _ _).mpr ⟨front, whole, stands⟩
    refine (decides_need cut).bind ?_
    rw [pair, Option.any_some, cut]
    exact decides_pure _

/-- A call is judged by itself, whatever is kept from the calls before it, since the answers kept
are sound. -/
theorem decides_isUndefined [Engine] (occurs : found.Occurs call text left right captures) :
    (isUndefined ⟨text, text.layout, known, found⟩).Decides (isDeclared text)
      (isReported ⟨text, text.layout, known, found⟩) := by
  rw [isUndefined, isReported]
  cases group : found.group? 1 with
  | none => exact decides_pure false
  | some piece =>
    have present : found.body ≠ [] :=
      Pattern.Fits.ne_nil_of_lit "(" occurs.fits (by simp) (by decide)
    have nested (keyword member inCode known declared opens : Bool) :
        (!keyword && !member && inCode && !known && !declared && !opens) =
          (!keyword && (!member && (!(!inCode || known) && (!declared && !opens)))) := by
      cases keyword <;> cases member <;> cases inCode <;> cases known <;> rfl
    rw [Option.any_some, occurs.upTo?_start, Option.any_some, nested]
    refine .unless _ ((decides_need rfl).bind (.unless _ (.unless _ ?_)))
    refine (decides_remember piece.body).bind (.unless _ ?_)
    exact (decides_distance (occurs.one_le_stop present)).bind
      ((decides_isDefinition _).bind (decides_pure _))

end Call

end ScriptCheck
