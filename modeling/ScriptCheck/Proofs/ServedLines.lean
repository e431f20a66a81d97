import Mathlib.Data.List.Forall2
import ScriptCheck.Proofs.Json.Values
import ScriptCheck.Proofs.Streams
import ScriptCheck.Proofs.Substitution
import ScriptCheck.Rule.Spelling
import ScriptCheck.Server

/-!
# What the server writes

The server answers a stream line by line. Here it is said, without reference to how it
goes about it, which lines it takes from a stream, which of them get no answer, and what
the answer to any other line is: one line of its own, which reads back as a response with
the id of the request and either a result or an error. What comes later in the stream does
not change the answers to what came before.

The text that a tool hands back is JSON itself, written inside a string of the response.
It reads back too, and says of each finding all that is known of it.

Ids are handed back as they were read. An id may hold binary numbers, and these are rounded
when they are read, so that the response is read back only if they are. The numbers in a
payload are places in a text and counts; they are taken to fit in 64 bits.
-/

namespace ScriptCheck.Server

/-! ### What is said of the output -/

/-- The lines that are taken from a stream: all up to the first that is no text. A newline
ends a line, together with a carriage return in front of it. So does the end of the stream
if there is anything on the line. -/
inductive Received : Bytes → List Text → Prop where
  | done : Received [] []
  | line {bytes rest : Bytes} {line : Text} {lines : List Text} :
      10 ∉ bytes → Text.decode? bytes.chomp = some line → Received rest lines →
      Received (bytes ++ 10 :: rest) (line :: lines)
  | last {bytes : Bytes} {line : Text} :
      10 ∉ bytes → bytes ≠ [] → Text.decode? bytes = some line → Received bytes [line]
  | noText {bytes rest : Bytes} :
      10 ∉ bytes → Text.decode? bytes.chomp = none → Received (bytes ++ 10 :: rest) []
  | lastNoText {bytes : Bytes} :
      10 ∉ bytes → Text.decode? bytes = none → Received bytes []

/-- The lines that get no answer: blank ones and two kinds of notification. -/
def Silent (line : Text) : Prop :=
  (∀ c ∈ line, isBlank c = true) ∨
    ∃ request method, Json.read? line = some request ∧
      request.member? "method" = some (.ofString method) ∧
      (method = "notifications/initialized" ∨ method = "notifications/cancelled")

/-- The id of the request on a line, if it can be read and has one. -/
def idOf? (line : Text) : Option Json := (Json.read? line).bind (Json.member? "id")

/-- A line that calls a tool with a text. -/
def Calls (line : Text) (tool : String) (code : Text) : Prop :=
  ∃ request params arguments, Json.read? line = some request ∧
    request.member? "method" = some (.ofString "tools/call") ∧
    request.member? "params" = some params ∧
    params.member? "name" = some (.ofString tool) ∧
    params.member? "arguments" = some arguments ∧
    arguments.member? "code" = some (.string code)

/-- A response whose result is one text, which is the given payload in JSON. -/
def Carries (response payload : Json) : Prop :=
  ∃ result item text, response.member? "result" = some result ∧
    result.member? "content" = some (.array [item]) ∧
    item.member? "type" = some (.ofString "text") ∧
    item.member? "text" = some (.string text) ∧
    Json.read? text = some payload

/-- What is shown of the change that a finding asks for. -/
def ShowsChange (shown : Json) : Option Change → Prop
  | none => shown.member? "fix" = some .null
  | some change =>
    ∃ fix, shown.member? "fix" = some fix ∧ fix.member? "old" = some (.string change.old) ∧
      fix.member? "new" = some (.string change.new)

/-- What is shown of a finding. -/
structure Shows (shown : Json) (finding : Finding) : Prop where
  rule : shown.member? "rule_id" = some (.ofString finding.rule)
  severity : shown.member? "severity" = some (.ofString finding.severity.label)
  line : shown.member? "line" = some (.orNull (finding.line.map .ofNat))
  column : shown.member? "column" = some (.orNull (finding.column.map .ofNat))
  offset : shown.member? "offset" = some (.ofNat finding.offset)
  length : shown.member? "length" = some (.ofNat finding.length)
  matched : shown.member? "matched" = some (.string finding.matched)
  message : shown.member? "message" = some (.ofString finding.message)
  fixable : shown.member? "fixable" = some (.bool finding.isFixable)
  fix : ShowsChange shown finding.change?

/-- A payload that shows findings, in their order. -/
def ShowsAll (payload : Json) (findings : List Finding) : Prop :=
  ∃ items, payload.member? "findings" = some (.array items) ∧ List.Forall₂ Shows items findings

/-- A finding whose numbers fit in 64 bits. -/
structure Sized (finding : Finding) : Prop where
  line : ∀ n ∈ finding.line, n < Json.wholeLimit
  column : ∀ n ∈ finding.column, n < Json.wholeLimit
  offset : finding.offset < Json.wholeLimit
  length : finding.length < Json.wholeLimit

/-- Findings whose numbers fit in 64 bits, and so does how many there are. -/
def AllSized (findings : List Finding) : Prop :=
  findings.length < Json.wholeLimit ∧ ∀ finding ∈ findings, Sized finding

instance (finding : Finding) : Decidable (Sized finding) :=
  decidable_of_iff
    ((∀ n ∈ finding.line, n < Json.wholeLimit) ∧ (∀ n ∈ finding.column, n < Json.wholeLimit) ∧
      finding.offset < Json.wholeLimit ∧ finding.length < Json.wholeLimit)
    ⟨fun ⟨line, column, offset, length⟩ => ⟨line, column, offset, length⟩,
      fun sized => ⟨sized.line, sized.column, sized.offset, sized.length⟩⟩

instance (findings : List Finding) : Decidable (AllSized findings) :=
  inferInstanceAs (Decidable (_ ∧ _))

/-- A response that answers a line. -/
structure Answers (checker : Checker) (line : Text) (response : Json) : Prop where
  oneLine : '\n' ∉ response.compact
  readBack : (Json.orNull (idOf? line)).Faithful → Json.read? response.compact = some response
  version : response.member? "jsonrpc" = some (.ofString "2.0")
  id : response.member? "id" = some (.orNull (idOf? line))
  outcome : (response.member? "result").isSome = !(response.member? "error").isSome
  analyzed : ∀ code, Calls line "analyze" code → AllSized (checker.inspect code) →
    ∃ payload, Carries response payload ∧ ShowsAll payload (checker.inspect code)
  fixed : ∀ code, Calls line "fix" code → AllSized (checker.inspect code) →
    AllSized (checker.inspect (checker.mend code).text) →
    ∃ payload, Carries response payload ∧
      payload.member? "fixed" = some (.string (checker.mend code).text) ∧
      ShowsAll payload (checker.inspect (checker.mend code).text)

/-- The output for some lines: nothing for a silent one, one line for any other. -/
inductive Transcript (checker : Checker) : List Text → List Text → Prop where
  | nil : Transcript checker [] []
  | silent {line : Text} {lines output : List Text} :
      Silent line → Transcript checker lines output → Transcript checker (line :: lines) output
  | answered {line : Text} {response : Json} {lines output : List Text} :
      ¬Silent line → Answers checker line response → Transcript checker lines output →
      Transcript checker (line :: lines) (response.compact :: output)

/-! ### Lines -/

/-- Lines that are texts are answered one after the other. -/
theorem answers_append (wording : Text → Text) (checker : Checker) {front : List Bytes}
    (rest : List Bytes) (texts : ∀ bytes ∈ front, (Text.decode? bytes).isSome = true) :
    answers wording checker (front ++ rest) =
      answers wording checker front ++ answers wording checker rest := by
  induction front with
  | nil => rfl
  | cons bytes front ih =>
    obtain ⟨line, decoded⟩ := Option.isSome_iff_exists.mp (texts bytes List.mem_cons_self)
    simp only [List.cons_append, answers, decoded, List.append_assoc,
      ih fun bytes mem => texts bytes (List.mem_cons_of_mem _ mem)]

variable {lines : List Text} {checker : Checker} {answer : Json} {wording : Text → Text}
  {line : Text}

/-- What is taken from a stream with a newline: nothing if the first line is no text, and otherwise
that line and those of the rest. -/
theorem Received.of_newline {bytes rest : Bytes} (single : 10 ∉ bytes)
    (received : Received (bytes ++ 10 :: rest) lines) :
    Text.decode? bytes.chomp = none ∧ lines = [] ∨
      ∃ line others, Text.decode? bytes.chomp = some line ∧ Received rest others ∧
        lines = line :: others := by
  generalize same : bytes ++ 10 :: rest = input at received
  have newline : 10 ∈ input := by simp [← same]
  cases received with
  | done => cases newline
  | line single' decoded later =>
    obtain ⟨rfl, rfl⟩ := Bytes.append_newline_inj single single' same
    exact .inr ⟨_, _, decoded, later, rfl⟩
  | last single' => exact absurd newline single'
  | noText single' undecoded =>
    obtain ⟨rfl, rfl⟩ := Bytes.append_newline_inj single single' same
    exact .inl ⟨undecoded, rfl⟩
  | lastNoText single' => exact absurd newline single'

/-- What is taken from a stream without a newline. -/
theorem Received.of_last {bytes : Bytes} (single : 10 ∉ bytes) (received : Received bytes lines) :
    lines = if bytes = [] then [] else (Text.decode? bytes).toList := by
  cases received with
  | done => rfl
  | line single' => exact absurd (by simp) single
  | last single' nonempty decoded => rw [if_neg nonempty, decoded, Option.toList_some]
  | noText single' => exact absurd (by simp) single
  | lastNoText single' undecoded => simp [undecoded]

/-- There is one way to take the lines from a stream. The induction is on how they are taken. -/
theorem Received.unique {input : Bytes} {others : List Text} (received : Received input lines)
    (received' : Received input others) : lines = others := by
  induction received generalizing others with
  | done => exact (received'.of_last (by simp)).symm
  | line single decoded later ih =>
    rcases received'.of_newline single with ⟨undecoded, -⟩ | ⟨line, rest, decoded', later', rfl⟩
    · rw [decoded] at undecoded
      cases undecoded
    · rw [decoded, Option.some_inj] at decoded'
      rw [decoded', ih later']
  | last single nonempty decoded =>
    rw [received'.of_last single, if_neg nonempty, decoded, Option.toList_some]
  | noText single undecoded =>
    rcases received'.of_newline single with ⟨-, none⟩ | ⟨line, rest, decoded, -, -⟩
    · exact none.symm
    · rw [undecoded] at decoded
      cases decoded
  | lastNoText single undecoded =>
    rw [received'.of_last single, undecoded]
    simp

/-- What the server writes is what it answers to the lines it takes. The induction is on the length
of the stream. -/
theorem exists_received (wording : Text → Text) (checker : Checker) (input : Bytes) :
    ∃ lines, Received input lines ∧ serve wording checker input =
      lines.filterMap fun line => (answerLine? wording checker line).map Json.compact := by
  induction length : input.length using Nat.strongRecOn generalizing input with
  | ind size ih =>
    by_cases broken : 10 ∈ input
    · obtain ⟨bytes, rest, rfl, single⟩ := List.eq_append_cons_of_mem broken
      rw [serve, Bytes.lines_line single, answers]
      split
      · rename_i undecoded
        exact ⟨[], .noText single undecoded, rfl⟩
      · rename_i line decoded
        have shorter : rest.length < size := by
          rw [← length, List.length_append, List.length_cons]
          omega
        obtain ⟨lines, received, served⟩ := ih _ shorter rest rfl
        refine ⟨line :: lines, .line single decoded received, ?_⟩
        rw [serve] at served
        rw [served, List.filterMap_cons]
        cases (answerLine? wording checker line).map Json.compact <;> rfl
    · by_cases empty : input = []
      · rw [empty]
        exact ⟨[], .done, rfl⟩
      · rw [serve, Bytes.lines_last broken empty, answers]
        split
        · rename_i undecoded
          exact ⟨[], .lastNoText broken undecoded, rfl⟩
        · rename_i line decoded
          refine ⟨[line], .last broken empty decoded, ?_⟩
          rw [List.filterMap_cons, answers]
          cases (answerLine? wording checker line).map Json.compact <;> rfl

/-! ### Silence -/

/-- A text that is looked for by its name is there exactly if it is a string of that name. -/
theorem ofList_getD_eq_iff {found : Option Json} {name : String} (named : name ≠ "") :
    String.ofList ((found.bind Json.text?).getD []) = name ↔ found = some (.ofString name) := by
  have unnamed : String.ofList [] ≠ name := fun empty => named (empty ▸ rfl)
  rcases found with - | value
  · exact iff_of_false unnamed (by simp)
  · cases value with
    | string text =>
      constructor
      · rintro rfl
        simp [Json.text?, Json.ofString]
      · intro same
        cases same
        simp [Json.text?]
    | _ => exact iff_of_false unnamed (by simp [Json.ofString])

/-- A request gets no answer exactly if it is one of two notifications, by its method. -/
theorem answer?_eq_none_iff (checker : Checker) (request : Json) :
    answer? checker (.ofJson request) = none ↔ ∃ method,
      request.member? "method" = some (.ofString method) ∧
      (method = "notifications/initialized" ∨ method = "notifications/cancelled") := by
  have silent : answer? checker (.ofJson request) = none ↔
      String.ofList (Request.ofJson request).method = "notifications/initialized" ∨
        String.ofList (Request.ofJson request).method = "notifications/cancelled" := by
    rw [answer?]
    split <;> simp_all
  have named {name : String} : name ≠ "" → (String.ofList (Request.ofJson request).method = name ↔
      request.member? "method" = some (.ofString name)) := ofList_getD_eq_iff
  rw [silent, named (by decide), named (by decide)]
  constructor
  · rintro (found | found)
    · exact ⟨_, found, .inl rfl⟩
    · exact ⟨_, found, .inr rfl⟩
  · rintro ⟨method, found, rfl | rfl⟩
    · exact .inl found
    · exact .inr found

/-- A line gets no answer exactly if it is blank or one of two notifications. A line that cannot be
read gets an error. -/
theorem answerLine?_eq_none_iff (wording : Text → Text) (checker : Checker) (line : Text) :
    answerLine? wording checker line = none ↔ Silent line := by
  rw [answerLine?, Silent]
  split
  · rename_i blank
    exact iff_of_true rfl (.inl ((Text.isEmpty_trim_iff line).mp blank))
  · rename_i shown
    rw [Text.isEmpty_trim_iff] at shown
    rw [or_iff_right shown]
    split
    · rename_i request read
      rw [answer?_eq_none_iff]
      constructor
      · rintro ⟨method, named, kind⟩
        exact ⟨request, method, read, named, kind⟩
      · rintro ⟨other, method, read', named, kind⟩
        rw [read, Option.some_inj] at read'
        subst read'
        exact ⟨method, named, kind⟩
    · rename_i unread
      apply iff_of_false
      · intro none
        cases none
      · rintro ⟨request, method, read, -⟩
        rw [unread] at read
        cases read

/-! ### Responses -/

open Json (Regular ReadsBack lookup_cons_eq member?_record regular_array regular_record
  regular_ofString regular_ofNat regular_orNull)

/-- The greeting is read back. -/
theorem regular_greeting : Regular ReadsBack 3 greeting := by
  rw [greeting]
  grind [regular_record, regular_ofString]

/-- The schema of a tool that takes a text is read back. -/
theorem regular_codeSchema : Regular ReadsBack 3 codeSchema := by
  rw [codeSchema]
  grind [regular_record, regular_array, regular_ofString]

/-- The schema of a tool that takes nothing is read back. -/
theorem regular_emptySchema : Regular ReadsBack 3 emptySchema := by
  rw [emptySchema]
  grind [regular_record, regular_ofString]

/-- The entry of a tool is read back if its schema is. -/
theorem regular_toolEntry (name description : String) {schema : Json}
    (shaped : Regular ReadsBack 3 schema) :
    Regular ReadsBack 4 (toolEntry name description schema) := by
  rw [toolEntry]
  grind [regular_record, regular_ofString]

/-- The list of tools is read back, six levels deep. -/
theorem regular_toolList : Regular ReadsBack 6 toolList := by
  rw [toolList]
  grind [regular_record, regular_array, regular_toolEntry, regular_codeSchema, regular_emptySchema]

/-- The content of a result is read back. -/
theorem regular_content (text : Text) : Regular ReadsBack 2 (content text).2 := by
  rw [content]
  grind [regular_record, regular_array, regular_ofString, Regular.string]

/-- The result of a tool is read back. -/
theorem regular_toolResult (payload : Json) : Regular ReadsBack 3 (toolResult payload) := by
  rw [toolResult]
  grind [regular_record, regular_content]

/-- The complaint about a missing text is read back. -/
theorem regular_missingCode : Regular ReadsBack 3 missingCode := by
  rw [missingCode]
  grind [regular_record, regular_content, Regular.bool]

/-- The members of a response. -/
theorem member?_response (id : Option Json) (name : String) (body : Json) (other : String) :
    (response id name body).member? other =
      if other = name then some body
      else if other = "id" then some (.orNull id)
      else if other = "jsonrpc" then some (.ofString "2.0")
      else none := by
  rw [response, member?_record]
  simp only [List.reverse_cons, List.reverse_nil, List.nil_append, List.cons_append,
    lookup_cons_eq, List.lookup_nil]

/-- A response to the request of the given id, with a result or an error that is read back. -/
def Responds (id : Option Json) (answer : Json) : Prop :=
  ∃ name body, (name = "result" ∨ name = "error") ∧ answer = response id name body ∧
    Regular ReadsBack 6 body

/-- A success is a response with a result that is read back. -/
theorem responds_success (id : Option Json) {result : Json} {depth : Nat}
    (regular : Regular ReadsBack depth result) (shallow : depth ≤ 6) :
    Responds id (success id result) :=
  ⟨"result", result, .inl rfl, rfl, regular.mono shallow⟩

/-- A failure is a response with an error that is read back. -/
theorem responds_failure (id : Option Json) {code : Int} (message : Text)
    (inRange : -(Nat.pow 2 63 : Int) ≤ code ∧ code < Json.wholeLimit) :
    Responds id (failure id code message) := by
  refine ⟨"error", _, .inr rfl, rfl, regular_record (by decide) ?_⟩
  simp [Regular.number (Json.readsBack_whole inRange), Regular.string]

/-- Whatever a tool says to a call is a response to its id. -/
theorem responds_callTool (checker : Checker) (id : Option Json) (params : Json) :
    Responds id (callTool checker id params) := by
  rw [callTool]
  split
  · exact responds_success id (regular_toolResult _) (by decide)
  · exact responds_success id (regular_toolResult _) (by decide)
  · exact responds_success id (regular_toolResult _) (by decide)
  · exact responds_success id regular_missingCode (by decide)
  · exact responds_success id regular_missingCode (by decide)
  · exact responds_failure id _ (by decide)

/-- Whatever is answered to a request is a response to its id. The methods are gone through. -/
theorem responds_answer? {request : Request} (answered : answer? checker request = some answer) :
    Responds request.id answer := by
  rw [answer?] at answered
  split at answered
  · cases answered
    exact responds_success _ regular_greeting (by decide)
  · cases answered
    exact responds_success _ regular_toolList (by decide)
  · cases answered
    exact responds_callTool checker _ _
  · cases answered
  · cases answered
  · cases answered
    exact responds_failure _ _ (by decide)

/-- Every answer is a response to the id on the line. -/
theorem responds_answerLine? (answered : answerLine? wording checker line = some answer) :
    Responds (idOf? line) answer := by
  rw [answerLine?] at answered
  split at answered
  · cases answered
  · split at answered
    · rename_i request read
      rw [idOf?, read]
      exact responds_answer? answered
    · rename_i unread
      cases answered
      rw [idOf?, unread]
      exact responds_failure none _ (by decide)

/-- An id is no deeper than the request that it stands in, less one level. -/
theorem regular_idOf? (faithful : (Json.orNull (idOf? line)).Faithful) :
    Regular ReadsBack 126 (.orNull (idOf? line)) := by
  cases found : idOf? line with
  | none => exact .null
  | some id =>
    obtain ⟨request, read, member⟩ := Option.bind_eq_some_iff.mp found
    obtain ⟨inner, deep, regular⟩ := (Json.regular_of_read? read).of_member? member
    have inner_eq : inner = 126 := by
      rw [Json.nestingLimit] at deep
      omega
    rw [found] at faithful
    rw [← inner_eq]
    exact regular.readsBack faithful

/-- A response is read back if its id is. -/
theorem regular_response {id : Option Json} {body : Json} (name : String)
    (known : Regular ReadsBack 126 (.orNull id)) (regular : Regular ReadsBack 6 body) :
    Regular ReadsBack Json.nestingLimit (response id name body) := by
  refine regular_record (by decide) ?_
  simp only [List.forall_mem_cons, List.not_mem_nil, false_implies, implies_true, and_true]
  exact ⟨regular_ofString _ _, known, regular.mono (by decide)⟩

/-! ### Payloads -/

open Output (findingJson findingsJson)

/-- What is written for a finding shows it. -/
theorem shows_findingJson (finding : Finding) : Shows (findingJson finding) finding := by
  constructor
  case fix =>
    cases change : finding.change? with
    | none => simp [ShowsChange, findingJson, member?_record, change, Json.orNull]
    | some change' =>
      simp [ShowsChange, findingJson, member?_record, change, lookup_cons_eq, Json.orNull,
        Output.changeJson]
  all_goals simp [findingJson, member?_record, lookup_cons_eq]

/-- A record with the findings shows all of them, in order. -/
theorem showsAll_record {members : List (String × Json)} {findings : List Finding}
    (listed : (Json.record members).member? "findings" = some (findingsJson findings)) :
    ShowsAll (.record members) findings := by
  refine ⟨findings.map findingJson, listed, ?_⟩
  rw [List.forall₂_map_left_iff, List.forall₂_same]
  exact fun finding _ => shows_findingJson finding

/-- A finding is read back if its numbers fit in 64 bits, two levels deep. -/
theorem regular_findingJson {finding : Finding} (sized : Sized finding) :
    Regular ReadsBack 2 (findingJson finding) := by
  have number {position : Option Nat} (fits : ∀ n ∈ position, n < Json.wholeLimit) :
      Regular ReadsBack 1 (.orNull (position.map .ofNat)) := by
    apply regular_orNull
    intro shown mem
    obtain ⟨n, known, rfl⟩ := Option.map_eq_some_iff.mp mem
    exact regular_ofNat (fits n known) _
  have change : Regular ReadsBack 1 (.orNull (finding.change?.map Output.changeJson)) := by
    apply regular_orNull
    intro shown mem
    obtain ⟨change, known, rfl⟩ := Option.map_eq_some_iff.mp mem
    exact regular_record (by decide) (by simp [Regular.string])
  refine regular_record (by decide) ?_
  simp [regular_ofString, number sized.line, number sized.column, regular_ofNat sized.offset,
    regular_ofNat sized.length, Regular.string, Regular.bool, change]

/-- A list of findings is read back if its numbers fit. -/
theorem regular_findingsJson {findings : List Finding} (sized : AllSized findings) :
    Regular ReadsBack 3 (findingsJson findings) := by
  apply Regular.array
  intro item mem
  obtain ⟨finding, listed, rfl⟩ := List.mem_map.mp mem
  exact regular_findingJson (sized.2 finding listed)

/-- What is said about a text is read back if its numbers fit. -/
theorem regular_analyzePayload {code : Text} (sized : AllSized (checker.inspect code)) :
    Regular ReadsBack 4 (analyzePayload checker code) := by
  have count (keep : Finding → Bool) : (checker.inspect code).countP keep < Json.wholeLimit :=
    Nat.lt_of_le_of_lt List.countP_le_length sized.1
  have summary : Regular ReadsBack 3 (.record (Output.countMembers (checker.inspect code))) := by
    refine regular_record (by decide) ?_
    simp [Output.countMembers, regular_ofNat (count _), regular_ofNat sized.1]
  refine regular_record (by decide) ?_
  simp [regular_findingsJson sized, summary]

/-- No more remedies are applied or passed over than there are findings, since each finding is
handled once. -/
theorem counts_mend_le (checker : Checker) (code : Text) :
    (checker.mend code).applied ≤ (checker.inspect code).length ∧
      (checker.mend code).skippedOverlap + (checker.mend code).skippedStale ≤
        (checker.inspect code).length := by
  rw [Checker.mend, Repair.run_eq_substitute]
  have fixable := List.length_filter_le Finding.isFixable (checker.inspect code)
  have accepted :=
    (Repair.accept_sublist [] ((checker.inspect code).filter Finding.isFixable)).length_le
  constructor
  · apply Nat.le_trans _ (Nat.le_trans accepted fixable)
    exact List.length_filterMap_le _ _
  · have stale : List.countP (Repair.isStale code)
        (Repair.accept [] ((checker.inspect code).filter Finding.isFixable)) ≤ _ :=
      List.countP_le_length
    dsimp only
    omega

/-- What is said about a mended text is read back too. -/
theorem regular_fixPayload {code : Text} (sized : AllSized (checker.inspect code))
    (sized' : AllSized (checker.inspect (checker.mend code).text)) :
    Regular ReadsBack 4 (fixPayload checker code) := by
  obtain ⟨applied, skipped⟩ := counts_mend_le checker code
  refine regular_record (by decide) ?_
  simp [Regular.string, regular_findingsJson sized',
    regular_ofNat (Nat.lt_of_le_of_lt applied sized.1),
    regular_ofNat (Nat.lt_of_le_of_lt skipped sized.1)]

/-! ### Answers -/

/-- The result of a tool carries its payload. -/
theorem carries_toolResult {payload : Json} (id : Option Json)
    (regular : Regular ReadsBack 4 payload) :
    Carries (success id (toolResult payload)) payload := by
  refine ⟨toolResult payload,
    .record [("type", .ofString "text"), ("text", .string payload.compact)],
    payload.compact, ?_, ?_, ?_, ?_, Json.read?_compact (regular.mono (by decide))⟩
  · simp [success, member?_response]
  · simp [toolResult, content, member?_record]
  · simp [member?_record, lookup_cons_eq]
  · simp [member?_record]

/-- A line that calls a tool and is answered gets what the tool says, with the name and the text
that were given. -/
theorem answerLine?_of_calls {code : Text} {tool : String} (calls : Calls line tool code)
    (answered : answerLine? wording checker line = some answer) :
    ∃ params, answer = callTool checker (idOf? line) params ∧
      params.member? "name" = some (.ofString tool) ∧
      (params.member? "arguments").bind (Json.member? "code") = some (.string code) := by
  obtain ⟨request, params, arguments, read, method, given, name, arguments', code'⟩ := calls
  refine ⟨params, ?_, name, by rw [arguments', Option.bind_some, code']⟩
  have call : String.ofList (Request.ofJson request).method = "tools/call" :=
    (ofList_getD_eq_iff (by decide)).mpr method
  have params_eq : (Request.ofJson request).params = params := by
    simp [Request.ofJson, given]
  rw [answerLine?] at answered
  split at answered
  · cases answered
  · simp only [read, answer?, call, params_eq, Option.some_inj] at answered
    rw [← answered, idOf?, read]
    rfl

/-- The analyzing tool answers with what the checker finds. -/
theorem callTool_analyze (checker : Checker) (id : Option Json) {params : Json} {code : Text}
    (name : params.member? "name" = some (.ofString "analyze"))
    (given : (params.member? "arguments").bind (Json.member? "code") = some (.string code)) :
    callTool checker id params = success id (toolResult (analyzePayload checker code)) := by
  have tool : String.ofList (((params.member? "name").bind Json.text?).getD []) = "analyze" :=
    (ofList_getD_eq_iff (by decide)).mpr name
  simp only [callTool, tool, given, Option.bind_some, Json.text?]

/-- The mending tool answers with the mended text and what is left. -/
theorem callTool_fix (checker : Checker) (id : Option Json) {params : Json} {code : Text}
    (name : params.member? "name" = some (.ofString "fix"))
    (given : (params.member? "arguments").bind (Json.member? "code") = some (.string code)) :
    callTool checker id params = success id (toolResult (fixPayload checker code)) := by
  have tool : String.ofList (((params.member? "name").bind Json.text?).getD []) = "fix" :=
    (ofList_getD_eq_iff (by decide)).mpr name
  simp only [callTool, tool, given, Option.bind_some, Json.text?]

/-- A line that is answered is answered as it should be: by one line that reads back as a response
to its id, with what was called for. -/
theorem answers_of_answerLine? (answered : answerLine? wording checker line = some answer) :
    Answers checker line answer := by
  obtain ⟨name, body, kind, same, regular⟩ := responds_answerLine? answered
  constructor
  case oneLine => exact Json.newline_not_mem_compact answer
  case readBack =>
    intro faithful
    rw [same]
    exact Json.read?_compact (regular_response name (regular_idOf? faithful) regular)
  case version => rcases kind with rfl | rfl <;> simp [same, member?_response]
  case id => rcases kind with rfl | rfl <;> simp [same, member?_response]
  case outcome => rcases kind with rfl | rfl <;> simp [same, member?_response]
  case analyzed =>
    intro code calls sized
    obtain ⟨params, rfl, tool, given⟩ := answerLine?_of_calls calls answered
    rw [callTool_analyze checker _ tool given]
    refine ⟨_, carries_toolResult _ (regular_analyzePayload sized), ?_⟩
    exact showsAll_record (by simp [member?_record, lookup_cons_eq])
  case fixed =>
    intro code calls sized sized'
    obtain ⟨params, rfl, tool, given⟩ := answerLine?_of_calls calls answered
    rw [callTool_fix checker _ tool given]
    refine ⟨_, carries_toolResult _ (regular_fixPayload sized sized'), ?_, ?_⟩
    · simp [fixPayload, member?_record, lookup_cons_eq]
    · exact showsAll_record (by simp [member?_record])

/-- Answering lines one by one gives the output that they should have. -/
theorem transcript_filterMap (wording : Text → Text) (checker : Checker) (lines : List Text) :
    Transcript checker lines
      (lines.filterMap fun line => (answerLine? wording checker line).map Json.compact) := by
  induction lines with
  | nil => exact .nil
  | cons line rest ih =>
    rw [List.filterMap_cons]
    cases answered : answerLine? wording checker line with
    | none =>
      exact .silent ((answerLine?_eq_none_iff wording checker line).mp answered) ih
    | some answer =>
      refine .answered ?_ (answers_of_answerLine? answered) ih
      rw [← answerLine?_eq_none_iff wording checker line, answered]
      exact Option.some_ne_none answer

/-- For any checker, any stream and any words for lines that are not JSON: the lines up to the
first that is no text are answered in their order, each on one line of output that reads back, or
passed over in silence. After texts that end in a newline the server goes on as if it had just been
started. -/
theorem serve_answers_line_by_line (wording : Text → Text) (checker : Checker) (input : Bytes) :
    (∃ lines, (∀ others, Received input others ↔ others = lines) ∧
        Transcript checker lines (serve wording checker input)) ∧
      ∀ front text rest, Text.decode? front = some text →
        (∀ byte ∈ front.getLast?, byte = 10) →
        serve wording checker (front ++ rest) =
          serve wording checker front ++ serve wording checker rest := by
  constructor
  · obtain ⟨lines, received, served⟩ := exists_received wording checker input
    refine ⟨lines, ?_, ?_⟩
    · intro others
      constructor
      · intro received'
        exact received'.unique received
      · rintro rfl
        exact received
    · rw [served]
      exact transcript_filterMap wording checker lines
  · intro front text rest decoded ends
    rw [serve, Bytes.lines_append ends]
    apply answers_append
    intro bytes mem
    rw [← Text.encode_of_decode? decoded] at mem
    exact Text.decode?_isSome_of_mem_lines mem

/-- The request of a client that calls a tool with a text. -/
def callRequest (id : Json) (tool : String) (code : Text) : Json :=
  .record
    [("id", id), ("method", .ofString "tools/call"),
     ("params", .record
        [("name", .ofString tool), ("arguments", .record [("code", .string code)])])]

section

variable {id : Json} (known : Regular ReadsBack 126 id) (tool : String) (code : Text)

include known

/-- The request of a client is read back from its line. -/
theorem read?_callRequest :
    Json.read? (callRequest id tool code).compact = some (callRequest id tool code) := by
  have params : Regular ReadsBack 126 (.record
      [("name", .ofString tool), ("arguments", .record [("code", .string code)])]) := by
    grind [regular_record, regular_ofString, Regular.string]
  apply Json.read?_compact
  refine regular_record (by decide) ?_
  simp only [List.forall_mem_cons, List.not_mem_nil, false_implies, implies_true, and_true]
  exact ⟨known, regular_ofString _ _, params⟩

/-- Every tool can be called with every text. -/
theorem calls_callRequest : Calls (callRequest id tool code).compact tool code := by
  refine ⟨callRequest id tool code,
    .record [("name", .ofString tool), ("arguments", .record [("code", .string code)])],
    .record [("code", .string code)], read?_callRequest known tool code, ?_, ?_, ?_, ?_, ?_⟩
  all_goals simp [callRequest, member?_record, lookup_cons_eq]

/-- The id on the line of a request is the one it was given. -/
theorem idOf?_callRequest : idOf? (callRequest id tool code).compact = some id := by
  rw [idOf?, read?_callRequest known, Option.bind_some]
  simp [callRequest, member?_record, lookup_cons_eq]

/-- Such a request does not go without an answer. -/
theorem not_silent_callRequest : ¬Silent (callRequest id tool code).compact := by
  rintro (blank | ⟨request, method, read, named, kind⟩)
  · cases blank '\x7b' List.mem_cons_self
  · rw [read?_callRequest known, Option.some_inj] at read
    subst read
    have called : (callRequest id tool code).member? "method" = some (.ofString "tools/call") := by
      simp [callRequest, member?_record, lookup_cons_eq]
    rw [called] at named
    rcases kind with rfl | rfl <;> simp [Json.ofString] at named

end

/-- One and a half is read back. -/
theorem readsBack_half : ReadsBack (.binary false ⟨6755399441055744, -52⟩) := by
  have shown : Json.numberText (.binary false ⟨6755399441055744, -52⟩) = "1.5".toList := by
    decide +kernel
  refine ⟨⟨false, ['1'], some ['5'], none⟩, ?_, by decide +kernel⟩
  rw [shown]
  rfl

/-- Behind a blank line, a call whose id is one and a half and whose text has a mistake and a
newline in it. -/
theorem serve_answers_call_behind_blank :
    let wording : Text → Text := fun _ => "expected value".toList
    let checker : Checker := ⟨⟨[Spelling.documentName]⟩, fun _ => .failed, .none⟩
    let id : Json := .number (.binary false ⟨6755399441055744, -52⟩)
    let code : Text := "docuemnt\n".toList
    let line : Text := (callRequest id "analyze" code).compact
    serve wording checker ([10] ++ line.encode) =
        serve wording checker [10] ++ serve wording checker line.encode ∧
      ∃ response payload, serve wording checker line.encode = [response.compact] ∧
        Json.read? response.compact = some response ∧ response.member? "id" = some id ∧
        Carries response payload ∧ ShowsAll payload (checker.inspect code) ∧
        (checker.inspect code).length = 1 := by
  intro wording checker id code line
  have known : Regular ReadsBack 126 id := .number readsBack_half
  have faithful : (Json.orNull (idOf? line)).Faithful := by
    rw [idOf?_callRequest known]
    rintro negative magnitude ⟨⟩
    exact Json.read?_compact (.number readsBack_half)
  have received : Received line.encode [line] := by
    refine .last ?_ ?_ (Text.decode?_encode line)
    · exact Text.newline_not_mem_encode (Json.newline_not_mem_compact _)
    · exact Text.encode_ne_nil _ _
  refine ⟨(serve_answers_line_by_line wording checker []).2 [10] ['\n'] line.encode
    (Text.decode?_encode ['\n']) (by simp), ?_⟩
  obtain ⟨lines, taken, transcript⟩ := (serve_answers_line_by_line wording checker line.encode).1
  rw [← (taken _).mp received] at transcript
  generalize serve wording checker line.encode = output at transcript
  cases transcript with
  | silent silence later => exact absurd silence (not_silent_callRequest known "analyze" code)
  | answered loud answers later =>
    cases later
    obtain ⟨payload, carries, shows⟩ :=
      answers.analyzed code (calls_callRequest known "analyze" code) (by decide +kernel)
    refine ⟨_, payload, rfl, answers.readBack faithful, ?_, carries, shows, by decide +kernel⟩
    rw [answers.id, idOf?_callRequest known]
    rfl

end ScriptCheck.Server
