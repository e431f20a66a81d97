import ScriptCheck.Proofs.ServedLines

/-!
# Notifications

A request without an id is a notification, and whoever sends one does not wait for an
answer. The server does not ask whether there is an id. It tells a notification by its
method, and it knows the methods of two. These two are passed over in silence, with or
without an id. Every other request is answered on a line of its own, and when it has no id
the answer has a null in its place. So an answer comes back to a notification with the
method of a request, to one with a method that the server does not know, and to one
without any method.

The lines in front of a notification and those behind it are answered as if it were not
there.
-/

namespace ScriptCheck

/-- An object is written between braces, so that a text it is read from has one. The other kinds of
value are ruled out by their first character. -/
theorem Json.brace_mem_of_readValue {bound depth : Nat} {text rest : Text}
    {members : List (Text × Json)}
    (read : readValue bound depth text = some (.object members, rest)) : '\x7b' ∈ text := by
  cases bound with
  | zero => simp [readValue] at read
  | succ bound =>
    rw [readValue] at read
    split at read
    · simp at read
    · simp at read
    · simp at read
    · simp at read
    · split at read
      · simp at read
      · split at read <;> simp at read
    · rename_i behind starts
      have listed : '\x7b' ∈ skipGap text := by simp [starts]
      exact (List.dropWhile_suffix _).subset listed
    · -- anything else is read as a number
      obtain ⟨written, -, further⟩ := Option.bind_eq_some_iff.mp read
      obtain ⟨value, -, same⟩ := Option.bind_eq_some_iff.mp further
      cases same

/-- The same for a whole text. -/
theorem Json.brace_mem_of_read? {text : Text} {members : List (Text × Json)}
    (read : read? text = some (.object members)) : '\x7b' ∈ text := by
  obtain ⟨⟨value, rest⟩, started, ended⟩ := Option.bind_eq_some_iff.mp read
  dsimp only at ended
  split at ended
  · cases ended
    exact brace_mem_of_readValue started
  · cases ended

namespace Server

/-! ### What is said of notifications -/

/-- A line with a notification: an object without an id. -/
structure Notifies (line : Text) (members : List (Text × Json)) : Prop where
  read : Json.read? line = some (.object members)
  anonymous : (Json.object members).member? "id" = none

/-- The request names one of the given methods. -/
def Names (members : List (Text × Json)) (methods : List String) : Prop :=
  ∃ method ∈ methods, (Json.object members).member? "method" = some (.ofString method)

/-- The methods of the notifications that are passed over in silence. -/
def hushed : List String := ["notifications/initialized", "notifications/cancelled"]

/-- The methods that the server offers. -/
def offered : List String := ["initialize", "tools/list", "tools/call"]

/-- An answer to a notification: one line that reads back as a response to nobody. It is an
error if the server does not offer the method or none is named. -/
structure Unasked (members : List (Text × Json)) (response : Json) : Prop where
  oneLine : '\n' ∉ response.compact
  readBack : Json.read? response.compact = some response
  id : response.member? "id" = some .null
  unknown : ¬Names members offered → ∃ error, response.member? "error" = some error ∧
    error.member? "code" = some (.number (.whole (-32601)))

/-! ### Answers to notifications -/

section

variable {checker : Checker} {line : Text} {members : List (Text × Json)}

/-- A notification is passed over exactly if its method is hushed. -/
theorem Notifies.silent_iff (notifies : Notifies line members) :
    Silent line ↔ Names members hushed := by
  constructor
  · rintro (blank | ⟨request, method, read, named, kind⟩)
    · cases blank '\x7b' (Json.brace_mem_of_read? notifies.read)
    · rw [notifies.read, Option.some_inj] at read
      subst read
      exact ⟨method, by simpa [hushed] using kind, named⟩
  · rintro ⟨method, kind, named⟩
    exact .inr ⟨_, method, notifies.read, named, by simpa [hushed] using kind⟩

/-- A request whose method is not offered is answered with an error, if it is answered. -/
theorem answer?_of_not_offered {request answer : Json}
    (answered : answer? checker (.ofJson request) = some answer)
    (unknown : ∀ method ∈ offered, request.member? "method" ≠ some (.ofString method)) :
    ∃ error, answer.member? "error" = some error ∧
      error.member? "code" = some (.number (.whole (-32601))) := by
  have other {method : String} (listed : method ∈ offered) (proper : method ≠ "") :
      String.ofList (Request.ofJson request).method ≠ method := by
    intro same
    exact unknown method listed ((ofList_getD_eq_iff proper).mp same)
  rw [answer?] at answered
  split at answered
  · exact absurd ‹_› (other (.head _) (by decide))
  · exact absurd ‹_› (other (.tail _ (.head _)) (by decide))
  · exact absurd ‹_› (other (.tail _ (.tail _ (.head _))) (by decide))
  · cases answered
  · cases answered
  · cases answered
    refine ⟨_, member?_response _ _ _ _, ?_⟩
    rw [Json.member?_record]
    rfl

/-- What is answered to a notification goes to nobody, since the line has no id that could be
repeated. -/
theorem Notifies.unasked {wording : Text → Text} {answer : Json} (notifies : Notifies line members)
    (answered : answerLine? wording checker line = some answer) : Unasked members answer := by
  have none : idOf? line = none := by
    rw [idOf?, notifies.read, Option.bind_some, notifies.anonymous]
  have answers := answers_of_answerLine? answered
  have faithful : (Json.orNull (idOf? line)).Faithful := by
    rw [none]
    rintro negative magnitude ⟨⟩
  refine ⟨answers.oneLine, answers.readBack faithful, ?_, ?_⟩
  · rw [answers.id, none]
    rfl
  · intro unknown
    rw [answerLine?] at answered
    split at answered
    · cases answered
    · rw [notifies.read] at answered
      exact answer?_of_not_offered answered
        fun method listed named => unknown ⟨method, listed, named⟩

end

/-- A notification anywhere in a stream: the lines around it are answered as if it were not
there, and the notification itself is passed over in silence if its method is one of two.
Otherwise one line is written for it, a response with a null in the place of the id. -/
theorem serve_answers_notifications (wording : Text → Text) (checker : Checker) {input : Bytes}
    {above below : List Text} {line : Text} {members : List (Text × Json)}
    (received : Received input (above ++ line :: below)) (notifies : Notifies line members) :
    ∃ before reply after, serve wording checker input = before ++ reply ++ after ∧
      Transcript checker above before ∧ Transcript checker below after ∧
      (Names members hushed ∧ reply = [] ∨
        ¬Names members hushed ∧
          ∃ response, reply = [response.compact] ∧ Unasked members response) := by
  obtain ⟨lines, received', served⟩ := exists_received wording checker input
  obtain rfl := received'.unique received
  refine ⟨_, ((answerLine? wording checker line).map Json.compact).toList, _, ?_,
    transcript_filterMap wording checker above, transcript_filterMap wording checker below, ?_⟩
  · rw [served, List.filterMap_append, List.filterMap_cons]
    cases answerLine? wording checker line <;> simp
  · rw [← notifies.silent_iff, ← answerLine?_eq_none_iff wording checker line]
    cases answered : answerLine? wording checker line with
    | none => exact .inl ⟨rfl, rfl⟩
    | some answer =>
      exact .inr ⟨Option.some_ne_none answer, answer, rfl, notifies.unasked answered⟩

/-! ### A client that gives notice -/

/-- The members of a notification of the given method. -/
def notice (method : String) : List (Text × Json) :=
  [("jsonrpc".toList, .ofString "2.0"), ("method".toList, .ofString method)]

/-- What is written for a notification is a line with one. -/
theorem notifies_notice (method : String) :
    Notifies (Json.object (notice method)).compact (notice method) := by
  have sorted : Json.object (notice method) =
      .record [("jsonrpc", .ofString "2.0"), ("method", .ofString method)] := rfl
  constructor
  case read =>
    apply Json.read?_compact
    rw [sorted]
    refine Json.regular_record (by decide) ?_
    simp [Json.regular_ofString]
  case anonymous =>
    rw [sorted, Json.member?_record]
    rfl

/-- A notification names a method exactly if that is its own. -/
theorem names_notice_iff (method : String) (methods : List String) :
    Names (notice method) methods ↔ method ∈ methods := by
  have given : (Json.object (notice method)).member? "method" = some (.ofString method) := rfl
  constructor
  · rintro ⟨other, listed, named⟩
    rw [given] at named
    simp only [Json.ofString, Option.some_inj, Json.string.injEq, String.toList_inj] at named
    rwa [named]
  · exact fun listed => ⟨method, listed, given⟩

/-- Behind a blank line and in front of a notification that is passed over, one of progress is
answered. -/
theorem serve_answers_notice_between_silent :
    let wording : Text → Text := fun _ => "expected value".toList
    let checker : Checker := ⟨⟨[]⟩, fun _ => .accepted, .none⟩
    let line : Text := (Json.object (notice "notifications/progress")).compact
    let last : Text := (Json.object (notice "notifications/initialized")).compact
    let input : Bytes := 10 :: (line.encode ++ 10 :: last.encode)
    Received input ([[]] ++ line :: [last]) ∧
      ∃ response, Unasked (notice "notifications/progress") response ∧
        serve wording checker input = [response.compact] := by
  intro wording checker line last input
  have single (method : String) : 10 ∉ (Json.object (notice method)).compact.encode :=
    Text.newline_not_mem_encode (Json.newline_not_mem_compact _)
  have ended : Received (line.encode ++ 10 :: last.encode) [line, last] :=
    .line (single _) (by decide +kernel)
      (.last (single _) (Text.encode_ne_nil _ _) (Text.decode?_encode last))
  have received : Received input ([[]] ++ line :: [last]) :=
    .line List.not_mem_nil (by decide +kernel) ended
  refine ⟨received, ?_⟩
  obtain ⟨before, reply, after, served, above, below, outcome⟩ :=
    serve_answers_notifications wording checker received (notifies_notice _)
  have nothing : before = [] := by
    cases above with
    | silent _ later =>
      cases later
      rfl
    | answered loud => exact absurd (.inl (by simp)) loud
  have nothing' : after = [] := by
    cases below with
    | silent _ later =>
      cases later
      rfl
    | answered loud =>
      have hush : Names (notice "notifications/initialized") hushed :=
        (names_notice_iff _ _).mpr (by decide)
      exact absurd ((notifies_notice _).silent_iff.mpr hush) loud
  rcases outcome with ⟨hush, -⟩ | ⟨-, response, rfl, unasked⟩
  · exact absurd ((names_notice_iff _ _).mp hush) (by decide)
  · refine ⟨response, unasked, ?_⟩
    rw [served, nothing, nothing', List.nil_append, List.append_nil]

/-- A notification of progress gets an answer, an error that nobody asked for. Its id is null, as
the line has none. -/
theorem serve_answers_progress :
    let wording : Text → Text := fun _ => "expected value".toList
    let checker : Checker := ⟨⟨[]⟩, fun _ => .accepted, .none⟩
    let line : Text := (Json.object (notice "notifications/progress")).compact
    Notifies line (notice "notifications/progress") ∧
      serve wording checker (line.encode ++ [10]) =
        [("\x7b\"error\":\x7b\"code\":-32601," ++
          "\"message\":\"Unknown method: notifications/progress\"\x7d," ++
          "\"id\":null,\"jsonrpc\":\"2.0\"\x7d").toList] :=
  ⟨notifies_notice _, by decide +kernel⟩

end Server

end ScriptCheck
