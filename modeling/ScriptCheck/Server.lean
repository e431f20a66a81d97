import ScriptCheck.Checker
import ScriptCheck.Json.Reader
import ScriptCheck.Output.Structured
import ScriptCheck.Text.Blank
import ScriptCheck.Text.Lines

/-!
# The tool server

The server reads one JSON-RPC request from each line and writes one line in answer,
except to two kinds of notification. It offers three tools: finding mistakes in a text,
mending it, and listing the rules in force. It stops at a line that is not UTF-8.

The answer to a line that is not JSON quotes what the reader of JSON says about it. Its words
are not covered: they are a parameter, `wording`, which gives them for each such line.
-/

namespace ScriptCheck.Server

/-- What a request asks for. A request need not be an object; one that is not has no
members. -/
structure Request where
  id : Option Json
  method : Text
  params : Json

def Request.ofJson (value : Json) : Request where
  id := value.member? "id"
  method := ((value.member? "method").bind Json.text?).getD []
  params := (value.member? "params").getD (.object [])

/-- A response to the request of the given id. -/
def response (id : Option Json) (name : String) (body : Json) : Json :=
  .record [("jsonrpc", .ofString "2.0"), ("id", .orNull id), (name, body)]

def success (id : Option Json) (result : Json) : Json := response id "result" result

def failure (id : Option Json) (code : Int) (message : Text) : Json :=
  response id "error" (.record [("code", .number (.whole code)), ("message", .string message)])

/-! ### What the server says of itself -/

def greeting : Json :=
  .record
    [("protocolVersion", .ofString "2024-11-05"),
     ("capabilities", .record [("tools", .record [])]),
     ("serverInfo", .record [("name", .ofString "jscheck"), ("version", .ofString "0.1.0")])]

/-- The shape of arguments that hold a text. -/
def codeSchema : Json :=
  .record
    [("type", .ofString "object"),
     ("properties", .record
        [("code", .record
          [("type", .ofString "string"), ("description", .ofString "JavaScript source text")])]),
     ("required", .array [.ofString "code"])]

/-- The shape of empty arguments. -/
def emptySchema : Json := .record [("type", .ofString "object"), ("properties", .record [])]

def toolEntry (name description : String) (schema : Json) : Json :=
  .record
    [("name", .ofString name), ("description", .ofString description), ("inputSchema", schema)]

def toolList : Json :=
  .record [("tools", .array
    [toolEntry "analyze"
      ("Find common JavaScript mistakes. " ++
        "Returns findings with positions and fix suggestions.") codeSchema,
     toolEntry "fix" "Apply every automatic fix and return the corrected code." codeSchema,
     toolEntry "list_rules" "List the enabled rules." emptySchema])]

/-! ### The tools -/

def analyzePayload (checker : Checker) (code : Text) : Json :=
  let findings := checker.inspect code
  .record
    [("findings", Output.findingsJson findings),
     ("summary", .record (Output.countMembers findings))]

def fixPayload (checker : Checker) (code : Text) : Json :=
  let report := checker.mend code
  .record
    [("fixed", .string report.text),
     ("applied", .ofNat report.applied),
     ("skipped", .ofNat (report.skippedOverlap + report.skippedStale)),
     ("findings", Output.findingsJson (checker.inspect report.text))]

def ruleJson (rule : Rule) : Json :=
  .record
    [("id", .ofString rule.id), ("severity", .ofString rule.severity.label),
     ("fixable", .bool rule.isFixable), ("message", .ofString rule.message)]

def rulesPayload (checker : Checker) : Json :=
  .record [("rules", .array (checker.catalogue.rules.map ruleJson))]

/-- A result that is one piece of text. -/
def content (text : Text) : String × Json :=
  ("content", .array [.record [("type", .ofString "text"), ("text", .string text)]])

/-- The result of a tool: its payload, written as JSON, as a text. -/
def toolResult (payload : Json) : Json := .record [content payload.compact]

/-- The result of a tool that lacks its text. -/
def missingCode : Json :=
  .record [content "Error: missing required argument 'code'".toList, ("isError", .bool true)]

/-- Call a tool. -/
def callTool (checker : Checker) (id : Option Json) (params : Json) : Json :=
  let tool := ((params.member? "name").bind Json.text?).getD []
  let code := ((params.member? "arguments").bind (Json.member? "code")).bind Json.text?
  match String.ofList tool, code with
  | "analyze", some code => success id (toolResult (analyzePayload checker code))
  | "fix", some code => success id (toolResult (fixPayload checker code))
  | "list_rules", _ => success id (toolResult (rulesPayload checker))
  | "analyze", none => success id missingCode
  | "fix", none => success id missingCode
  | _, _ => failure id (-32602) ("Unknown tool: ".toList ++ tool)

/-! ### Requests -/

/-- The answer to a request, if it gets one. -/
def answer? (checker : Checker) (request : Request) : Option Json :=
  match String.ofList request.method with
  | "initialize" => some (success request.id greeting)
  | "tools/list" => some (success request.id toolList)
  | "tools/call" => some (callTool checker request.id request.params)
  | "notifications/initialized" => none
  | "notifications/cancelled" => none
  | _ => some (failure request.id (-32601) ("Unknown method: ".toList ++ request.method))

/-- The answer to a line, if it gets one. -/
def answerLine? (wording : Text → Text) (checker : Checker) (line : Text) : Option Json :=
  if line.trim.isEmpty then
    none
  else
    match Json.read? line with
    | some value => answer? checker (.ofJson value)
    | none => some (failure none (-32700) ("Parse error: ".toList ++ wording line))

/-- The answers to lines of bytes, up to the first that is no text. -/
def answers (wording : Text → Text) (checker : Checker) : List Bytes → List Text
  | [] => []
  | bytes :: rest =>
    match Text.decode? bytes with
    | none => []
    | some line =>
      ((answerLine? wording checker line).map Json.compact).toList ++ answers wording checker rest

/-- The lines that the server writes when it is given a stream. -/
def serve (wording : Text → Text) (checker : Checker) (input : Bytes) : List Text :=
  answers wording checker input.lines

end ScriptCheck.Server
