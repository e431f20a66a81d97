import ScriptCheck.Text.Basic

/-!
# Names defined outside a text

A call is not reported when its name comes from the surroundings a script runs in. The
built-in names are those of the language, of browsers and of servers.
-/

namespace ScriptCheck

/-- A set of names, each listed once. -/
structure Globals where
  names : List Text
  deriving Repr

namespace Globals

def none : Globals := ⟨[]⟩

def knows (globals : Globals) (name : Text) : Bool := globals.names.contains name

def insert (globals : Globals) (name : Text) : Globals :=
  if globals.knows name then globals else ⟨globals.names ++ [name]⟩

/-- The set with further names. -/
def extend (globals : Globals) (names : List Text) : Globals := names.foldl insert globals

def size (globals : Globals) : Nat := globals.names.length

def languageNames : List String :=
  ["Array", "ArrayBuffer", "BigInt", "Boolean", "DataView", "Date", "Error", "EvalError",
   "Float32Array", "Float64Array", "Function", "Int8Array", "Int16Array", "Int32Array", "Intl",
   "JSON", "Map", "Math", "Number", "Object", "Promise", "Proxy", "RangeError", "ReferenceError",
   "Reflect", "RegExp", "Set", "String", "Symbol", "SyntaxError", "TypeError", "URIError",
   "Uint8Array", "Uint16Array", "Uint32Array", "WeakMap", "WeakRef", "WeakSet", "decodeURI",
   "decodeURIComponent", "encodeURI", "encodeURIComponent", "eval", "globalThis", "isFinite",
   "isNaN", "parseFloat", "parseInt"]

def browserNames : List String :=
  ["alert", "atob", "btoa", "cancelAnimationFrame", "clearInterval", "clearTimeout", "confirm",
   "console", "document", "fetch", "getComputedStyle", "localStorage", "location", "navigator",
   "prompt", "queueMicrotask", "requestAnimationFrame", "sessionStorage", "setInterval",
   "setTimeout", "structuredClone", "window", "AbortController", "Blob", "CustomEvent", "Event",
   "FileReader", "FormData", "Headers", "Image", "IntersectionObserver", "MutationObserver",
   "Request", "Response", "URL", "URLSearchParams", "WebSocket", "Worker", "XMLHttpRequest"]

def serverNames : List String :=
  ["Buffer", "clearImmediate", "exports", "global", "module", "process", "require",
   "setImmediate"]

/-- The names every script may call. -/
def builtin : Globals :=
  none.extend ((languageNames ++ browserNames ++ serverNames).map String.toList)

end Globals

end ScriptCheck
