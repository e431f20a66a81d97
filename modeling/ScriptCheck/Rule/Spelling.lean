import ScriptCheck.Rule.Basic

/-!
# Misspelled names

Three rules know the usual misspellings of a name. They report whole words in code and
put the right spelling in their place.
-/

namespace ScriptCheck.Spelling

open Pattern

/-- The rule for the misspellings of one name. -/
def misspelling (id message : String) (wrong : List String) (right : String) : Rule where
  id := id
  pattern := sequence [edge, litOf wrong, edge]
  message := message
  severity := .error
  confirm := some fun site => pure (site.layout.inCode site.found.start)
  remedy := some fun _ _ => some right.toList

def functionKeyword : Rule :=
  misspelling "function-keyword-typo" "Misspelled keyword 'function'"
    ["fucntion", "funtion", "functoin"] "function"

def documentName : Rule :=
  misspelling "document-typo" "Misspelled global 'document'" ["docuemnt", "documnet"] "document"

def elementLookup : Rule :=
  misspelling "get-element-by-id-case" "Incorrect case in 'getElementById'" ["getElementByID"]
    "getElementById"

end ScriptCheck.Spelling
