/-
  FileAccess/Settings/Document.lean
  =================================
  **Settings documents.**

  A document is a sequence of lines, each blank, a comment, or a statement with
  perhaps a comment after it.  A statement is an assignment, or a header in brackets
  that opens a table.  Its key is a name, or two names with a dot between them:
  keys of more parts are no part of this grammar, since they could only name
  settings that do not exist, and nor are headers in double brackets.  `read?` gives
  the settings that a document makes, and there is a writer of the line for each
  setting.
-/
import FileAccess.Settings.Literal

namespace FileAccess

namespace Settings

/-! ### Lines -/

def lineEnd? : List Char → Option (List Char)
  | [] => some []
  | cs => lineBreak? cs

def lineRest? (cs : List Char) : Option (List Char) :=
  match skipBlanks cs with
  | '#' :: cs => lineEnd? (cs.dropWhile isPlain)
  | cs => lineEnd? cs

def key? (cs : List Char) : Option (Key × List Char) := do
  let (first, cs) ← name? cs
  match skipBlanks cs with
  | '.' :: cs =>
    let (second, cs) ← name? (skipBlanks cs)
    return (.dotted first second, cs)
  | _ => return (.simple first, cs)

def header? (cs : List Char) : Option (Statement × List Char) := do
  let (key, cs) ← key? (skipBlanks cs)
  match skipBlanks cs with
  | ']' :: cs => return (.header key, cs)
  | _ => none

def assignment? (cs : List Char) : Option (Statement × List Char) := do
  let (key, cs) ← key? cs
  match skipBlanks cs with
  | '=' :: cs =>
    let (value, cs) ← literal? (skipBlanks cs)
    return (.assignment key value, cs)
  | _ => none

def statement? : List Char → Option (Statement × List Char)
  | '[' :: cs => header? cs
  | cs => assignment? cs

/-- A line: its statement, if it has one, and what follows it. -/
def line? (cs : List Char) : Option (Option Statement × List Char) := do
  match skipBlanks cs with
  | [] => return (none, [])
  | c :: cs =>
    if c == '#' || c == '\n' || c == '\r' then
      let rest ← lineRest? (c :: cs)
      return (none, rest)
    else
      let (statement, cs) ← statement? (c :: cs)
      let rest ← lineRest? cs
      return (some statement, rest)

/-- The statements of at most `n` lines that make up a document, after those already
    found (newest first). -/
def statementsFrom? (found : List Statement) : Nat → List Char → Option (List Statement)
  | _, [] => some found.reverse
  | 0, _ :: _ => none
  | n + 1, c :: cs =>
    match line? (c :: cs) with
    | none => none
    | some (statement, rest) => statementsFrom? (statement.toList ++ found) n rest

/-- The statements of a document.  Each line takes a character at least, so there are no
    more lines than characters. -/
def statements? (cs : List Char) : Option (List Statement) :=
  statementsFrom? [] cs.length cs

def skipMark : List Char → List Char
  | '\uFEFF' :: cs => cs
  | cs => cs

def read? (document : String) : Option Settings :=
  (statements? (skipMark document.toList)).bind ofStatements?

def ofDocument (document : String) : Except Error Settings :=
  match read? document with
  | some settings => .ok settings
  | none => .error (.settings .malformed)

/-! ### Writing -/

def wordOfFormat : Timestamp.Format → String
  | .integer => "integer"
  | .fractional => "fractional"

def mtimeFormatLine (format : Timestamp.Format) : String :=
  "mtime_format = \"" ++ wordOfFormat format ++ "\"\n"

def stripNewlinesLine (strip : Bool) : String :=
  "strip_newlines = " ++ (if strip then "true" else "false") ++ "\n"

def mapThresholdLine (threshold : Nat) : String :=
  "mmap_threshold = " ++ toString threshold ++ "\n"

end Settings

end FileAccess
