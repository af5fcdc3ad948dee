/-
  FileAccess/Settings/Basic.lean
  ==============================
  **The settings of the library, and documents that say what they are.**

  There are three settings, each with a value that holds unless a document gives
  another.  A document is read as a list of statements, assignments and headers,
  in their order.  It is refused when it names an unknown setting, when it gives a
  setting twice, and when a value is not of the setting's kind: values are never
  converted.

  The format of timestamps is a choice, which can be given in two ways: as a text,
  or as a table in which the choice is the only name and nothing is under that
  name.  A table can be written as a value, line by line with dotted names, or
  below headers.
-/
import FileAccess.Lines.Source

namespace FileAccess

structure Settings where
  mtimeFormat : Timestamp.Format := .fractional
  stripNewlines : Bool := true
  mapThreshold : Nat := Store.defaultThreshold
deriving DecidableEq, Repr

namespace Settings

def standard : Settings := {}

def preferences (settings : Settings) (host : Host) : Preferences × Host :=
  Preferences.create settings.mtimeFormat host

def lineOptions (settings : Settings) (preferences : Preferences) : LineOptions :=
  { LineOptions.standard preferences with
    strip := settings.stripNewlines
    threshold := settings.mapThreshold }

/-! ### Statements -/

/-- A value written in a document.  `empty` is a list or a table with nothing in
    it, and `choice name` a table whose only name is `name`, with nothing under
    it.  Other lists and tables are no value of any setting. -/
inductive Literal where
  | text (chars : List Char)
  | flag (value : Bool)
  | number (value : Int)
  | empty
  | choice (name : List Char)
deriving DecidableEq, Repr

inductive Key where
  | simple (name : List Char)
  | dotted (table name : List Char)
deriving DecidableEq, Repr

/-- A statement gives a value to a key, or opens the table that a key names. -/
inductive Statement where
  | assignment (key : Key) (value : Literal)
  | header (key : Key)
deriving DecidableEq, Repr

def mtimeFormatKey : List Char :=
  "mtime_format".toList

def stripNewlinesKey : List Char :=
  "strip_newlines".toList

def mapThresholdKey : List Char :=
  "mmap_threshold".toList

def formatOfWord? (word : List Char) : Option Timestamp.Format :=
  if word = "integer".toList then some .integer
  else if word = "fractional".toList then some .fractional
  else none

/-! ### The choice of a format -/

/-- What a document has said about the format so far.  A format that is `given` in
    one assignment is settled.  A `table` may still take a choice while it has
    none, and a header of its own while it is not `headed`. -/
inductive FormatDraft where
  | unsaid
  | given (format : Timestamp.Format)
  | table (headed : Bool) (choice : Option Timestamp.Format)
deriving DecidableEq, Repr

namespace FormatDraft

def give (word : List Char) : FormatDraft → Option FormatDraft
  | unsaid => (formatOfWord? word).map given
  | _ => none

def openTable : FormatDraft → Option FormatDraft
  | unsaid => some (table true none)
  | table false choice => some (table true choice)
  | _ => none

def choose (word : List Char) : FormatDraft → Option FormatDraft
  | unsaid => (formatOfWord? word).map fun format => table false (some format)
  | table headed none => (formatOfWord? word).map fun format => table headed (some format)
  | _ => none

def format? : FormatDraft → Option Timestamp.Format
  | unsaid => some standard.mtimeFormat
  | given format => some format
  | table _ choice => choice

end FormatDraft

/-! ### Following a document -/

/-- Where an assignment stands: before every header, below the header of the table
    of the format, or below the header of a choice in it. -/
inductive Place where
  | top
  | formatTable
  | choiceTable
deriving DecidableEq, Repr

structure Draft where
  place : Place := .top
  mtimeFormat : FormatDraft := .unsaid
  stripNewlines : Option Bool := none
  mapThreshold : Option Nat := none
deriving DecidableEq, Repr

namespace Draft

def withFormat (draft : Draft) (format : Option FormatDraft) : Option Draft :=
  format.map fun format => { draft with mtimeFormat := format }

def assignSetting (draft : Draft) (name : List Char) (value : Literal) : Option Draft :=
  if name = mtimeFormatKey then
    match value with
    | .text word => draft.withFormat (draft.mtimeFormat.give word)
    | .choice word => draft.withFormat (draft.mtimeFormat.give word)
    | _ => none
  else if name = stripNewlinesKey then
    match draft.stripNewlines, value with
    | none, .flag value => some { draft with stripNewlines := some value }
    | _, _ => none
  else if name = mapThresholdKey then
    match draft.mapThreshold, value with
    | none, .number value =>
      if 0 ≤ value then some { draft with mapThreshold := some value.toNat } else none
    | _, _ => none
  else none

/-- Make an assignment.  A dotted key before every header gives the format at one
    go, a simple key in the table of the format is a choice, and a choice has
    nothing under it. -/
def assign (draft : Draft) (key : Key) (value : Literal) : Option Draft :=
  match draft.place, key with
  | .top, .simple name => draft.assignSetting name value
  | .top, .dotted table name =>
    if table = mtimeFormatKey ∧ value = .empty then draft.withFormat (draft.mtimeFormat.give name)
    else none
  | .formatTable, .simple name =>
    if value = .empty then draft.withFormat (draft.mtimeFormat.choose name) else none
  | _, _ => none

def enter (draft : Draft) (key : Key) : Option Draft :=
  match key with
  | .simple name =>
    if name = mtimeFormatKey then
      { draft with place := .formatTable }.withFormat draft.mtimeFormat.openTable
    else none
  | .dotted table name =>
    if table = mtimeFormatKey then
      { draft with place := .choiceTable }.withFormat (draft.mtimeFormat.choose name)
    else none

def follow (draft : Draft) : Statement → Option Draft
  | .assignment key value => draft.assign key value
  | .header key => draft.enter key

def complete? (draft : Draft) : Option Settings :=
  draft.mtimeFormat.format?.map fun format =>
    { mtimeFormat := format
      stripNewlines := draft.stripNewlines.getD standard.stripNewlines
      mapThreshold := draft.mapThreshold.getD standard.mapThreshold }

end Draft

def ofStatements? (statements : List Statement) : Option Settings :=
  (statements.foldlM Draft.follow {}).bind Draft.complete?

end Settings

end FileAccess
