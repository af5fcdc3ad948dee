/-
  FileAccess/Proofs/Settings/Spelling.lean
  ========================================
  **Values and lines as a document spells them.**

  The document format has more kinds of values than settings have: beside texts, flags and
  integers there are floating point numbers, dates and times, lists and tables.  Each value
  is spelled in one way here, and so is each name and each line that gives a value to a
  key (`Entry`).  A key of several names says that the value stands in a table, which
  stands under the first name (`Entry.whole`).

  The three settings are fields, each with its key and its value (`Field`), and the line of
  a field is the one that the writers of the library write (`toList_line`).
-/
import FileAccess.Settings.Document
import Mathlib.Data.List.Basic

namespace FileAccess

namespace Settings

/-! ### Texts and names -/

/-- A character in quotes: those that do not stand for themselves are escaped. -/
def escape (c : Char) : List Char :=
  if c = '"' ∨ c = '\\' then ['\\', c]
  else if isPlain c then [c]
  else ['\\', 'u', '0', '0', (c.toNat / 16).digitChar, (c.toNat % 16).digitChar]

def quoted (text : List Char) : List Char :=
  '"' :: text.flatMap escape ++ ['"']

/-- A name stands without quotes where it can. -/
def nameSpelling (name : List Char) : List Char :=
  if name ≠ [] ∧ name.all isBareChar then name else quoted name

/-! ### Numbers, dates and times -/

def digits (n : Nat) : List Char :=
  Nat.toDigits 10 n

def padded (width n : Nat) : List Char :=
  (Binary64.paddedDigits width n).toList

def signed (negative : Bool) (text : List Char) : List Char :=
  if negative then '-' :: text else text

/-- What may be left out is spelled where it is there. -/
def optional {α : Type} (spelling : α → List Char) : Option α → List Char
  | none => []
  | some value => spelling value

def integerSpelling (n : Int) : List Char :=
  signed (decide (n < 0)) (digits n.natAbs)

structure Date where
  year : Nat
  month : Nat
  day : Nat

def Date.spelling (date : Date) : List Char :=
  padded 4 date.year ++ '-' :: (padded 2 date.month ++ '-' :: padded 2 date.day)

/-- A time of the day, with the places and the units of its fraction of a second. -/
structure Time where
  hour : Nat
  minute : Nat
  second : Nat
  fraction : Option (Nat × Nat)

def Time.spelling (time : Time) : List Char :=
  padded 2 time.hour ++ ':' :: (padded 2 time.minute ++ ':' :: (padded 2 time.second ++
    optional (fun (places, units) => '.' :: padded (places + 1) units) time.fraction))

/-- How far from universal time a clock is. -/
structure Offset where
  behind : Bool
  hour : Nat
  minute : Nat

def Offset.spelling (offset : Offset) : List Char :=
  (if offset.behind then '-' else '+') :: padded 2 offset.hour ++ ':' :: padded 2 offset.minute

/-! ### Values -/

/-- The values of the document format. -/
inductive Value where
  | text (chars : List Char)
  | flag (value : Bool)
  | integer (value : Int)
  | float (negative : Bool) (whole places units : Nat) (exponent : Option Int)
  | infinity (negative : Bool)
  | notANumber
  | date (day : Date)
  | time (clock : Time)
  | dateTime (day : Date) (clock : Time) (offset : Option Offset)
  | list (items : List Value)
  | table (entries : List (List Char × Value))

inductive Kind where
  | text
  | flag
  | integer
  | float
  | date
  | time
  | dateTime
  | list
  | table
deriving DecidableEq, Repr

namespace Value

def kind : Value → Kind
  | text _ => .text
  | flag _ => .flag
  | integer _ => .integer
  | float .. => .float
  | infinity _ => .float
  | notANumber => .float
  | date _ => .date
  | time _ => .time
  | dateTime .. => .dateTime
  | list _ => .list
  | table _ => .table

mutual

def spelling : Value → List Char
  | text chars => quoted chars
  | flag value => (if value then "true" else "false").toList
  | integer value => integerSpelling value
  | float negative whole places units exponent =>
    signed negative (digits whole ++ '.' :: (padded (places + 1) units ++
      optional (fun exponent => 'e' :: integerSpelling exponent) exponent))
  | infinity negative => signed negative "inf".toList
  | notANumber => "nan".toList
  | date day => day.spelling
  | time clock => clock.spelling
  | dateTime day clock offset =>
    day.spelling ++ 'T' :: (clock.spelling ++ optional Offset.spelling offset)
  | list [] => ['[', ']']
  | list (item :: items) => '[' :: (item.spelling ++ (furtherItems items ++ [']']))
  | table [] => ['{', '}']
  | table ((name, value) :: entries) =>
    '{' :: (nameSpelling name ++ ' ' :: '=' :: ' ' :: (value.spelling ++
      (furtherEntries entries ++ ['}'])))

def furtherItems : List Value → List Char
  | [] => []
  | item :: items => ',' :: ' ' :: (item.spelling ++ furtherItems items)

def furtherEntries : List (List Char × Value) → List Char
  | [] => []
  | (name, value) :: entries =>
    ',' :: ' ' :: (nameSpelling name ++ ' ' :: '=' :: ' ' :: (value.spelling ++
      furtherEntries entries))

end

/-- A list or a table with nothing in it. -/
def isEmpty : Value → Bool
  | list [] => true
  | table [] => true
  | _ => false

/-- The name that a table chooses: the only one in it, with nothing under it. -/
def choice? : Value → Option (List Char)
  | table [(name, value)] => if value.isEmpty then some name else none
  | _ => none

end Value

/-! ### Lines -/

/-- A line of a document that gives a value to a key of one or more names. -/
structure Entry where
  name : List Char
  path : List (List Char) := []
  value : Value

namespace Entry

def spelling (entry : Entry) : List Char :=
  nameSpelling entry.name ++ (entry.path.flatMap (fun name => '.' :: nameSpelling name) ++
    ' ' :: '=' :: ' ' :: (entry.value.spelling ++ ['\n']))

def line (entry : Entry) : String :=
  String.ofList entry.spelling

/-- What stands under the first name: the names after it are those of tables, each the only
    name in the one before. -/
def whole (entry : Entry) : Value :=
  entry.path.foldr (fun name value => .table [(name, value)]) entry.value

end Entry

/-! ### Fields -/

/-- The three settings. -/
inductive Field where
  | mtimeFormat
  | stripNewlines
  | mapThreshold
deriving DecidableEq, Repr

namespace Field

def key : Field → List Char
  | mtimeFormat => mtimeFormatKey
  | stripNewlines => stripNewlinesKey
  | mapThreshold => mapThresholdKey

def kind : Field → Kind
  | mtimeFormat => .text
  | stripNewlines => .flag
  | mapThreshold => .integer

def value (settings : Settings) : Field → Value
  | mtimeFormat => .text (wordOfFormat settings.mtimeFormat).toList
  | stripNewlines => .flag settings.stripNewlines
  | mapThreshold => .integer settings.mapThreshold

def entry (settings : Settings) (field : Field) : Entry where
  name := field.key
  value := field.value settings

/-- The line of a field, as it is written. -/
def line (settings : Settings) : Field → String
  | mtimeFormat => mtimeFormatLine settings.mtimeFormat
  | stripNewlines => stripNewlinesLine settings.stripNewlines
  | mapThreshold => mapThresholdLine settings.mapThreshold

theorem nameSpelling_key (field : Field) : nameSpelling field.key = field.key := by
  cases field <;> decide

theorem quoted_wordOfFormat (format : Timestamp.Format) :
    quoted (wordOfFormat format).toList = '"' :: (wordOfFormat format).toList ++ ['"'] := by
  cases format <;> decide

theorem toList_line (settings : Settings) (field : Field) :
    (field.line settings).toList = (field.entry settings).spelling := by
  have hspelling : (field.entry settings).spelling =
      field.key ++ ' ' :: '=' :: ' ' :: (field.value settings).spelling ++ ['\n'] := by
    simp [Entry.spelling, entry, nameSpelling_key]
  rw [hspelling]
  cases field with
  | mtimeFormat =>
    delta line key mtimeFormatLine mtimeFormatKey
    simp [value, Value.spelling, quoted_wordOfFormat]
  | stripNewlines =>
    delta line key stripNewlinesLine stripNewlinesKey
    simp [value, Value.spelling]
  | mapThreshold =>
    have hsign : ¬(settings.mapThreshold : Int) < 0 := by omega
    delta line key mapThresholdLine mapThresholdKey
    simp [value, Value.spelling, integerSpelling, signed, digits, hsign]

end Field

end Settings

end FileAccess
