/-
  FileAccess/Command/Request.lean
  ===============================
  **The grammar of the command line.**

  The first argument names a command, or asks for the version or for help.  The
  arguments after it are options and operands, in any order.  An argument that starts with
  `-` is an option, unless it is `-` itself; after `--` every argument is an
  operand.  An option's value follows it as the next argument, which then must not
  look like an option, or after a `=`, where it may be anything.  An option that is
  unknown, given twice, without the value it needs or with one it does not take,
  and a wrong number of operands, make the whole line rejected.

  Arguments are read from left to right, and where one asks for help the rest is not
  read.  So a line asks for help unless something before that is rejected already;
  an operand that is still missing is no fault there.
-/
import FileAccess.MissingPolicy
import FileAccess.Timestamp

namespace FileAccess

namespace Command

/-! ### Requests -/

structure LinesRequest where
  file : Bytes
  keepNewlines : Bool
  missing : MissingPolicy
  mtimeFormat : Option Timestamp.Format
  showMtime : Bool
  settingsFile : Option Bytes
deriving DecidableEq, Repr

inductive Request where
  | version
  | help
  | normalize (paths : List Bytes)
  | join (segments : List Bytes)
  | cat (file : Bytes) (ignoreMissing : Bool)
  | lines (request : LinesRequest)
deriving DecidableEq, Repr

/-! ### Options and operands -/

inductive Arity where
  | flag
  | valued
deriving DecidableEq, Repr

abbrev Options := List (Bytes × Arity)

/-- The arguments of a command, sorted: the options given, with their values, and
    the operands, both in order. -/
structure Arguments where
  given : List (Bytes × Bytes) := []
  operands : List Bytes := []
deriving DecidableEq, Repr

abbrev hyphen : UInt8 := 0x2D

abbrev equals : UInt8 := 0x3D

def looksLikeOption : Bytes → Bool
  | [] => false
  | [_] => false
  | b :: _ => b == hyphen

/-- Read an option from what follows `--` in an argument and the arguments after it:
    its name, its value (empty for a flag), and the arguments that are left. -/
def option? (options : Options) (body : Bytes) (others : List Bytes) :
    Option (Bytes × Bytes × List Bytes) :=
  let name := body.takeWhile (· != equals)
  match options.lookup name, body.dropWhile (· != equals), others with
  | some .flag, [], _ => some (name, [], others)
  | some .valued, _ :: value, _ => some (name, value, others)
  | some .valued, [], value :: others =>
    if looksLikeOption value then none else some (name, value, others)
  | _, _, _ => none

theorem option?_length_le {options : Options} {body name value : Bytes}
    {others left : List Bytes} (h : option? options body others = some (name, value, left)) :
    left.length ≤ others.length := by
  simp only [option?] at h
  split at h
  · simp_all
  · simp_all
  · split at h
    · simp at h
    · simp only [Option.some.injEq, Prod.mk.injEq] at h
      obtain ⟨_, _, rfl⟩ := h
      simp
  · simp at h

def sort? (options : Options) : List Bytes → Option Arguments
  | [] => some {}
  | argument :: others =>
    match argument with
    | [0x2D, 0x2D] => some { operands := others }
    | 0x2D :: 0x2D :: body =>
      match h : option? options body others with
      | none => none
      | some (name, value, left) =>
        have : left.length < others.length + 1 := Nat.lt_succ_of_le (option?_length_le h)
        (sort? options left).map fun a => { a with given := (name, value) :: a.given }
    | _ =>
      if looksLikeOption argument then none
      else (sort? options others).map fun a => { a with operands := argument :: a.operands }
termination_by arguments => arguments.length

namespace Arguments

def distinct (arguments : Arguments) : Bool :=
  (arguments.given.map Prod.fst).Nodup

def has (arguments : Arguments) (name : String) : Bool :=
  (arguments.given.lookup (Bytes.ofString name)).isSome

def valueOf? (arguments : Arguments) (name : String) : Option Bytes :=
  arguments.given.lookup (Bytes.ofString name)

end Arguments

/-- The argument after which every argument is an operand. -/
abbrev endOfOptions : Bytes :=
  [hyphen, hyphen]

def optionsOf (flags valued : List String) : Options :=
  flags.map (fun name => (Bytes.ofString name, .flag)) ++
    valued.map (fun name => (Bytes.ofString name, .valued))

def catOptions : Options :=
  optionsOf ["ignore-missing"] []

def linesOptions : Options :=
  optionsOf ["keep-newlines", "show-mtime"] ["missing", "mtime", "config"]

/-! ### Commands -/

def policyOfWord? (word : Bytes) : Option MissingPolicy :=
  if word = Bytes.ofString "raise" then some .raise
  else if word = Bytes.ofString "empty" then some .empty
  else if word = Bytes.ofString "absent" then some .absent
  else none

def formatOfWord? (word : Bytes) : Option Timestamp.Format :=
  if word = Bytes.ofString "integer" then some .integer
  else if word = Bytes.ofString "fractional" then some .fractional
  else none

/-- The value given to an option, read as a word; `none` when the word names nothing. -/
def wordOf? {α : Type} (arguments : Arguments) (name : String) (ofWord? : Bytes → Option α) :
    Option (Option α) :=
  match arguments.valueOf? name with
  | none => some none
  | some word => (ofWord? word).map some

def arguments? (options : Options) (arguments : List Bytes) : Option Arguments :=
  (sort? options arguments).filter Arguments.distinct

def linesRequest? (arguments : Arguments) : Option LinesRequest := do
  let missing ← wordOf? arguments "missing" policyOfWord?
  let format ← wordOf? arguments "mtime" formatOfWord?
  match arguments.operands with
  | [file] =>
    return {
      file := file
      keepNewlines := arguments.has "keep-newlines"
      missing := missing.getD .raise
      mtimeFormat := format
      showMtime := arguments.has "show-mtime"
      settingsFile := arguments.valueOf? "config"
    }
  | _ => none

def requestOf? (command : Bytes) (arguments : List Bytes) : Option Request :=
  if command = Bytes.ofString "normalize" then
    match arguments? [] arguments with
    | some { given := _, operands := path :: paths } => some (.normalize (path :: paths))
    | _ => none
  else if command = Bytes.ofString "join" then
    match arguments? [] arguments with
    | some { given := _, operands := segment :: segments } => some (.join (segment :: segments))
    | _ => none
  else if command = Bytes.ofString "cat" then
    match arguments? catOptions arguments with
    | some { given := given, operands := [file] } =>
      some (.cat file (Arguments.has { given := given } "ignore-missing"))
    | _ => none
  else if command = Bytes.ofString "lines" then
    ((arguments? linesOptions arguments).bind linesRequest?).map .lines
  else none

/-- An argument that asks for the version: `--version`, or an argument that starts
    with the short option `-V`. -/
def asksForVersion (argument : Bytes) : Bool :=
  argument = Bytes.ofString "--version" || (Bytes.ofString "-V").isPrefixOf argument

/-- Read a command line that asks for the version or names a command, unless it is
    rejected.  All arguments of a command must be UTF-8. -/
def command? : List Bytes → Option Request
  | [] => none
  | first :: others =>
    if asksForVersion first then some .version
    else if (first :: others).all fun a => (Utf8.decode? a).isSome then requestOf? first others
    else none

/-! ### Help -/

/-- An argument that asks for help: `--help`, or an argument that starts with the short
    option `-h`. -/
def asksForHelp (argument : Bytes) : Bool :=
  argument = Bytes.ofString "--help" || (Bytes.ofString "-h").isPrefixOf argument

def optionsOfCommand? (command : Bytes) : Option Options :=
  if command = Bytes.ofString "normalize" ∨ command = Bytes.ofString "join" then some []
  else if command = Bytes.ofString "cat" then some catOptions
  else if command = Bytes.ofString "lines" then some linesOptions
  else none

/-- Whether a command that does not take any number of operands has been given no more than
    it takes, and no word that names nothing. -/
def withinLimits (command : Bytes) (arguments : Arguments) : Bool :=
  if command = Bytes.ofString "cat" then arguments.operands.length ≤ 1
  else if command = Bytes.ofString "lines" then
    arguments.operands.length ≤ 1 && (wordOf? arguments "missing" policyOfWord?).isSome &&
      (wordOf? arguments "mtime" formatOfWord?).isSome
  else true

/-- Whether nothing in these arguments of a command is rejected, and options are still read
    after them. -/
def readsOn (command : Bytes) (arguments : List Bytes) : Bool :=
  !arguments.contains endOfOptions && (arguments.all fun a => (Utf8.decode? a).isSome) &&
    match (optionsOfCommand? command).bind fun options => arguments? options arguments with
    | none => false
    | some sorted => withinLimits command sorted

/-- The commands that help can be asked for. -/
def helpTopics : List Bytes :=
  ["normalize", "join", "cat", "lines", "help"].map Bytes.ofString

/-- Whether a command line asks for help: with its first argument, with the command `help`
    and perhaps a topic, or among the arguments of another command. -/
def requestsHelp : List Bytes → Bool
  | [] => false
  | first :: others =>
    if asksForHelp first then true
    else if first = Bytes.ofString "help" then
      others = [] || helpTopics.any fun topic => others = [topic]
    else
      others.any asksForHelp && readsOn first (others.takeWhile fun a => !asksForHelp a)

/-- Read a command line, if it is not rejected. -/
def request? (arguments : List Bytes) : Option Request :=
  (command? arguments).or (if requestsHelp arguments then some .help else none)

end Command

end FileAccess
