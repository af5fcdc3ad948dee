/-
  FileAccess/Settings/Literal.lean
  ================================
  **The written forms of values in a settings document.**

  The document format is TOML 1.0.  This file reads the values that a setting can
  have: texts in the four quoted forms, the two flags, integers, lists and tables
  with nothing in them, and tables that hold one name with nothing under it.  A
  reader takes the characters to read and gives the value with the characters after
  it.  Every other form of value is no value here, since no setting takes it.
-/
import FileAccess.Settings.Basic

namespace FileAccess

namespace Settings

/-! ### Characters -/

def isBlank (c : Char) : Bool :=
  c == ' ' || c == '\t'

/-- Characters that stand for themselves in comments and, quotes and backslash
    apart, in texts: the tab and everything that is not a control character. -/
def isPlain (c : Char) : Bool :=
  c == '\t' || (' ' ≤ c && c ≠ '\x7F')

def skipBlanks (cs : List Char) : List Char :=
  cs.dropWhile isBlank

def lineBreak? : List Char → Option (List Char)
  | '\n' :: cs => some cs
  | '\r' :: '\n' :: cs => some cs
  | _ => none

def digitValue? (c : Char) : Option Nat :=
  if '0' ≤ c ∧ c ≤ '9' then some (c.toNat - '0'.toNat)
  else if 'a' ≤ c ∧ c ≤ 'f' then some (c.toNat - 'a'.toNat + 10)
  else if 'A' ≤ c ∧ c ≤ 'F' then some (c.toNat - 'A'.toNat + 10)
  else none

def isDigitOf (base : Nat) (c : Char) : Bool :=
  (digitValue? c).any (· < base)

/-! ### Escapes -/

def escapeOf? : Char → Option Char
  | 'b' => some '\x08'
  | 't' => some '\t'
  | 'n' => some '\n'
  | 'f' => some '\x0C'
  | 'r' => some '\r'
  | '"' => some '"'
  | '\\' => some '\\'
  | _ => none

def charOfHex? (digits : List Char) : Option Char :=
  match digits.mapM digitValue? with
  | none => none
  | some values =>
    let code := values.foldl (fun n d => n * 16 + d) 0
    if code.isValidChar then some (Char.ofNat code) else none

/-! ### Texts -/

def prepend (c : Char) (result : Option (List Char × List Char)) :
    Option (List Char × List Char) :=
  result.map fun (text, rest) => (c :: text, rest)

def basicText? : List Char → Option (List Char × List Char)
  | [] => none
  | '"' :: cs => some ([], cs)
  | '\\' :: 'u' :: a :: b :: c :: d :: cs =>
    match charOfHex? [a, b, c, d] with
    | none => none
    | some x => prepend x (basicText? cs)
  | '\\' :: 'U' :: a :: b :: c :: d :: e :: f :: g :: h :: cs =>
    match charOfHex? [a, b, c, d, e, f, g, h] with
    | none => none
    | some x => prepend x (basicText? cs)
  | '\\' :: e :: cs =>
    match escapeOf? e with
    | none => none
    | some x => prepend x (basicText? cs)
  | c :: cs => if isPlain c && c ≠ '\\' then prepend c (basicText? cs) else none

def literalText? : List Char → Option (List Char × List Char)
  | [] => none
  | '\'' :: cs => some ([], cs)
  | c :: cs => if isPlain c then prepend c (literalText? cs) else none

/-- The end of a text that three quotes close: one or two more quotes right after
    them belong to the text, before the three. -/
def closing (quote : Char) (cs : List Char) : List Char × List Char :=
  let extra := (cs.take 2).takeWhile (· == quote)
  (extra, cs.drop extra.length)

/-- The rest of a text in three double quotes.  A backslash at the end of a line
    leaves out the line break and all blanks and line breaks after it; `skipping`
    says that this is going on. -/
def longBasicText? (skipping : Bool) : List Char → Option (List Char × List Char)
  | [] => none
  | '"' :: '"' :: '"' :: cs => some (closing '"' cs)
  | '"' :: cs => prepend '"' (longBasicText? false cs)
  | '\n' :: cs =>
    if skipping then longBasicText? true cs else prepend '\n' (longBasicText? false cs)
  | '\r' :: '\n' :: cs =>
    if skipping then longBasicText? true cs else prepend '\n' (longBasicText? false cs)
  | '\\' :: 'u' :: a :: b :: c :: d :: cs =>
    match charOfHex? [a, b, c, d] with
    | none => none
    | some x => prepend x (longBasicText? false cs)
  | '\\' :: 'U' :: a :: b :: c :: d :: e :: f :: g :: h :: cs =>
    match charOfHex? [a, b, c, d, e, f, g, h] with
    | none => none
    | some x => prepend x (longBasicText? false cs)
  | '\\' :: e :: cs =>
    match escapeOf? e with
    | some x => prepend x (longBasicText? false cs)
    | none =>
      if (lineBreak? (skipBlanks (e :: cs))).isSome then longBasicText? true cs else none
  | c :: cs =>
    if skipping && isBlank c then longBasicText? true cs
    else if isPlain c && c ≠ '\\' then prepend c (longBasicText? false cs)
    else none

def longLiteralText? : List Char → Option (List Char × List Char)
  | [] => none
  | '\'' :: '\'' :: '\'' :: cs => some (closing '\'' cs)
  | '\n' :: cs => prepend '\n' (longLiteralText? cs)
  | '\r' :: '\n' :: cs => prepend '\n' (longLiteralText? cs)
  | c :: cs => if isPlain c then prepend c (longLiteralText? cs) else none

/-- A line break right after the opening quotes of a long text is left out. -/
def dropFirstBreak (cs : List Char) : List Char :=
  (lineBreak? cs).getD cs

def text? : List Char → Option (List Char × List Char)
  | '"' :: '"' :: '"' :: cs => longBasicText? false (dropFirstBreak cs)
  | '\'' :: '\'' :: '\'' :: cs => longLiteralText? (dropFirstBreak cs)
  | '"' :: cs => basicText? cs
  | '\'' :: cs => literalText? cs
  | _ => none

/-! ### Integers -/

/-- The value of a run of digits in which single underscores may stand between two
    digits: `afterDigit` says that the last character was a digit. -/
def digits? (base : Nat) (afterDigit : Bool) (acc : Nat) : List Char → Option Nat
  | [] => if afterDigit then some acc else none
  | c :: cs =>
    if c == '_' then
      if afterDigit then digits? base false acc cs else none
    else
      match digitValue? c with
      | none => none
      | some d => if d < base then digits? base true (acc * base + d) cs else none

def isRunChar (base : Nat) (c : Char) : Bool :=
  isDigitOf base c || c == '_'

def run? (base : Nat) (cs : List Char) : Option (Nat × List Char) :=
  match digits? base false 0 (cs.takeWhile (isRunChar base)) with
  | none => none
  | some n => some (n, cs.dropWhile (isRunChar base))

def decimal? (cs : List Char) : Option (Nat × List Char) :=
  match cs.takeWhile (isRunChar 10) with
  | '0' :: _ :: _ => none
  | _ => run? 10 cs

def inRange? (n : Int) : Option Int :=
  if -(twoPow 63 : Int) ≤ n ∧ n < twoPow 63 then some n else none

def integer? (cs : List Char) : Option (Int × List Char) :=
  let magnitude :=
    match cs with
    | '0' :: 'x' :: r => (run? 16 r).map fun (n, rest) => ((n : Int), rest)
    | '0' :: 'o' :: r => (run? 8 r).map fun (n, rest) => ((n : Int), rest)
    | '0' :: 'b' :: r => (run? 2 r).map fun (n, rest) => ((n : Int), rest)
    | '+' :: r => (decimal? r).map fun (n, rest) => ((n : Int), rest)
    | '-' :: r => (decimal? r).map fun (n, rest) => (-(n : Int), rest)
    | r => (decimal? r).map fun (n, rest) => ((n : Int), rest)
  match magnitude with
  | none => none
  | some (n, rest) => (inRange? n).map fun n => (n, rest)

/-! ### Names -/

def isBareChar (c : Char) : Bool :=
  ('a' ≤ c && c ≤ 'z') || ('A' ≤ c && c ≤ 'Z') || ('0' ≤ c && c ≤ '9') || c == '_' || c == '-'

def name? : List Char → Option (List Char × List Char)
  | '"' :: cs => basicText? cs
  | '\'' :: cs => literalText? cs
  | cs =>
    match cs.takeWhile isBareChar with
    | [] => none
    | name => some (name, cs.dropWhile isBareChar)

/-! ### Lists and tables -/

/-- The rest of a list with nothing in it: blanks, line breaks and comments, and the
    closing bracket.  A comment ends with its line; `inComment` says that the
    reader is in one. -/
def emptyList? (inComment : Bool) : List Char → Option (List Char)
  | [] => none
  | '\n' :: cs => emptyList? false cs
  | '\r' :: '\n' :: cs => emptyList? false cs
  | c :: cs =>
    if inComment then
      if isPlain c then emptyList? true cs else none
    else if isBlank c then emptyList? false cs
    else if c == '#' then emptyList? true cs
    else if c == ']' then some cs
    else none

def emptyTable? (cs : List Char) : Option (List Char) :=
  match skipBlanks cs with
  | '}' :: cs => some cs
  | _ => none

def empty? : List Char → Option (List Char)
  | '[' :: cs => emptyList? false cs
  | '{' :: cs => emptyTable? cs
  | _ => none

def choice? (cs : List Char) : Option (List Char × List Char) := do
  let (name, cs) ← name? (skipBlanks cs)
  match skipBlanks cs with
  | '=' :: cs =>
    let cs ← empty? (skipBlanks cs)
    let rest ← emptyTable? cs
    return (name, rest)
  | _ => none

/-! ### Values -/

def literal? (cs : List Char) : Option (Literal × List Char) :=
  match cs with
  | 't' :: 'r' :: 'u' :: 'e' :: rest => some (.flag true, rest)
  | 'f' :: 'a' :: 'l' :: 's' :: 'e' :: rest => some (.flag false, rest)
  | '"' :: _ => (text? cs).map fun (text, rest) => (.text text, rest)
  | '\'' :: _ => (text? cs).map fun (text, rest) => (.text text, rest)
  | '[' :: rest => (emptyList? false rest).map fun rest => (.empty, rest)
  | '{' :: rest =>
    match emptyTable? rest with
    | some rest => some (.empty, rest)
    | none => (choice? rest).map fun (name, rest) => (.choice name, rest)
  | _ => (integer? cs).map fun (n, rest) => (.number n, rest)

end Settings

end FileAccess
