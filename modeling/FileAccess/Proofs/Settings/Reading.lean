/-
  FileAccess/Proofs/Settings/Reading.lean
  =======================================
  **Values, lines and documents are read as they were spelled.**

  Of the values only texts, flags, integers, empty lists and tables, and tables that choose
  a name can be said in a line (`Value.asLiteral?`).  The reader takes these, and of every
  other value it leaves something that no line ends with (`valueLine?_spelling`).  So a line
  is read as the statement it makes or not at all (`line?_spelling`), and a document as its
  lines one after another (`read?_document`).
-/
import FileAccess.Proofs.Settings.Tokens

namespace FileAccess

namespace Settings

variable {c : Char} {rest : List Char}

/-! ### The ends of lines -/

theorem lineRest?_newline (rest : List Char) : lineRest? ('\n' :: rest) = some rest := by
  rfl

/-- Nothing but blanks and a comment may follow on a line. -/
theorem lineRest?_eq_none (h : c ∉ [' ', '\t', '#', '\n', '\r']) :
    lineRest? (c :: rest) = none := by
  simp only [List.mem_cons, List.not_mem_nil, or_false, not_or] at h
  obtain ⟨hspace, htab, hcomment, hnewline, hreturn⟩ := h
  have hskip : skipBlanks (c :: rest) = c :: rest := by
    simp [skipBlanks, isBlank, hspace, htab]
  rw [lineRest?, hskip]
  split
  · simp_all
  · rw [lineEnd?, lineBreak?]
    · simp_all
    · simp_all
    · simp

/-! ### Values -/

theorem literal?_of_first (h : c ∉ ['t', 'f', '"', '\'', '[', '{']) :
    literal? (c :: rest) = (integer? (c :: rest)).map fun (n, left) => (.number n, left) := by
  simp only [List.mem_cons, List.not_mem_nil, or_false, not_or] at h
  rw [literal?.eq_def]
  split <;> simp_all

/-- Signed digits start with a sign or with a digit, and with nothing else. -/
theorem exists_signed_eq {cs : List Char} (hne : cs ≠ []) (hall : ∀ d ∈ cs, d.isDigit = true)
    (negative : Bool) (more others : List Char)
    (hothers : others.all (fun c => !(c == '-' || c.isDigit)) = true) :
    ∃ c rest, signed negative (cs ++ more) = c :: rest ∧ c ∉ others := by
  have hnotMem : ∀ c : Char, (c == '-' || c.isDigit) = true → c ∉ others := fun c =>
    notMem_of_eq_true (p := fun c => c == '-' || c.isDigit) hothers
  cases negative with
  | true => exact ⟨'-', _, rfl, hnotMem _ rfl⟩
  | false =>
    cases cs with
    | nil => exact absurd rfl hne
    | cons d ds =>
      have hd := hall d (List.mem_cons_self ..)
      exact ⟨d, ds ++ more, rfl, hnotMem d (by simp [hd])⟩

/-- What starts with a digit, or with a sign and a digit, can only be an integer. -/
theorem literal?_signed {cs : List Char} (hne : cs ≠ []) (hall : ∀ d ∈ cs, d.isDigit = true)
    (negative : Bool) (more : List Char) :
    literal? (signed negative (cs ++ more)) =
      (integer? (signed negative (cs ++ more))).map fun (n, left) => (.number n, left) := by
  obtain ⟨c, rest, heq, hc⟩ := exists_signed_eq hne hall negative more
    ['t', 'f', '"', '\'', '[', '{'] (by decide)
  rw [heq]
  exact literal?_of_first hc

/-- A value and the rest of its line. -/
def valueLine? (cs : List Char) : Option (Literal × List Char) :=
  (literal? cs).bind fun (value, left) => (lineRest? left).map fun rest => (value, rest)

theorem valueLine?_of_read {cs : List Char} {value : Literal}
    (h : literal? cs = some (value, '\n' :: rest)) : valueLine? cs = some (value, rest) := by
  simp [valueLine?, h, lineRest?_newline]

theorem valueLine?_of_unread {cs : List Char} (h : literal? cs = none) : valueLine? cs = none := by
  simp [valueLine?, h]

theorem valueLine?_text (chars : List Char) :
    valueLine? (quoted chars ++ '\n' :: rest) = some (.text chars, rest) := by
  have htext := text?_quoted chars ('\n' :: rest) (by simp)
  apply valueLine?_of_read
  rw [quoted, List.cons_append, List.cons_append] at htext ⊢
  simp only [literal?, htext, Option.map_some]

theorem valueLine?_integer (n : Int) :
    valueLine? (integerSpelling n ++ '\n' :: rest) =
      (inRange? n).map fun n => (.number n, rest) := by
  have hmark : IsMark '\n' := by simp [IsMark]
  have hliteral := literal?_signed (digits_ne_nil n.natAbs) (isDigit_digits _) (decide (n < 0))
    ('\n' :: rest)
  have hspelling : signed (decide (n < 0)) (digits n.natAbs ++ '\n' :: rest) =
      integerSpelling n ++ '\n' :: rest := by
    rw [integerSpelling, signed, signed]
    split <;> rfl
  rw [hspelling, integer?_integerSpelling n hmark] at hliteral
  rw [valueLine?, hliteral]
  cases inRange? n with
  | none => rfl
  | some m => simp [lineRest?_newline]

/-- Digits, perhaps with a sign, and a mark that no integer goes on with. -/
def IsMarked (cs : List Char) : Prop :=
  ∃ (negative : Bool) (ds : List Char) (c : Char) (more : List Char),
    cs = signed negative (ds ++ c :: more) ∧ ds ≠ [] ∧ (∀ d ∈ ds, d.isDigit = true) ∧
      c ∈ ['.', '-', ':']

theorem IsMarked.append {cs : List Char} (h : IsMarked cs) (rest : List Char) :
    IsMarked (cs ++ rest) := by
  obtain ⟨negative, ds, c, more, rfl, hne, hall, hmark⟩ := h
  refine ⟨negative, ds, c, more ++ rest, ?_, hne, hall, hmark⟩
  cases negative <;> simp [signed]

theorem isMarked_padded {width n : Nat} (hmark : c ∈ ['.', '-', ':']) (more : List Char) :
    IsMarked (padded width n ++ c :: more) :=
  ⟨false, _, c, more, rfl, padded_ne_nil width n, isDigit_padded width n, hmark⟩

theorem isMarked_float (negative : Bool) (whole places units : Nat) (exponent : Option Int) :
    IsMarked (Value.float negative whole places units exponent).spelling := by
  rw [Value.spelling]
  exact ⟨negative, digits whole, '.', _, rfl, digits_ne_nil whole, isDigit_digits whole, by decide⟩

theorem Date.isMarked_spelling (day : Date) : IsMarked day.spelling := by
  rw [Date.spelling]
  exact isMarked_padded (by decide) _

theorem Time.isMarked_spelling (clock : Time) : IsMarked clock.spelling := by
  rw [Time.spelling]
  exact isMarked_padded (by decide) _

theorem isMarked_dateTime (day : Date) (clock : Time) (offset : Option Offset) :
    IsMarked (Value.dateTime day clock offset).spelling := by
  rw [Value.spelling]
  exact day.isMarked_spelling.append _

/-- What is marked is no value. -/
theorem IsMarked.valueLine?_eq_none {cs : List Char} (h : IsMarked cs) : valueLine? cs = none := by
  obtain ⟨negative, ds, c, more, rfl, hne, hall, hmark⟩ := h
  have hstop : c ∉ [' ', '\t', '#', '\n', '\r'] := by
    have hcontains : ['.', '-', ':'].contains c = true := by simpa using hmark
    exact notMem_of_eq_true (p := ['.', '-', ':'].contains) (by decide) hcontains
  rw [valueLine?, literal?_signed hne hall]
  cases hinteger : integer? (signed negative (ds ++ c :: more)) with
  | none => rfl
  | some result =>
    obtain ⟨n, left⟩ := result
    obtain rfl := integer?_rest hne hall (List.mem_cons_of_mem _ hmark) hinteger
    simp [lineRest?_eq_none hstop]

theorem valueLine?_infinity (negative : Bool) :
    valueLine? (signed negative "inf".toList ++ rest) = none := by
  apply valueLine?_of_unread
  cases negative with
  | true => rfl
  | false => rfl

theorem valueLine?_notANumber : valueLine? ("nan".toList ++ rest) = none := by
  apply valueLine?_of_unread
  rfl

/-! ### First characters -/

/-- A name starts with a quote or with a character that stands without quotes. -/
theorem exists_nameSpelling_eq (name : List Char) :
    ∃ c cs, nameSpelling name = c :: cs ∧ (c = '"' ∨ isBareChar c = true) := by
  rw [nameSpelling]
  split
  · rename_i hbare
    obtain ⟨hne, hall⟩ := hbare
    cases name with
    | nil => exact absurd rfl hne
    | cons c cs => exact ⟨c, cs, rfl, .inr (List.all_eq_true.1 hall c (List.mem_cons_self ..))⟩
  · exact ⟨'"', _, rfl, .inl rfl⟩

/-- The characters that neither a name nor a value starts with. -/
def separators : List Char :=
  [' ', '\t', '\n', '\r', '#', ']', '}', ',', '=']

theorem exists_nameSpelling_eq_cons (name : List Char) :
    ∃ c cs, nameSpelling name = c :: cs ∧ c ∉ '[' :: '\uFEFF' :: separators := by
  obtain ⟨c, cs, heq, hfirst⟩ := exists_nameSpelling_eq name
  refine ⟨c, cs, heq, ?_⟩
  have hfirst' : (c == '"' || isBareChar c) = true := by simpa using hfirst
  exact notMem_of_eq_true (p := fun c => c == '"' || isBareChar c) (by decide) hfirst'

theorem IsMarked.exists_eq {cs : List Char} (h : IsMarked cs) :
    ∃ c rest, cs = c :: rest ∧ c ∉ '[' :: '{' :: separators := by
  obtain ⟨negative, ds, c, more, rfl, hne, hall, _⟩ := h
  exact exists_signed_eq hne hall negative (c :: more) _ (by decide)

namespace Value

theorem exists_spelling_eq_of_scalar {value : Value} (hlist : value.kind ≠ .list)
    (htable : value.kind ≠ .table) :
    ∃ c rest, value.spelling = c :: rest ∧ c ∉ '[' :: '{' :: separators := by
  cases value with
  | text chars => exact ⟨'"', _, rfl, by decide⟩
  | flag value =>
    cases value with
    | true => exact ⟨'t', "rue".toList, rfl, by decide⟩
    | false => exact ⟨'f', "alse".toList, rfl, by decide⟩
  | integer n =>
    have hfirst := exists_signed_eq (digits_ne_nil n.natAbs) (isDigit_digits _) (decide (n < 0)) []
      ('[' :: '{' :: separators) (by decide)
    simpa [spelling, integerSpelling] using hfirst
  | float negative whole places units exponent => exact (isMarked_float ..).exists_eq
  | infinity negative =>
    cases negative with
    | true => exact ⟨'-', "inf".toList, rfl, by decide⟩
    | false => exact ⟨'i', "nf".toList, rfl, by decide⟩
  | notANumber => exact ⟨'n', "an".toList, rfl, by decide⟩
  | date day => exact day.isMarked_spelling.exists_eq
  | time clock => exact clock.isMarked_spelling.exists_eq
  | dateTime day clock offset => exact (isMarked_dateTime ..).exists_eq
  | list items => exact absurd rfl hlist
  | table entries => exact absurd rfl htable

theorem exists_spelling_eq (value : Value) :
    ∃ c rest, value.spelling = c :: rest ∧ c ∉ separators := by
  by_cases hlist : value.kind = .list
  · cases value with
    | list items => cases items <;> exact ⟨'[', _, rfl, by decide⟩
    | _ => cases hlist
  by_cases htable : value.kind = .table
  · cases value with
    | table entries => cases entries <;> exact ⟨'{', _, rfl, by decide⟩
    | _ => cases htable
  obtain ⟨c, rest, heq, hc⟩ := exists_spelling_eq_of_scalar hlist htable
  exact ⟨c, rest, heq, fun hmem => hc (by simp [hmem])⟩

end Value

/-! ### Lists and tables -/

theorem emptyList?_spelling (value : Value) (more : List Char) :
    emptyList? false (value.spelling ++ more) = none := by
  obtain ⟨c, rest, heq, hc⟩ := value.exists_spelling_eq
  simp only [separators, List.mem_cons, List.not_mem_nil, or_false, not_or] at hc
  rw [heq, List.cons_append, emptyList?.eq_def]
  split <;> simp_all [isBlank]

theorem skipBlanks_of_first (h : c ∉ separators) : skipBlanks (c :: rest) = c :: rest := by
  simp only [separators, List.mem_cons, List.not_mem_nil, or_false, not_or] at h
  simp [skipBlanks, isBlank, h]

theorem skipBlanks_nameSpelling (name more : List Char) :
    skipBlanks (nameSpelling name ++ more) = nameSpelling name ++ more := by
  obtain ⟨c, cs, heq, hc⟩ := exists_nameSpelling_eq_cons name
  rw [heq]
  exact skipBlanks_of_first fun hmem => hc (by simp [hmem])

theorem skipBlanks_spelling (value : Value) (more : List Char) :
    skipBlanks (' ' :: (value.spelling ++ more)) = value.spelling ++ more := by
  obtain ⟨c, rest, heq, hc⟩ := value.exists_spelling_eq
  rw [heq]
  exact skipBlanks_of_first hc

theorem emptyTable?_nameSpelling (name more : List Char) :
    emptyTable? (nameSpelling name ++ more) = none := by
  obtain ⟨c, cs, heq, hc⟩ := exists_nameSpelling_eq_cons name
  simp only [separators, List.mem_cons, List.not_mem_nil, or_false, not_or] at hc
  rw [emptyTable?, skipBlanks_nameSpelling, heq]
  simp_all

/-- Of a value there is only something to read where nothing is expected in it, if nothing
    is in it. -/
theorem empty?_spelling (value : Value) (more : List Char) :
    empty? (value.spelling ++ more) = if value.isEmpty then some more else none := by
  by_cases hlist : value.kind = .list
  · cases value with
    | list items =>
      cases items with
      | nil => rfl
      | cons item items =>
        simp [Value.spelling, empty?, emptyList?_spelling, Value.isEmpty]
    | _ => cases hlist
  by_cases htable : value.kind = .table
  · cases value with
    | table entries =>
      cases entries with
      | nil => rfl
      | cons entry entries =>
        simp [Value.spelling, empty?, emptyTable?_nameSpelling, Value.isEmpty]
    | _ => cases htable
  obtain ⟨c, rest, heq, hc⟩ := Value.exists_spelling_eq_of_scalar hlist htable
  simp only [List.mem_cons, not_or] at hc
  have hisEmpty : value.isEmpty = false := by
    cases value <;> simp_all [Value.isEmpty, Value.kind]
  rw [heq, hisEmpty, if_neg Bool.false_ne_true, List.cons_append, empty?.eq_def]
  split <;> simp_all

theorem emptyTable?_furtherEntries (entries : List (List Char × Value)) (more : List Char) :
    emptyTable? (Value.furtherEntries entries ++ '}' :: more) =
      if entries = [] then some more else none := by
  cases entries with
  | nil => rfl
  | cons entry entries => rfl

theorem skipBlanks_equals (more : List Char) :
    skipBlanks (' ' :: '=' :: more) = '=' :: more := by
  rfl

/-- Of a table the choice is read, if it is one. -/
theorem choice?_spelling (name : List Char) (value : Value) (entries : List (List Char × Value))
    (more : List Char) :
    choice? (nameSpelling name ++ ' ' :: '=' :: ' ' :: (value.spelling ++
        (Value.furtherEntries entries ++ '}' :: more))) =
      (Value.table ((name, value) :: entries)).choice?.map fun name => (name, more) := by
  have hname := fun more => name?_nameSpelling name (c := ' ') (by decide) more
  rw [choice?, skipBlanks_nameSpelling, hname, Option.bind_eq_bind, Option.bind_some]
  dsimp only
  simp only [skipBlanks_equals, skipBlanks_spelling, empty?_spelling]
  by_cases hempty : value.isEmpty
  · rw [if_pos hempty, Option.bind_eq_bind, Option.bind_some, emptyTable?_furtherEntries]
    cases entries <;> simp [Value.choice?, hempty]
  · rw [if_neg hempty]
    cases entries <;> simp [Value.choice?, hempty]

/-- What a line can say with a value, if anything. -/
def Value.asLiteral? : Value → Option Literal
  | .text chars => some (.text chars)
  | .flag value => some (.flag value)
  | .integer value => (inRange? value).map .number
  | value => if value.isEmpty then some .empty else value.choice?.map .choice

/-- **A value is read as what a line can say with it.** -/
theorem valueLine?_spelling (value : Value) (rest : List Char) :
    valueLine? (value.spelling ++ '\n' :: rest) =
      value.asLiteral?.map fun literal => (literal, rest) := by
  cases value with
  | text chars => exact valueLine?_text chars
  | flag value =>
    cases value with
    | true => exact valueLine?_of_read rfl
    | false => exact valueLine?_of_read rfl
  | integer n =>
    rw [Value.spelling, valueLine?_integer, Value.asLiteral?, Option.map_map]
    rfl
  | float negative whole places units exponent =>
    exact ((isMarked_float ..).append _).valueLine?_eq_none
  | infinity negative => exact valueLine?_infinity negative
  | notANumber => exact valueLine?_notANumber
  | date day => exact (day.isMarked_spelling.append _).valueLine?_eq_none
  | time clock => exact (clock.isMarked_spelling.append _).valueLine?_eq_none
  | dateTime day clock offset => exact ((isMarked_dateTime ..).append _).valueLine?_eq_none
  | list items =>
    cases items with
    | nil => exact valueLine?_of_read rfl
    | cons item items =>
      apply valueLine?_of_unread
      simp [Value.spelling, literal?, emptyList?_spelling]
  | table entries =>
    cases entries with
    | nil => exact valueLine?_of_read rfl
    | cons entry entries =>
      obtain ⟨name, value⟩ := entry
      have hchoice := choice?_spelling name value entries ('\n' :: rest)
      have hliteral : literal? ((Value.table ((name, value) :: entries)).spelling ++
          '\n' :: rest) = (Value.table ((name, value) :: entries)).choice?.map
            fun name => (.choice name, '\n' :: rest) := by
        simp [Value.spelling, literal?, emptyTable?_nameSpelling, hchoice, Option.map_map,
          Function.comp_def]
      have hempty : (Value.table ((name, value) :: entries)).isEmpty = false := rfl
      rw [valueLine?, hliteral, Value.asLiteral?, hempty]
      · cases (Value.table ((name, value) :: entries)).choice? with
        | none => rfl
        | some name => simp [lineRest?_newline]
      all_goals simp

/-! ### Lines -/

/-- What a line says, if anything.  Keys of more than two names say nothing. -/
def Entry.statement? (entry : Entry) : Option Statement :=
  match entry.path with
  | [] => entry.value.asLiteral?.map (.assignment (.simple entry.name))
  | [inner] => entry.value.asLiteral?.map (.assignment (.dotted entry.name inner))
  | _ => none

theorem assignment?_of_key? {cs : List Char} {key : Key} {value : Value}
    (h : key? cs = some (key, ' ' :: '=' :: ' ' :: (value.spelling ++ '\n' :: rest))) :
    (assignment? cs).bind (fun (statement, left) =>
        (lineRest? left).map fun rest => (some statement, rest)) =
      (value.asLiteral?.map (.assignment key)).map fun statement => (some statement, rest) := by
  have hvalue := congrArg (Option.map fun (literal, rest) =>
    (some (Statement.assignment key literal), rest)) (valueLine?_spelling value rest)
  rw [valueLine?] at hvalue
  rw [assignment?, h, Option.bind_eq_bind, Option.bind_some]
  dsimp only
  simp only [skipBlanks_equals, skipBlanks_spelling]
  simpa [Option.map_bind, Option.bind_assoc, Function.comp_def] using hvalue

theorem key?_simple (name more : List Char) :
    key? (nameSpelling name ++ ' ' :: '=' :: more) = some (.simple name, ' ' :: '=' :: more) := by
  rw [key?, name?_nameSpelling name (by decide), Option.bind_eq_bind, Option.bind_some]
  dsimp only
  rw [skipBlanks_equals]
  rfl

theorem skipBlanks_dot (more : List Char) : skipBlanks ('.' :: more) = '.' :: more := by
  rfl

theorem key?_dotted (name inner : List Char) (h : isBareChar c = false) (more : List Char) :
    key? (nameSpelling name ++ '.' :: (nameSpelling inner ++ c :: more)) =
      some (.dotted name inner, c :: more) := by
  rw [key?, name?_nameSpelling name (by decide), Option.bind_eq_bind, Option.bind_some]
  dsimp only
  simp only [skipBlanks_dot, skipBlanks_nameSpelling, name?_nameSpelling inner h]
  rfl

/-- A line that starts with a name is an assignment. -/
theorem line?_of_name (name more : List Char) :
    line? (nameSpelling name ++ more) = (assignment? (nameSpelling name ++ more)).bind
      fun (statement, left) => (lineRest? left).map fun rest => (some statement, rest) := by
  obtain ⟨c, cs, heq, hc⟩ := exists_nameSpelling_eq_cons name
  rw [line?, skipBlanks_nameSpelling, heq, List.cons_append]
  simp only [separators, List.mem_cons, List.not_mem_nil, or_false, not_or] at hc
  obtain ⟨hbracket, -, -, -, hnewline, hreturn, hcomment, -⟩ := hc
  have hstatement : statement? (c :: (cs ++ more)) = assignment? (c :: (cs ++ more)) := by
    rw [statement?.eq_def]
    split <;> simp_all
  dsimp only
  rw [if_neg (by simp [hnewline, hreturn, hcomment]), hstatement]
  simp only [Option.map_eq_bind, Option.bind_eq_bind]
  rfl

/-- **A line is read as what it says.** -/
theorem line?_spelling (entry : Entry) (rest : List Char) :
    line? (entry.spelling ++ rest) =
      entry.statement?.map fun statement => (some statement, rest) := by
  obtain ⟨name, path, value⟩ := entry
  rw [Entry.spelling, List.append_assoc, line?_of_name]
  cases path with
  | nil =>
    have hkey := key?_simple name (' ' :: (value.spelling ++ '\n' :: rest))
    simpa [Entry.statement?] using assignment?_of_key? hkey
  | cons inner path =>
    cases path with
    | nil =>
      have hkey := key?_dotted name inner (c := ' ') (by decide)
        ('=' :: ' ' :: (value.spelling ++ '\n' :: rest))
      simpa [Entry.statement?] using assignment?_of_key? hkey
    | cons next path =>
      have hkey := fun more => key?_dotted name inner (c := '.') (by decide) more
      simp [Entry.statement?, assignment?, hkey, skipBlanks_dot]

/-! ### Documents -/

theorem Entry.exists_spelling_eq (entry : Entry) :
    ∃ c cs, entry.spelling = c :: cs ∧ c ≠ '\uFEFF' := by
  obtain ⟨c, cs, heq, hc⟩ := exists_nameSpelling_eq_cons entry.name
  refine ⟨c, _, by rw [Entry.spelling, heq]; rfl, ?_⟩
  rintro rfl
  exact hc (by decide)

/-- Line by line the statements are found, one for each entry. -/
theorem statementsFrom?_spelling (entries : List Entry) :
    ∀ (found : List Statement) (n : Nat), (entries.flatMap Entry.spelling).length ≤ n →
      statementsFrom? found n (entries.flatMap Entry.spelling) =
        (entries.mapM Entry.statement?).map (found.reverse ++ ·) := by
  induction entries with
  | nil =>
    intro found n _
    cases n <;> simp [statementsFrom?]
  | cons entry entries ih =>
    intro found n hn
    obtain ⟨c, cs, heq, -⟩ := entry.exists_spelling_eq
    have hline := line?_spelling entry (entries.flatMap Entry.spelling)
    rw [List.flatMap_cons, heq, List.cons_append] at hn ⊢
    rw [heq, List.cons_append] at hline
    cases n with
    | zero => simp at hn
    | succ n =>
      rw [statementsFrom?, hline, List.mapM_cons]
      cases entry.statement? with
      | none => rfl
      | some statement =>
        have hn' : (entries.flatMap Entry.spelling).length ≤ n := by
          simp only [List.length_cons, List.length_append] at hn
          omega
        simp only [Option.map_some, ih _ n hn']
        cases entries.mapM Entry.statement? with
        | none => rfl
        | some statements => simp

/-- **A document is read line by line.** -/
theorem read?_document {document : String} {entries : List Entry}
    (h : document.toList = entries.flatMap Entry.spelling) :
    read? document = (entries.mapM Entry.statement?).bind ofStatements? := by
  have hmark : skipMark (entries.flatMap Entry.spelling) = entries.flatMap Entry.spelling := by
    cases entries with
    | nil => rfl
    | cons entry entries =>
      obtain ⟨c, cs, heq, hc⟩ := entry.exists_spelling_eq
      rw [List.flatMap_cons, heq, List.cons_append, skipMark.eq_def]
      split <;> simp_all
  have hstatements := statementsFrom?_spelling entries [] _ (Nat.le_refl _)
  rw [read?, h, hmark, statements?, hstatements]
  simp

end Settings

end FileAccess
