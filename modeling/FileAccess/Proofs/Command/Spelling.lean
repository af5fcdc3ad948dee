/-
  FileAccess/Proofs/Command/Spelling.lean
  =======================================
  **Every request can be asked for.**

  Command lines are read as requests.  Here it goes the other way: a request is spelled
  as a command line, each option in one argument, and the operands after `--`, where they
  may look like options.  What is spelled is read again (`request?_spelling`), so no
  request is out of reach, except one that holds what no argument can be, a byte string
  that is not UTF-8, or that has no paths or segments at all.
-/
import FileAccess.Proofs.Command.Arguments

namespace FileAccess

open Bytes

/-! ### Text behind ASCII -/

namespace Utf8

variable {b : UInt8} {lead : Bytes}

theorem unitsFrom_append (found found' : List (Option Char)) (bs : Bytes) :
    unitsFrom (found ++ found') bs = found'.reverse ++ unitsFrom found bs := by
  induction found, bs using unitsFrom.induct with
  | case1 found => rw [unitsFrom, unitsFrom, List.reverse_append]
  | case2 found b bs hlength ih =>
    rw [unitsFrom, unitsFrom, ← ih]
    rfl

theorem units_cons (b : UInt8) (bs : Bytes) :
    units (b :: bs) = (unit b bs).1 :: units (unit b bs).2 := by
  rw [units, unitsFrom]
  exact unitsFrom_append [] [(unit b bs).1] (unit b bs).2

theorem units_cons_ascii (hb : b < 0x80) (bs : Bytes) :
    units (b :: bs) = some (Char.ofNat b.toNat) :: units bs := by
  have hunit : unit b bs = (some (Char.ofNat b.toNat), bs) := by
    rw [unit, opened?, if_pos hb]
    rfl
  rw [units_cons, hunit]

theorem decode?_isSome_iff {bs : Bytes} :
    (decode? bs).isSome = true ↔ (units bs).all Option.isSome = true := by
  rw [decode?]
  split <;> simp [*]

/-- ASCII in front of a byte string makes no difference to whether it is text. -/
theorem decode?_append_isSome (hlead : ∀ b ∈ lead, b < 0x80) (bs : Bytes) :
    (decode? (lead ++ bs)).isSome = (decode? bs).isSome := by
  rw [Bool.eq_iff_iff, decode?_isSome_iff, decode?_isSome_iff]
  induction lead with
  | nil => rfl
  | cons b lead ih =>
    rw [List.forall_mem_cons] at hlead
    rw [List.cons_append, units_cons_ascii hlead.1, List.all_cons, Option.isSome_some,
      Bool.true_and]
    exact ih hlead.2

end Utf8

namespace Command

/-! ### Spelling options -/

/-- An option as it is given: its name, and the value of one that takes a value. -/
abbrev GivenOption := Bytes × Option Bytes

namespace GivenOption

def spelling : GivenOption → Bytes
  | (name, none) => hyphen :: hyphen :: name
  | (name, some value) => hyphen :: hyphen :: (name ++ equals :: value)

def arity : GivenOption → Arity
  | (_, none) => .flag
  | (_, some _) => .valued

def sorted : GivenOption → Bytes × Bytes
  | (name, value?) => (name, value?.getD [])

/-- A command has an option of this name and arity. -/
structure IsOf (options : Options) (entry : GivenOption) : Prop where
  listed : options.lookup entry.1 = some entry.arity
  ne_nil : entry.1 ≠ []
  equals_notMem : equals ∉ entry.1
  ascii : ∀ b ∈ entry.1, b < 0x80

end GivenOption

variable {options : Options} {entry : GivenOption} {entries : List GivenOption}
  {operands : List Bytes}

/-- In a list whose names are ASCII and have no `=`, it is enough to find the option. -/
theorem GivenOption.isOf_of_lookup
    (hnames : ∀ option ∈ options,
      option.1 ≠ [] ∧ equals ∉ option.1 ∧ ∀ b ∈ option.1, b < 0x80)
    (hlookup : options.lookup entry.1 = some entry.arity) : entry.IsOf options := by
  obtain ⟨before, after, hoptions, _⟩ := List.lookup_eq_some_iff.1 hlookup
  have hmem : (entry.1, entry.arity) ∈ options := by
    rw [hoptions]
    simp
  obtain ⟨hne, hequals, hascii⟩ := hnames _ hmem
  exact ⟨hlookup, hne, hequals, hascii⟩

theorem option?_spelling (h : entry.IsOf options) (others : List Bytes) :
    ∃ body, body ≠ [] ∧ entry.spelling = hyphen :: hyphen :: body ∧
      option? options body others = some (entry.sorted.1, entry.sorted.2, others) := by
  obtain ⟨name, value?⟩ := entry
  obtain ⟨hlisted, hne, hequals, _⟩ := h
  have hall := forall_bne_of_notMem hequals
  cases value? with
  | none =>
    refine ⟨name, hne, rfl, ?_⟩
    have hrest : name.dropWhile (· != equals) = [] := List.dropWhile_eq_nil_iff.2 hall
    simp only [option?, takeWhile_name hequals, hrest, hlisted]
    rfl
  | some value =>
    refine ⟨name ++ equals :: value, ?_, rfl, ?_⟩
    · simp
    · have hrest : (name ++ equals :: value).dropWhile (· != equals) = equals :: value := by
        rw [List.dropWhile_append_of_pos hall]
        rfl
      simp only [option?, takeWhile_name_append hequals, hrest, hlisted]
      rfl

theorem decode?_spelling_isSome (h : entry.IsOf options)
    (hvalue : ∀ value, entry.2 = some value → (Utf8.decode? value).isSome = true) :
    (Utf8.decode? entry.spelling).isSome = true := by
  obtain ⟨name, value?⟩ := entry
  have hlead : ∀ b ∈ hyphen :: hyphen :: name, b < 0x80 := by
    rw [List.forall_mem_cons, List.forall_mem_cons]
    exact ⟨by decide, by decide, h.ascii⟩
  cases value? with
  | none =>
    have hspelling : GivenOption.spelling (name, none) = (hyphen :: hyphen :: name) ++ [] := by
      rw [List.append_nil]
      rfl
    rw [hspelling, Utf8.decode?_append_isSome hlead]
    decide +kernel
  | some value =>
    have hlead' : ∀ b ∈ (hyphen :: hyphen :: name) ++ [equals], b < 0x80 := by
      rw [List.forall_mem_append, List.forall_mem_singleton]
      exact ⟨hlead, by decide⟩
    have hspelling : GivenOption.spelling (name, some value) =
        ((hyphen :: hyphen :: name) ++ [equals]) ++ value := by
      rw [List.append_assoc]
      rfl
    rw [hspelling, Utf8.decode?_append_isSome hlead']
    exact hvalue value rfl

/-- Options that are spelled, before operands that are kept apart, are sorted again. -/
theorem sorts_spelling (hall : ∀ entry ∈ entries, GivenOption.IsOf options entry)
    (operands : List Bytes) :
    Sorts options (entries.map GivenOption.spelling ++ endOfOptions :: operands)
      ⟨entries.map GivenOption.sorted, operands⟩ := by
  induction entries with
  | nil => exact .terminator operands
  | cons entry entries ih =>
    rw [List.forall_mem_cons] at hall
    obtain ⟨body, hbody, hspelling, hoption⟩ := option?_spelling hall.1
      (entries.map GivenOption.spelling ++ endOfOptions :: operands)
    rw [List.map_cons, List.cons_append, hspelling]
    exact .option hbody hoption (ih hall.2)

theorem arguments?_spelling (hall : ∀ entry ∈ entries, GivenOption.IsOf options entry)
    (hdistinct : (entries.map Prod.fst).Nodup) (operands : List Bytes) :
    arguments? options (entries.map GivenOption.spelling ++ endOfOptions :: operands) =
      some ⟨entries.map GivenOption.sorted, operands⟩ := by
  rw [arguments?, sort?_eq_some_iff.2 (sorts_spelling hall operands), Option.filter_some,
    if_pos]
  rw [Arguments.distinct, decide_eq_true_iff, List.map_map]
  exact hdistinct

theorem arguments?_operands (options : Options) (operands : List Bytes) :
    arguments? options (endOfOptions :: operands) = some { operands := operands } := by
  have hnone : ∀ entry ∈ ([] : List GivenOption), GivenOption.IsOf options entry := nofun
  exact arguments?_spelling hnone List.nodup_nil operands

/-! ### The options of a request -/

def flagGiven (name : String) (given : Bool) : List GivenOption :=
  if given then [(ofString name, none)] else []

def valueGiven (name : String) (value? : Option Bytes) : List GivenOption :=
  value?.toList.map fun value => (ofString name, some value)

section Given

variable {name : String} {P : GivenOption → Prop}

theorem forall_mem_flagGiven (given : Bool) (h : P (ofString name, none)) :
    ∀ entry ∈ flagGiven name given, P entry := by
  intro entry hentry
  cases given with
  | false => cases hentry
  | true =>
    obtain rfl := List.mem_singleton.1 hentry
    exact h

theorem forall_mem_valueGiven {value? : Option Bytes}
    (h : ∀ value, value? = some value → P (ofString name, some value)) :
    ∀ entry ∈ valueGiven name value?, P entry := by
  intro entry hentry
  obtain ⟨value, hvalue, rfl⟩ := List.mem_map.1 hentry
  exact h value (Option.mem_toList.1 hvalue)

theorem names_flagGiven_sublist (name : String) (given : Bool) :
    ((flagGiven name given).map Prod.fst).Sublist [ofString name] := by
  cases given with
  | false => exact List.nil_sublist _
  | true => exact List.Sublist.refl _

theorem names_valueGiven_sublist (name : String) (value? : Option Bytes) :
    ((valueGiven name value?).map Prod.fst).Sublist [ofString name] := by
  cases value? with
  | none => exact List.nil_sublist _
  | some value => exact List.Sublist.refl _

end Given

def wordOfPolicy : MissingPolicy → Bytes
  | .raise => ofString "raise"
  | .empty => ofString "empty"
  | .absent => ofString "absent"

def wordOfFormat : Timestamp.Format → Bytes
  | .integer => ofString "integer"
  | .fractional => ofString "fractional"

theorem policyOfWord?_wordOfPolicy (policy : MissingPolicy) :
    policyOfWord? (wordOfPolicy policy) = some policy := by
  cases policy <;> rfl

theorem formatOfWord?_wordOfFormat (format : Timestamp.Format) :
    formatOfWord? (wordOfFormat format) = some format := by
  cases format <;> rfl

namespace LinesRequest

def given (request : LinesRequest) : List GivenOption :=
  flagGiven "keep-newlines" request.keepNewlines ++
    (flagGiven "show-mtime" request.showMtime ++
      (valueGiven "missing" (some (wordOfPolicy request.missing)) ++
        (valueGiven "mtime" (request.mtimeFormat.map wordOfFormat) ++
          valueGiven "config" request.settingsFile)))

theorem isOf_given (request : LinesRequest) :
    ∀ entry ∈ request.given, GivenOption.IsOf linesOptions entry := by
  intro entry hentry
  apply GivenOption.isOf_of_lookup (by decide +kernel)
  revert entry
  simp only [given, List.forall_mem_append]
  exact ⟨forall_mem_flagGiven _ rfl, forall_mem_flagGiven _ rfl,
    forall_mem_valueGiven fun _ _ => rfl, forall_mem_valueGiven fun _ _ => rfl,
    forall_mem_valueGiven fun _ _ => rfl⟩

theorem nodup_given (request : LinesRequest) : (request.given.map Prod.fst).Nodup := by
  have hsublist : (request.given.map Prod.fst).Sublist
      ([ofString "keep-newlines"] ++ ([ofString "show-mtime"] ++ ([ofString "missing"] ++
        ([ofString "mtime"] ++ [ofString "config"])))) := by
    simp only [given, List.map_append]
    exact (names_flagGiven_sublist _ _).append ((names_flagGiven_sublist _ _).append
      ((names_valueGiven_sublist _ _).append ((names_valueGiven_sublist _ _).append
        (names_valueGiven_sublist _ _))))
  apply hsublist.nodup
  decide

/-! Each option is looked up again; the other options may be given or not. -/

section Lookup

variable (request : LinesRequest)

theorem has_keepNewlines :
    Arguments.has ⟨request.given.map GivenOption.sorted, operands⟩ "keep-newlines" =
      request.keepNewlines := by
  obtain ⟨_, keepNewlines, _, mtimeFormat, showMtime, settingsFile⟩ := request
  cases keepNewlines with
  | true => rfl
  | false => cases showMtime <;> cases mtimeFormat <;> cases settingsFile <;> rfl

theorem has_showMtime :
    Arguments.has ⟨request.given.map GivenOption.sorted, operands⟩ "show-mtime" =
      request.showMtime := by
  obtain ⟨_, keepNewlines, _, mtimeFormat, showMtime, settingsFile⟩ := request
  cases showMtime with
  | true => cases keepNewlines <;> rfl
  | false => cases keepNewlines <;> cases mtimeFormat <;> cases settingsFile <;> rfl

theorem valueOf?_missing :
    Arguments.valueOf? ⟨request.given.map GivenOption.sorted, operands⟩ "missing" =
      (some request.missing).map wordOfPolicy := by
  obtain ⟨_, keepNewlines, _, _, showMtime, _⟩ := request
  cases keepNewlines <;> cases showMtime <;> rfl

theorem valueOf?_mtime :
    Arguments.valueOf? ⟨request.given.map GivenOption.sorted, operands⟩ "mtime" =
      request.mtimeFormat.map wordOfFormat := by
  obtain ⟨_, keepNewlines, _, mtimeFormat, showMtime, settingsFile⟩ := request
  cases keepNewlines <;> cases showMtime <;> cases mtimeFormat <;> cases settingsFile <;> rfl

theorem valueOf?_config :
    Arguments.valueOf? ⟨request.given.map GivenOption.sorted, operands⟩ "config" =
      request.settingsFile := by
  obtain ⟨_, keepNewlines, _, mtimeFormat, showMtime, settingsFile⟩ := request
  cases keepNewlines <;> cases showMtime <;> cases mtimeFormat <;> cases settingsFile <;> rfl

end Lookup

end LinesRequest

theorem wordOf?_eq_some {α : Type} {arguments : Arguments} {name : String}
    {ofWord? : Bytes → Option α} {word : α → Bytes} {a? : Option α}
    (hvalue : arguments.valueOf? name = a?.map word) (hword : ∀ a, ofWord? (word a) = some a) :
    wordOf? arguments name ofWord? = some a? := by
  rw [wordOf?, hvalue]
  cases a? with
  | none => rfl
  | some a =>
    show (ofWord? (word a)).map some = some (some a)
    rw [hword]
    rfl

/-- What was spelled of a request is the request again. -/
theorem linesRequest?_given (request : LinesRequest) :
    linesRequest? ⟨request.given.map GivenOption.sorted, [request.file]⟩ = some request := by
  rw [linesRequest?,
    wordOf?_eq_some request.valueOf?_missing policyOfWord?_wordOfPolicy,
    wordOf?_eq_some request.valueOf?_mtime formatOfWord?_wordOfFormat]
  simp only [Option.bind_eq_bind, Option.bind_some, request.has_keepNewlines,
    request.has_showMtime, request.valueOf?_config]
  rfl

/-! ### Requests -/

/-- A command line that asks for the request. -/
def Request.spelling : Request → List Bytes
  | .version => [ofString "--version"]
  | .help => [ofString "--help"]
  | .normalize paths => ofString "normalize" :: endOfOptions :: paths
  | .join segments => ofString "join" :: endOfOptions :: segments
  | .cat file ignoreMissing =>
    ofString "cat" :: ((flagGiven "ignore-missing" ignoreMissing).map GivenOption.spelling ++
      [endOfOptions, file])
  | .lines request =>
    ofString "lines" :: (request.given.map GivenOption.spelling ++ [endOfOptions, request.file])

/-- The byte strings that a request holds. -/
def Request.texts : Request → List Bytes
  | .version => []
  | .help => []
  | .normalize paths => paths
  | .join segments => segments
  | .cat file _ => [file]
  | .lines request => request.file :: request.settingsFile.toList

/-- A request that arguments can hold. -/
structure Request.CanBeSpelled (request : Request) : Prop where
  text : ∀ text ∈ request.texts, (Utf8.decode? text).isSome = true
  paths : request ≠ .normalize []
  segments : request ≠ .join []

/-- Reading what was spelled comes down to reading what a command makes of its options
    and operands. -/
theorem command?_spelled {command : Bytes} (hversion : asksForVersion command = false)
    (hcommand : (Utf8.decode? command).isSome = true)
    (hall : ∀ entry ∈ entries, GivenOption.IsOf options entry)
    (hvalues : ∀ entry ∈ entries, ∀ value, entry.2 = some value →
      (Utf8.decode? value).isSome = true)
    (hoperands : ∀ operand ∈ operands, (Utf8.decode? operand).isSome = true) :
    command? (command :: (entries.map GivenOption.spelling ++ endOfOptions :: operands)) =
      requestOf? command (entries.map GivenOption.spelling ++ endOfOptions :: operands) := by
  rw [command?_cons hversion hcommand, if_pos]
  rw [List.all_eq_true, List.forall_mem_append, List.forall_mem_cons, List.forall_mem_map]
  refine ⟨?_, by decide +kernel, hoperands⟩
  intro entry hentry
  exact decode?_spelling_isSome (hall entry hentry) (hvalues entry hentry)

theorem command?_operands {command : Bytes} (hversion : asksForVersion command = false)
    (hcommand : (Utf8.decode? command).isSome = true)
    (hoperands : ∀ operand ∈ operands, (Utf8.decode? operand).isSome = true) :
    command? (command :: endOfOptions :: operands) =
      requestOf? command (endOfOptions :: operands) := by
  have hnone : ∀ entry ∈ ([] : List GivenOption), GivenOption.IsOf [] entry := nofun
  exact command?_spelled hversion hcommand hnone nofun hoperands

theorem request?_spelling_cat (file : Bytes) (ignoreMissing : Bool)
    (hfile : (Utf8.decode? file).isSome = true) :
    request? (Request.cat file ignoreMissing).spelling = some (.cat file ignoreMissing) := by
  have hall : ∀ entry ∈ flagGiven "ignore-missing" ignoreMissing,
      GivenOption.IsOf catOptions entry :=
    forall_mem_flagGiven ignoreMissing (GivenOption.isOf_of_lookup (by decide +kernel) rfl)
  have hvalues : ∀ entry ∈ flagGiven "ignore-missing" ignoreMissing,
      ∀ value, entry.2 = some value → (Utf8.decode? value).isSome = true :=
    forall_mem_flagGiven ignoreMissing nofun
  have hdistinct := (names_flagGiven_sublist "ignore-missing" ignoreMissing).nodup
    (List.pairwise_singleton _ _)
  apply request?_of_command?
  rw [Request.spelling, command?_spelled (by decide) (by decide +kernel) hall hvalues
      (List.forall_mem_singleton.2 hfile),
    requestOf?, if_neg (by decide), if_neg (by decide), if_pos rfl,
    arguments?_spelling hall hdistinct]
  cases ignoreMissing <;> rfl

theorem request?_spelling_lines (request : LinesRequest)
    (hfile : (Utf8.decode? request.file).isSome = true)
    (hsettings : ∀ path, request.settingsFile = some path →
      (Utf8.decode? path).isSome = true) :
    request? (Request.lines request).spelling = some (.lines request) := by
  have hvalues : ∀ entry ∈ request.given,
      ∀ value, entry.2 = some value → (Utf8.decode? value).isSome = true := by
    simp only [LinesRequest.given, List.forall_mem_append]
    refine ⟨forall_mem_flagGiven _ nofun, forall_mem_flagGiven _ nofun,
      forall_mem_valueGiven ?_, forall_mem_valueGiven ?_, forall_mem_valueGiven ?_⟩
    · rintro _ ⟨⟩ _ ⟨⟩
      cases request.missing <;> decide +kernel
    · rintro _ hformat _ ⟨⟩
      obtain ⟨format, _, rfl⟩ := Option.map_eq_some_iff.1 hformat
      cases format <;> decide +kernel
    · rintro path hpath _ ⟨⟩
      exact hsettings path hpath
  apply request?_of_command?
  rw [Request.spelling, command?_spelled (by decide) (by decide +kernel) request.isOf_given
      hvalues (List.forall_mem_singleton.2 hfile),
    requestOf?, if_neg (by decide), if_neg (by decide), if_neg (by decide), if_pos rfl,
    arguments?_spelling request.isOf_given request.nodup_given, Option.bind_some,
    linesRequest?_given]
  rfl

/-- **Every request can be asked for**, if arguments can hold it. -/
theorem request?_spelling (request : Request) (h : request.CanBeSpelled) :
    request? request.spelling = some request := by
  obtain ⟨htext, hpaths, hsegments⟩ := h
  cases request with
  | version => rfl
  | help => decide +kernel
  | normalize paths =>
    cases paths with
    | nil => exact absurd rfl hpaths
    | cons path paths =>
      change ∀ text ∈ path :: paths, _ at htext
      apply request?_of_command?
      rw [Request.spelling, command?_operands (by decide) (by decide +kernel) htext, requestOf?,
        if_pos rfl, arguments?_operands]
  | join segments =>
    cases segments with
    | nil => exact absurd rfl hsegments
    | cons segment segments =>
      change ∀ text ∈ segment :: segments, _ at htext
      apply request?_of_command?
      rw [Request.spelling, command?_operands (by decide) (by decide +kernel) htext, requestOf?,
        if_neg (by decide), if_pos rfl, arguments?_operands]
  | cat file ignoreMissing =>
    exact request?_spelling_cat file ignoreMissing (htext file (List.mem_singleton_self file))
  | lines request =>
    have hall := List.forall_mem_cons.1 htext
    apply request?_spelling_lines request hall.1
    intro path hpath
    exact hall.2 path (Option.mem_toList.2 hpath)

end Command

end FileAccess
