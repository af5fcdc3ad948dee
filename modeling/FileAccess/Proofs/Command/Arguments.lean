/-
  FileAccess/Proofs/Command/Arguments.lean
  ========================================
  **How arguments are sorted.**

  `Sorts` says what the options and operands of an argument list are: one rule for each
  form of the first argument.  Sorting finds them where the arguments are not rejected
  (`sort?_eq_some_iff`), so what is true of sorted arguments is proved rule by rule.

  The options sorted out are those that an argument before the first `--` spells
  (`Sorts.mem_given_iff`): a value that follows its option never looks like an option
  itself.  A command with a single argument takes it as its operand, or for a request
  for help, or is rejected (`request?_cat`, `request?_lines`).
-/
import FileAccess.Command.Request
import Mathlib.Data.List.TakeWhile

namespace FileAccess

open Bytes

namespace Command

variable {options : Options} {body name value argument : Bytes} {others left arguments : List Bytes}
  {sorted : Arguments}

/-! ### One option -/

section Name

variable (h : equals ∉ name)
include h

theorem takeWhile_name : name.takeWhile (· != equals) = name :=
  List.takeWhile_eq_self_iff.2 (forall_bne_of_notMem h)

theorem takeWhile_name_append (value : Bytes) :
    (name ++ equals :: value).takeWhile (· != equals) = name := by
  rw [List.takeWhile_append_of_pos (forall_bne_of_notMem h)]
  simp

end Name

/-- The three ways to read an option: a flag, a value after `=`, or a value that is the
    next argument. -/
theorem option?_cases (h : option? options body others = some (name, value, left)) :
    (body = name ∧ left = others) ∨ (body = name ++ equals :: value ∧ left = others) ∨
      (body = name ∧ others = value :: left ∧ looksLikeOption value = false) := by
  have hbody := List.takeWhile_append_dropWhile (p := (· != equals)) (l := body)
  simp only [option?] at h
  split at h
  · rename_i hrest
    obtain ⟨rfl, rfl, rfl⟩ := by simpa using h
    rw [hrest, List.append_nil] at hbody
    exact Or.inl ⟨hbody.symm, rfl⟩
  · rename_i first _ _ hrest
    obtain ⟨rfl, rfl, rfl⟩ := by simpa using h
    have hfirst := List.head?_dropWhile_not (· != equals) body
    rw [hrest] at hfirst hbody
    have hequals : first = equals := by simpa using hfirst
    rw [hequals] at hbody
    exact Or.inr (Or.inl ⟨hbody.symm, rfl⟩)
  · rename_i hrest
    split at h
    · cases h
    · rename_i hlooks
      obtain ⟨rfl, rfl, rfl⟩ := by simpa using h
      rw [hrest, List.append_nil] at hbody
      exact Or.inr (Or.inr ⟨hbody.symm, rfl, Bool.not_eq_true _ ▸ hlooks⟩)
  · cases h

theorem option?_name (h : option? options body others = some (name, value, left)) :
    body.takeWhile (· != equals) = name := by
  simp only [option?] at h
  split at h
  · simp_all
  · simp_all
  · split at h
    · cases h
    · simp_all
  · cases h

/-! ### Sorting -/

/-- What the options and operands of an argument list are. -/
inductive Sorts (options : Options) : List Bytes → Arguments → Prop where
  | nil : Sorts options [] {}
  | terminator (others : List Bytes) :
      Sorts options (endOfOptions :: others) { operands := others }
  | option {body name value : Bytes} {others left : List Bytes} {sorted : Arguments}
      (hbody : body ≠ []) (hoption : option? options body others = some (name, value, left))
      (hsorts : Sorts options left sorted) :
      Sorts options ((hyphen :: hyphen :: body) :: others)
        { sorted with given := (name, value) :: sorted.given }
  | operand {argument : Bytes} {others : List Bytes} {sorted : Arguments}
      (hlooks : looksLikeOption argument = false) (hsorts : Sorts options others sorted) :
      Sorts options (argument :: others) { sorted with operands := argument :: sorted.operands }

theorem sort?_option (hbody : body ≠ [])
    (hoption : option? options body others = some (name, value, left)) :
    sort? options ((hyphen :: hyphen :: body) :: others) =
      (sort? options left).map fun a => { a with given := (name, value) :: a.given } := by
  rw [sort?.eq_3 options others body hbody]
  split
  · rename_i hnone
    rw [hoption] at hnone
    cases hnone
  · rename_i hsome
    rw [hoption] at hsome
    cases hsome
    rfl

theorem sort?_option_eq_none (hbody : body ≠ []) (hoption : option? options body others = none) :
    sort? options ((hyphen :: hyphen :: body) :: others) = none := by
  rw [sort?.eq_3 options others body hbody]
  split
  · rfl
  · rename_i hsome
    rw [hoption] at hsome
    cases hsome

theorem sort?_operand (hlooks : looksLikeOption argument = false) (others : List Bytes) :
    sort? options (argument :: others) =
      (sort? options others).map fun a => { a with operands := argument :: a.operands } := by
  rw [sort?.eq_4, if_neg (by simp [hlooks])]
  · rintro rfl
    cases hlooks
  · rintro body rfl
    cases hlooks

theorem sorts_of_sort? (h : sort? options arguments = some sorted) :
    Sorts options arguments sorted := by
  induction arguments using sort?.induct options generalizing sorted with
  | case1 =>
    rw [sort?.eq_1] at h
    cases h
    exact .nil
  | case2 others =>
    rw [sort?.eq_2] at h
    cases h
    exact .terminator others
  | case3 others body hbody hoption =>
    rw [sort?_option_eq_none hbody hoption] at h
    cases h
  | case4 others body hbody name value left hoption _ ih =>
    rw [sort?_option hbody hoption, Option.map_eq_some_iff] at h
    obtain ⟨rest, hrest, rfl⟩ := h
    exact .option hbody hoption (ih hrest)
  | case5 argument others hlooks hterminator hoption =>
    rw [sort?.eq_4 options argument others hterminator hoption, if_pos hlooks] at h
    cases h
  | case6 argument others hlooks hterminator hoption ih =>
    rw [Bool.not_eq_true] at hlooks
    rw [sort?_operand hlooks, Option.map_eq_some_iff] at h
    obtain ⟨rest, hrest, rfl⟩ := h
    exact .operand hlooks (ih hrest)

theorem sort?_eq_some_iff :
    sort? options arguments = some sorted ↔ Sorts options arguments sorted := by
  refine ⟨sorts_of_sort?, ?_⟩
  intro h
  induction h with
  | nil => exact sort?.eq_1 options
  | terminator others => exact sort?.eq_2 options others
  | option hbody hoption _ ih =>
    rw [sort?_option hbody hoption, ih]
    rfl
  | operand hlooks _ ih =>
    rw [sort?_operand hlooks, ih]
    rfl

/-! ### Which options were given -/

/-- An argument spells an option: with `--` before the name, and perhaps with `=` and a
    value after it. -/
def Spells (name argument : Bytes) : Prop :=
  argument = hyphen :: hyphen :: name ∨ hyphen :: hyphen :: (name ++ [equals]) <+: argument

instance (name argument : Bytes) : Decidable (Spells name argument) :=
  inferInstanceAs (Decidable (_ ∨ _))

/-- An option is given when an argument before the first `--` spells it. -/
def Gives (name : Bytes) (arguments : List Bytes) : Prop :=
  ∃ argument ∈ arguments.takeWhile (· != endOfOptions), Spells name argument

instance (name : Bytes) (arguments : List Bytes) : Decidable (Gives name arguments) :=
  inferInstanceAs (Decidable (∃ argument ∈ _, _))

theorem not_gives_nil (name : Bytes) : ¬ Gives name [] := by
  rintro ⟨argument, hmem, _⟩
  cases hmem

theorem not_gives_endOfOptions (name : Bytes) (others : List Bytes) :
    ¬ Gives name (endOfOptions :: others) := by
  rintro ⟨argument, hmem, _⟩
  rw [List.takeWhile_cons_of_neg (by simp)] at hmem
  cases hmem

theorem gives_cons_iff (hargument : argument ≠ endOfOptions) :
    Gives name (argument :: others) ↔ Spells name argument ∨ Gives name others := by
  rw [Gives, List.takeWhile_cons_of_pos (by simpa using hargument)]
  simp [Gives]

theorem Spells.looksLikeOption (h : Spells name argument) : looksLikeOption argument = true := by
  rcases h with rfl | ⟨value, rfl⟩ <;> rfl

theorem gives_cons_of_not_looksLikeOption (h : looksLikeOption argument = false) :
    Gives name (argument :: others) ↔ Gives name others := by
  have hargument : argument ≠ endOfOptions := by
    rintro rfl
    cases h
  rw [gives_cons_iff hargument]
  constructor
  · rintro (hspells | hgives)
    · rw [hspells.looksLikeOption] at h
      cases h
    · exact hgives
  · exact Or.inr

section Read

variable {name' : Bytes} (hname : equals ∉ name')
  (h : option? options body others = some (name, value, left))
include hname h

theorem spells_iff_of_option? : Spells name' (hyphen :: hyphen :: body) ↔ name' = name := by
  constructor
  · rintro (hbody | ⟨written, hbody⟩)
    · have hsame : body = name' := by simpa using hbody
      rw [← option?_name h, hsame, takeWhile_name hname]
    · have hsame : body = name' ++ equals :: written := by simpa using hbody.symm
      rw [← option?_name h, hsame, takeWhile_name_append hname]
  · rintro rfl
    rcases option?_cases h with ⟨hflag, _⟩ | ⟨hvalue, _⟩ | ⟨hnext, _⟩
    · left
      rw [hflag]
    · right
      exact ⟨value, by simp [hvalue]⟩
    · left
      rw [hnext]

omit hname in
theorem gives_iff_of_option? : Gives name' others ↔ Gives name' left := by
  rcases option?_cases h with ⟨_, hleft⟩ | ⟨_, hleft⟩ | ⟨_, hothers, hlooks⟩
  · rw [hleft]
  · rw [hleft]
  · rw [hothers, gives_cons_of_not_looksLikeOption hlooks]

end Read

/-- **The options sorted out are those given.** -/
theorem Sorts.mem_given_iff (h : Sorts options arguments sorted) (hname : equals ∉ name) :
    name ∈ sorted.given.map Prod.fst ↔ Gives name arguments := by
  induction h with
  | nil => simp [not_gives_nil]
  | terminator others => simp [not_gives_endOfOptions]
  | @option body _ _ _ _ _ hbody hoption hsorts ih =>
    have hargument : hyphen :: hyphen :: body ≠ endOfOptions := by
      intro heq
      exact hbody (by simpa using heq)
    rw [gives_cons_iff hargument, spells_iff_of_option? hname hoption,
      gives_iff_of_option? hoption, ← ih, List.map_cons, List.mem_cons]
  | operand hlooks _ ih => rw [gives_cons_of_not_looksLikeOption hlooks, ← ih]

/-! ### Requests -/

theorem sort?_of_arguments? (h : arguments? options arguments = some sorted) :
    sort? options arguments = some sorted :=
  (Option.filter_eq_some_iff.1 h).1

theorem request?_of_command? {request : Request} (h : command? arguments = some request) :
    request? arguments = some request := by
  rw [request?, h, Option.some_or]

theorem request?_of_command?_eq_none (h : command? arguments = none) :
    request? arguments = if requestsHelp arguments then some .help else none := by
  rw [request?, h, Option.none_or]

/-- Apart from help, a line asks for what its command and its arguments ask for. -/
theorem request?_eq_some_iff {request : Request} (hhelp : request ≠ .help) :
    request? arguments = some request ↔ command? arguments = some request := by
  refine ⟨?_, request?_of_command?⟩
  intro h
  cases hcommand : command? arguments with
  | some other =>
    rw [request?_of_command? hcommand] at h
    exact h
  | none =>
    rw [request?_of_command?_eq_none hcommand] at h
    split at h
    · exact absurd (Option.some.inj h).symm hhelp
    · cases h

theorem exists_sorts_of_lines {request : LinesRequest}
    (h : request? arguments = some (.lines request)) :
    ∃ others sorted, arguments = ofString "lines" :: others ∧ Sorts linesOptions others sorted ∧
      linesRequest? sorted = some request := by
  have hhelp : Request.lines request ≠ .help := nofun
  rw [request?_eq_some_iff hhelp] at h
  cases arguments with
  | nil => cases h
  | cons first others =>
    rw [command?] at h
    split at h
    · cases h
    · split at h
      · rw [requestOf?] at h
        split at h
        · split at h <;> cases h
        · split at h
          · split at h <;> cases h
          · split at h
            · split at h <;> cases h
            · split at h
              · rename_i hcommand
                obtain ⟨_, hbind, ⟨⟩⟩ := Option.map_eq_some_iff.1 h
                obtain ⟨sorted, harguments, hrequest⟩ := Option.bind_eq_some_iff.1 hbind
                exact ⟨others, sorted, by rw [hcommand],
                  sort?_eq_some_iff.1 (sort?_of_arguments? harguments), hrequest⟩
              · cases h
      · cases h

/-- What the arguments of a request for lines say of its fields. -/
theorem linesRequest?_eq_some {request : LinesRequest} (h : linesRequest? sorted = some request) :
    sorted.operands = [request.file] ∧ request.settingsFile = sorted.valueOf? "config" := by
  rw [linesRequest?, Option.bind_eq_bind, Option.bind_eq_some_iff] at h
  obtain ⟨missing, _, h⟩ := h
  rw [Option.bind_eq_bind, Option.bind_eq_some_iff] at h
  obtain ⟨format, _, h⟩ := h
  split at h
  · rename_i hoperands
    cases h
    exact ⟨hoperands, rfl⟩
  · cases h

/-- **A request names a settings file exactly when the option for it is given.** -/
theorem settingsFile_eq_none_iff {request : LinesRequest}
    (h : request? arguments = some (.lines request)) :
    request.settingsFile = none ↔ ¬ Gives (ofString "config") arguments := by
  obtain ⟨others, sorted, rfl, hsorts, hrequest⟩ := exists_sorts_of_lines h
  obtain ⟨_, hvalue⟩ := linesRequest?_eq_some hrequest
  have hname : equals ∉ ofString "config" := by decide
  have hgiven := hsorts.mem_given_iff hname
  rw [gives_cons_of_not_looksLikeOption (by decide), ← hgiven, hvalue, Arguments.valueOf?,
    List.lookup_eq_none_iff]
  simp only [bne_iff_ne, List.mem_map, not_exists, not_and]
  constructor
  · intro hnone entry hentry heq
    exact hnone entry hentry heq.symm
  · intro hnone entry hentry heq
    exact hnone entry hentry heq.symm

/-! ### A command with one argument -/

/-- An argument that is an operand wherever it stands, if arguments may be it at all. -/
def IsOperand (argument : Bytes) : Prop :=
  (Utf8.decode? argument).isSome = true ∧ looksLikeOption argument = false

instance (argument : Bytes) : Decidable (IsOperand argument) :=
  inferInstanceAs (Decidable (_ ∧ _))

theorem arguments?_operand (hlooks : looksLikeOption argument = false) :
    arguments? options [argument] = some { operands := [argument] } := by
  have hsorts : Sorts options [argument] { operands := [argument] } := .operand hlooks .nil
  rw [arguments?, sort?_eq_some_iff.2 hsorts]
  rfl

theorem operands_eq_nil (hlooks : looksLikeOption argument = true)
    (h : arguments? options [argument] = some sorted) : sorted.operands = [] := by
  cases sort?_eq_some_iff.1 (sort?_of_arguments? h) with
  | terminator others => rfl
  | option hbody hoption hsorts =>
    -- the option may have a value, but it is the only argument
    rcases option?_cases hoption with ⟨_, rfl⟩ | ⟨_, rfl⟩ | ⟨_, hothers, _⟩
    · cases hsorts
      rfl
    · cases hsorts
      rfl
    · cases hothers
  | operand hoperand hsorts =>
    rw [hlooks] at hoperand
    cases hoperand

theorem command?_cons {command : Bytes} (hversion : asksForVersion command = false)
    (hcommand : (Utf8.decode? command).isSome = true) (others : List Bytes) :
    command? (command :: others) =
      if others.all fun argument => (Utf8.decode? argument).isSome then requestOf? command others
      else none := by
  rw [command?, hversion, if_neg Bool.false_ne_true, List.all_cons, hcommand, Bool.true_and]

theorem command?_cat (file : Bytes) :
    command? [ofString "cat", file] =
      if IsOperand file then some (.cat file false) else none := by
  rw [command?_cons (by decide) (by decide +kernel), List.all_cons, List.all_nil, Bool.and_true]
  by_cases hdecode : (Utf8.decode? file).isSome = true
  · rw [if_pos hdecode, requestOf?, if_neg (by decide), if_neg (by decide), if_pos rfl]
    cases hlooks : looksLikeOption file with
    | false =>
      rw [arguments?_operand hlooks, if_pos ⟨hdecode, hlooks⟩]
      rfl
    | true =>
      rw [if_neg (by simp [IsOperand, hlooks])]
      split
      · rename_i harguments
        cases operands_eq_nil hlooks harguments
      · rfl
  · rw [if_neg hdecode, if_neg (by simp [IsOperand, hdecode])]

/-- The request for the lines of a file that gives no options. -/
def LinesRequest.plain (file : Bytes) : LinesRequest where
  file := file
  keepNewlines := false
  missing := .raise
  mtimeFormat := none
  showMtime := false
  settingsFile := none

theorem command?_lines (file : Bytes) :
    command? [ofString "lines", file] =
      if IsOperand file then some (.lines (.plain file)) else none := by
  rw [command?_cons (by decide) (by decide +kernel), List.all_cons, List.all_nil, Bool.and_true]
  by_cases hdecode : (Utf8.decode? file).isSome = true
  · rw [if_pos hdecode, requestOf?, if_neg (by decide), if_neg (by decide), if_neg (by decide),
      if_pos rfl]
    cases hlooks : looksLikeOption file with
    | false =>
      rw [arguments?_operand hlooks, if_pos ⟨hdecode, hlooks⟩]
      rfl
    | true =>
      rw [if_neg (by simp [IsOperand, hlooks]), Option.map_eq_none_iff, Option.bind_eq_none_iff]
      intro sorted harguments
      rw [Option.eq_none_iff_forall_ne_some]
      intro request hrequest
      obtain ⟨hoperands, _⟩ := linesRequest?_eq_some hrequest
      rw [operands_eq_nil hlooks harguments] at hoperands
      cases hoperands
  · rw [if_neg hdecode, if_neg (by simp [IsOperand, hdecode])]

/-- With one argument, a command is asked for help by that argument alone. -/
theorem requestsHelp_pair {command : Bytes} (hcommand : asksForHelp command = false)
    (hname : command ≠ ofString "help") (hreads : readsOn command [] = true) (argument : Bytes) :
    requestsHelp [command, argument] = asksForHelp argument := by
  rw [requestsHelp, hcommand, if_neg Bool.false_ne_true, if_neg hname, List.any_cons,
    List.any_nil, Bool.or_false]
  cases hasks : asksForHelp argument with
  | false => rfl
  | true =>
    rw [List.takeWhile_cons_of_neg (by simp [hasks]), hreads]
    rfl

/-- What a command with one argument is asked for, if it is asked for anything. -/
theorem request?_pair {command : Bytes} {request : Request}
    (hcommand : command? [command, argument] = if IsOperand argument then some request else none)
    (hasks : requestsHelp [command, argument] = asksForHelp argument) :
    request? [command, argument] =
      if IsOperand argument then some request
      else if asksForHelp argument then some .help
      else none := by
  by_cases hoperand : IsOperand argument
  · rw [if_pos hoperand] at hcommand ⊢
    exact request?_of_command? hcommand
  · rw [if_neg hoperand] at hcommand ⊢
    rw [request?_of_command?_eq_none hcommand, hasks]

theorem request?_cat (file : Bytes) :
    request? [ofString "cat", file] =
      if IsOperand file then some (.cat file false)
      else if asksForHelp file then some .help
      else none :=
  request?_pair (command?_cat file)
    (requestsHelp_pair (by decide) (by decide) (by decide +kernel) file)

theorem request?_lines (file : Bytes) :
    request? [ofString "lines", file] =
      if IsOperand file then some (.lines (.plain file))
      else if asksForHelp file then some .help
      else none :=
  request?_pair (command?_lines file)
    (requestsHelp_pair (by decide) (by decide) (by decide +kernel) file)

end Command

end FileAccess
