/-
  FileAccess/Proofs/Settings/Tokens.lean
  ======================================
  **Texts, names and numbers are read as they were spelled.**

  A text in quotes is read back whatever its characters (`text?_quoted`), and a name up to
  the first character that no name has (`name?_nameSpelling`).  An integer is read back if it
  is in range (`integer?_integerSpelling`).  Other values start with digits too, but after
  them stands a mark that no integer goes on with, and there the reader of integers stops
  (`integer?_rest`).
-/
import FileAccess.Proofs.Settings.Spelling

namespace FileAccess

namespace Settings

variable {c : Char} {rest : List Char}

/-! ### Kinds of characters -/

/-- What holds of no character in a list. -/
theorem eq_false_of_mem {p : Char → Bool} {cs : List Char} (hnone : cs.all (fun d => !p d) = true)
    (h : c ∈ cs) : p c = false := by
  simpa using List.all_eq_true.1 hnone c h

theorem notMem_of_eq_true {p : Char → Bool} {cs : List Char}
    (hnone : cs.all (fun d => !p d) = true) (h : p c = true) : c ∉ cs := by
  intro hmem
  rw [eq_false_of_mem hnone hmem] at h
  exact Bool.false_ne_true h

/-! ### Texts and names -/

theorem digitValue?_digitChar : ∀ n < 16, digitValue? n.digitChar = some n := by
  decide

theorem toNat_lt_of_not_isPlain (h : ¬isPlain c = true) : c.toNat < 128 := by
  by_contra hlarge
  apply h
  have hne : c ≠ '\x7F' := by
    rintro rfl
    exact hlarge (by decide)
  have hle : ' ' ≤ c := by
    rw [Char.le_def, UInt32.le_iff_toNat_le]
    have h32 : ' '.val.toNat = 32 := rfl
    have hnat : c.toNat = c.val.toNat := rfl
    omega
  simp [isPlain, hle, hne]

/-- The digits of an escaped character are its code. -/
theorem charOfHex?_toNat (h : c.toNat < 128) :
    charOfHex? ['0', '0', (c.toNat / 16).digitChar, (c.toNat % 16).digitChar] = some c := by
  have hzero : digitValue? '0' = some 0 := by decide
  have hhigh := digitValue?_digitChar (c.toNat / 16) (by omega)
  have hlow := digitValue?_digitChar (c.toNat % 16) (by omega)
  have hvalues : ['0', '0', (c.toNat / 16).digitChar, (c.toNat % 16).digitChar].mapM digitValue? =
      some [0, 0, c.toNat / 16, c.toNat % 16] := by
    simp [hzero, hhigh, hlow]
  have hcode : [0, 0, c.toNat / 16, c.toNat % 16].foldl (fun n d => n * 16 + d) 0 = c.toNat := by
    simp only [List.foldl_cons, List.foldl_nil]
    omega
  have hvalid : c.toNat.isValidChar := c.valid
  rw [charOfHex?, hvalues]
  dsimp only
  rw [hcode, if_pos hvalid, Char.ofNat_toNat]

theorem basicText?_escape (c : Char) (rest : List Char) :
    basicText? (escape c ++ rest) = prepend c (basicText? rest) := by
  rw [escape]
  by_cases hquote : c = '"' ∨ c = '\\'
  · rw [if_pos hquote]
    rcases hquote with rfl | rfl
    · simp [basicText?, escapeOf?]
    · simp [basicText?, escapeOf?]
  rw [if_neg hquote]
  obtain ⟨hquote, hbackslash⟩ := not_or.1 hquote
  by_cases hplain : isPlain c
  · rw [if_pos hplain, List.singleton_append, basicText?.eq_def]
    split <;> simp_all
  · have hchar := charOfHex?_toNat (toNat_lt_of_not_isPlain hplain)
    rw [if_neg hplain]
    simp [basicText?, hchar]

theorem basicText?_quoted (text rest : List Char) :
    basicText? (text.flatMap escape ++ '"' :: rest) = some (text, rest) := by
  induction text with
  | nil => simp [basicText?]
  | cons c text ih =>
    rw [List.flatMap_cons, List.append_assoc, basicText?_escape, ih]
    rfl

theorem text?_of_not_long {cs : List Char} (h : ∀ r, cs ≠ '"' :: '"' :: r) :
    text? ('"' :: cs) = basicText? cs := by
  rw [text?.eq_def]
  split <;> simp_all

/-- A text in quotes is read as it was, if no third quote follows the two of an empty one. -/
theorem text?_quoted (text rest : List Char) (h : rest.head? ≠ some '"') :
    text? (quoted text ++ rest) = some (text, rest) := by
  have hquoted : quoted text ++ rest = '"' :: (text.flatMap escape ++ '"' :: rest) := by
    simp [quoted]
  rw [hquoted, text?_of_not_long, basicText?_quoted]
  intro r heq
  cases text with
  | nil =>
    obtain rfl : rest = '"' :: r := by simpa using heq
    simp at h
  | cons c text =>
    rw [List.flatMap_cons, escape] at heq
    split at heq
    · simp at heq
    · split at heq
      · simp_all
      · simp at heq

theorem takeWhile_append_of_stop {p : Char → Bool} {cs : List Char} (hall : ∀ d ∈ cs, p d = true)
    (hstop : p c = false) (rest : List Char) : (cs ++ c :: rest).takeWhile p = cs := by
  rw [List.takeWhile_append_of_pos hall, List.takeWhile_cons_of_neg (by simp [hstop]),
    List.append_nil]

theorem dropWhile_append_of_stop {p : Char → Bool} {cs : List Char} (hall : ∀ d ∈ cs, p d = true)
    (hstop : p c = false) (rest : List Char) : (cs ++ c :: rest).dropWhile p = c :: rest := by
  rw [List.dropWhile_append_of_pos hall, List.dropWhile_cons_of_neg (by simp [hstop])]

/-- A name is read up to a character that no name has. -/
theorem name?_nameSpelling (name : List Char) (h : isBareChar c = false) (rest : List Char) :
    name? (nameSpelling name ++ c :: rest) = some (name, c :: rest) := by
  rw [nameSpelling]
  by_cases hbare : name ≠ [] ∧ name.all isBareChar
  · rw [if_pos hbare]
    obtain ⟨hne, hall⟩ := hbare
    rw [List.all_eq_true] at hall
    have htake := takeWhile_append_of_stop hall h rest
    have hdrop := dropWhile_append_of_stop hall h rest
    cases name with
    | nil => exact absurd rfl hne
    | cons d name =>
      have hd := hall d (List.mem_cons_self ..)
      have hquote : d ≠ '"' := by
        rintro rfl
        exact absurd hd (by decide)
      have hsingle : d ≠ '\'' := by
        rintro rfl
        exact absurd hd (by decide)
      rw [name?.eq_def]
      split <;> simp_all
  · rw [if_neg hbare]
    have hbasic := basicText?_quoted name (c :: rest)
    simpa [quoted, name?] using hbasic

/-! ### Numbers -/

theorem isDigit_digits (n : Nat) : ∀ d ∈ digits n, d.isDigit = true := fun _ =>
  Nat.isDigit_of_mem_toDigits (by decide) (by decide)

theorem digits_ne_nil (n : Nat) : digits n ≠ [] :=
  Nat.toDigits_ne_nil

theorem isDigit_padded (width n : Nat) : ∀ d ∈ padded width n, d.isDigit = true := by
  intro d h
  rw [padded, Binary64.paddedDigits, String.toList_ofList, List.mem_append] at h
  rcases h with hzero | hdigit
  · rw [List.eq_of_mem_replicate hzero]
    rfl
  · exact isDigit_digits n d hdigit

theorem padded_ne_nil (width n : Nat) : padded width n ≠ [] := by
  rw [padded, Binary64.paddedDigits, String.toList_ofList]
  exact List.append_ne_nil_of_right_ne_nil _ (digits_ne_nil n)

/-- Only zero has a zero as its first digit. -/
theorem digits_ne_zero_cons (n : Nat) (cs : List Char) : digits n ≠ '0' :: c :: cs := by
  induction n using Nat.strongRecOn generalizing c cs with
  | ind n ih =>
    intro heq
    rcases Nat.lt_or_ge n 10 with hlt | hge
    · rw [digits, Nat.toDigits_of_lt_base hlt] at heq
      exact absurd (List.cons.inj heq).2 (by simp)
    · have hsplit : digits n = digits (n / 10) ++ [(n % 10).digitChar] :=
        Nat.toDigits_of_base_le (by decide) hge
      have hvalue : Nat.ofDigitChars 10 (digits (n / 10)) 0 = n / 10 := Nat.ofDigitChars_ten_toDigits
      rw [hsplit] at heq
      cases hdigits : digits (n / 10) with
      | nil => exact digits_ne_nil _ hdigits
      | cons d ds =>
        rw [hdigits, List.cons_append] at heq
        obtain ⟨rfl, htail⟩ := List.cons.inj heq
        cases ds with
        | nil =>
          rw [hdigits] at hvalue
          have hzero : 0 = n / 10 := hvalue
          omega
        | cons e ds => exact ih (n / 10) (by omega) ds hdigits

theorem digitValue?_of_isDigit (h : c.isDigit = true) :
    digitValue? c = some (c.toNat - 48) ∧ c.toNat - 48 < 10 := by
  obtain ⟨hlow, hhigh⟩ : '0' ≤ c ∧ c ≤ '9' := by simpa [Char.isDigit, Char.le_def] using h
  refine ⟨by rw [digitValue?, if_pos ⟨hlow, hhigh⟩]; rfl, ?_⟩
  rw [Char.le_def, UInt32.le_iff_toNat_le] at hhigh
  have h9 : '9'.val.toNat = 57 := rfl
  have hnat : c.toNat = c.val.toNat := rfl
  omega

theorem isRunChar_of_isDigit {cs : List Char} (hall : ∀ d ∈ cs, d.isDigit = true) :
    ∀ d ∈ cs, isRunChar 10 d = true := by
  intro d hd
  obtain ⟨hvalue, hlt⟩ := digitValue?_of_isDigit (hall d hd)
  simp [isRunChar, isDigitOf, hvalue, hlt]

theorem digits?_eq {cs : List Char} (hall : ∀ d ∈ cs, d.isDigit = true) (acc : Nat) :
    digits? 10 true acc cs = some (Nat.ofDigitChars 10 cs acc) := by
  induction cs generalizing acc with
  | nil => rfl
  | cons d ds ih =>
    obtain ⟨hd, hds⟩ := List.forall_mem_cons.1 hall
    obtain ⟨hvalue, hlt⟩ := digitValue?_of_isDigit hd
    have hne : d ≠ '_' := by
      rintro rfl
      simp at hd
    simp [digits?, hne, hvalue, hlt, ih hds, Nat.ofDigitChars_cons, Nat.mul_comm]

theorem run?_eq {cs : List Char} (hne : cs ≠ []) (hall : ∀ d ∈ cs, d.isDigit = true)
    (hstop : isRunChar 10 c = false) :
    run? 10 (cs ++ c :: rest) = some (Nat.ofDigitChars 10 cs 0, c :: rest) := by
  have hrun := isRunChar_of_isDigit hall
  have hdigits : digits? 10 false 0 cs = digits? 10 true 0 cs := by
    cases cs with
    | nil => exact absurd rfl hne
    | cons d ds =>
      have hd : d ≠ '_' := by
        rintro rfl
        simpa using hall '_' (List.mem_cons_self ..)
      simp [digits?, hd]
  rw [run?, takeWhile_append_of_stop hrun hstop, dropWhile_append_of_stop hrun hstop, hdigits,
    digits?_eq hall]

/-- A run of digits is read to its end, if it is read at all. -/
theorem decimal?_rest {cs : List Char} (hall : ∀ d ∈ cs, d.isDigit = true)
    (hstop : isRunChar 10 c = false) {n : Nat} {left : List Char}
    (h : decimal? (cs ++ c :: rest) = some (n, left)) : left = c :: rest := by
  rw [decimal?] at h
  split at h
  · cases h
  · rw [run?, dropWhile_append_of_stop (isRunChar_of_isDigit hall) hstop] at h
    split at h
    · cases h
    · cases h
      rfl

theorem decimal?_digits (n : Nat) (hstop : isRunChar 10 c = false) (rest : List Char) :
    decimal? (digits n ++ c :: rest) = some (n, c :: rest) := by
  have hrun := isRunChar_of_isDigit (isDigit_digits n)
  have hvalue : Nat.ofDigitChars 10 (digits n) 0 = n := Nat.ofDigitChars_ten_toDigits
  rw [decimal?, takeWhile_append_of_stop hrun hstop]
  split
  · rename_i heq
    exact absurd heq (digits_ne_zero_cons n _)
  · rw [run?_eq (digits_ne_nil n) (isDigit_digits n) hstop, hvalue]

/-- After digits stands a mark that tells no base. -/
def IsMark (c : Char) : Prop :=
  c ∈ ['\n', '.', '-', ':']

theorem IsMark.isRunChar (h : IsMark c) : isRunChar 10 c = false :=
  eq_false_of_mem (p := Settings.isRunChar 10) (by decide) h

/-- Digits and a mark begin with no sign, and tell no base. -/
theorem ne_based {cs : List Char} (hne : cs ≠ []) (hall : ∀ d ∈ cs, d.isDigit = true)
    (hmark : IsMark c) (rest : List Char) {d : Char} {r : List Char} (h : cs ++ c :: rest = d :: r) :
    d.isDigit = true ∧ ∀ e r', r = e :: r' → e.isDigit = true ∨ IsMark e := by
  cases cs with
  | nil => exact absurd rfl hne
  | cons d' ds =>
    obtain ⟨rfl, rfl⟩ := List.cons.inj h
    obtain ⟨hd, hds⟩ := List.forall_mem_cons.1 hall
    refine ⟨hd, fun e r' heq => ?_⟩
    cases ds with
    | nil =>
      obtain ⟨rfl, rfl⟩ := List.cons.inj heq
      exact .inr hmark
    | cons e' es =>
      obtain ⟨rfl, rfl⟩ := List.cons.inj heq
      exact .inl (hds _ (List.mem_cons_self ..))

/-- A number is read and then checked. -/
theorem map_then_check (f : Nat → Int) (check : Int → Option Int)
    (result : Option (Nat × List Char)) :
    (match result.map fun (n, left) => (f n, left) with
      | none => none
      | some (n, left) => (check n).map fun n => (n, left)) =
    result.bind fun (n, left) => (check (f n)).map fun n => (n, left) := by
  cases result with
  | none => rfl
  | some result => rfl

theorem integer?_unsigned {cs : List Char} (hne : cs ≠ []) (hall : ∀ d ∈ cs, d.isDigit = true)
    (hmark : IsMark c) :
    integer? (cs ++ c :: rest) = (decimal? (cs ++ c :: rest)).bind fun (n, left) =>
      (inRange? n).map fun n => (n, left) := by
  have hfirst := fun d r => ne_based hne hall hmark rest (d := d) (r := r)
  have hbase : ∀ e ∈ ['x', 'o', 'b'], ∀ r, cs ++ c :: rest ≠ '0' :: e :: r := by
    intro e he r heq
    have hnext : (e.isDigit || ['\n', '.', '-', ':'].contains e) = true := by
      simpa [IsMark] using (hfirst _ _ heq).2 e r rfl
    exact notMem_of_eq_true (p := fun e => e.isDigit || ['\n', '.', '-', ':'].contains e)
      (by decide) hnext he
  have hsign : ∀ d ∈ ['+', '-'], ∀ r, cs ++ c :: rest ≠ d :: r := by
    intro d hd r heq
    exact notMem_of_eq_true (by decide) (hfirst d r heq).1 hd
  rw [integer?]
  · exact map_then_check (fun n => (n : Int)) inRange? _
  · exact hbase 'x' (by decide)
  · exact hbase 'o' (by decide)
  · exact hbase 'b' (by decide)
  · exact hsign '+' (by decide)
  · exact hsign '-' (by decide)

theorem integer?_negative (cs : List Char) :
    integer? ('-' :: cs) = (decimal? cs).bind fun (n, left) =>
      (inRange? (-n)).map fun n => (n, left) := by
  rw [integer?]
  exact map_then_check (fun n => -(n : Int)) inRange? _

/-- An integer is read as it was, if it is in range. -/
theorem integer?_integerSpelling (n : Int) (hmark : IsMark c) :
    integer? (integerSpelling n ++ c :: rest) = (inRange? n).map fun n => (n, c :: rest) := by
  have hdecimal := decimal?_digits n.natAbs hmark.isRunChar rest
  by_cases hneg : n < 0
  · have hvalue : -(n.natAbs : Int) = n := by omega
    rw [integerSpelling, decide_eq_true hneg, signed, if_pos rfl, List.cons_append,
      integer?_negative, hdecimal, Option.bind_some]
    dsimp only
    rw [hvalue]
  · have hvalue : (n.natAbs : Int) = n := by omega
    rw [integerSpelling, decide_eq_false hneg, signed, if_neg Bool.false_ne_true,
      integer?_unsigned (digits_ne_nil _) (isDigit_digits _) hmark, hdecimal, Option.bind_some]
    dsimp only
    rw [hvalue]

/-- Signed digits are read up to the mark after them, if they are read at all. -/
theorem integer?_rest {cs : List Char} (hne : cs ≠ []) (hall : ∀ d ∈ cs, d.isDigit = true)
    (hmark : IsMark c) {negative : Bool} {n : Int} {left : List Char}
    (h : integer? (signed negative (cs ++ c :: rest)) = some (n, left)) : left = c :: rest := by
  have hrest : ∀ f : Nat → Int, ((decimal? (cs ++ c :: rest)).bind fun (n, left) =>
      (inRange? (f n)).map fun n => (n, left)) = some (n, left) → left = c :: rest := by
    intro f heq
    obtain ⟨⟨m, left'⟩, hdecimal, hmap⟩ := Option.bind_eq_some_iff.1 heq
    obtain ⟨_, _, hpair⟩ := Option.map_eq_some_iff.1 hmap
    rw [← (Prod.mk.inj hpair).2]
    exact decimal?_rest hall hmark.isRunChar hdecimal
  cases negative with
  | true => exact hrest (fun n => -n) (by rwa [← integer?_negative])
  | false => exact hrest (fun n => n) (by rwa [← integer?_unsigned hne hall hmark])

end Settings

end FileAccess
