/-
  FileAccess/Proofs/Files/Cells.lean
  ==================================
  **Preference cells.**

  The format of a preference is what is in its cell.  Cells are changed by making a
  preference and by setting one, and by no operation on files, however it ends; a source
  uses the cell of the options that it was opened with.
-/
import FileAccess.Proofs.Files.Outcomes
import FileAccess.Proofs.Lines.Calls

namespace FileAccess

/-! ### The format in force -/

namespace Preferences

variable {preferences : Preferences} {format : Timestamp.Format} {host host' : Host}

theorem format_create (format : Timestamp.Format) (host : Host) :
    (create format host).1.format (create format host).2 = format := by
  show ((host.cells ++ [format])[host.cells.length]?).getD default = format
  rw [List.getElem?_concat_length]
  rfl

theorem format_setFormat (h : preferences.cell < host.cells.length) :
    preferences.format (preferences.setFormat format host) = format := by
  show ((host.cells.set preferences.cell format)[preferences.cell]?).getD default = format
  rw [List.getElem?_set_self h]
  rfl

theorem format_congr (h : host'.cells = host.cells) :
    preferences.format host' = preferences.format host := by
  rw [format, format, h]

end Preferences

/-! ### Operations on files -/

theorem OpenFile.status_cells (lookup : Lookup) (path : Bytes) (host : Host) :
    (status lookup path host).2.cells = host.cells := by
  rcases acquire_fails_or_finds lookup path with ⟨e, hfails⟩ | ⟨target, report, hfinds⟩
  · obtain ⟨he, hspares⟩ := hfails host
    rw [status_of_error he, hspares.cells_eq]
  · rw [status_found hfinds]
    rfl

theorem readWhole_cells (lookup : Lookup) (path : Bytes) (policy : MissingPolicy) (host : Host) :
    (readWhole lookup path policy host).2.cells = host.cells := by
  rcases OpenFile.acquire_fails_or_finds lookup path with ⟨e, hfails⟩ | ⟨target, report, hfinds⟩
  · exact (readWhole_spares (hfails host).1 policy).cells_eq
  · rw [readWhole_found hfinds]
    rfl

theorem openLines_cells (lookup : Lookup) (path : Bytes) (options : LineOptions) (host : Host) :
    (openLines lookup path options host).2.cells = host.cells := by
  rcases OpenFile.acquire_fails_or_finds lookup path with ⟨e, hfails⟩ | ⟨target, report, hfinds⟩
  · exact (openLines_spares (hfails host).1 options).1.cells_eq
  · rw [openLines_found hfinds]
    split
    · rfl
    · split <;> rfl

theorem Opened.drop_cells (opened : Opened) (host : Host) :
    (opened.drop host).cells = host.cells := by
  cases opened with
  | source source =>
    show (source.release host).2.cells = host.cells
    rw [LineSource.release]
    cases source.store with
    | none => rfl
    | some store => exact LineSource.Store.release_cells store host
  | empty => rfl
  | absent => rfl

/-- A source keeps the handle of the options it was opened with. -/
theorem preferences_of_openLines {lookup : Lookup} {path : Bytes} {options : LineOptions}
    {host host' : Host} {source : LineSource}
    (h : openLines lookup path options host = (.ok (.source source), host')) :
    source.preferences = options.preferences := by
  obtain ⟨_, _, _, _, _, rfl⟩ := exists_start_of_openLines_eq h
  rfl

end FileAccess
