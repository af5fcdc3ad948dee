/-
  FileAccess/Proofs/Files/Policies.lean
  =====================================
  **A policy decides nothing but what a missing path gives.**

  A policy is asked once, about the result of the open.  It lets every result through
  but one, the failed open of a missing path; so under two policies an operation on any
  other path is the same run, with the same result and the same host afterwards.  What
  fails once the path is open, when it is to be reported on, read or mapped, is never put
  to a policy, not even where the system gives the number of a missing entry for it.
-/
import FileAccess.Proofs.Files.Outcomes

namespace FileAccess

namespace MissingPolicy

section Resolve

variable {α : Type} {attempt : Except Error α}

/-- Whatever is not the failed open of a missing path is the same under every policy. -/
theorem resolve_eq_resolve (h : ∀ e, attempt = .error e → e.isNotFound = false)
    (policy policy' : MissingPolicy) : policy.resolve attempt = policy'.resolve attempt := by
  cases attempt with
  | ok value => rfl
  | error e =>
    have hother := h e rfl
    rw [policy.resolve_of_not_isNotFound hother, policy'.resolve_of_not_isNotFound hother]

end Resolve

/-- How far the policies of an operation on a path reach. -/
structure DecidesMissingOnly (lookup : Lookup) (path : Bytes) (options : LineOptions)
    (host : Host) : Prop where
  /-- The failed opens that a policy speaks of are those of a missing path. -/
  missing_iff : (∃ e, (OpenFile.acquire lookup path host).1 = .error e ∧ e.isNotFound = true) ↔
    IsMissing lookup path
  /-- Where the open is not one of these, two policies make no difference. -/
  same : (∀ e, (OpenFile.acquire lookup path host).1 = .error e → e.isNotFound = false) →
    ∀ policy policy',
      openLines lookup path { options with missing := policy } host =
        openLines lookup path { options with missing := policy' } host ∧
      readWhole lookup path policy host = readWhole lookup path policy' host
  /-- Any other error of the open is the result, with nothing done after the open. -/
  refused : ∀ e, (OpenFile.acquire lookup path host).1 = .error e → e.isNotFound = false →
    ∀ policy,
      openLines lookup path { options with missing := policy } host =
        (.error e, (OpenFile.acquire lookup path host).2) ∧
      readWhole lookup path policy host = (.error e, (OpenFile.acquire lookup path host).2)
  /-- Where there is no report on what was opened, that is the result, whatever number the
      system gives. -/
  unreported : ∀ target errno, path ≠ [] → lookup.open? path = .ok target →
    target.stat = .error errno → ∀ policy,
      (openLines lookup path { options with missing := policy } host).1 =
        .error (.os path errno.code .stating (.system errno)) ∧
      (readWhole lookup path policy host).1 =
        .error (.os path errno.code .stating (.system errno))
  /-- Where what was found cannot be mapped, or not be read, that is the result of the
      operation that does it, again with any number. -/
  unmapped : ∀ target report errno, Finds lookup path target report →
    options.threshold ≤ report.size → target.mapping = .error errno → ∀ policy,
      (openLines lookup path { options with missing := policy } host).1 =
        .error (.os path errno.code .mapping (.system errno))
  unread : ∀ target report source, Finds lookup path target report →
    target.reading.exactly report.size = .error source → ∀ policy,
      (readWhole lookup path policy host).1 =
        .error (OpenFile.readError path report.size source) ∧
      (report.size < options.threshold →
        (openLines lookup path { options with missing := policy } host).1 =
          .error (OpenFile.readError path report.size source))
  /-- A missing path raises the very error of the open. -/
  raise : ∀ e, (OpenFile.acquire lookup path host).1 = .error e → e.isNotFound = true →
    openLines lookup path { options with missing := .raise } host = (.error e, host) ∧
    readWhole lookup path .raise host = (.error e, host)
  /-- Or it gives the empty sequence, which is exhausted and has no modification time,
      and the empty content. -/
  empty : ∀ e, (OpenFile.acquire lookup path host).1 = .error e → e.isNotFound = true →
    (∃ opened reader,
      openLines lookup path { options with missing := .empty } host = (.ok opened, host) ∧
      opened.reader? = some reader ∧ reader.next = (none, reader) ∧
      ∀ later, reader.mtime? later = none) ∧
    readWhole lookup path .empty host = (.ok (some []), host)
  /-- Or it gives neither a sequence nor a content. -/
  absent : ∀ e, (OpenFile.acquire lookup path host).1 = .error e → e.isNotFound = true →
    openLines lookup path { options with missing := .absent } host = (.ok .absent, host) ∧
    readWhole lookup path .absent host = (.ok none, host)

/-- **A policy decides only what a missing path gives**, whether the path is opened for
    its lines or read whole. -/
theorem decidesMissingOnly (lookup : Lookup) (path : Bytes) (options : LineOptions)
    (host : Host) : DecidesMissingOnly lookup path options host := by
  constructor
  case missing_iff => exact OpenFile.acquire_isNotFound_iff host
  case same =>
    intro hother policy policy'
    have hresolve := resolve_eq_resolve hother policy policy'
    constructor
    · rw [openLines_eq_of_acquire, openLines_eq_of_acquire, hresolve]
      rfl
    · rw [readWhole_eq_of_acquire, readWhole_eq_of_acquire, hresolve]
  case refused =>
    intro e he hother policy
    exact ⟨openLines_refused he hother _, readWhole_refused he hother policy⟩
  case unreported =>
    intro target errno hpath hopen hstat policy
    have he : (OpenFile.acquire lookup path host).1 =
        .error (.os path errno.code .stating (.system errno)) := by
      rw [OpenFile.acquire_unreported hpath hopen hstat]
    rw [openLines_refused he rfl, readWhole_refused he rfl]
    exact ⟨rfl, rfl⟩
  case unmapped =>
    intro target report errno hfinds hle hmapping policy
    have hmaps : (Purpose.lines options.threshold).maps report.size := hle
    have hlines := @openLines_failed _ _ _ _ { options with missing := policy } hfinds _
      (Purpose.fetch_of_mapping_eq_error hmaps hmapping) host
    rw [hlines]
    rfl
  case unread =>
    intro target report source hfinds hread policy
    constructor
    · have hwhole : ¬ Purpose.whole.maps report.size := not_false
      rw [readWhole_found hfinds, Purpose.fetch_of_exactly_eq_error hwhole hread]
      rfl
    · intro hlt
      have hmaps : ¬ (Purpose.lines options.threshold).maps report.size := Nat.not_le.2 hlt
      have hlines := @openLines_failed _ _ _ _ { options with missing := policy } hfinds _
        (Purpose.fetch_of_exactly_eq_error hmaps hread) host
      rw [hlines]
  case raise =>
    intro e he hmissing
    exact ⟨openLines_missing he hmissing _, readWhole_missing he hmissing .raise⟩
  case empty =>
    intro e he hmissing
    constructor
    · exact ⟨.empty, .empty, openLines_missing he hmissing _, rfl, rfl, fun _ => rfl⟩
    · exact readWhole_missing he hmissing .empty
  case absent =>
    intro e he hmissing
    exact ⟨openLines_missing he hmissing _, readWhole_missing he hmissing .absent⟩

end MissingPolicy

end FileAccess
