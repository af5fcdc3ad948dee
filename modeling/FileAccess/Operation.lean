/-
  FileAccess/Operation.lean
  =========================
  **Operations on a state that may fail.**

  An `Operation` turns a state into a result and a state.  When it fails, the
  state is the one it had reached: what was done before stays done.  The laws say
  what sequencing, failing and recovering do to the state, so that an operation
  can be read as a function.
-/

namespace FileAccess

abbrev Operation (σ ε α : Type) := ExceptT ε (StateM σ) α

namespace Operation

variable {σ ε α β : Type}

/-- The result of an operation, a failure included, as a value. -/
def attempt (operation : Operation σ ε α) : Operation σ ε (Except ε α) :=
  fun state =>
    let (result, state') := operation state
    (.ok result, state')

/-! ### Laws -/

theorem pure_apply (a : α) (state : σ) : (pure a : Operation σ ε α) state = (.ok a, state) :=
  rfl

theorem throw_apply (e : ε) (state : σ) : (throw e : Operation σ ε α) state = (.error e, state) :=
  rfl

theorem liftExcept_apply (result : Except ε α) (state : σ) :
    (liftExcept result : Operation σ ε α) state = (result, state) := by
  cases result <;> rfl

theorem modify_apply (f : σ → σ) (state : σ) :
    (modify f : Operation σ ε PUnit) state = (.ok ⟨⟩, f state) :=
  rfl

theorem modifyGet_apply (f : σ → α × σ) (state : σ) :
    (modifyGet f : Operation σ ε α) state = (.ok (f state).1, (f state).2) :=
  rfl

theorem attempt_apply (operation : Operation σ ε α) (state : σ) :
    operation.attempt state = (.ok (operation state).1, (operation state).2) :=
  rfl

/-- Sequencing: the second operation starts where the first one succeeded. -/
theorem bind_apply (operation : Operation σ ε α) (next : α → Operation σ ε β) (state : σ) :
    (operation >>= next) state =
      match operation state with
      | (.ok a, state') => next a state'
      | (.error e, state') => (.error e, state') := by
  show (ExceptT.bind operation next) state = _
  simp only [ExceptT.bind, ExceptT.mk]
  show (match operation state with | (result, state') => ExceptT.bindCont next result state') = _
  rcases operation state with ⟨result | result, state'⟩ <;> rfl

theorem map_apply (f : α → β) (operation : Operation σ ε α) (state : σ) :
    (f <$> operation) state = ((operation state).1.map f, (operation state).2) := by
  rw [map_eq_pure_bind, bind_apply]
  rcases operation state with ⟨result | result, state'⟩ <;> rfl

end Operation

end FileAccess
