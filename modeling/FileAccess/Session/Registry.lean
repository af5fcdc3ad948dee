/-
  FileAccess/Session/Registry.lean
  ================================
  **Values under names.**

  A registry holds at most one value under each name; storing a value under a name
  replaces the one that was there.
-/

namespace FileAccess

abbrev Registry (α : Type) := List (String × α)

namespace Registry

variable {α : Type}

def get? (registry : Registry α) (name : String) : Option α :=
  registry.lookup name

def erase (registry : Registry α) (name : String) : Registry α :=
  registry.filter fun entry => entry.1 != name

def store (registry : Registry α) (name : String) (value : α) : Registry α :=
  (name, value) :: registry.erase name

end Registry

end FileAccess
