/-
  FileAccess/Proofs/Session/Registry.lean
  =======================================
  **Registries with one value under each name.**

  `store` and `erase` change what one name stands for and no other.  They keep the names
  of a registry distinct; then a registry is, up to order, what one name stands for and
  the registry without that name.
-/
import FileAccess.Session.Registry

namespace FileAccess

namespace Registry

variable {α : Type} {registry : Registry α} {name : String} {value : α}

/-! ### What a name stands for -/

@[simp] theorem get?_store_self (registry : Registry α) (name : String) (value : α) :
    (registry.store name value).get? name = some value :=
  List.lookup_cons_self

theorem get?_erase_self (registry : Registry α) (name : String) :
    (registry.erase name).get? name = none := by
  rw [get?, List.lookup_eq_none_iff]
  intro entry hentry
  have hne := (List.mem_filter.1 hentry).2
  rw [bne_iff_ne] at hne ⊢
  exact Ne.symm hne

theorem get?_erase_of_ne {other : String} (h : other ≠ name) (registry : Registry α) :
    (registry.erase name).get? other = registry.get? other := by
  induction registry with
  | nil => rfl
  | cons entry registry ih =>
    rw [get?, get?] at ih
    rw [get?, get?, erase, List.filter_cons]
    split
    · rw [List.lookup_cons, List.lookup_cons]
      split
      · rfl
      · exact ih
    · rename_i hentry
      have hname : entry.1 = name := by simpa using hentry
      rw [List.lookup_cons, hname, beq_eq_false_iff_ne.2 h]
      exact ih

theorem get?_store_of_ne {other : String} (h : other ≠ name) (registry : Registry α) (value : α) :
    (registry.store name value).get? other = registry.get? other := by
  rw [store, get?, List.lookup_cons, beq_eq_false_iff_ne.2 h]
  exact get?_erase_of_ne h registry

/-! ### Distinct names -/

/-- No name stands for two values. -/
def Distinct (registry : Registry α) : Prop :=
  (registry.map Prod.fst).Nodup

theorem distinct_nil : Distinct ([] : Registry α) :=
  List.nodup_nil

theorem Distinct.erase (h : registry.Distinct) (name : String) :
    (registry.erase name).Distinct := by
  have hsublist : (registry.erase name).Sublist registry := List.filter_sublist
  exact (hsublist.map Prod.fst).nodup h

theorem notMem_erase (registry : Registry α) (name : String) :
    name ∉ (registry.erase name).map Prod.fst := by
  intro hmem
  obtain ⟨entry, hentry, hname⟩ := List.mem_map.1 hmem
  have hne := (List.mem_filter.1 hentry).2
  rw [bne_iff_ne] at hne
  exact hne hname

theorem Distinct.store (h : registry.Distinct) (name : String) (value : α) :
    (registry.store name value).Distinct := by
  rw [Distinct, Registry.store, List.map_cons, List.nodup_cons]
  exact ⟨notMem_erase registry name, h.erase name⟩

theorem erase_of_get?_eq_none (h : registry.get? name = none) :
    registry.erase name = registry := by
  rw [erase, List.filter_eq_self]
  intro entry hentry
  have hne := List.lookup_eq_none_iff.1 h entry hentry
  rw [bne_iff_ne] at hne ⊢
  exact Ne.symm hne

theorem erase_erase (registry : Registry α) (name : String) :
    (registry.erase name).erase name = registry.erase name := by
  rw [erase, erase, List.filter_filter]
  simp

/-- **What a name stands for and what the others stand for make up the registry.** -/
theorem Distinct.perm_cons_erase (h : registry.Distinct)
    (hget : registry.get? name = some value) :
    registry.Perm ((name, value) :: registry.erase name) := by
  obtain ⟨before, after, rfl, hbefore⟩ := List.lookup_eq_some_iff.1 hget
  rw [Distinct, List.map_append, List.map_cons, List.nodup_append] at h
  have hafter : name ∉ after.map Prod.fst := (List.nodup_cons.1 h.2.1).1
  have herase : Registry.erase (before ++ (name, value) :: after) name = before ++ after := by
    rw [Registry.erase, List.filter_append, List.filter_cons_of_neg (by simp)]
    congr 1
    · rw [List.filter_eq_self]
      intro entry hentry
      have hne := hbefore entry hentry
      rw [bne_iff_ne] at hne ⊢
      exact Ne.symm hne
    · rw [List.filter_eq_self]
      intro entry hentry
      rw [bne_iff_ne]
      rintro rfl
      exact hafter (List.mem_map_of_mem hentry)
  rw [herase]
  exact List.perm_middle

end Registry

end FileAccess
