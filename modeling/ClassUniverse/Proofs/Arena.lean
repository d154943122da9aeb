import ClassUniverse.Arena

/-! Records of an arena after classes were added and changed. -/
namespace ClassUniverse.Arena

variable (arena : Arena)

@[simp] theorem add_fst (record : ClassRecord) : (arena.add record).1 = ⟨arena.size⟩ := rfl

@[simp] theorem size_add (record : ClassRecord) : (arena.add record).2.size = arena.size + 1 := by
  simp [add, size]

theorem get_add (record : ClassRecord) (id : ClassId) :
    (arena.add record).2.get id = if id.index = arena.size then record else arena.get id := by
  by_cases last : id.index = arena.size
  · simp [add, get, size, last]
  · have same : (arena.records.push record)[id.index]? = arena.records[id.index]? := by
      simp only [Array.getElem?_push]
      exact if_neg last
    simp [add, get, last, same]

theorem get_add_new (record : ClassRecord) : (arena.add record).2.get ⟨arena.size⟩ = record := by
  rw [get_add, if_pos rfl]

/-- A class of the larger arena is an old one or the new one. -/
theorem cases_add {id : ClassId} (inside : id.index < (arena.add record).2.size) :
    id.index < arena.size ∧ (arena.add record).2.get id = arena.get id ∨ id = ⟨arena.size⟩ := by
  rw [size_add] at inside
  by_cases last : id.index = arena.size
  · exact .inr (by cases id; simp_all)
  · exact .inl ⟨by omega, by rw [get_add, if_neg last]⟩

@[simp] theorem size_modify (id : ClassId) (change : ClassRecord → ClassRecord) :
    (arena.modify id change).size = arena.size := by
  simp [modify, size]

theorem get_modify (id other : ClassId) (change : ClassRecord → ClassRecord) : (arena.modify id change).get other =
      if other = id ∧ id.index < arena.size then change (arena.get id) else arena.get other := by
  obtain ⟨index⟩ := id
  obtain ⟨query⟩ := other
  simp only [modify, get, size, Array.getElem?_modify, ClassId.mk.injEq]
  by_cases same : query = index
  · subst same
    by_cases inside : query < arena.records.size
    · simp [inside]
    · simp [inside]
  · simp [same, Ne.symm same]

theorem get_modify_self {id : ClassId} (inside : id.index < arena.size) (change : ClassRecord → ClassRecord) :
    (arena.modify id change).get id = change (arena.get id) := by
  rw [get_modify, if_pos ⟨rfl, inside⟩]

theorem get_modify_other {id other : ClassId} (apart : other ≠ id) (change : ClassRecord → ClassRecord) :
    (arena.modify id change).get other = arena.get other := by
  rw [get_modify, if_neg fun both => apart both.1]

theorem ext_get (size : after.size = arena.size) (same : ∀ id, after.get id = arena.get id) :
    after = arena := by
  obtain ⟨records⟩ := arena
  obtain ⟨others⟩ := after
  have records_eq : others = records := by
    apply Array.ext size
    intro index inside bound
    have here := same ⟨index⟩
    simpa [get, inside, bound] using here
  rw [records_eq]

theorem modify_absent {id : ClassId} (outside : arena.size ≤ id.index) (change : ClassRecord → ClassRecord) :
    arena.modify id change = arena := by
  apply ext_get
  · simp
  · intro other
    rw [get_modify, if_neg fun both => by omega]

def withSupertypes (id : ClassId) (superType : Option Ty) (interfaces : List Ty) : Arena :=
  arena.modify id fun record => { record with superType, interfaces }

theorem modify_undo {id : ClassId}
    (same : undo (change (arena.get id)) = arena.get id) : (arena.modify id change).modify id undo = arena := by
  apply ext_get
  · simp
  · intro other
    rw [get_modify, get_modify, get_modify]
    grind [size_modify]

theorem get_absent {id : ClassId} (outside : arena.size ≤ id.index) : arena.get id = { name := "" } := by
  have none : arena.records[id.index]? = none := Array.getElem?_eq_none outside
  simp [get, none]

variable {arena} {id : ClassId}

theorem inside_of_job (jobbed : (arena.get id).job.isSome) : id.index < arena.size := by
  refine Nat.lt_of_not_le fun outside => ?_
  rw [arena.get_absent outside] at jobbed
  cases jobbed

theorem inside_of_stage (has : (arena.get id).stages.has stage) : id.index < arena.size := by
  refine Nat.lt_of_not_le fun outside => ?_
  rw [arena.get_absent outside] at has
  cases has

end ClassUniverse.Arena
