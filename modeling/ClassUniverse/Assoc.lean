/-! Finite maps as lists of entries, the latest entry first and each key once. -/
namespace ClassUniverse

structure Assoc (κ α : Type) where
  entries : List (κ × α) := []
  deriving Repr

namespace Assoc

variable {κ α : Type}

def empty : Assoc κ α := ⟨[]⟩

instance : Inhabited (Assoc κ α) := ⟨empty⟩

def keys (m : Assoc κ α) : List κ := m.entries.map (·.1)

def values (m : Assoc κ α) : List α := m.entries.map (·.2)

def size (m : Assoc κ α) : Nat := m.entries.length

variable [DecidableEq κ]

def find? (m : Assoc κ α) (key : κ) : Option α := m.entries.lookup key

def contains (m : Assoc κ α) (key : κ) : Bool := (m.find? key).isSome

def getD (m : Assoc κ α) (key : κ) (fallback : α) : α := (m.find? key).getD fallback

def insert (m : Assoc κ α) (key : κ) (value : α) : Assoc κ α :=
  ⟨(key, value) :: m.entries.filter fun entry => entry.1 ≠ key⟩

/-- Later entries of the list replace earlier ones. -/
def ofList (entries : List (κ × α)) : Assoc κ α :=
  entries.foldl (fun (m : Assoc κ α) entry => m.insert entry.1 entry.2) empty

@[simp] theorem find?_empty (key : κ) : (empty : Assoc κ α).find? key = none := rfl

theorem lookup_filter_ne (entries : List (κ × α)) {key query : κ} (other : query ≠ key) :
    (entries.filter fun entry => entry.1 ≠ key).lookup query = entries.lookup query := by
  induction entries with
  | nil => rfl
  | cons entry rest ih =>
    obtain ⟨name, value⟩ := entry
    by_cases same : name = key
    · have apart : (query == name) = false := beq_eq_false_iff_ne.mpr (same ▸ other)
      simp only [List.filter_cons, same, ne_eq, not_true_eq_false, decide_false, List.lookup_cons]
      simpa [← same, apart] using ih
    · simp only [List.filter_cons, same, ne_eq, not_false_eq_true, decide_true, if_true, List.lookup_cons]
      rw [← ih]

@[simp] theorem find?_insert (m : Assoc κ α) (key query : κ) (value : α) :
    (m.insert key value).find? query = if query = key then some value else m.find? query := by
  unfold insert find?
  by_cases same : query = key
  · simp [same]
  · have apart : (query == key) = false := beq_eq_false_iff_ne.mpr same
    simp only [List.lookup_cons, apart, same, if_false]
    exact lookup_filter_ne _ same

end Assoc

end ClassUniverse
