import Mathlib.Data.List.Basic
import Mathlib.Data.List.Flatten
import Mathlib.Logic.Relation

/-! Searches that keep a list of what is pending and a list of what was seen. What the items that are not seen yet can
make pending bounds the steps that such a search still takes, and what it meets is what the pending items lead to. -/
namespace ClassUniverse.Worklist

variable {α β : Type} [DecidableEq α] (key : β → α) (next : β → List α)

/-- What the items that are not seen yet can make pending. -/
def unseen (seen : List α) (items : List β) : Nat :=
  ((items.filter fun item => !seen.contains (key item)).flatMap next).length

variable {seen later : List α} {item : β} {items : List β}

theorem unseen_cons (seen : List α) (item : β) (items : List β) : unseen key next seen (item :: items) =
    (if seen.contains (key item) then 0 else (next item).length) + unseen key next seen items := by
  by_cases visited : seen.contains (key item)
  · simp only [unseen, List.filter_cons, visited, Bool.not_true, Bool.false_eq_true, if_false, if_true, Nat.zero_add]
  · simp only [unseen, List.filter_cons, visited, Bool.not_false, if_true, List.flatMap_cons, List.length_append,
      Bool.false_eq_true, if_false]

theorem unseen_mono (more : ∀ a ∈ seen, a ∈ later) (items : List β) :
    unseen key next later items ≤ unseen key next seen items := by
  refine (List.Sublist.flatMap (List.monotone_filter_right items fun item fresh => ?_) next).length_le
  have absent : key item ∉ later := by simpa using fresh
  simpa using fun visited => absent (more _ visited)

/-- Seeing an item pays for what it makes pending. -/
theorem unseen_later (fresh : key item ∉ seen) (visited : key item ∈ later) (more : ∀ a ∈ seen, a ∈ later)
    (listed : item ∈ items) : (next item).length + unseen key next later items ≤ unseen key next seen items := by
  obtain ⟨before, after, rfl⟩ := List.append_of_mem listed
  have first := unseen_mono key next more before
  have last := unseen_mono key next more after
  have parts (seen : List α) : unseen key next seen (before ++ item :: after) =
      unseen key next seen before + unseen key next seen (item :: after) := by simp [unseen]
  rw [parts, parts, unseen_cons, unseen_cons, if_pos (by simpa using visited), if_neg (by simpa using fresh)]
  omega

theorem unseen_visit (fresh : ¬ seen.contains (key item)) (listed : item ∈ items) :
    (next item).length + unseen key next (key item :: seen) items ≤ unseen key next seen items :=
  unseen_later key next (by simpa using fresh) List.mem_cons_self (fun _ => List.mem_cons_of_mem _) listed

/-- What holds at the end, and is handed back through every step, holds of a search with enough steps for what is pending and
what can still become pending. -/
@[elab_as_elim]
theorem induction {motive : Nat → List α → List α → Prop} {Q : α → Prop} (next : α → List α) (left : List α → Nat)
    {later : α → List α → List α} (order : ∀ a pending, (later a pending).Perm (next a ++ pending))
    (onward : ∀ a, Q a → ∀ b ∈ next a, Q b)
    (pays : ∀ a seen, Q a → a ∉ seen → (next a).length + left (a :: seen) ≤ left seen)
    (nil : ∀ steps seen, motive (steps + 1) seen [])
    (skip : ∀ steps seen a pending, a ∈ seen → motive steps seen pending → motive (steps + 1) seen (a :: pending))
    (visit : ∀ steps seen a pending, Q a → a ∉ seen → motive steps (a :: seen) (later a pending) →
      motive (steps + 1) seen (a :: pending))
    (steps : Nat) (seen pending : List α) (waiting : ∀ a ∈ pending, Q a) (budget : pending.length + left seen < steps) :
    motive steps seen pending := by
  induction steps generalizing seen pending with
  | zero => omega
  | succ steps ih =>
    cases pending with
    | nil => exact nil steps seen
    | cons a pending =>
      obtain ⟨here, rest⟩ := List.forall_mem_cons.mp waiting
      rw [List.length_cons] at budget
      by_cases again : a ∈ seen
      · exact skip steps seen a pending again (ih _ _ rest (by omega))
      · refine visit steps seen a pending here again (ih _ _ (fun b listed => ?_) ?_)
        · exact (List.mem_append.mp ((order a pending).mem_iff.mp listed)).elim (onward a here b) (rest b)
        · have account := pays a seen here again
          rw [(order a pending).length_eq, List.length_append]
          omega

/-- The items that the pending ones lead to. -/
def Leads {α : Type} (next : α → List α) (pending : List α) (a : α) : Prop :=
  ∃ start ∈ pending, Relation.ReflTransGen (fun a b => b ∈ next a) start a

theorem Leads.mono {α : Type} {next : α → List α} {pending more : List α} {a : α} (leads : Leads next pending a)
    (listed : ∀ b ∈ pending, b ∈ more) : Leads next more a := by
  obtain ⟨start, member, chain⟩ := leads
  exact ⟨start, listed start member, chain⟩

/-- What an item leads to becomes pending when it is met, wherever among the others. -/
theorem Leads.visit {α : Type} {next : α → List α} {pending later : List α} {a b : α} (leads : Leads next later b)
    (order : later.Perm (next a ++ pending)) : Leads next (a :: pending) b := by
  obtain ⟨start, listed, chain⟩ := leads
  rcases List.mem_append.mp (order.mem_iff.mp listed) with direct | listed
  · exact ⟨a, List.mem_cons_self, .head direct chain⟩
  · exact ⟨start, List.mem_cons_of_mem a listed, chain⟩

/-- The items that are met from the pending ones, without those that were seen before. -/
structure Walk {α : Type} (next : α → List α) (seen pending walk : List α) : Prop where
  nodup : walk.Nodup
  fresh : ∀ a ∈ walk, a ∉ seen
  reached : ∀ a ∈ walk, Leads next pending a
  covers : ∀ a ∈ pending, a ∈ seen ∨ a ∈ walk
  closed : ∀ a ∈ walk, ∀ b ∈ next a, b ∈ seen ∨ b ∈ walk

namespace Walk

variable {α : Type} {next : α → List α} {seen pending later walk further : List α} {a : α}

theorem nil (next : α → List α) (seen : List α) : Walk next seen [] [] := by
  constructor <;> simp

theorem skip (again : a ∈ seen) (rest : Walk next seen pending walk) : Walk next seen (a :: pending) walk where
  __ := rest
  reached b met := (rest.reached b met).mono fun _ => List.mem_cons_of_mem a
  covers := List.forall_mem_cons.mpr ⟨.inl again, rest.covers⟩

theorem visit (first : a ∉ seen) (order : later.Perm (next a ++ pending))
    (rest : Walk next (a :: seen) later walk) : Walk next seen (a :: pending) (a :: walk) := by
  have either {b : α} (held : b ∈ a :: seen ∨ b ∈ walk) : b ∈ seen ∨ b ∈ a :: walk := by
    grind
  have here : a ∉ walk := fun again => rest.fresh a again List.mem_cons_self
  have waiting (b : α) : b ∈ later ↔ b ∈ next a ∨ b ∈ pending := order.mem_iff.trans List.mem_append
  constructor
  case nodup => exact List.nodup_cons.mpr ⟨here, rest.nodup⟩
  case fresh => exact List.forall_mem_cons.mpr ⟨first, fun b met seen => rest.fresh b met (List.mem_cons_of_mem a seen)⟩
  case reached =>
    intro b met
    rcases List.mem_cons.mp met with rfl | met
    · exact ⟨b, List.mem_cons_self, .refl⟩
    · exact (rest.reached b met).visit order
  case covers =>
    intro b listed
    rcases List.mem_cons.mp listed with rfl | listed
    · exact .inr List.mem_cons_self
    · exact either (rest.covers b ((waiting b).mpr (.inr listed)))
  case closed =>
    intro b met c direct
    rcases List.mem_cons.mp met with rfl | met
    · exact either (rest.covers c ((waiting c).mpr (.inl direct)))
    · exact either (rest.closed b met c direct)

theorem append (first : Walk next seen pending walk) (rest : Walk next (walk.reverse ++ seen) later further) :
    Walk next seen (pending ++ later) (walk ++ further) := by
  have either {b : α} (held : b ∈ walk.reverse ++ seen ∨ b ∈ further) : b ∈ seen ∨ b ∈ walk ++ further := by
    grind
  constructor
  case nodup =>
    refine List.nodup_append.mpr ⟨first.nodup, rest.nodup, ?_⟩
    rintro b met _ again rfl
    exact rest.fresh b again (List.mem_append_left _ (List.mem_reverse.mpr met))
  case fresh =>
    refine List.forall_mem_append.mpr ⟨first.fresh, fun b met seen => ?_⟩
    exact rest.fresh b met (List.mem_append_right _ seen)
  case reached =>
    refine List.forall_mem_append.mpr ⟨fun b met => ?_, fun b met => ?_⟩
    · exact (first.reached b met).mono fun _ => List.mem_append_left _
    · exact (rest.reached b met).mono fun _ => List.mem_append_right _
  case covers =>
    refine List.forall_mem_append.mpr ⟨fun b listed => ?_, fun b listed => either (rest.covers b listed)⟩
    exact (first.covers b listed).imp_right (List.mem_append_left _)
  case closed =>
    refine List.forall_mem_append.mpr ⟨fun b met c direct => ?_, fun b met c direct => either (rest.closed b met c direct)⟩
    exact (first.closed b met c direct).imp_right (List.mem_append_left _)

/-- Where nothing of it was seen before, everything that the pending items lead to is met. -/
theorem mem_iff (rest : Walk next seen pending walk) (clear : ∀ b, Leads next pending b → b ∉ seen) :
    a ∈ walk ↔ Leads next pending a := by
  constructor
  · exact rest.reached a
  · rintro ⟨start, listed, leads⟩
    induction leads with
    | refl => exact (rest.covers start listed).resolve_left (clear start ⟨start, listed, .refl⟩)
    | tail chain direct ih =>
      exact (rest.closed _ ih _ direct).resolve_left (clear _ ⟨start, listed, chain.tail direct⟩)

end Walk

end ClassUniverse.Worklist
