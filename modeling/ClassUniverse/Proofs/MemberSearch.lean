import ClassUniverse.Proofs.Cycles
import ClassUniverse.Proofs.Documents
import Mathlib

/-! The search for a member class. Depth first, it looks once at each class that can be reached through classes that do not
declare the name, whatever the supertypes look like, and what it answers depends only on the members that are declared
there. -/
namespace ClassUniverse

open Run

/-- What a search goes by: the classes in question, the member class that each of them declares under the name, what stands
directly above it, and the members that may be seen. -/
structure MemberGraph where
  classes : List ClassId
  declares : ClassId → Option ClassId
  parents : ClassId → List ClassId
  sees : ClassId → Bool
  closed : ∀ id ∈ classes, declares id = none → ∀ parent ∈ parents id, parent ∈ classes

namespace MemberGraph

variable (g : MemberGraph)

/-- Where the search goes on. A class that declares the name hides what is above it. -/
def onward (id : ClassId) : List ClassId := if (g.declares id).isSome then [] else g.parents id

def declaredBy (walk : List ClassId) : Set ClassId := {m | ∃ id ∈ walk, g.declares id = some m}

/-- The members on the ways up from these classes, where a way ends at the first class that declares the name. -/
def members (pending : List ClassId) : Set ClassId :=
  {m | ∃ id, Worklist.Leads g.onward pending id ∧ g.declares id = some m}

variable (name : String) (accessor : Option ClassId) (worlds : World → Prop)

/-- Several of the members may be seen. The error names the classes around them. -/
def Clash (members : Set ClassId) (e : Error) : Prop :=
  ∃ shown : List ClassId, shown.Nodup ∧ 2 ≤ shown.length ∧ (∀ m ∈ shown, m ∈ members ∧ g.sees m = true) ∧
    ∃ v, worlds v ∧ ∃ id : ClassId, e =
      .ambiguous name ((shown.filterMap v.arena.outer?).map v.arena.fullName) (v.arena.get id).position

/-- One of the members is refused to the accessor. -/
def Refusal (members : Set ClassId) (e : Error) : Prop :=
  ∃ m ∈ members, ∃ from_ ∈ accessor, ∃ v, worlds v ∧
    e = .inaccessible ("member class " ++ v.arena.fullName m) (v.arena.fullName from_)

/-- What the members come to: the only one that may be seen is the answer. -/
inductive Settles (start : ClassId) (after : World) (members : Set ClassId) : Except Error ClassId → Prop
  | only {m : ClassId} (shown : ∀ other, other ∈ members ∧ g.sees other = true ↔ other = m) : Settles start after members (.ok m)
  | several {e : Error} (clash : g.Clash name worlds members e) : Settles start after members (.error e)
  | refused {e : Error} (hidden : ∀ m ∈ members, g.sees m = false) (refusal : Refusal accessor worlds members e) :
      Settles start after members (.error e)
  | nothing (empty : members = ∅) :
      Settles start after members (.error (.noSuchMember .memberClass name (after.arena.fullName start)))

/-- What was gathered from the members of some supertypes. -/
structure Gathers (members : Set ClassId) (found : Inherited) : Prop where
  shown : ∀ m, m ∈ found.members ↔ m ∈ members ∧ g.sees m = true
  nodup : found.members.Nodup
  refused : ∀ e ∈ found.refused, Refusal accessor worlds members e
  nothing : found.members = [] → found.refused = none → members = ∅

variable {g name accessor worlds} {members more : Set ClassId} {walk rest : List ClassId} {id start : ClassId} {e : Error}

theorem declaredBy_append : g.declaredBy (walk ++ rest) = g.declaredBy walk ∪ g.declaredBy rest := by
  ext m
  simp [declaredBy, or_and_right, exists_or]

theorem Clash.mono (clash : g.Clash name worlds members e) (within_ : members ⊆ more) : g.Clash name worlds more e := by
  obtain ⟨shown, nodup, many, listed, text⟩ := clash
  exact ⟨shown, nodup, many, fun m member => (listed m member).imp_left fun here => within_ here, text⟩

theorem Refusal.mono (refusal : Refusal accessor worlds members e) (within_ : members ⊆ more) :
    Refusal accessor worlds more e := by
  obtain ⟨m, member, text⟩ := refusal
  exact ⟨m, within_ member, text⟩

namespace Gathers

variable {found : Inherited} (gathers : g.Gathers accessor worlds members found)
include gathers

theorem add (shown : ∀ other, other ∈ more ∧ g.sees other = true ↔ other = m) :
    g.Gathers accessor worlds (members ∪ more) (found.add m) := by
  have listed (other : ClassId) : other ∈ (found.add m).members ↔ other ∈ found.members ∨ other = m := by
    unfold Inherited.add
    split <;> grind
  constructor
  case shown =>
    intro other
    rw [listed, gathers.shown, ← shown, Set.mem_union, or_and_right]
  case nodup =>
    unfold Inherited.add
    split
    · exact gathers.nodup
    · exact List.nodup_append.mpr ⟨gathers.nodup, by simp, by grind⟩
  case refused =>
    intro e refused
    have kept : (found.add m).refused = found.refused := by
      unfold Inherited.add
      split <;> rfl
    exact (gathers.refused e (kept ▸ refused)).mono Set.subset_union_left
  case nothing =>
    intro empty
    have here := (listed m).mpr (.inr rfl)
    simp [empty] at here

theorem refuse (hidden : ∀ m ∈ more, g.sees m = false) (refusal : Refusal accessor worlds more e) :
    g.Gathers accessor worlds (members ∪ more) { found with refused := some e } where
  shown m := by
    rw [gathers.shown]
    grind
  nodup := gathers.nodup
  refused other same := by
    cases same
    exact refusal.mono Set.subset_union_right
  nothing _ none := by cases none

theorem decide (held : worlds w) (id : ClassId) : (found.decide name id).Yields w fun result after =>
    after = w ∧ g.Settles name accessor worlds id w members result := by
  refine yields_step rfl ?_
  have shown := gathers.shown
  have nodup := gathers.nodup
  rcases listed : found.members with _ | ⟨first, _ | ⟨second, others⟩⟩
  · refine yields_pure ⟨rfl, ?_⟩
    cases refused : found.refused with
    | some e =>
      refine .refused (fun m member => ?_) (gathers.refused e refused)
      simpa [listed, member] using shown m
    | none => exact .nothing (gathers.nothing listed refused)
  · refine yields_pure ⟨rfl, .only fun other => ?_⟩
    simp [← shown, listed]
  · refine yields_pure ⟨rfl, .several ⟨_, nodup, by simp [listed], fun m => (shown m).mp, w, held, id, ?_⟩⟩
    rw [listed]

end Gathers

end MemberGraph

/-- All along a search it gets the same answers: on what a class declares, on supertypes, which have been initialised, and on
access. -/
structure Loader.Surveys (l : Loader) (name : String) (accessor : Option ClassId) (g : MemberGraph) (worlds : World → Prop) :
    Prop where
  declared : ∀ w, worlds w → ∀ id ∈ g.classes,
    (l.declaredMember name id).Yields w fun found after => found = g.declares id ∧ worlds after
  resolved : ∀ w, worlds w → ∀ id ∈ g.classes, g.declares id = none →
    w.hasStage id .supertypesResolved = true ∧ w.arena.parents id = g.parents id
  unasked : accessor = none → ∀ m, g.sees m = true
  access : ∀ w, worlds w → ∀ from_ ∈ accessor, ∀ id ∈ g.classes, ∀ m ∈ g.declares id,
    (l.classAccessible m from_).Yields w fun seen after => seen = g.sees m ∧ worlds after

namespace MemberGraph

/-- Classes of the graph that were not visited yet. -/
def unvisited (g : MemberGraph) (visited : List ClassId) : Nat := Worklist.unseen (fun id => id) (fun id => [id]) visited g.classes

/-- How a search ends: what was met has been visited, unless two members clash before everything is met. -/
def Ends (g : MemberGraph) (name : String) (worlds : World → Prop) (visited pending : List ClassId)
    (settles : Set ClassId → Except Error α → Prop) (ended : Except Error α × List ClassId) : Prop :=
  (∃ walk, Worklist.Walk g.onward visited pending walk ∧ ended.2 = walk.reverse ++ visited ∧
    settles (g.declaredBy walk) ended.1) ∨ ∃ e, ended.1 = .error e ∧ g.Clash name worlds (g.members pending) e

variable {g : MemberGraph} {name : String} {accessor : Option ClassId} {worlds : World → Prop} {visited ids pending : List ClassId}

theorem members_mono (listed : ∀ id ∈ ids, id ∈ pending) : g.members ids ⊆ g.members pending := by
  rintro m ⟨id, leads, declared⟩
  exact ⟨id, leads.mono listed, declared⟩

theorem declaredBy_subset (met : Worklist.Walk g.onward visited pending walk) :
    g.declaredBy walk ⊆ g.members pending := by
  rintro m ⟨id, listed, declared⟩
  exact ⟨id, met.reached id listed, declared⟩

/-- Missing and refused members are passed over, a clash ends the search. -/
theorem collect_ends (searches : ∀ w visited id, worlds w → id ∈ g.classes → g.unvisited visited < bound →
      (search visited id).Yields w fun ended after =>
        worlds after ∧ g.Ends name worlds visited [id] (g.Settles name accessor worlds id after) ended)
    (inside : ∀ id ∈ ids, id ∈ g.classes) (held : worlds w) (fewer : g.unvisited visited < bound)
     (gathers : g.Gathers accessor worlds earlier found) :
    (Inherited.collect search ids found visited).Yields w fun ended after => worlds after ∧
      g.Ends name worlds visited ids (fun members result => ∃ found, result = .ok found ∧
        g.Gathers accessor worlds (earlier ∪ members) found) ended := by
  induction ids generalizing w visited earlier found with
  | nil =>
    refine yields_pure ⟨held, .inl ⟨[], .nil _ _, rfl, found, rfl, ?_⟩⟩
    simpa [declaredBy] using gathers
  | cons first rest ih =>
    obtain ⟨here, later⟩ := List.forall_mem_cons.mp inside
    obtain ⟨⟨result, _⟩, middle, ran, held, ended⟩ := searches w visited first held here fewer
    refine yields_step ran ?_
    have further {walk : List ClassId} {found : Inherited} (met : Worklist.Walk g.onward visited [first] walk)
        (gathers : g.Gathers accessor worlds (earlier ∪ g.declaredBy walk) found) :
        (Inherited.collect search rest found (walk.reverse ++ visited)).Yields middle fun ended after => worlds after ∧
          g.Ends name worlds visited (first :: rest) (fun members result => ∃ found, result = .ok found ∧
            g.Gathers accessor worlds (earlier ∪ members) found) ended := by
      refine (ih later held (Nat.lt_of_le_of_lt (Worklist.unseen_mono _ _ (fun _ => List.mem_append_right _) _) fewer) gathers).mono ?_
      rintro ⟨_, _⟩ after ⟨held, ⟨walk', met', rfl, found, rfl, gathers⟩ | ⟨e, rfl, clash⟩⟩
      · refine ⟨held, .inl ⟨walk ++ walk', met.append met', by simp, found, rfl, ?_⟩⟩
        rwa [declaredBy_append, ← Set.union_assoc]
      · exact ⟨held, .inr ⟨e, rfl, clash.mono (members_mono fun _ => List.mem_cons_of_mem first)⟩⟩
    have stops {e : Error} (clash : g.Clash name worlds (g.members [first]) e) :
        g.Clash name worlds (g.members (first :: rest)) e := clash.mono (members_mono (by simp))
    rcases ended with ⟨walk, met, rfl, settles⟩ | ⟨e, rfl, clash⟩
    · cases settles with
      | only shown => exact further met (gathers.add shown)
      | several clash =>
        obtain ⟨_, -, -, -, _, -, _, rfl⟩ := id clash
        exact yields_pure ⟨held, .inr ⟨_, rfl, stops (clash.mono (declaredBy_subset met))⟩⟩
      | refused hidden refusal =>
        obtain ⟨_, -, _, -, _, -, rfl⟩ := id refusal
        exact further met (gathers.refuse hidden refusal)
      | nothing empty =>
        refine further met ?_
        rwa [empty, Set.union_empty]
    · obtain ⟨_, -, -, -, _, -, _, rfl⟩ := id clash
      exact yields_pure ⟨held, .inr ⟨_, rfl, stops clash⟩⟩

end MemberGraph

namespace Loader.Surveys

variable {depth steps : Nat} {name : String} {accessor : Option ClassId} {g : MemberGraph} {worlds : World → Prop}
  {w : World} {visited : List ClassId} {id : ClassId} (surveys : (ofDepth (depth + 1)).Surveys name accessor g worlds)
include surveys

theorem visible (held : worlds w) (inside : id ∈ g.classes) :
    ∃ result after, ((ofDepth (depth + 1)).visibleMember ((ofDepth (depth + 1)).declaredMember name) accessor id).on w =
        some (result, after) ∧ worlds after ∧
      ((g.declares id = none ∧ result = .ok none) ∨ ∃ m, g.declares id = some m ∧
        ((g.sees m = true ∧ result = .ok (some m)) ∨
          ∃ e, g.sees m = false ∧ result = .error e ∧ MemberGraph.Refusal accessor worlds {m} e)) := by
  obtain ⟨_, middle, ran, rfl, held⟩ := surveys.declared w held id inside
  unfold visibleMember
  rw [on_bind_ok ran]
  cases declared : g.declares id with
  | none => exact ⟨_, middle, rfl, held, .inl ⟨rfl, rfl⟩⟩
  | some m =>
    cases accessor with
    | none => exact ⟨_, middle, rfl, held, .inr ⟨m, rfl, .inl ⟨surveys.unasked rfl m, rfl⟩⟩⟩
    | some from_ =>
      obtain ⟨_, after, asked, rfl, held⟩ := surveys.access middle held from_ rfl id inside m declared
      rw [on_bind_ok asked]
      cases seen : g.sees m with
      | true => exact ⟨_, after, rfl, held, .inr ⟨m, rfl, .inl ⟨seen, rfl⟩⟩⟩
      | false =>
        exact ⟨_, after, rfl, held, .inr ⟨m, rfl, .inr ⟨_, seen, rfl, m, rfl, from_, rfl, after, held, rfl⟩⟩⟩

/-- The visited classes are shared by all branches of the search, so each class is looked at once. -/
theorem searchMember_ends (held : worlds w) (inside : id ∈ g.classes) (fewer : g.unvisited visited < steps) :
    ((ofDepth (depth + 1)).searchMember name
      ((ofDepth (depth + 1)).visibleMember ((ofDepth (depth + 1)).declaredMember name) accessor) steps visited id).Yields w
      fun ended after => worlds after ∧ g.Ends name worlds visited [id] (g.Settles name accessor worlds id after) ended := by
  induction steps generalizing visited id w with
  | zero => omega
  | succ steps ih =>
    unfold searchMember
    by_cases again : id ∈ visited
    · rw [if_pos (by simpa using again)]
      refine yields_step rfl (yields_pure ⟨held, .inl ⟨[], .skip again (.nil _ _), rfl, .nothing ?_⟩⟩)
      simp [MemberGraph.declaredBy]
    · rw [if_neg (by simpa using again)]
      obtain ⟨result, middle, ran, held, answer⟩ := surveys.visible held inside
      refine yields_step (on_outcome_of ran) ?_
      rcases answer with ⟨none, rfl⟩ | ⟨m, declared, answer⟩
      · obtain ⟨resolved, parents⟩ := surveys.resolved middle held id inside none
        have onward : g.onward id = g.parents id := by simp [MemberGraph.onward, none]
        have silent (walk : List ClassId) : g.declaredBy (id :: walk) = ∅ ∪ g.declaredBy walk := by
          simp [MemberGraph.declaredBy, none]
        have supertypes : ((ofDepth (depth + 1)).supertypes id).on middle =
            some (.ok (middle.arena.get id).supertypes, middle) := on_staged depth resolved (·.supertypes)
        have fresh : ¬ visited.contains id := by simpa using again
        have fewer' : g.unvisited (id :: visited) < steps := by
          have visit := Worklist.unseen_visit (fun id => id) (fun id => [id]) fresh inside
          simp only [MemberGraph.unvisited, List.length_singleton] at fewer visit ⊢
          omega
        have none_gathered : g.Gathers accessor worlds ∅ {} := by constructor <;> simp
        refine yields_step (on_outcome_of supertypes) ?_
        dsimp only
        rw [show (middle.arena.get id).supertypes.filterMap Ty.class? = g.onward id from parents.trans onward.symm]
        have closed : ∀ parent ∈ g.onward id, parent ∈ g.classes := onward ▸ g.closed id inside none
        refine (MemberGraph.collect_ends (fun w visited id held inside fewer => ih held inside fewer) closed held fewer'
          none_gathered).bind ?_
        rintro ⟨_, _⟩ after ⟨held, ⟨walk, met, rfl, found, rfl, gathers⟩ | ⟨e, rfl, clash⟩⟩
        · refine (gathers.decide held id).bind ?_
          rintro result _ ⟨rfl, settles⟩
          refine yields_pure ⟨held, .inl ⟨id :: walk, met.visit again (.of_eq (by simp)), by simp, ?_⟩⟩
          rwa [silent]
        · refine yields_pure ⟨held, .inr ⟨e, rfl, clash.mono ?_⟩⟩
          rintro m ⟨top, ⟨parent, direct, leads⟩, declared⟩
          exact ⟨top, ⟨id, List.mem_cons_self, .head direct leads⟩, declared⟩
      · have only : g.declaredBy [id] = {m} := by
          ext other
          simp [MemberGraph.declaredBy, declared, eq_comm]
        have met : Worklist.Walk g.onward visited [id] [id] :=
          .visit again (.of_eq (by simp [MemberGraph.onward, declared])) (.nil _ _)
        rcases answer with ⟨seen, rfl⟩ | ⟨e, hidden, rfl, refusal⟩
        · refine yields_pure ⟨held, .inl ⟨[id], met, rfl, ?_⟩⟩
          rw [only]
          exact .only fun other => and_iff_left_of_imp fun same => (Set.mem_singleton_iff.mp same) ▸ seen
        · refine yields_pure ⟨held, .inl ⟨[id], met, rfl, ?_⟩⟩
          rw [only]
          exact .refused (by simp [hidden]) refusal

end Loader.Surveys

/-- The search ends on every graph of supertypes, and answers with the only member class that may be seen on the ways up,
where a way ends at the first class that declares the name. -/
theorem memberClass_exact {depth : Nat} {name : String} {accessor : Option ClassId} {g : MemberGraph} {worlds : World → Prop}
    (surveys : (Loader.ofDepth (depth + 1)).Surveys name accessor g worlds) (short : isShortName name = true)
    (ample : g.classes.length < depth) {w : World} (held : worlds w) {start : ClassId} (inside : start ∈ g.classes) :
    ∃ outcome after, ((Loader.ofDepth (depth + 1)).memberClass start name accessor).on w = some (outcome, after) ∧
      worlds after ∧ g.Settles name accessor worlds start after (g.members [start]) outcome := by
  have fewer : g.unvisited [] < depth := by
    simpa [MemberGraph.unvisited, Worklist.unseen] using ample
  obtain ⟨⟨result, _⟩, after, ran, held, ended⟩ := surveys.searchMember_ends held inside fewer
  have found : ((Loader.ofDepth (depth + 1)).memberClass start name accessor).on w = some (result, after) := by
    unfold Loader.memberClass
    rw [if_pos short]
    refine (on_bind_ok ran).trans ?_
    cases result <;> rfl
  refine ⟨result, after, found, held, ?_⟩
  rcases ended with ⟨walk, met, -, settles⟩ | ⟨e, rfl, clash⟩
  · have same : g.declaredBy walk = g.members [start] := by
      ext m
      simp [MemberGraph.declaredBy, MemberGraph.members, met.mem_iff]
    rwa [← same]
  · exact .several clash

/-- Interfaces that inherit from one another, above which one interface declares the member. -/
theorem memberClass_exact_cycle :
    let stages := Stage.all.foldl Stages.add .none
    let interface (name : String) (interfaces : List Ty) (members : List ClassId) : ClassRecord :=
      { name, flags := .ofList [.publicAccess, .interface, .abstract], interfaces, members, job := some ⟨0⟩, stages }
    let w : World := { World.ofUniverse {} {} with arena := ⟨#[
      interface "A" [.cls ⟨1⟩, .cls ⟨2⟩] [], interface "B" [.cls ⟨0⟩, .cls ⟨3⟩] [], interface "C" [.cls ⟨3⟩, .cls ⟨1⟩] [],
      interface "D" [] [⟨4⟩], { name := "M", kind := .memberOf ⟨3⟩, flags := .ofList [.publicAccess], stages }]⟩ }
    let g : MemberGraph := {
      classes := [⟨0⟩, ⟨1⟩, ⟨2⟩, ⟨3⟩]
      declares := fun id => if id = ⟨3⟩ then some ⟨4⟩ else none
      parents := w.arena.parents
      sees := fun _ => true
      closed := by decide }
    let l := Loader.ofDepth 12
    l.Surveys "M" (some ⟨0⟩) g (· = w) ∧ (l.memberClass ⟨0⟩ "M" (some ⟨0⟩)).on w = some (.ok ⟨4⟩, w) ∧
      g.Settles "M" (some ⟨0⟩) (· = w) ⟨0⟩ w (g.members [⟨0⟩]) (.ok ⟨4⟩) := by
  intro stages interface w g l
  have surveys : l.Surveys "M" (some ⟨0⟩) g (· = w) := by
    constructor
    case declared =>
      rintro _ rfl id listed
      refine ⟨_, _, ?_, rfl, rfl⟩
      fin_cases listed <;> cbv
    case resolved =>
      rintro _ rfl id listed -
      fin_cases listed <;> exact ⟨rfl, rfl⟩
    case unasked =>
      intro never
      cases never
    case access =>
      rintro _ rfl _ ⟨⟩ id listed m declared
      refine ⟨_, _, ?_, rfl, rfl⟩
      fin_cases listed <;> cases declared
      cbv
  obtain ⟨outcome, after, ran, rfl, settles⟩ :=
    memberClass_exact surveys rfl (by decide) rfl (show ⟨0⟩ ∈ g.classes by decide)
  have found : (l.memberClass ⟨0⟩ "M" (some ⟨0⟩)).on w = some (.ok ⟨4⟩, w) := by cbv
  cases found.symm.trans ran
  exact ⟨surveys, found, settles⟩

/-- A qualified name is refused, and so is a question of access that has no answer. -/
theorem memberClass_refused :
    let stages := Stage.all.foldl Stages.add .none
    let w : World := { World.ofUniverse {} {} with arena := ⟨#[
      { name := "B", package := some ⟨"p"⟩, flags := .ofList [.publicAccess], members := [⟨1⟩], job := some ⟨0⟩, stages },
      { name := "M", package := some ⟨"p"⟩, kind := .memberOf ⟨0⟩, flags := .ofList [.protectedAccess], stages },
      { name := "A", package := some ⟨"q"⟩, interfaces := [.unknown "X"], stages }]⟩ }
    let l := Loader.ofDepth 12
    ((l.declaredMember "q.M" ⟨0⟩).on w = some (.ok none, w) ∧ w.arena.parents ⟨0⟩ = [] ∧
      (l.memberClass ⟨0⟩ "q.M" none).on w = some (.error (.semantic (.qualifiedName "q.M") none), w)) ∧
    (l.declaredMember "M" ⟨0⟩).on w = some (.ok (some ⟨1⟩), w) ∧
      (l.memberClass ⟨0⟩ "M" (some ⟨2⟩)).on w = some (.error (.notCanonical "X"), w) := by
  intro stages w l
  exact ⟨⟨by cbv, rfl, rfl⟩, by cbv, by cbv⟩

end ClassUniverse
