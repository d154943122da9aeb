import ClassUniverse.Proofs.FailedLoads
import ClassUniverse.Proofs.Reorderings

/-! The walk of a look-up through the supertypes. It meets every type above the container once, and what it gathers
are the verdicts on the methods declared there. -/
namespace ClassUniverse

open Run

variable {w : World} {pending seen : List Ty} {type : Ty} {id : ClassId} {methods : List Method} {depth steps : Nat}
  {judged : Method → Except Error (Option Bool)}

namespace World

/-- The public `clone` of an array. -/
def cloneOf (w : World) (base : Ty) : Method :=
  { container := .array base, flags := .ofList [.publicAccess], name := "clone", returns := (w.root.map Ty.cls).getD .null }

/-- The methods of that name that a type declares. -/
def declared (w : World) (name : String) : Ty → List Method
  | .cls id => (w.arena.get id).methodsNamed name
  | .array base => if name = "clone" then [w.cloneOf base] else []
  | _ => []

theorem mem_declared_array : m ∈ w.declared name (.array base) ↔ name = "clone" ∧ m = w.cloneOf base := by
  unfold declared
  split <;> simp_all

/-- The direct supertypes of a type, where arrays have these. -/
def above (w : World) (arrays : List Ty) : Ty → List Ty
  | .cls id => (w.arena.get id).supertypes
  | .array _ => arrays
  | _ => []

/-- One of these types, or something above one of them. -/
def Reaches (w : World) (pending : List Ty) (type : Ty) : Prop :=
  ∃ id above, .cls id ∈ pending ∧ type = .cls above ∧ (above = id ∨ w.arena.Inherits id above)

theorem Reaches.isClass (reached : w.Reaches pending type) : ∃ id, type = .cls id := by
  obtain ⟨_, above, -, same, -⟩ := reached
  exact ⟨above, same⟩

section Classed

variable (classed : ∀ id, ∀ type ∈ (w.arena.get id).supertypes, ∃ above : ClassId, type = .cls above ∧ above.index < w.arena.size)
include classed

theorem reached_inside (known : ∀ type ∈ pending, ∃ id : ClassId, type = .cls id ∧ id.index < w.arena.size)
    (reached : w.Reaches pending (.cls id)) : id.index < w.arena.size := by
  obtain ⟨first, above, listed, same, leads⟩ := reached
  cases same
  rcases leads with rfl | chain
  · obtain ⟨other, same, inside⟩ := known _ listed
    cases same
    exact inside
  · obtain ⟨child, -, direct⟩ := Relation.TransGen.tail'_iff.mp chain
    obtain ⟨_, ⟨⟩, inside⟩ := classed child _ (Arena.mem_parents.mp direct)
    exact inside

theorem reaches_supertype (reached : w.Reaches pending (.cls id)) (direct : type ∈ (w.arena.get id).supertypes) :
    w.Reaches pending type := by
  obtain ⟨first, _, listed, same, leads⟩ := reached
  cases same
  obtain ⟨parent, rfl, -⟩ := classed id type direct
  have step : parent ∈ w.arena.parents id := Arena.mem_parents.mpr direct
  refine ⟨first, parent, listed, rfl, .inr ?_⟩
  rcases leads with rfl | chain
  · exact .single step
  · exact chain.tail step

theorem leads_iff (known : ∀ type ∈ pending, ∃ id : ClassId, type = .cls id ∧ id.index < w.arena.size) :
    Worklist.Leads (w.above []) pending type ↔ w.Reaches pending type := by
  constructor
  · rintro ⟨start, listed, leads⟩
    induction leads with
    | refl =>
      obtain ⟨id, rfl, -⟩ := known start listed
      exact ⟨id, id, listed, rfl, .inl rfl⟩
    | tail _ direct reached =>
      obtain ⟨id, rfl⟩ := reached.isClass
      exact reaches_supertype classed reached direct
  · rintro ⟨id, top, listed, rfl, leads⟩
    refine ⟨.cls id, listed, ?_⟩
    rcases leads with rfl | chain
    · exact .refl
    · have upward (child parent : ClassId) (direct : parent ∈ w.arena.parents child) :
          Ty.cls parent ∈ w.above [] (.cls child) := Arena.mem_parents.mp direct
      exact Relation.ReflTransGen.lift Ty.cls upward _ _ chain.to_reflTransGen

end Classed

/-- What the classes that were not seen yet can make pending. -/
def unmet (w : World) (seen : List Ty) : Nat :=
  Worklist.unseen Ty.cls (fun id => (w.arena.get id).supertypes) seen w.arena.ids

end World

/-- One more method with its verdict. -/
def Candidates.add (found : Candidates) (m : Method) : Option Bool → Candidates
  | none => found
  | some true => { found with accessible := found.accessible ++ [m] }
  | some false => { found with inaccessible := found.inaccessible ++ [m] }

/-- All methods with their verdicts, up to the first verdict that fails. -/
def Candidates.gather (judged : Method → Except Error (Option Bool)) (found : Candidates) (methods : List Method) :
    Except Error Candidates :=
  methods.foldlM (fun found m => (judged m).map (found.add m)) found

theorem Candidates.gather_append (judged : Method → Except Error (Option Bool)) (found : Candidates)
    (first second : List Method) :
    found.gather judged (first ++ second) = (found.gather judged first).bind fun found => found.gather judged second :=
  List.foldlM_append

/-- The methods that got that verdict. -/
def Candidates.given (judged : Method → Except Error (Option Bool)) (accessible : Bool) (m : Method) : Bool :=
  match judged m with
  | .ok (some answer) => answer == accessible
  | _ => false

theorem Candidates.gather_ok (found : Candidates) (answered : ∀ m ∈ methods, ∃ judgement, judged m = .ok judgement) :
    found.gather judged methods = .ok ⟨found.accessible ++ methods.filter (given judged true),
      found.inaccessible ++ methods.filter (given judged false)⟩ := by
  induction methods generalizing found with
  | nil => simp [gather, pure, Except.pure]
  | cons m rest ih =>
    obtain ⟨⟨judgement, judges⟩, later⟩ := List.forall_mem_cons.mp answered
    rw [gather, List.foldlM_cons, judges]
    refine (ih (found.add m judgement) later).trans ?_
    rcases judgement with _ | (_ | _) <;> simp [add, given, judges]

theorem Candidates.gather_error (found : Candidates)
    (fails : ∃ m ∈ methods, judged m = .error e) (only : ∀ m ∈ methods, ∀ other, judged m = .error other → other = e) :
    found.gather judged methods = .error e := by
  induction methods generalizing found with
  | nil => simp at fails
  | cons m rest ih =>
    obtain ⟨here, later⟩ := List.forall_mem_cons.mp only
    rw [gather, List.foldlM_cons]
    cases judges : judged m with
    | error other => rw [here other judges]; rfl
    | ok judgement =>
      refine ih (found.add m judgement) ?_ later
      obtain ⟨failing, listed, failed⟩ := fails
      rcases List.mem_cons.mp listed with rfl | listed
      · simp [judges] at failed
      · exact ⟨failing, listed, failed⟩

namespace Loader

variable {l : Loader} {w after : World} {container : Ty} {name : String} {args : List Ty} {accessor : Option ClassId}
  {judged : Method → Except Error (Option Bool)} {found : Candidates}

theorem sortMethods_cons (m : Method) (rest : List Method) (found : Candidates) :
    l.sortMethods container args accessor (m :: rest) found = l.verdict container args accessor m >>= fun judgement =>
        l.sortMethods container args accessor rest (found.add m judgement) := by
  conv_lhs => unfold sortMethods
  rw [verdict, bind_assoc]
  congr 1
  funext valid
  cases valid with
  | false => rfl
  | true =>
    simp only [Bool.not_true, Bool.false_eq_true, if_false, bind_assoc, pure_bind]
    congr 1
    funext accessible
    cases accessible <;> rfl

theorem on_sortMethods (found : Candidates)
    (quiet : ∀ m ∈ methods, (l.verdict container args accessor m).on w = some (judged m, w)) :
    (l.sortMethods container args accessor methods found).on w = some (found.gather judged methods, w) := by
  induction methods generalizing found with
  | nil => rfl
  | cons m rest ih =>
    obtain ⟨here, later⟩ := List.forall_mem_cons.mp quiet
    rw [sortMethods_cons, on_bind, here, Candidates.gather, List.foldlM_cons]
    cases judged m with
    | error e => rfl
    | ok judgement => exact ih _ later

theorem on_methodsNamed (complete : ∀ stage, w.hasStage id stage) :
    ((ofDepth (depth + 1)).methodsNamed id name).on w = some (.ok ((w.arena.get id).methodsNamed name), w) := by
  unfold methodsNamed
  have stage (stage : Stage) := ensure_reached depth (complete stage)
  rw [on_bind_ok (stage .membersAdded), on_bind_ok (show (Run.record id).on w = some (.ok (w.arena.get id), w) from rfl)]
  dsimp only
  split
  · rfl
  · rw [on_bind_ok (stage .signaturesResolved)]
    rfl

theorem on_supertypes (initialised : w.Initialised) (inside : id.index < w.arena.size) :
    ((ofDepth (depth + 1)).directSupertypes (.cls id)).on w = some (.ok (w.arena.get id).supertypes, w) :=
  on_staged depth (initialised.complete id inside .supertypesResolved) (·.supertypes)

theorem candidatesWithin_fresh (reference : type.isReference = true)
    (fresh : type ∉ seen) :
    l.candidatesWithin container name args accessor (steps + 1) seen found (type :: pending) = (do
      let found ← l.sortMethods container args accessor (← l.declaredMethods name type) found
      l.candidatesWithin container name args accessor steps (type :: seen) found
        (pending ++ (← l.directSupertypes type))) := by
  conv_lhs => unfold candidatesWithin
  rw [if_neg (by simpa using fresh)]
  simp only [reference, if_true]

/-- Breadth first, every class is met once and the verdicts on its methods are added to what was found. -/
theorem candidatesWithin_walk (initialised : w.Initialised)
    (quiet : ∀ id : ClassId, id.index < w.arena.size → ∀ m ∈ (w.arena.get id).methodsNamed name,
      ((ofDepth (depth + 1)).verdict container args accessor m).on w = some (judged m, w))
    (known : ∀ type ∈ pending, ∃ id : ClassId, type = .cls id ∧ id.index < w.arena.size)
    (budget : pending.length + w.unmet seen < steps) : ∃ walk, Worklist.Walk (w.above []) seen pending walk ∧ ∀ found,
      ((ofDepth (depth + 1)).candidatesWithin container name args accessor steps seen found pending).on w =
        some (found.gather judged (walk.flatMap (w.declared name)), w) := by
  refine Worklist.induction (w.above []) w.unmet (fun _ _ => List.perm_append_comm) ?onward ?pays ?nil ?skip ?visit
    steps seen pending known budget
  case onward =>
    rintro _ ⟨id, rfl, -⟩
    exact initialised.supertypes id
  case pays =>
    rintro _ seen ⟨id, rfl, inside⟩ fresh
    exact Worklist.unseen_visit Ty.cls (fun id => (w.arena.get id).supertypes) (by simpa using fresh) (w.arena.mem_ids inside)
  case nil => exact fun _ _ => ⟨[], .nil _ _, fun _ => rfl⟩
  case skip =>
    rintro steps seen type pending again ⟨walk, met, ran⟩
    refine ⟨walk, met.skip again, fun found => ?_⟩
    unfold candidatesWithin
    rw [if_pos (by simpa using again)]
    exact ran found
  case visit =>
    rintro steps seen _ pending ⟨id, rfl, inside⟩ again ⟨walk, met, ran⟩
    refine ⟨.cls id :: walk, met.visit again List.perm_append_comm, fun found => ?_⟩
    have sorted := on_sortMethods found (quiet id inside)
    have declared : ((ofDepth (depth + 1)).declaredMethods name (.cls id)).on w =
        some (.ok ((w.arena.get id).methodsNamed name), w) := on_methodsNamed (initialised.complete id inside)
    rw [candidatesWithin_fresh rfl again, on_bind_ok declared, on_bind, sorted, List.flatMap_cons, Candidates.gather_append]
    cases gathered : found.gather judged ((w.arena.get id).methodsNamed name) with
    | error e => simp only [World.declared, gathered, Except.bind]
    | ok found' =>
      simp only [World.declared, gathered, Except.bind]
      rw [on_bind_ok (on_supertypes initialised inside)]
      exact ran found'

section Arrays

variable {base : Ty} {depth : Nat} {result : Except Error (List Ty)}

theorem on_verdict_clone : (l.verdict container args accessor (after.cloneOf base)).on w =
    some (.ok (if args = [] then some true else none), w) := by
  have accessible : (l.methodAccessible container accessor (after.cloneOf base)).on w = some (.ok true, w) := by
    cases accessor <;> rfl
  cases args with
  | nil => exact on_bind_ok accessible
  | cons arg rest => rfl

/-- The root class is looked up before the interfaces of arrays. -/
theorem directSupertypes_array (looked : ((ofDepth depth).directSupertypes (.array base)).on w = some (result, after)) :
    (∃ e, result = .error e ∧ (ofDepth depth).objectType.on w = some (.error e, after)) ∨
      ∃ object middle, (ofDepth depth).objectType.on w = some (.ok (.cls object), middle) ∧ after.root = some object ∧
        ((ofDepth depth).directSupertypes (.array base)).on middle = some (result, after) := by
  cases found : (ofDepth depth).object.on w with
  | none =>
    rw [directSupertypes, on_bind, objectType, on_bind, found] at looked
    cases looked
  | some outcome =>
    obtain ⟨e | object, middle⟩ := outcome
    · have root : (ofDepth depth).objectType.on w = some (.error e, middle) := on_bind_error found
      rw [directSupertypes, on_bind_error root] at looked
      cases looked
      exact .inl ⟨e, rfl, root⟩
    · have root := on_objectType found
      have known := object_known found
      rw [directSupertypes, on_bind_ok root] at looked
      refine .inr ⟨object, middle, root, ?_, ?_⟩
      · have sound := World.Settles.loadRelation.ofDepth depth
        have kept : (do
            let interfaces ← (ofDepth depth).knownClasses (← get).config.arrayInterfaces
            return .cls object :: interfaces.map .cls : Run (List Ty)).Within World.Settles :=
          within_bind within_get fun _ => within_bind (knownClasses_within sound _) fun _ => within_pure _
        exact (kept.left looked).root object known
      · rw [directSupertypes, on_bind_ok (on_objectType (on_object known))]
        exact looked

/-- The walk from an array starts with its `clone`, and goes on with the root class and the interfaces of arrays. -/
theorem candidatesWithin_array (looked : ((ofDepth depth).directSupertypes (.array base)).on w = some (result, after))
    (judges : ∀ m ∈ after.declared name (.array base), judged m = .ok (if args = [] then some true else none))
    (gathered : Candidates.gather judged {} (after.declared name (.array base)) = .ok found) :
    ((ofDepth depth).candidatesWithin container name args accessor (steps + 1) [] {} [.array base]).on w =
      ((ofDepth depth).directSupertypes (.array base) >>=
        (ofDepth depth).candidatesWithin container name args accessor steps [.array base] found).on w := by
  rw [candidatesWithin_fresh rfl List.not_mem_nil]
  by_cases isClone : name = "clone"
  · subst isClone
    rcases directSupertypes_array looked with ⟨e, rfl, failed⟩ | ⟨object, middle, root, known, again⟩
    · have declared : ((ofDepth depth).declaredMethods "clone" (.array base)).on w = some (.error e, after) := by
        exact on_bind_error failed
      rw [on_bind_error declared, on_bind_error looked]
    · have declared : ((ofDepth depth).declaredMethods "clone" (.array base)).on w =
          some (.ok (after.declared "clone" (.array base)), middle) := by
        simp only [declaredMethods, if_true, World.declared, World.cloneOf, known]
        rw [on_bind_ok root]
        rfl
      have sorted : ((ofDepth depth).sortMethods container args accessor (after.declared "clone" (.array base)) {}).on middle =
          some (.ok found, middle) := by
        rw [← gathered]
        refine on_sortMethods {} fun m listed => ?_
        rw [judges m listed]
        obtain ⟨-, rfl⟩ := World.mem_declared_array.mp listed
        exact on_verdict_clone
      rw [on_bind_ok declared, on_bind_ok sorted, on_bind, on_bind, looked, again]
      rfl
  · have declared : ((ofDepth depth).declaredMethods name (.array base)).on w = some (.ok [], w) := by
      simp only [declaredMethods, if_neg isClone]
      rfl
    have same : {} = found := by
      simpa [World.declared, isClone, Candidates.gather, pure, Except.pure] using gathered
    rw [on_bind_ok declared, ← same]
    rfl

theorem findMethod_failed
    (looked : ((ofDepth (depth + 2)).directSupertypes (.array base)).on w = some (.error e, after)) :
    ((ofDepth (depth + 2)).findMethod (.array base) name args accessor).on w = some (.error e, after) := by
  obtain ⟨found, gathered⟩ : ∃ found, Candidates.gather (fun _ => .ok (if args = [] then some true else none)) {}
      (after.declared name (.array base)) = .ok found := ⟨_, Candidates.gather_ok {} fun _ _ => ⟨_, rfl⟩⟩
  have failed : ((ofDepth (depth + 2)).candidatesWithin (.array base) name args accessor (depth + 1) [] {} [.array base]).on w =
      some (.error e, after) :=
    (candidatesWithin_array looked (fun _ _ => rfl) gathered).trans (on_bind_error looked)
  exact on_bind_error (on_bind_error failed)

end Arrays

section Entry

variable {depth : Nat} {above : List Ty}

theorem knownClasses_meets (names : List String) :
    (l.knownClasses names).Meets (fun ids => ids.length ≤ names.length) (fun _ => True) := by
  induction names with
  | nil => exact meets_pure (Nat.le_refl 0)
  | cons name rest ih =>
    refine meets_bind_last fun found => meets_bind ih fun ids fewer => meets_pure ?_
    cases found <;> simp <;> omega

section Looked

variable (start : w.Initialised) (place : container.Inside w.arena.size)
  (looked : ((ofDepth (depth + 1)).directSupertypes container).on w = some (.ok above, after))
include start place looked

/-- No type has more supertypes than there are, or than arrays can have. -/
theorem directSupertypes_length : above.length ≤ after.unmet [] + w.config.arrayInterfaces.length + 1 := by
  cases container with
  | cls id =>
    cases (on_supertypes start place).symm.trans looked
    have fresh : ¬ ([] : List Ty).contains (.cls id) := by simp
    have visited := Worklist.unseen_visit Ty.cls (fun id => (w.arena.get id).supertypes) fresh (w.arena.mem_ids place)
    unfold World.unmet
    omega
  | array base =>
    have counts : ((ofDepth (depth + 1)).directSupertypes (.array base)).Ends w
        (fun types _ => types.length ≤ w.config.arrayInterfaces.length + 1) fun _ _ => True := by
      have sound := World.Settles.loadRelation.toRootRelation.ofDepth (depth + 1)
      rw [directSupertypes, ends_bind]
      refine ((objectType_within sound).worlds w).mono (fun _ middle kept => ?_) fun _ _ _ => trivial
      rw [ends_bind, ends_get, ends_bind, kept.config]
      refine (knownClasses_meets _ middle).mono (fun ids _ fewer => ?_) fun _ _ _ => trivial
      simpa using fewer
    have bound := counts.answer looked
    omega
  | _ =>
    cases looked
    exact Nat.zero_le _

/-- A class is not above itself, and nothing is above an array but classes. -/
theorem container_not_reached : ¬ after.Reaches above container := by
  rintro ⟨first, top, listed, rfl, leads⟩
  cases (on_supertypes start place).symm.trans looked
  exact start.acyclic top (Arena.inherits_iff.mpr ⟨_, listed, first, rfl, leads.imp_left Eq.symm⟩)

/-- All methods of the name, declared by the container and by whatever is above it, are judged in the order of the walk. -/
theorem candidates_walk (initialised : after.Initialised) (reference : container.isReference = true)
    (classes : ∀ type ∈ above, ∃ id : ClassId, type = .cls id ∧ id.index < after.arena.size)
    (quiet : ∀ type, (type = container ∨ ∃ id : ClassId, type = .cls id ∧ id.index < after.arena.size) →
      ∀ m ∈ after.declared name type, ((ofDepth (depth + 1)).verdict container args accessor m).on after = some (judged m, after))
    (ample : 2 * after.unmet [] + w.config.arrayInterfaces.length + 2 < depth) :
    ∃ walk, (container :: walk).Nodup ∧ (∀ type, type ∈ walk ↔ after.Reaches above type) ∧
      ((ofDepth (depth + 1)).candidatesWithin container name args accessor depth [] {} [container]).on w =
        some (Candidates.gather judged {} ((container :: walk).flatMap (after.declared name)), after) := by
  obtain ⟨steps, rfl⟩ : ∃ steps, depth = steps + 1 := ⟨depth - 1, by omega⟩
  have fewer : after.unmet [container] ≤ after.unmet [] := Worklist.unseen_mono _ _ (by simp) _
  have few := directSupertypes_length start place looked
  have budget : above.length + after.unmet [container] < steps := by omega
  obtain ⟨walk, met, ran⟩ :=
    candidatesWithin_walk initialised (fun id inside => quiet (.cls id) (.inr ⟨id, rfl, inside⟩)) classes budget
  have apart : container ∉ walk := fun again => met.fresh container again List.mem_cons_self
  refine ⟨walk, List.nodup_cons.mpr ⟨apart, met.nodup⟩, fun type => ?_, ?_⟩
  · rw [← World.leads_iff initialised.supertypes classes]
    refine met.mem_iff fun other reached listed => ?_
    cases List.mem_singleton.mp listed
    exact container_not_reached start place looked ((World.leads_iff initialised.supertypes classes).mp reached)
  · rw [List.flatMap_cons, Candidates.gather_append]
    cases container with
    | null =>
      cases looked
      exact ran {}
    | cls id =>
      cases (on_supertypes start place).symm.trans looked
      have declared : ((ofDepth (steps + 1 + 1)).declaredMethods name (.cls id)).on w =
          some (.ok ((w.arena.get id).methodsNamed name), w) := on_methodsNamed (start.complete _ place)
      have sorted := on_sortMethods {} (quiet (.cls id) (.inl rfl))
      rw [candidatesWithin_fresh rfl List.not_mem_nil, on_bind_ok declared, on_bind]
      unfold World.declared at sorted
      rw [sorted]
      cases gathered : Candidates.gather judged {} ((w.arena.get id).methodsNamed name) with
      | error e => simp only [World.declared, gathered, Except.bind]
      | ok found =>
        simp only [World.declared, gathered, Except.bind]
        rw [on_bind_ok looked]
        exact ran found
    | array base =>
      have judges (m : Method) (listed : m ∈ after.declared name (.array base)) :
          judged m = .ok (if args = [] then some true else none) := by
        have judged := quiet (.array base) (.inl rfl) m listed
        obtain ⟨-, rfl⟩ := World.mem_declared_array.mp listed
        simpa using judged.symm.trans on_verdict_clone
      have gathered := Candidates.gather_ok {} fun m listed => ⟨_, judges m listed⟩
      rw [candidatesWithin_array looked judges gathered, on_bind_ok looked, gathered]
      exact ran _
    | _ => cases reference

end Looked

end Entry

end Loader

end ClassUniverse
