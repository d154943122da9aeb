import ClassUniverse.Proofs.Widening

/-! Worlds that differ in the order of interfaces and methods only. Nothing that subtyping, conversion and access control
look at depends on these orders. -/
namespace ClassUniverse

open Run

variable {x y : Run α} {type a b container : Ty}

namespace Run

variable {w v : World} {bad : Error → Prop}

/-- Two computations come to the same in two worlds, which they leave as they were. An error is one of these. -/
def Concur (w v : World) (bad : Error → Prop) (x y : Run α) : Prop :=
  ∃ result, x.on w = some (result, w) ∧ y.on v = some (result, v) ∧ ∀ e, result = .error e → bad e

theorem concur_pure (a : α) : Concur w v bad (pure a : Run α) (pure a) := ⟨.ok a, rfl, rfl, nofun⟩

/-- The second part matters only after an answer of the first. -/
theorem concur_bind_answer (first : Concur w v bad x y)
    (rest : ∀ a, x.on w = some (.ok a, w) → Concur w v bad (f a) (g a)) : Concur w v bad (x >>= f) (y >>= g) := by
  obtain ⟨result, ran, ran', fails⟩ := first
  cases result with
  | error e =>
    refine ⟨.error e, on_bind_error ran, on_bind_error ran', fun _ same => ?_⟩
    cases same
    exact fails e rfl
  | ok a =>
    obtain ⟨result, further, further', fails⟩ := rest a ran
    exact ⟨result, (on_bind_ok ran).trans further, (on_bind_ok ran').trans further', fails⟩

theorem concur_bind (first : Concur w v bad x y) (rest : ∀ a, Concur w v bad (f a) (g a)) :
    Concur w v bad (x >>= f) (y >>= g) := concur_bind_answer first fun a _ => rest a

theorem concur_ite [Decidable p] (first : Concur w v bad x x')
    (second : Concur w v bad y y') : Concur w v bad (if p then x else y) (if p then x' else y') := by
  split
  · exact first
  · exact second

theorem concur_arena (rest : Concur w v bad (f w.arena) (g v.arena)) :
    Concur w v bad (Run.arena >>= f) (Run.arena >>= g) := by
  obtain ⟨result, ran, ran', fails⟩ := rest
  exact ⟨result, (on_bind_ok rfl).trans ran, (on_bind_ok rfl).trans ran', fails⟩

theorem concur_anyOf
    (each : ∀ a ∈ items, Concur w v bad (test a) (test' a)) : Concur w v bad (anyOf test items) (anyOf test' items) := by
  induction items with
  | nil => exact concur_pure false
  | cons a rest ih =>
    refine concur_bind (each a List.mem_cons_self) fun _ => concur_ite (concur_pure true) ?_
    exact ih fun other member => each other (List.mem_cons_of_mem a member)

/-- Questions that are decided alike. -/
theorem Decides.concur {x y : Run Bool} (decides : x.Decides w p) (decides' : y.Decides v q) (same : p ↔ q) :
    Concur w v bad x y := by
  obtain ⟨answer, ran, right⟩ := decides
  obtain ⟨answer', ran', right'⟩ := decides'
  have equal : answer = answer' := Bool.eq_iff_iff.mpr (right.trans (same.trans right'.symm))
  subst equal
  exact ⟨.ok answer, ran, ran', nofun⟩

end Run

theorem Ty.knownIn_iff {arena : Arena} : type.KnownIn arena ↔ type.Inside arena.size ∧ type.isCanonical = true := by
  induction type with
  | array base ih => exact ih
  | _ => simp [KnownIn, Inside, isCanonical]

namespace Arena

variable {arena other : Arena} (same : ∀ id, (other.get id).header = (arena.get id).header)
include same

theorem header_parts (id : ClassId) : (other.get id).name = (arena.get id).name ∧
    (other.get id).package = (arena.get id).package ∧ (other.get id).kind = (arena.get id).kind ∧
    (other.get id).flags = (arena.get id).flags := by
  have parts := same id
  simp only [ClassRecord.header, Prod.mk.injEq] at parts
  exact ⟨parts.1, parts.2.1, parts.2.2.1, parts.2.2.2.1⟩

theorem outers_of_headers : other.outers = arena.outers := by
  have within (steps : Nat) (id : ClassId) : other.outersWithin steps id = arena.outersWithin steps id := by
    induction steps generalizing id with
    | zero => rfl
    | succ steps ih => simp only [outersWithin, outer?, (header_parts same id).2.2.1, ih]
  exact funext fun id => within id.index id

theorem nest_of_headers : other.nest = arena.nest := by
  funext id
  rw [nest, nest, outers_of_headers same]

theorem isEnclosed_of_headers : other.isEnclosed = arena.isEnclosed := by
  funext inner outer
  rw [isEnclosed, isEnclosed, outers_of_headers same]

theorem isInterface_of_headers : other.isInterface = arena.isInterface := by
  funext id
  rw [isInterface, isInterface, (header_parts same id).2.2.2]

theorem fullName_of_headers : other.fullName = arena.fullName := by
  have within (steps : Nat) (id : ClassId) : other.fullNameWithin steps id = arena.fullNameWithin steps id := by
    induction steps generalizing id with
    | zero =>
      obtain ⟨name, package, kind, -⟩ := header_parts same id
      simp only [fullNameWithin_zero, topName, name, package, kind]
    | succ steps ih =>
      obtain ⟨name, package, kind, -⟩ := header_parts same id
      simp only [fullNameWithin_succ, topName, name, package, kind, ih]
  exact funext fun id => within id.index id

theorem typeName_of_headers : other.typeName = arena.typeName := by
  funext type
  induction type with
  | cls id => simp only [typeName, fullName_of_headers same]
  | array base ih => simp only [typeName, ih]
  | _ => rfl

theorem signature_of_headers : other.signature = arena.signature := by
  funext p
  simp only [signature, typeNames, typeName_of_headers same]

theorem classVisible_of_headers : other.classVisible = arena.classVisible := by
  have within (package : Option Package) (nest : List ClassId) :
      other.nestVisible package nest = arena.nestVisible package nest := by
    induction nest with
    | nil => rfl
    | cons id around ih =>
      obtain ⟨-, declared, kind, flags⟩ := header_parts same id
      simp only [nestVisible, declared, kind, flags, ih]
  funext target package
  rw [classVisible, classVisible, within, nest_of_headers same]

end Arena

namespace World

/-- The same classes, with interfaces and methods in another order. -/
structure Reordered (w v : World) : Prop where
  config : v.config = w.config
  root : v.root = w.root
  size : v.arena.size = w.arena.size
  records : ∀ id, ∃ interfaces methods, v.arena.get id = { w.arena.get id with interfaces, methods } ∧
    interfaces.Perm (w.arena.get id).interfaces ∧ methods.Perm (w.arena.get id).methods

namespace Reordered

theorem refl (w : World) : w.Reordered w where
  config := rfl
  root := rfl
  size := rfl
  records _ := ⟨_, _, rfl, .refl _, .refl _⟩

variable {w v : World} (reordered : w.Reordered v)
include reordered

theorem header (id : ClassId) : (v.arena.get id).header = (w.arena.get id).header := by
  obtain ⟨_, _, record, -⟩ := reordered.records id
  rw [record]
  rfl

theorem superType (id : ClassId) : (v.arena.get id).superType = (w.arena.get id).superType := by
  obtain ⟨_, _, record, -⟩ := reordered.records id
  rw [record]

theorem fields (id : ClassId) : (v.arena.get id).fields = (w.arena.get id).fields := by
  obtain ⟨_, _, record, -⟩ := reordered.records id
  rw [record]

theorem hasStage (id : ClassId) (stage : Stage) : v.hasStage id stage = w.hasStage id stage := by
  obtain ⟨_, _, record, -⟩ := reordered.records id
  rw [World.hasStage, World.hasStage, record]

theorem interfaces (id : ClassId) : (v.arena.get id).interfaces.Perm (w.arena.get id).interfaces := by
  obtain ⟨_, _, record, interfaces, -⟩ := reordered.records id
  rw [record]
  exact interfaces

theorem methods (id : ClassId) : (v.arena.get id).methods.Perm (w.arena.get id).methods := by
  obtain ⟨_, _, record, -, methods⟩ := reordered.records id
  rw [record]
  exact methods

theorem supertypes (id : ClassId) : (v.arena.get id).supertypes.Perm (w.arena.get id).supertypes := by
  rw [ClassRecord.supertypes, reordered.superType id]
  exact (reordered.interfaces id).append_left _

theorem isRoot (id : ClassId) : v.isRoot id = w.isRoot id := by
  unfold World.isRoot
  rw [reordered.root, reordered.config, Arena.fullName_of_headers reordered.header,
    (Arena.header_parts reordered.header id).2.2.1]

theorem isArrayInterface (id : ClassId) : v.isArrayInterface id = w.isArrayInterface id := by
  unfold World.isArrayInterface
  rw [reordered.config, Arena.fullName_of_headers reordered.header]

theorem knownIn : type.KnownIn v.arena ↔ type.KnownIn w.arena := by
  induction type with
  | cls id => simp only [Ty.KnownIn, reordered.size]
  | array base ih => exact ih
  | _ => exact Iff.rfl

theorem followed {id : ClassId} : type ∈ v.followed id ↔ type ∈ w.followed id := by
  unfold World.followed
  rw [Arena.isInterface_of_headers reordered.header, reordered.isRoot]
  split
  · exact (reordered.interfaces id).mem_iff
  · split
    · exact Iff.rfl
    · exact (reordered.supertypes id).mem_iff

theorem inherits {a b : ClassId} : v.arena.Inherits a b ↔ w.arena.Inherits a b := by
  have same : (fun child parent => parent ∈ v.arena.parents child) = fun child parent => parent ∈ w.arena.parents child := by
    funext child parent
    exact propext ((reordered.supertypes child).filterMap Ty.class?).mem_iff
  unfold Arena.Inherits
  rw [same]

theorem climbs {a b : ClassId} : v.Climbs a b ↔ w.Climbs a b := by
  have same : (fun child parent => .cls parent ∈ v.followed child) = fun child parent => .cls parent ∈ w.followed child := by
    funext child parent
    exact propext reordered.followed
  unfold Climbs
  rw [same]

theorem under_of (below : w.Under a b) : v.Under a b := by
  induction below with
  | refl => exact .refl _
  | nullArray => exact .nullArray _
  | nullClass => exact .nullClass _
  | array reference reference' _ ih => exact .array reference reference' ih
  | arrayClass holds => exact .arrayClass (by rwa [reordered.isRoot, reordered.isArrayInterface])
  | toRoot top => exact .toRoot (by rwa [reordered.isRoot])
  | climbs chain => exact .climbs (reordered.climbs.mpr chain)

theorem symm : v.Reordered w where
  config := reordered.config.symm
  root := reordered.root.symm
  size := reordered.size.symm
  records id := by
    obtain ⟨interfaces, methods, record, sameInterfaces, sameMethods⟩ := reordered.records id
    refine ⟨(w.arena.get id).interfaces, (w.arena.get id).methods, ?_, ?_, ?_⟩
    · rw [record]
    · rw [record]
      exact sameInterfaces.symm
    · rw [record]
      exact sameMethods.symm

theorem under : v.Under a b ↔ w.Under a b := ⟨reordered.symm.under_of, reordered.under_of⟩

theorem converts_of (widens : w.Converts a b) : v.Converts a b := by
  induction widens with
  | primitive wider => exact .primitive wider
  | null reference => exact .null reference
  | elements primitive => exact .elements primitive
  | array solid solid' _ ih => exact .array solid solid' ih
  | arrayClass below => exact .arrayClass (reordered.under_of below)
  | cls below => exact .cls (reordered.under_of below)

theorem converts : v.Converts a b ↔ w.Converts a b := ⟨reordered.symm.converts_of, reordered.converts_of⟩

theorem initialised (initialised : w.Initialised) : v.Initialised where
  complete id inside stage := by
    rw [reordered.hasStage]
    exact initialised.complete id (reordered.size ▸ inside) stage
  acyclic id cycle := initialised.acyclic id (reordered.inherits.mp cycle)
  supertypes id type listed := by
    obtain ⟨above, rfl, inside⟩ := initialised.supertypes id type ((reordered.supertypes id).mem_iff.mp listed)
    exact ⟨above, rfl, reordered.size.symm ▸ inside⟩
  outers id outer encloses := by
    rw [Arena.outer?, (Arena.header_parts reordered.header id).2.2.1] at encloses
    rw [reordered.size]
    exact initialised.outers id outer encloses
  fields id f listed := initialised.fields id f (reordered.fields id ▸ listed)
  methods id m listed := by
    obtain ⟨container, formals⟩ := initialised.methods id m ((reordered.methods id).mem_iff.mp listed)
    exact ⟨container, fun formal member => reordered.knownIn.mpr (formals formal member)⟩

end Reordered

end World

namespace Loader

variable {w v : World} {depth : Nat} {bad : Error → Prop}

theorem on_refused (refused : type.isCanonical = false) (w : World) :
    (requireCanonical type).on w = some (.error (.notCanonical (w.arena.typeName type)), w) := by
  unfold requireCanonical
  rw [refused]
  rfl

theorem concur_canonical (reordered : w.Reordered v)
    (fails : type.isCanonical = false → bad (.notCanonical (w.arena.typeName type)))
    (rest : type.isCanonical = true → Concur w v bad x y) :
    Concur w v bad (do requireCanonical type; x) (do requireCanonical type; y) := by
  cases canonical : type.isCanonical with
  | true =>
    obtain ⟨result, ran, ran', same⟩ := rest canonical
    refine ⟨result, ?_, ?_, same⟩
    · rw [on_bind_ok (on_requireCanonical canonical), ran]
    · rw [on_bind_ok (on_requireCanonical canonical), ran']
  | false =>
    refine ⟨.error (.notCanonical (w.arena.typeName type)), on_bind_error (on_refused canonical w), ?_, fun e same => ?_⟩
    · rw [← Arena.typeName_of_headers reordered.header]
      exact on_bind_error (on_refused canonical v)
    · cases same
      exact fails canonical

section Access

variable (initialised : w.Initialised) (reordered : w.Reordered v) (ample : w.arena.size ≤ depth)
include initialised reordered ample

theorem concur_descendsFrom {child ancestor : Ty} (inside : child.Inside w.arena.size) (known : ancestor.isCanonical = true)
    (fails : child.isCanonical = false → bad (.notCanonical (w.arena.typeName child))) :
    Concur w v bad ((ofDepth (depth + 1)).descendsFrom child ancestor) ((ofDepth (depth + 1)).descendsFrom child ancestor) := by
  refine concur_canonical reordered fails fun canonical => concur_canonical reordered (by simp [known]) fun _ => ?_
  have here : child.KnownIn w.arena := Ty.knownIn_iff.mpr ⟨inside, canonical⟩
  have ample' : v.arena.size ≤ depth := by rwa [reordered.size]
  refine (descendsBy_decides initialised.grounded ample here).concur
    (descendsBy_decides (reordered.initialised initialised).grounded ample' (reordered.knownIn.mpr here)) ?_
  rw [reordered.under]

variable {accessor : ClassId} (inside : accessor.index < w.arena.size)
include inside

theorem concur_declarationAccessible (visibility : Concur w v bad visible visible')
    (flags : Flags) (target : ClassId) :
    Concur w v bad ((ofDepth (depth + 1)).declarationAccessible visible flags target accessor)
      ((ofDepth (depth + 1)).declarationAccessible visible' flags target accessor) := by
  have conclude : Concur w v bad
      (do let arena ← Run.arena
          return accessibleFromPackage flags (arena.get target).package (arena.get accessor).package : Run Bool)
      (do let arena ← Run.arena
          return accessibleFromPackage flags (arena.get target).package (arena.get accessor).package : Run Bool) := by
    refine concur_arena ?_
    rw [(Arena.header_parts reordered.header target).2.1, (Arena.header_parts reordered.header accessor).2.1]
    exact concur_pure _
  refine concur_bind visibility fun _ => concur_ite (concur_pure _) (concur_arena ?_)
  rw [Arena.isEnclosed_of_headers reordered.header, Arena.outers_of_headers reordered.header,
    Arena.nest_of_headers reordered.header]
  refine concur_ite (concur_pure _) (concur_ite (concur_pure _) (concur_ite ?_ conclude))
  refine concur_bind (concur_anyOf fun id member => ?_) fun _ => concur_ite (concur_pure _) conclude
  have around : (Ty.cls id).Inside w.arena.size := initialised.nest_inside inside id member
  exact concur_descendsFrom initialised reordered ample around rfl nofun

theorem concur_nestAccessible (nest : List ClassId) :
    Concur w v bad ((ofDepth (depth + 1)).nestAccessible accessor nest) ((ofDepth (depth + 1)).nestAccessible accessor nest) := by
  induction nest with
  | nil => exact concur_pure _
  | cons target around ih =>
    refine concur_arena ?_
    obtain ⟨-, -, kind, flags⟩ := Arena.header_parts reordered.header target
    simp only [kind, flags]
    split
    · exact concur_declarationAccessible initialised reordered ample inside ih _ _
    · rw [Arena.isEnclosed_of_headers reordered.header, Arena.classVisible_of_headers reordered.header,
        (Arena.header_parts reordered.header accessor).2.1]
      exact concur_pure _
    · exact concur_pure _

theorem concur_classAccessible (target : ClassId) :
    Concur w v bad ((ofDepth (depth + 1)).classAccessible target accessor)
      ((ofDepth (depth + 1)).classAccessible target accessor) := by
  refine concur_arena ?_
  rw [Arena.nest_of_headers reordered.header]
  exact concur_nestAccessible initialised reordered ample inside _

theorem concur_isAccessibleIn (known : container.Inside w.arena.size)
    (fails : container.isCanonical = false → bad (.notCanonical (w.arena.typeName container))) :
    Concur w v bad ((ofDepth (depth + 1)).isAccessibleIn member container accessor)
      ((ofDepth (depth + 1)).isAccessibleIn member container accessor) := by
  unfold isAccessibleIn
  split <;> refine concur_bind ?_ fun inherited => ?_
  case isTrue.refine_1 declared =>
    refine concur_descendsFrom initialised reordered ample known ?_ fails
    cases class_ : member.container <;> simp_all [Ty.isClass, Ty.class?, Ty.isCanonical]
  case isFalse.refine_1 => exact concur_pure false
  -- whichever way the place was decided, what is left asks for the access there
  all_goals
    dsimp only
    split
    · exact concur_declarationAccessible initialised reordered ample inside
        (concur_classAccessible initialised reordered ample inside _) _ _
    · exact concur_pure _

end Access

/-- What is said of one method: that it is not applicable, or else whether it is accessible. -/
def verdict (l : Loader) (container : Ty) (args : List Ty) (accessor : Option ClassId) (m : Method) : Run (Option Bool) := do
  if !(← l.callValid m.toProcedure args) then return none
  else return some (← l.methodAccessible container accessor m)

/-- The only way in which a verdict can fail. -/
def refusal (w : World) (container : Ty) (args : List Ty) : Error :=
  .notCanonical (w.arena.typeName ((args.find? fun arg => !arg.isCanonical).getD container))

theorem isImplicitCastValid_meets {l : Loader} (a b : Ty) :
    (l.isImplicitCastValid a b).Meets (fun _ => a.isCanonical = true) (fun _ => True) := by
  have required : (requireCanonical a).Meets (fun _ => a.isCanonical = true) (fun _ => True) := by
    unfold requireCanonical
    cases canonical : a.isCanonical with
    | true => exact meets_pure rfl
    | false => exact meets_bind (meets_trivial _) fun _ _ => meets_throw trivial
  refine meets_bind required fun _ canonical => (meets_trivial _).mono (fun _ _ => canonical) fun _ _ => trivial

/-- Arguments that are not canonical are passed to nothing. -/
theorem callValid_meets {l : Loader} (p : Procedure) (args : List Ty) : (l.callValid p args).Meets
    (fun valid => valid = true → (args.find? fun arg => !arg.isCanonical) = none) (fun _ => True) := by
  have each (formals : List Ty) (enough : args.length ≤ formals.length) :
      (allOf (fun pair => l.isImplicitCastValid pair.1 pair.2) (args.zip formals)).Meets
        (fun valid => valid = true → (args.find? fun arg => !arg.isCanonical) = none) (fun _ => True) := by
    induction args generalizing formals with
    | nil => exact meets_pure fun _ => rfl
    | cons arg rest ih =>
      cases formals with
      | nil => simp at enough
      | cons formal others =>
        refine meets_bind (isImplicitCastValid_meets arg formal) fun valid canonical => meets_ite ?_ (meets_pure nofun)
        refine (ih others (by simpa using enough)).mono (fun _ found valid => ?_) fun _ _ => trivial
        simpa [canonical] using found valid
  unfold callValid
  by_cases same : p.formals.length = args.length
  · rw [if_neg (not_not_intro same)]
    exact each p.formals (Nat.le_of_eq same.symm)
  · rw [if_pos same]
    exact meets_pure nofun

section Calls

variable (initialised : w.Initialised) (reordered : w.Reordered v) (ample : w.arena.size ≤ depth) {args : List Ty}
include initialised reordered ample

theorem concur_isImplicitCastValid (inside : a.Inside w.arena.size) (known : b.isCanonical = true)
    (fails : a.isCanonical = false → bad (.notCanonical (w.arena.typeName a))) :
    Concur w v bad ((ofDepth (depth + 1)).isImplicitCastValid a b) ((ofDepth (depth + 1)).isImplicitCastValid a b) := by
  refine concur_canonical reordered fails fun canonical => concur_canonical reordered (by simp [known]) fun _ => ?_
  have here : a.KnownIn w.arena := Ty.knownIn_iff.mpr ⟨inside, canonical⟩
  have ample' : v.arena.size ≤ depth := by rwa [reordered.size]
  refine (widensBetween_decides initialised.grounded ample here known).concur
    (widensBetween_decides (reordered.initialised initialised).grounded ample' (reordered.knownIn.mpr here) known) ?_
  rw [reordered.converts]

theorem concur_callValid {p : Procedure} (inside : ∀ arg ∈ args, arg.Inside w.arena.size)
    (canonical : ∀ formal ∈ p.formals, formal.isCanonical = true)
    (fails : ∀ arg, (args.find? fun arg => !arg.isCanonical) = some arg → bad (.notCanonical (w.arena.typeName arg))) :
    Concur w v bad ((ofDepth (depth + 1)).callValid p args) ((ofDepth (depth + 1)).callValid p args) := by
  have each (formals : List Ty) (canonical : ∀ formal ∈ formals, formal.isCanonical = true) :
      Concur w v bad (allOf (fun pair => (ofDepth (depth + 1)).isImplicitCastValid pair.1 pair.2) (args.zip formals))
        (allOf (fun pair => (ofDepth (depth + 1)).isImplicitCastValid pair.1 pair.2) (args.zip formals)) := by
    induction args generalizing formals with
    | nil => exact concur_pure true
    | cons arg rest ih =>
      cases formals with
      | nil => exact concur_pure true
      | cons formal others =>
        obtain ⟨here, further⟩ := List.forall_mem_cons.mp inside
        obtain ⟨known, later⟩ := List.forall_mem_cons.mp canonical
        refine concur_bind_answer (concur_isImplicitCastValid initialised reordered ample here known fun refused => ?_)
          fun answer ran => concur_ite (ih further (fun other first => fails other ?_) others later) (concur_pure false)
        · exact fails arg (by simp [refused])
        · have accepted := (isImplicitCastValid_meets arg formal w).answer ran
          simpa [accepted] using first
  exact concur_ite (concur_pure false) (each p.formals canonical)

/-- Verdicts on a method do not depend on orders. -/
theorem concur_verdict {m : Method}
    (place : container.Inside w.arena.size) (inside : ∀ arg ∈ args, arg.Inside w.arena.size)
    (from_ : ∀ id ∈ accessor, id.index < w.arena.size) (canonical : ∀ formal ∈ m.formals, formal.isCanonical = true) :
    Concur w v (· = refusal w container args) ((ofDepth (depth + 1)).verdict container args accessor m)
      ((ofDepth (depth + 1)).verdict container args accessor m) := by
  refine concur_bind_answer (concur_callValid initialised reordered ample inside canonical fun arg first => ?_)
    fun valid ran => ?_
  · simp [refusal, first]
  · cases valid with
    | false => exact concur_pure none
    | true =>
      refine concur_bind ?_ fun answer => concur_pure (some answer)
      cases accessor with
      | none => exact concur_pure true
      | some accessor =>
        refine concur_isAccessibleIn initialised reordered ample (from_ accessor rfl) place fun _ => ?_
        simp [refusal, (callValid_meets m.toProcedure args w).answer ran rfl]

end Calls

end Loader

end ClassUniverse
