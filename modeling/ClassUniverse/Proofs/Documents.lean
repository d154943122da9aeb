import ClassUniverse.Encoding
import ClassUniverse.Resolver
import ClassUniverse.Proofs.Headers
import ClassUniverse.Proofs.Yields
import Mathlib.Data.List.Basic

/-! The document of a class, read off the arena. Encoding a class whose stages are there gives its document
and changes nothing. -/
namespace ClassUniverse

def Method.mentions (m : Method) : List Ty := m.returns :: (m.formals ++ m.throws)

def Constructor.mentions (c : Constructor) : List Ty := c.formals ++ c.throws

/-- All types in the header and the signatures of a class. -/
def ClassRecord.mentions (r : ClassRecord) : List Ty :=
  r.supertypes ++ r.fields.map (·.type) ++ r.methods.flatMap Method.mentions ++
    r.constructors.flatMap Constructor.mentions

/-- All classes in the type exist. -/
def Ty.Inside (size : Nat) : Ty → Prop
  | .cls id => id.index < size
  | .array base => base.Inside size
  | _ => True

theorem Ty.Inside.mono (more : size ≤ larger) {type : Ty} (inside : type.Inside size) : type.Inside larger := by
  induction type with
  | cls id => exact Nat.lt_of_lt_of_le inside more
  | array base ih => exact ih inside
  | _ => exact trivial

/-- The stages that a document is made from. -/
def ClassRecord.Described (r : ClassRecord) : Prop :=
  r.stages.has .supertypesResolved ∧ r.stages.has .membersAdded ∧ r.stages.has .signaturesResolved

instance (r : ClassRecord) : Decidable r.Described := inferInstanceAs (Decidable (_ ∧ _ ∧ _))

namespace Arena

def document (arena : Arena) (version : String) (id : ClassId) : Metadata where
  version
  name := (arena.binaryName? id).getD ""
  outer := (arena.outer? id).bind arena.binaryName?
  flags := (arena.get id).flags
  superType := (arena.get id).superType.map arena.typeName
  interfaces := arena.typeNames (arena.get id).interfaces
  fields := (arena.get id).fields.map arena.encodeField
  methods := (arena.get id).methods.map arena.encodeMethod
  constructors := (arena.get id).constructors.map arena.encodeConstructor
  memberClasses := (arena.get id).members.filterMap arena.binaryName?

variable {arena : Arena} {id : ClassId}

theorem binaryName?_of_fileName (named : (arena.get id).fileName = some name) : arena.binaryName? id = some name := by
  unfold binaryName? binaryNameWithin
  simp [named]

theorem encodableName?_of_fileName (named : (arena.get id).fileName = some name)
    (nesting : (arena.get id).kind = .topLevel ∨ ∃ outer, (arena.get id).kind = .memberOf outer) :
    arena.encodableName? id = some name := by
  unfold encodableName?
  rcases nesting with top | ⟨outer, member⟩
  · simp [top, binaryName?_of_fileName named]
  · simp [member, binaryName?_of_fileName named]

end Arena

namespace Loader

variable {id : ClassId}

theorem ensure_reached (depth : Nat) (reached : w.hasStage id stage) :
    ((ofDepth (depth + 1)).ensure id stage).on w = some (.ok (), w) := by
  change ((ofDepth depth).ensureStage id stage).on w = _
  unfold ensureStage
  rw [Run.on_get_bind, if_pos reached]
  rfl

theorem on_staged (depth : Nat) (reached : w.hasStage id stage) (view : ClassRecord → α) :
    (do (ofDepth (depth + 1)).ensure id stage
        return view (← Run.record id) : Run α).on w = some (.ok (view (w.arena.get id)), w) := by
  rw [Run.on_bind_ok (ensure_reached depth reached)]
  rfl

theorem encodeClass_described (depth : Nat) (described : (w.arena.get id).Described)
    (encodable : w.arena.encodableName? id = some name) :
    ((ofDepth (depth + 1)).encodeClass id).on w = some (.ok (w.arena.document w.config.version.text id), w) := by
  obtain ⟨supertypes, members, signatures⟩ := described
  have named : w.arena.binaryName? id = some name := by
    unfold Arena.encodableName? at encodable
    split at encodable
    · exact encodable
    · exact encodable
    · cases encodable
  have superType : ((ofDepth (depth + 1)).superType id).on w = some (.ok (w.arena.get id).superType, w) :=
    on_staged depth supertypes (·.superType)
  have interfaces : ((ofDepth (depth + 1)).interfaces id).on w = some (.ok (w.arena.get id).interfaces, w) :=
    on_staged depth supertypes (·.interfaces)
  have fields : ((ofDepth (depth + 1)).fields id).on w = some (.ok (w.arena.get id).fields, w) :=
    on_staged depth signatures (·.fields)
  have methods : ((ofDepth (depth + 1)).methods id).on w = some (.ok (w.arena.get id).methods, w) :=
    on_staged depth signatures (·.methods)
  have constructors : ((ofDepth (depth + 1)).constructors id).on w = some (.ok (w.arena.get id).constructors, w) :=
    on_staged depth signatures (·.constructors)
  have memberClasses : ((ofDepth (depth + 1)).memberClasses id).on w = some (.ok (w.arena.get id).members, w) :=
    on_staged depth members (·.members)
  unfold encodeClass
  rw [Run.on_get_bind]
  simp only [encodable]
  rw [Run.on_bind_ok superType, Run.on_bind_ok interfaces, Run.on_bind_ok fields, Run.on_bind_ok methods,
    Run.on_bind_ok constructors, Run.on_bind_ok memberClasses]
  simp only [Arena.document, named]
  rfl

end Loader

end ClassUniverse
