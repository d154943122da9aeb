import ClassUniverse.Assembly
import ClassUniverse.Proofs.CandidateNames
import ClassUniverse.Proofs.NestAccess
import ClassUniverse.Proofs.WholePasses

/-! Nesting is well founded. Whichever way classes come about, a nested class comes after the class around it, so what is
asked of the classes around a class, one after another, comes to an end. -/
namespace ClassUniverse

open Run Loader

variable {D : String → Prop} {config : Config} {u : Universe} {w after : World} {depth : Nat} {l : Loader}

/-! ## Walks outward -/

namespace Arena

variable {arena : Arena} (nested : arena.Nested) (id : ClassId)
include nested

theorem Nested.outers_eq : arena.outers id = (arena.outer? id).elim [] arena.nest := by
  cases encloses : arena.outer? id with
  | none => exact outers_of_none encloses
  | some outer => exact nested.outers_of_some encloses

theorem Nested.hasEnclosingInstance_eq (target : ClassId) : arena.hasEnclosingInstance id target =
    (id == target || (arena.isInner id && !(arena.get id).inStaticContext &&
      (arena.outer? id).any (arena.hasEnclosingInstance · target))) := by
  rw [hasEnclosingInstance, nest, carriesInstance, nested.outers_eq id]
  cases arena.outer? id <;> rfl

end Arena

/-- Access to a member class starts from access to the class around it. -/
theorem Loader.on_classAccessible (nested : w.arena.Nested) (target accessor : ClassId) :
    (l.classAccessible target accessor).on w = (match (w.arena.get target).kind with
      | .memberOf outer =>
        l.declarationAccessible (l.classAccessible outer accessor) (w.arena.get target).flags outer accessor
      | .topLevel => return target = accessor || w.arena.isEnclosed accessor target ||
        w.arena.classVisible target (w.arena.get accessor).package
      | _ => return true : Run Bool).on w := by
  have start : (l.classAccessible target accessor).on w = (l.nestAccessible accessor (w.arena.nest target)).on w := rfl
  have arena : Run.arena.on w = some (.ok w.arena, w) := rfl
  rw [start, Arena.nest, nestAccessible, on_bind_ok arena]
  cases kind : (w.arena.get target).kind with
  | memberOf outer =>
    rw [nested.outers_of_some (Arena.outer?_of_kind kind rfl)]
    simp only [kind, declarationAccessible, on_bind]
    rfl
  | _ => simp only [kind]

/-! ## Ways in which classes come about -/

/-- Classes are assembled around and under classes that exist. -/
theorem Run.assemble_whole {record : ClassRecord} (around : ∀ outer ∈ record.kind.outer?, w.Has outer)
    (supertypes : ∀ above ∈ record.supertypes.filterMap Ty.class?, w.Has above) (whole : w.Whole D) :
    (assemble record).StaysWhole D w fun id after => after.Has id := by
  have added : (addClass { record with completion := some .assembled }).StaysWhole D w fun id after => after.Has id := by
    refine ends_addClass.mpr ⟨⟨whole.withClass supertypes around (by rintro ⟨⟩), .add w.arena _⟩, ?_⟩
    simp [World.Has]
  have changed (id : ClassId) (change : ClassRecord → ClassRecord) (header : ∀ r, (change r).header = r.header)
      (same : ∀ r, (change r).supertypes = r.supertypes ∧ (change r).completion = r.completion) :
      (update id change).Within (WholeKept D) :=
    update_whole header (fun r => (same r).1) fun r left => (same r).2 ▸ left
  refine added.bind fun id middle whole _ has => ?_
  refine (changed id _ (by intro; rfl) (by intro; exact ⟨rfl, rfl⟩)).andThen whole fun _ last whole kept => ?_
  dsimp only
  split
  · refine (changed _ _ (by intro; rfl) (by intro; exact ⟨rfl, rfl⟩)).andThen whole fun _ final whole later => ?_
    exact gives_pure whole (later.has (kept.has has))
  · exact gives_pure whole (kept.has has)

/-- The ways in which classes come about, and whatever is looked up in between. -/
inductive Construction where
  | assemble (record : ClassRecord)
  | declare (source : SourceFile) (job : JobId)
  | read (file : ClassFile)
  | decode (text binary : String)
  | lookUp (question : Question)

namespace Construction

def run (depth : Nat) : Construction → Run Unit
  | assemble record => discard (Run.assemble record)
  | declare source job => source.declareAll job
  | read file => discard ((Loader.ofDepth depth).rawClass file)
  | decode text binary => discard ((Loader.ofDepth depth).decode text binary)
  | lookUp question => question.ask (.ofDepth depth)

/-- A class is assembled inside and below classes that exist. -/
def Fits (w : World) : Construction → Prop
  | assemble record => (∀ outer ∈ record.kind.outer?, w.Has outer) ∧
    ∀ above ∈ record.supertypes.filterMap Ty.class?, w.Has above
  | _ => True

theorem run_whole (construction : Construction) (depth : Nat) (fits : construction.Fits w) (whole : w.Whole fun _ => True) :
    (construction.run depth).StaysWhole (fun _ => True) w fun _ _ => True := by
  have sound : (Loader.ofDepth depth).Explores (World.Whole fun _ => True) := ofDepth_whole depth
  cases construction with
  | assemble record => exact (assemble_whole fits.1 fits.2 whole).discard
  | declare source job => exact source.declareAll_whole job whole
  | read file => exact (rawClass_whole sound.toDiscovers file whole).discard
  | decode text binary => exact (decode_whole sound.toDiscovers text (fun _ _ _ => trivial) whole).discard
  | lookUp question => exact (question.ask_within sound.respects).gives whole

end Construction

/-- The worlds that constructions lead to, whether each of them succeeds or fails. -/
inductive Constructed (config : Config) (u : Universe) : World → Prop
  | start : Constructed config u (.ofUniverse config u)
  | step {w after : World} {result : Except Error Unit} (construction : Construction) (depth : Nat)
    (earlier : Constructed config u w) (fits : construction.Fits w)
    (ran : (construction.run depth).on w = some (result, after)) : Constructed config u after

theorem Constructed.whole (constructed : Constructed config u w) : w.Whole fun _ => True := by
  induction constructed with
  | start => exact .ofUniverse fun _ _ _ => trivial
  | @step w after result construction depth _ fits ran ih =>
    have kept := construction.run_whole depth fits ih
    cases result with
    | ok => exact (Ends.answer kept ran).1.1
    | error e => exact (Ends.error kept ran).1

end ClassUniverse
