import ClassUniverse.Declaration
import ClassUniverse.Proofs.Answers
import ClassUniverse.Proofs.RespectsLookup

/-! Names in a scope. Where all that the scope declares exists, names stand for what exists, under any invariant for
which this holds of full names. -/
namespace ClassUniverse

variable {id : ClassId}

/-- Every type that a frame declares exists. -/
def Frame.Inside (frame : Frame) (w : World) : Prop := ∀ name named, frame.types.find? name = some named → w.HasNamed named

def Scope.Inside (s : Scope) (w : World) : Prop := ∀ frame ∈ s.frames, frame.Inside w

theorem Frame.Inside.later {frame : Frame} {w after : World} (inside : frame.Inside w) (kept : w.Keeps after) :
    frame.Inside after := fun name named hit id same => kept.has (inside name named hit id same)

namespace Scope.Inside

variable {s : Scope} {w after : World}

variable (inside : s.Inside w)
include inside

theorem later (kept : w.Keeps after) : s.Inside after :=
  fun frame member => (inside frame member).later kept

theorem setNames (number : Nat) (names : ClassNames) : (s.setNames number names).Inside w := by
  intro frame member
  simp only [Scope.frames, Scope.setNames, List.mem_append, List.mem_map, List.mem_singleton] at member
  rcases member with ⟨old, listed, rfl⟩ | rfl
  · have known : old.Inside w := inside old (by simp [Scope.frames, listed])
    split
    · exact known
    · exact known
  · exact inside s.outermost (by simp [Scope.frames])

theorem push (kind : FrameKind) (isStatic : Bool) : (s.push kind isStatic).Inside w := by
  intro frame member
  simp only [Scope.frames, Scope.push, List.cons_append, List.mem_cons] at member
  rcases member with rfl | listed
  · exact fun name named hit => nomatch hit
  · exact inside frame listed

theorem bindType (name : String) (has : w.Has id) : (s.bindType name id).Inside w := by
  have bound {frame : Frame} (known : frame.Inside w) :
      Frame.Inside { frame with types := frame.types.insert name (.cls id) } w := by
    intro other named hit
    rw [Assoc.find?_insert] at hit
    split at hit
    · cases hit
      rintro _ ⟨⟩
      exact has
    · exact known other named hit
  intro frame member
  unfold Scope.bindType Scope.modifyInnermost at member
  split at member
  · rename_i none
    simp only [Scope.frames, none, List.nil_append, List.mem_singleton] at member
    exact member ▸ bound (inside s.outermost (by simp [Scope.frames]))
  · rename_i head rest shape
    simp only [Scope.frames, List.cons_append, List.mem_cons] at member
    rcases member with rfl | listed
    · exact bound (inside head (by simp [Scope.frames, shape]))
    · refine inside frame ?_
      simp only [Scope.frames, shape, List.cons_append, List.mem_cons]
      exact .inr listed

theorem pushClass (has : w.Has id) : (s.pushClass w.arena id).Inside w := by
  unfold Scope.pushClass
  split
  · exact inside.push _ _
  · exact (inside.push _ _).bindType _ has

theorem pushClasses (outers : List ClassId) (has : ∀ outer ∈ outers, w.Has outer) :
    (outers.foldr (fun outer (s : Scope) => s.pushClass w.arena outer) s).Inside w := by
  induction outers with
  | nil => exact inside
  | cons outer rest ih =>
    have others := ih fun other member => has other (by simp [member])
    exact others.pushClass (has outer (by simp))

end Scope.Inside

/-- As `Run.Gives`, in a scope whose types exist. -/
def Scoped.Finds (x : Scoped α) (P : World → Prop) (s : Scope) (w : World) (good : α → World → Prop) :
    Prop :=
  x.Ends s w
    (fun a s after => ((P after ∧ w.Keeps after) ∧ s.Inside after) ∧ good a after)
    (fun _ s after => (P after ∧ w.Keeps after) ∧ s.Inside after)

namespace Scoped

variable {P : World → Prop} {s : Scope} {w : World} {good : β → World → Prop} {f : α → Scoped β} {x : Scoped β}

theorem finds_pure (holds : P w) (inside : s.Inside w) (answer : good a w) : (pure a : Scoped β).Finds P s w good :=
  ends_pure.mpr ⟨⟨⟨holds, WorldOrder.refl w⟩, inside⟩, answer⟩

theorem finds_throw (e : Error) (holds : P w) (inside : s.Inside w) :
    (throw e : Scoped β).Finds P s w good := ends_throw.mpr ⟨⟨holds, WorldOrder.refl w⟩, inside⟩

theorem finds_ite [Decidable p] {y : Scoped β} (first : p → x.Finds P s w good)
    (second : ¬p → y.Finds P s w good) : (if p then x else y).Finds P s w good := by
  split
  · exact first ‹_›
  · exact second ‹_›

theorem finds_lift {x : Run β} (finds : x.Gives P World.Keeps w good) (inside : s.Inside w) :
    (liftM x : Scoped β).Finds P s w good := by
  refine ends_lift.mpr (Run.Ends.mono finds ?_ ?_)
  · exact fun _ _ reached => ⟨⟨reached.1, inside.later reached.1.2⟩, reached.2⟩
  · exact fun _ _ failed => ⟨failed, inside.later failed.2⟩

theorem Finds.bind {x : Scoped α} (first : x.Finds P s w ok)
    (next : ∀ a s middle, P middle → s.Inside middle → w.Keeps middle → ok a middle →
      (f a).Finds P s middle good) : (x >>= f).Finds P s w good := by
  unfold Finds
  rw [ends_bind]
  refine Ends.mono first ?_ (fun _ _ _ failed => failed)
  rintro a s middle ⟨⟨⟨holds, kept⟩, inside⟩, answer⟩
  refine Ends.mono (next a s middle holds inside kept answer) ?_ ?_
  · exact fun _ _ _ reached => ⟨⟨⟨reached.1.1.1, WorldOrder.trans kept reached.1.1.2⟩, reached.1.2⟩, reached.2⟩
  · exact fun _ _ _ failed => ⟨⟨failed.1.1, WorldOrder.trans kept failed.1.2⟩, failed.2⟩

theorem finds_mapM {items : List α} (each : ∀ a s w, P w → s.Inside w → (f a).Finds P s w good)
    (lasting : ∀ {b w after}, World.Keeps w after → good b w → good b after) (holds : P w) (inside : s.Inside w) :
    (items.mapM f).Finds P s w fun bs after => ∀ b ∈ bs, good b after := by
  induction items generalizing s w with
  | nil => exact finds_pure holds inside (by simp)
  | cons a rest ih =>
    rw [List.mapM_cons]
    refine (each a s w holds inside).bind fun b s middle holds inside _ first => ?_
    refine (ih holds inside).bind fun bs s last holds inside kept others => finds_pure holds inside fun c member => ?_
    rcases List.mem_cons.mp member with rfl | member
    · exact lasting kept first
    · exact others c member

theorem Finds.outcome (finds : x.Finds P s w good) :
    x.outcome.Finds P s w fun result after => ∀ a, result = .ok a → good a after := by
  refine ends_outcome.mpr (Ends.mono finds (fun a s after reached => ?_) fun _ _ _ failed => ⟨failed, nofun⟩)
  refine ⟨reached.1, ?_⟩
  rintro _ ⟨⟩
  exact reached.2

theorem Finds.within (finds : x.Finds P s w good) : (x.within s).Gives P World.Keeps w good :=
  ends_within.mpr (Ends.mono finds (fun _ _ _ reached => ⟨reached.1.1, reached.2⟩) fun _ _ _ failed => failed.1)

theorem finds_scope {f : Scope → Scoped β} : (getThe Scope >>= f).Finds P s w good ↔ (f s).Finds P s w good := by
  unfold Finds
  rw [ends_bind, ends_getScope]

theorem finds_currentClass {f : Option ClassId → Scoped β} :
    (currentClass? >>= f).Finds P s w good ↔ (f s.currentClass?).Finds P s w good := by
  unfold Finds
  rw [ends_bind, ends_currentClass]

theorem finds_arena {f : Arena → Scoped β} :
    ((liftM Run.arena : Scoped Arena) >>= f).Finds P s w good ↔ (f w.arena).Finds P s w good := by
  unfold Finds
  rw [ends_bind, ends_lift, Run.ends_arena]

theorem finds_record {f : ClassRecord → Scoped β} :
    ((liftM (Run.record id) : Scoped ClassRecord) >>= f).Finds P s w good ↔
      (f (w.arena.get id)).Finds P s w good := by
  unfold Finds
  rw [ends_bind, ends_lift, Run.ends_record]

end Scoped

/-- The root class exists as well, and packages may be asked for. -/
structure Loader.Explores (l : Loader) (P : World → Prop) : Prop extends l.Discovers P where
  root : ∀ {w}, P w → l.object.Gives P World.Keeps w fun id after => after.Has id
  packages : ∀ name, (System.packageExists name).Within (Kept P World.Keeps)

variable {P : World → Prop} {s : Scope} {w : World} {l : Loader}

theorem Loader.Explores.respects (sound : l.Explores P) : l.Respects (Kept P World.Keeps) where
  toLoads := sound.loads
  remembered id name := Run.within_of_gives fun _ holds => rememberedMember_finds sound.toDiscovers id name holds
  root := Run.within_of_gives fun _ holds => sound.root holds
  imported key name := Run.within_of_gives fun _ holds => findImported_finds sound.toDiscovers key name holds
  packages := sound.packages

namespace Scope

open Scoped

variable (sound : l.Explores P)
include sound

theorem namesOf_finds (frame : Frame) (id : ClassId) (holds : P w) (inside : s.Inside w) :
    (namesOf l frame id).Finds P s w fun _ _ => True := by
  unfold namesOf
  split
  · exact finds_pure holds inside trivial
  · have collected := (l.classNames_within (sound.respects) id).gives holds
    refine (finds_lift collected inside).bind fun names s middle holds inside _ _ => ?_
    have stored : (modifyThe Scope (·.setNames frame.number names) : Scoped Unit).Finds P s middle
        fun _ _ => True :=
      ends_modifyScope.mpr ⟨⟨⟨holds, WorldOrder.refl middle⟩, inside.setNames _ _⟩, trivial⟩
    exact stored.bind fun _ _ _ holds inside _ _ => finds_pure holds inside trivial

theorem typeIn_finds (name : String) (accessor : Option ClassId) (frames : List Frame) (holds : P w)
    (inside : s.Inside w) (known : ∀ frame ∈ frames, frame.Inside w) :
    (typeIn l name accessor frames).Finds P s w fun named after => after.HasNamed named := by
  induction frames generalizing s w with
  | nil => exact finds_throw _ holds inside
  | cons frame rest ih =>
    have outward (other : Frame) (member : other ∈ rest) : other.Inside w := known other (by simp [member])
    unfold typeIn
    split
    · rename_i named hit
      exact finds_pure holds inside (known frame (by simp) name named hit)
    · split
      · rename_i id _
        refine (namesOf_finds sound frame id holds inside).bind fun names s middle holds inside kept _ => ?_
        refine finds_ite (fun _ => ?_) fun _ => ?_
        · refine (finds_lift (l.memberClass_finds sound.toDiscovers id name accessor holds) inside).bind
            fun member s last holds inside _ has => finds_pure holds inside ?_
          rintro _ ⟨⟩
          exact has
        · exact ih holds inside fun other member => (outward other member).later kept
      · exact finds_lift (l.findImported_finds sound.toDiscovers _ name holds) inside
      · exact finds_lift (sound.found holds) inside
      · exact ih holds inside outward
      · exact ih holds inside outward

theorem findShortType_finds (name : String) (holds : P w) (inside : s.Inside w) :
    (findShortType l name).Finds P s w fun named after => after.HasNamed named :=
  finds_scope.mpr (typeIn_finds sound name _ _ holds inside inside)

theorem descend_finds (accessor : Option ClassId) (named : Named) (segments : List String) (holds : P w)
    (has : w.HasNamed named) :
    (descend l accessor named segments).Gives P World.Keeps w fun named after => after.HasNamed named := by
  induction segments generalizing named w with
  | nil => cases named <;> exact Run.gives_pure holds has
  | cons segment rest ih =>
    cases named with
    | cls id =>
      refine (l.findMemberClass_finds sound.toDiscovers id segment accessor holds).bind fun member _ holds _ has => ih _ holds ?_
      rintro _ ⟨⟩
      exact has
    | package package =>
      exact (l.findInPackage_finds sound.toDiscovers package segment accessor holds).bind fun _ _ holds _ has => ih _ holds has

theorem findQualified_finds (name : String) (holds : P w) (inside : s.Inside w) :
    (findQualified l name).Finds P s w fun named after => after.HasNamed named := by
  unfold findQualified
  split
  · exact finds_throw _ holds inside
  · rename_i first rest _
    have descended {s : Scope} {w : World} (start : Named) (holds : P w) (inside : s.Inside w)
        (has : w.HasNamed start) : (do
          descend l (← Scoped.currentClass?) start rest : Scoped Named).Finds P s w
            fun named after => after.HasNamed named :=
      finds_currentClass.mpr (finds_lift (descend_finds sound _ start rest holds has) inside)
    refine (findShortType_finds sound first holds inside).outcome.bind
      fun found s middle holds inside _ has => ?_
    dsimp only
    split
    · rename_i named
      exact descended named holds inside (has named rfl)
    · rw [pure_bind]
      refine finds_ite (fun _ => descended _ holds inside nofun) fun _ => ?_
      exact (finds_throw _ holds inside).bind fun start _ _ holds inside _ has => descended start holds inside has

theorem findType_finds (name : String) (holds : P w) (inside : s.Inside w) :
    (findType l name).Finds P s w fun named after => after.HasNamed named := by
  refine finds_ite (fun _ => findShortType_finds sound name holds inside) fun _ => ?_
  refine (finds_lift (sound.found holds).outcome inside).bind fun found s middle holds inside _ has => ?_
  split
  · exact finds_pure holds inside (has _ rfl)
  · refine finds_ite (fun _ => finds_throw _ holds inside) fun _ => ?_
    refine (findQualified_finds sound name holds inside).bind fun named s last holds inside _ has => ?_
    split
    · refine (finds_lift ((sound.packages _).gives holds) inside).bind fun _ s later holds inside kept _ => ?_
      refine finds_ite (fun _ => finds_pure holds inside ?_) fun _ => finds_throw _ holds inside
      exact fun id same => kept.has (has id same)
    · exact finds_pure holds inside has

theorem resolveType_finds (written : String) (holds : P w) (inside : s.Inside w) :
    (resolveType l written).Finds P s w fun type after => after.HasType type := by
  unfold resolveType
  obtain ⟨base, dims⟩ := splitDims written
  dsimp only
  split
  · exact finds_pure holds inside (World.hasType_arrayOf (by nofun) dims)
  · refine (findType_finds sound base holds inside).bind fun named s middle holds inside _ has => ?_
    split
    · rename_i found
      refine finds_pure holds inside (World.hasType_arrayOf ?_ dims)
      rintro _ ⟨⟩
      exact has found rfl
    · exact finds_lift (Run.gives_fault holds) inside

end Scope

/-- Only a class of a job has a scope for its header. -/
theorem Loader.headerScope_finds (nested : w.arena.Nested) (holds : P w) :
    (headerScope id).Gives P World.Keeps w fun scope after => scope.Inside after ∧ after.Has id := by
  refine Run.gives_get.mpr ?_
  split
  · exact Run.gives_fault holds
  · rename_i job found
    have jobbed : (w.arena.get id).job.isSome := by simp [(Option.filter_eq_some_iff.mp found).1]
    have inside := Arena.inside_of_job jobbed
    have around := (w.arena.outersWithin_around id.index id).inside nested inside
    have empty : Scope.Inside {} w := by
      intro frame member
      simp only [Scope.frames, List.nil_append, List.mem_singleton] at member
      subst member
      rintro name named ⟨⟩
    exact Run.gives_pure holds ⟨(empty.push _ _).pushClasses _ around, inside⟩

end ClassUniverse
