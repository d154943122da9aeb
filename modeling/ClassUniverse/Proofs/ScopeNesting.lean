import ClassUniverse.Proofs.LookupSteps
import ClassUniverse.Resolver

/-! Scopes nest. Calls open a frame, close the innermost one or change it, and look-ups do no more than collect names.
So what a frame encloses is the same before and after whatever happens inside. -/
namespace ClassUniverse

variable {arena : Arena} {x : Scoped α}

/-- The frame without the member names that have been collected for it. -/
def Frame.settled (frame : Frame) : Frame := { frame with names := none }

/-- What of a frame never changes. -/
def Frame.plate (frame : Frame) : Frame := { kind := frame.kind, number := frame.number, isStatic := frame.isStatic }

namespace Scope

/-- The frames from the outermost inward. -/
def trail (s : Scope) : List Frame := (s.frames.map Frame.settled).reverse

/-- All frames but the innermost, as in `trail`. -/
def base (s : Scope) : List Frame := (s.frames.tail.map Frame.settled).reverse

theorem frames_eq (s : Scope) : s.frames = s.innermost :: s.frames.tail := by
  obtain ⟨outermost, inner, next⟩ := s
  cases inner <;> rfl

theorem trail_eq (s : Scope) : s.trail = s.base ++ [s.innermost.settled] := by
  rw [trail, frames_eq, List.map_cons, List.reverse_cons]
  rfl

@[simp] theorem length_trail (s : Scope) : s.trail.length = s.depth := by simp [trail, frames, depth]

theorem length_base (s : Scope) : s.base.length + 1 = s.depth := by
  rw [← length_trail, trail_eq, List.length_append, List.length_singleton]

section Changes

variable (s : Scope)

@[simp] theorem base_modifyInnermost (change : Frame → Frame) : (s.modifyInnermost change).base = s.base := by
  obtain ⟨outermost, inner, next⟩ := s
  cases inner <;> rfl

@[simp] theorem innermost_modifyInnermost (change : Frame → Frame) :
    (s.modifyInnermost change).innermost = change s.innermost := by
  obtain ⟨outermost, inner, next⟩ := s
  cases inner <;> rfl

@[simp] theorem next_modifyInnermost (change : Frame → Frame) : (s.modifyInnermost change).next = s.next := by
  unfold modifyInnermost
  split <;> rfl

end Changes

/-- Declaring a class again where all frames are the same makes the same frames. -/
theorem trail_addClass {s other : Scope} (same : s.trail = other.trail) (arena : Arena) (id : ClassId) :
    (s.addClass arena id).trail = (other.addClass arena id).trail := by
  rw [trail_eq, trail_eq other] at same
  obtain ⟨bases, tops⟩ := List.append_inj' same rfl
  have settled (frame : Frame) : Frame.settled { frame with types := frame.types.insert (arena.get id).name (.cls id) } =
      { frame.settled with types := frame.settled.types.insert (arena.get id).name (.cls id) } := rfl
  rw [trail_eq, trail_eq (other.addClass arena id), addClass, addClass, bindType, bindType]
  simp only [base_modifyInnermost, innermost_modifyInnermost, settled, bases, List.singleton_inj.mp tops]

/-- What a call does to the frames. -/
inductive Move (s after : Scope) : Prop where
  | opens (base : after.base = s.trail) (number : after.innermost.number = s.next) (next : after.next = s.next + 1)
  | stays (base : after.base = s.base) (plate : after.innermost.plate = s.innermost.plate) (next : after.next = s.next)
  /-- What the innermost frame lies in is the innermost frame then. -/
  | closes (outer : Scope) (trail : outer.trail = s.base) (base : after.base = outer.base)
    (plate : after.innermost.plate = outer.innermost.plate) (next : after.next = s.next)

section Moves

variable (s : Scope)

theorem plate_addClass (arena : Arena) (id : ClassId) : (s.addClass arena id).innermost.plate = s.innermost.plate := by
  rw [addClass, bindType, innermost_modifyInnermost]
  rfl

theorem move_push (kind : FrameKind) (isStatic : Bool) : s.Move (s.push kind isStatic) := .opens rfl rfl rfl

theorem move_pushClass (arena : Arena) (id : ClassId) : s.Move (s.pushClass arena id) := by
  unfold pushClass
  split
  · exact s.move_push _ _
  · have number := congrArg Frame.number (plate_addClass (s.push (.body id) false) arena id)
    exact .opens (base_modifyInnermost ..) number (next_modifyInnermost ..)

theorem move_addClass (arena : Arena) (id : ClassId) : s.Move (s.addClass arena id) :=
  .stays (base_modifyInnermost ..) (plate_addClass ..) (next_modifyInnermost ..)

theorem move_addVariable (v : Local) : s.Move (s.addVariable v) := by
  refine .stays (base_modifyInnermost ..) ?_ (next_modifyInnermost ..)
  rw [addVariable, innermost_modifyInnermost]
  rfl

/-- A local class is declared in the frame around it; otherwise that frame is as it was. -/
theorem pop?_eq {frame : Frame} (shape : s.inner = frame :: rest) (arena : Arena) :
    s.pop? arena = some (match frame.kind with
      | .body id => if (arena.get id).kind.isLocal then addClass { s with inner := rest } arena id
        else { s with inner := rest }
      | _ => { s with inner := rest }) := by
  unfold pop?
  rw [shape]
  dsimp only
  cases frame.kind <;> rfl

theorem pop?_eq_none : s.pop? arena = none ↔ s.depth = 1 := by
  cases shape : s.inner with
  | nil => simp [pop?, depth, shape]
  | cons frame rest => simp [pop?_eq s shape, depth, shape]

theorem move_pop (popped : s.pop? arena = some after) : s.Move after := by
  cases shape : s.inner with
  | nil => simp [pop?, shape] at popped
  | cons frame rest =>
    have trail : Scope.trail { s with inner := rest } = s.base := by simp [Scope.trail, base, frames, shape]
    have kept : s.Move { s with inner := rest } := .closes { s with inner := rest } trail rfl rfl rfl
    rw [pop?_eq s shape, Option.some.injEq] at popped
    rw [← popped]
    cases frame.kind with
    | body id =>
      dsimp only
      split
      · exact .closes _ trail (base_modifyInnermost ..) (plate_addClass ..) (next_modifyInnermost ..)
      · exact kept
    | _ => exact kept

end Moves

/-- The same frames, apart from collected names. -/
structure Same (s after : Scope) : Prop where
  trail : after.trail = s.trail
  next : after.next = s.next

theorem Same.refl (s : Scope) : s.Same s := ⟨rfl, rfl⟩

theorem Same.trans {s middle after : Scope} (first : s.Same middle) (second : middle.Same after) : s.Same after :=
  ⟨second.trail.trans first.trail, second.next.trans first.next⟩

theorem Same.move {s after : Scope} (same : s.Same after) : s.Move after := by
  have trail := same.trail
  rw [trail_eq, trail_eq s] at trail
  obtain ⟨bases, tops⟩ := List.append_inj' trail rfl
  have plates : after.innermost.settled.plate = s.innermost.settled.plate := by rw [List.singleton_inj.mp tops]
  exact .stays bases plates same.next

theorem same_setNames (s : Scope) (number : Nat) (names : ClassNames) : s.Same (s.setNames number names) := by
  have settled (frame : Frame) : Frame.settled (if frame.number = number then { frame with names := some names } else frame) =
      frame.settled := by
    split <;> rfl
  refine ⟨?_, rfl⟩
  simp [trail, frames, setNames, Function.comp_def, settled]

end Scope

/-! ## Look-ups -/

namespace Scoped

/-- Whatever comes out, the frames are the same afterwards. -/
def Quiet (x : Scoped α) : Prop := ∀ s w, x.Ends s w (fun _ last _ => s.Same last) fun _ last _ => s.Same last

theorem quiet_pure (a : α) : (pure a : Scoped α).Quiet := fun s _ => ends_pure.mpr (.refl s)

theorem quiet_throw (e : Error) : (throw e : Scoped α).Quiet := fun s _ => ends_throw.mpr (.refl s)

theorem quiet_lift (x : Run α) : (liftM x : Scoped α).Quiet := fun s _ =>
  ends_lift.mpr (Run.ends_of_outcomes (fun _ _ _ => .refl s) fun _ _ _ => .refl s)

theorem quiet_bind {f : α → Scoped β} (first : x.Quiet) (rest : ∀ a, (f a).Quiet) : (x >>= f).Quiet := by
  intro s w
  refine ends_bind.mpr ((first s w).mono (fun a middle after same => ?_) fun _ _ _ same => same)
  exact (rest a middle after).mono (fun _ _ _ further => same.trans further) fun _ _ _ further => same.trans further

theorem quiet_outcome (quiet : x.Quiet) : x.outcome.Quiet := fun s w => ends_outcome.mpr (quiet s w)

theorem quiet_getScope : (getThe Scope : Scoped Scope).Quiet := fun s _ => ends_getScope.mpr (.refl s)

theorem quiet_getWorld : (getThe World : Scoped World).Quiet := by
  intro s w
  unfold Ends
  exact .refl s

theorem quiet_composes : Scoped.Composes (fun _ _ => True) (fun _ x => x.Quiet) fun _ => True where
  base := ⟨⟨fun _ => trivial, trivial, fun _ _ => trivial⟩, fun _ => trivial, fun _ _ => trivial⟩
  pure := quiet_pure
  raise _ := quiet_throw _
  getScope := quiet_getScope
  getWorld := quiet_getWorld
  named number names s _ := ends_modifyScope.mpr (s.same_setNames number names)
  lift _ := quiet_lift _
  bind := quiet_bind
  caught first rest := quiet_bind (quiet_outcome first) fun result => rest result fun _ _ _ _ => trivial

end Scoped

namespace Scope

open Scoped

/-- What can be looked up in a scope. -/
inductive Lookup where
  | type (name : String)
  | writtenType (text : String)
  | var (name : String)
  | localVar (name : String)
  | fieldScope (name : String)
  | field (name : String)
  | methodScope (name : String)
  | method (name : String) (args : List Ty)

def Lookup.run (l : Loader) : Lookup → Scoped Unit
  | type name => discard (findType l name)
  | writtenType text => discard (resolveType l text)
  | var name => discard (findVariable l name)
  | localVar name => discard (findLocal name)
  | fieldScope name => discard (findFieldScope l name)
  | field name => discard (findField l name)
  | methodScope name => discard (findMethodScope l name)
  | method name args => discard (findMethod l name args)

theorem Lookup.run_quiet (l : Loader) (lookup : Lookup) : (lookup.run l).Quiet := by
  -- whatever the loader does, it does not see the scope
  have steps : l.ResolvesBy (fun _ _ => True) fun _ => True :=
    { quiet_composes.base with
      find := fun _ => trivial, stage := fun _ _ _ => trivial, inherits := fun _ _ => trivial
      memberClass := fun _ _ _ => trivial, remembered := fun _ _ => trivial, root := trivial
      imported := fun _ _ => trivial, packages := fun _ => trivial, classNames := fun _ => trivial }
  have here := quiet_composes
  cases lookup with
  | type name => exact here.map (here.findType steps name)
  | writtenType text => exact here.map (here.resolveType steps text)
  | var name => exact here.map (here.findVariable steps (fun _ _ _ => trivial) name)
  | localVar name =>
    refine here.map (here.bind here.getScope fun s => ?_)
    split
    · exact here.pure _
    · exact here.fault _ _
  | fieldScope name => exact here.map (here.findFieldScope steps name)
  | field name => exact here.map (here.findField steps (fun _ _ _ => trivial) name)
  | methodScope name => exact here.map (here.findMethodScope steps (fun _ _ _ => trivial) name)
  | method name args => exact here.map (here.findMethod steps (fun _ _ _ => trivial) (fun _ _ _ _ => trivial) name args)

/-! ## Calls -/

inductive Call where
  | pushSource (imports : ImportKey)
  | pushClass (id : ClassId)
  | pushCode (code : Code)
  | pushBlock
  | pushStatic
  | pop
  | addVariable (v : Local)
  | addNamed (id : ClassId)
  | lookUp (l : Loader) (lookup : Lookup)

/-- The scope after a call in some world; none if a look-up nests too deep. A call that fails leaves the scope that it
has come to, which for a pop that is refused is the scope as it was. -/
def Call.next? (call : Call) (w : World) (s : Scope) : Option Scope :=
  match call with
  | pushSource imports => some (s.pushSource imports)
  | pushClass id => some (s.pushClass w.arena id)
  | pushCode code => some (s.pushCode code)
  | pushBlock => some s.pushBlock
  | pushStatic => some s.pushStatic
  | pop => some ((s.pop? w.arena).getD s)
  | addVariable v => some (s.addVariable v)
  | addNamed id => some (s.addClass w.arena id)
  | lookUp l lookup => ((lookup.run l).on s w).map fun outcome => outcome.1.2

theorem Call.next?_move {call : Call} {s after : Scope} (made : call.next? w s = some after) : s.Move after := by
  cases call with
  | pop =>
    cases Option.some.inj made
    cases popped : s.pop? w.arena with
    | none => exact (Same.refl s).move
    | some after => exact s.move_pop popped
  | lookUp l lookup =>
    obtain ⟨⟨⟨result, last⟩, after⟩, ran, rfl⟩ := Option.map_eq_some_iff.mp made
    have ends := lookup.run_quiet l s w
    unfold Ends at ends
    rw [ran] at ends
    cases result <;> exact ends.move
  | pushClass id =>
    cases Option.some.inj made
    exact s.move_pushClass w.arena id
  | addVariable v =>
    cases Option.some.inj made
    exact s.move_addVariable v
  | addNamed id =>
    cases Option.some.inj made
    exact s.move_addClass w.arena id
  | _ =>
    cases Option.some.inj made
    exact s.move_push _ _

/-- Calls one after the other, each in a world of its own, with the scopes after each of them. -/
inductive Path : Scope → List Scope → Scope → Prop where
  | done {s : Scope} : Path s [] s
  | call {s middle last : Scope} {passed : List Scope} (call : Call) (w : World) (made : call.next? w s = some middle)
    (rest : Path middle passed last) : Path s (middle :: passed) last

/-- The numbers of the frames that are opened on the way. -/
def issued : Scope → List Scope → List Nat
  | _, [] => []
  | s, after :: rest => (if s.depth < after.depth then [after.innermost.number] else []) ++ issued after rest

section Numbers

variable {s after last : Scope} {passed : List Scope}

/-- What never changes of the frames, from the outermost inward. -/
def plates (s : Scope) : List Frame := s.trail.map Frame.plate

theorem plates_eq (s : Scope) : s.plates = s.base.map Frame.plate ++ [s.innermost.plate] := by
  rw [plates, trail_eq, List.map_append]
  rfl

theorem length_plates (s : Scope) : s.plates.length = s.depth := by rw [plates, List.length_map, length_trail]

/-- Frames are stacked, and each has the next number when it is opened. -/
theorem Move.plates (move : s.Move after) :
    (after.plates = s.plates ++ [after.innermost.plate] ∧ after.innermost.number = s.next ∧ after.next = s.next + 1) ∨
    (after.plates = s.plates ∧ after.next = s.next) ∨
    (s.plates = after.plates ++ [s.innermost.plate] ∧ after.next = s.next) := by
  cases move with
  | opens base number next =>
    refine .inl ⟨?_, number, next⟩
    rw [plates_eq, base]
    rfl
  | stays base plate next =>
    refine .inr (.inl ⟨?_, next⟩)
    rw [plates_eq, base, plate, plates_eq]
  | closes outer trail base plate next =>
    refine .inr (.inr ⟨?_, next⟩)
    rw [plates_eq s, ← trail, plates_eq after, base, plate, ← plates_eq outer]
    rfl

/-- The outermost frame is there, and numbers grow inward. -/
structure Numbered (s : Scope) : Prop where
  outermost : s.plates.head? = some { kind := .outermost, number := 0 }
  increasing : s.plates.Pairwise fun frame inner => frame.number < inner.number
  below : ∀ frame ∈ s.plates, frame.number < s.next

theorem numbered_fresh : Numbered {} := by
  refine ⟨rfl, List.pairwise_singleton _ _, ?_⟩
  simp [plates_eq, base, frames, innermost, Frame.plate]

theorem Numbered.move (numbered : s.Numbered) (move : s.Move after) : after.Numbered := by
  rcases move.plates with ⟨plates, number, next⟩ | ⟨plates, next⟩ | ⟨plates, next⟩
  · refine ⟨?_, ?_, ?_⟩
    · rw [plates, List.head?_append, numbered.outermost]
      rfl
    · rw [plates, List.pairwise_append]
      refine ⟨numbered.increasing, List.pairwise_singleton _ _, fun frame member top same => ?_⟩
      rw [List.mem_singleton.mp same]
      exact Nat.lt_of_lt_of_eq (numbered.below frame member) number.symm
    · intro frame member
      rw [plates, List.mem_append, List.mem_singleton] at member
      rcases member with member | rfl
      · have small := numbered.below frame member
        omega
      · change after.innermost.number < _
        omega
  · exact ⟨plates ▸ numbered.outermost, plates ▸ numbered.increasing, plates ▸ next ▸ numbered.below⟩
  · have ⟨outermost, increasing, below⟩ := numbered
    rw [plates] at outermost increasing below
    refine ⟨?_, (List.pairwise_append.mp increasing).1, fun frame member => ?_⟩
    · rw [List.head?_append] at outermost
      rw [plates_eq] at outermost ⊢
      simpa using outermost
    · exact next ▸ below frame (List.mem_append_left _ member)

theorem Path.numbered (path : Path s passed last) (numbered : s.Numbered) : last.Numbered := by
  induction path with
  | done => exact numbered
  | call call w made _ ih => exact ih (numbered.move (Call.next?_move made))

theorem Move.issues (move : s.Move after) :
    (s.depth < after.depth ∧ after.innermost.number = s.next ∧ after.next = s.next + 1) ∨
    (¬ s.depth < after.depth ∧ after.next = s.next) := by
  rw [← length_plates, ← length_plates]
  rcases move.plates with ⟨plates, number, next⟩ | ⟨plates, next⟩ | ⟨plates, next⟩
  · exact .inl ⟨by simp [plates], number, next⟩
  · exact .inr ⟨by simp [plates], next⟩
  · exact .inr ⟨by simp [plates], next⟩

/-- No number below the next one is issued any more. -/
theorem Path.issued (path : Path s passed last) :
    (issued s passed).Pairwise (· < ·) ∧ ∀ number ∈ Scope.issued s passed, s.next ≤ number := by
  induction path with
  | done => exact ⟨.nil, nofun⟩
  | call call w made _ ih =>
    rcases (Call.next?_move made).issues with ⟨deeper, number, next⟩ | ⟨shallow, next⟩
    · rw [Scope.issued, if_pos deeper, List.singleton_append, List.pairwise_cons, number]
      refine ⟨⟨fun later member => ?_, ih.1⟩, fun later member => ?_⟩
      · have bound := ih.2 later member
        omega
      · rcases List.mem_cons.mp member with rfl | member
        · exact Nat.le_refl _
        · have bound := ih.2 later member
          omega
    · rw [Scope.issued, if_neg shallow, List.nil_append, ← next]
      exact ih

end Numbers

section Nesting

variable {s after last opened : Scope} {passed : List Scope} {n : Nat}

theorem take_trail (inside : n < s.depth) : s.trail.take n = s.base.take n := by
  have length := s.length_base
  rw [trail_eq, List.take_append_of_le_length (by omega)]

/-- While a frame is open, those around it are left alone, and it stays the frame that it was. -/
theorem Move.kept (move : s.Move after) (inside : n < s.depth) (still : n < after.depth) :
    after.trail.take n = s.trail.take n ∧ after.plates.take (n + 1) = s.plates.take (n + 1) := by
  constructor
  · rw [Scope.take_trail inside, Scope.take_trail still]
    cases move with
    | opens base _ _ => rw [base, Scope.take_trail inside]
    | stays base _ _ => rw [base]
    | closes outer trail base _ _ =>
      have length := after.length_base
      rw [← trail, trail_eq outer, base, List.take_append_of_le_length (by rw [← base]; omega)]
  · have depths := s.length_plates
    have later := after.length_plates
    rcases move.plates with ⟨plates, _, _⟩ | ⟨plates, _⟩ | ⟨plates, _⟩
    · rw [plates, List.take_append_of_le_length (by omega)]
    · rw [plates]
    · rw [plates, List.take_append_of_le_length (by omega)]

theorem Path.kept (path : Path s passed last) (inside : n < s.depth) (still : ∀ scope ∈ passed, n < scope.depth) :
    last.trail.take n = s.trail.take n ∧ last.plates.take (n + 1) = s.plates.take (n + 1) := by
  induction path with
  | done => exact ⟨rfl, rfl⟩
  | call call w made _ ih =>
    have here := still _ List.mem_cons_self
    have first := (Call.next?_move made).kept inside here
    have rest := ih here fun scope member => still scope (List.mem_cons_of_mem _ member)
    exact ⟨rest.1.trans first.1, rest.2.trans first.2⟩

/-- Closing a frame leads back to the frames around it, with a local class declared in the innermost of them. -/
theorem trail_pop? {around : Scope} (enclosed : last.base = around.trail) :
    ∃ after, last.pop? arena = some after ∧ after.trail =
      match last.innermost.kind with
      | .body id => if (arena.get id).kind.isLocal then (around.addClass arena id).trail else around.trail
      | _ => around.trail := by
  cases shape : last.inner with
  | nil =>
    have length := congrArg List.length enclosed
    simp [base, frames, shape, depth] at length
  | cons frame rest =>
    have outer : Scope.trail { last with inner := rest } = around.trail := by
      rw [← enclosed]
      simp [trail, base, frames, shape]
    have top : last.innermost = frame := by simp [innermost, shape]
    refine ⟨_, last.pop?_eq shape arena, ?_⟩
    rw [top]
    cases frame.kind with
    | body id =>
      dsimp only
      split
      · exact trail_addClass outer arena id
      · exact outer
    | _ => exact outer

theorem Move.base_of_deeper (move : s.Move opened) (deeper : s.depth < opened.depth) : opened.base = s.trail := by
  have depths := s.length_base
  have openedDepths := opened.length_base
  cases move with
  | opens base _ _ => exact base
  | stays base _ _ =>
    have lengths := congrArg List.length base
    omega
  | closes outer trail base _ _ =>
    have trails := congrArg List.length trail
    have bases := congrArg List.length base
    have outerDepths := outer.length_base
    rw [length_trail] at trails
    omega

/-- After a call that has opened a frame, and others that have not closed it. -/
theorem Move.enclosed (move : s.Move opened) (deeper : s.depth < opened.depth) (path : Path opened passed last)
    (inside : ∀ scope ∈ passed, s.depth < scope.depth) (even : last.depth = opened.depth) :
    last.base = s.trail ∧ last.innermost.kind = opened.innermost.kind := by
  have kept := path.kept deeper inside
  have base := move.base_of_deeper deeper
  have lengths := opened.length_base
  rw [base, length_trail] at lengths
  have lastBase := last.length_base
  constructor
  · have around := kept.1
    rw [Scope.take_trail (by omega), Scope.take_trail deeper, List.take_of_length_le (by omega), base,
      List.take_of_length_le (Nat.le_of_eq s.length_trail)] at around
    exact around
  · have same : last.plates = opened.plates := by
      have plates := kept.2
      rwa [List.take_of_length_le (by rw [length_plates]; omega),
        List.take_of_length_le (by rw [length_plates]; omega)] at plates
    rw [plates_eq, plates_eq opened] at same
    obtain ⟨_, tops⟩ := List.append_inj' same rfl
    have kinds : last.innermost.plate.kind = opened.innermost.plate.kind := by rw [List.singleton_inj.mp tops]
    exact kinds

end Nesting

/-- A scope cannot be left exactly where there is only the outermost frame, which is never lost. Numbers grow inward,
and none is issued twice. Once a frame is closed again, the frames around it are as they were before it was opened,
whatever was called in between, except that a local class is declared in the frame around it. -/
theorem scopes_nest_exactly :
    (∀ (s : Scope) (w : World), (s.pop? w.arena = none ↔ s.depth = 1) ∧
      (s.depth = 1 → Call.pop.next? w s = some s)) ∧
    (∀ passed last, Path {} passed last →
      last.plates.head? = some { kind := .outermost, number := 0 } ∧
      last.plates.Pairwise (fun frame inner => frame.number < inner.number) ∧
      (0 :: issued {} passed).Nodup) ∧
    ∀ (s opened last : Scope) (passed : List Scope) (call : Call) (before w : World),
      call.next? before s = some opened → s.depth < opened.depth → Path opened passed last →
      (∀ scope ∈ passed, s.depth < scope.depth) → last.depth = opened.depth →
      ∃ after, last.pop? w.arena = some after ∧ after.trail =
        match opened.innermost.kind with
        | .body id => if (w.arena.get id).kind.isLocal then (s.addClass w.arena id).trail else s.trail
        | _ => s.trail := by
  refine ⟨fun s w => ⟨s.pop?_eq_none, fun single => ?_⟩, fun passed last path => ?_,
    fun s opened last passed call before w made deeper path inside even => ?_⟩
  · rw [Call.next?, s.pop?_eq_none.mpr single]
    rfl
  · obtain ⟨outermost, increasing, _⟩ := path.numbered numbered_fresh
    obtain ⟨ordered, positive⟩ := path.issued
    refine ⟨outermost, increasing, List.nodup_cons.mpr ⟨fun zero => ?_, ordered.imp Nat.ne_of_lt⟩⟩
    exact absurd (positive 0 zero) (by decide)
  · obtain ⟨base, kind⟩ := (Call.next?_move made).enclosed deeper path inside even
    rw [← kind]
    exact trail_pop? base

/-- In the body of a local class a variable is declared, and a look-up in a block there fails after it has collected
the names of both classes. -/
theorem scopes_nest_exactly_local :
    let w : World := { arena := ⟨#[{ name := "A" }, { name := "L", kind := .localTo ⟨0⟩ }]⟩ }
    let s := ((({} : Scope).pushSource (.extra 0)).pushClass w.arena ⟨0⟩).pushBlock
    let opened := s.pushClass w.arena ⟨1⟩
    ∃ passed last after, (Path opened passed last ∧ (∀ scope ∈ passed, s.depth < scope.depth) ∧
        last.depth = opened.depth ∧ last.innermost.names.isSome) ∧
      last.pop? w.arena = some after ∧ after.trail = (s.addClass w.arena ⟨1⟩).trail := by
  intro w s opened
  let body := (opened.addVariable { type := .primitive .int, name := "x" }).pushBlock
  let lookUp := Call.lookUp (.ofDepth 10) (.var "y")
  have looked : (lookUp.next? w body).any fun found => found.depth == 6 &&
      ((found.pop? w.arena).any fun last => last.depth == 5 && last.innermost.names.isSome) := by decide +kernel
  obtain ⟨found, made, good⟩ := (Option.any_eq_true _ _).mp looked
  rw [Bool.and_eq_true, beq_iff_eq] at good
  obtain ⟨last, popped, ends⟩ := (Option.any_eq_true _ _).mp good.2
  rw [Bool.and_eq_true, beq_iff_eq] at ends
  have left : Call.pop.next? w found = some last := by rw [Call.next?, popped, Option.getD_some]
  have path : Path opened [_, body, found, last] last :=
    .call (.addVariable { type := .primitive .int, name := "x" }) w rfl <| .call .pushBlock w rfl <|
      .call lookUp w made <| .call .pop w left .done
  have inside : ∀ scope ∈ [opened.addVariable { type := .primitive .int, name := "x" }, body, found, last],
      s.depth < scope.depth := by
    simp only [List.forall_mem_cons, good.1, ends.1]
    decide
  have even : last.depth = opened.depth := ends.1
  obtain ⟨after, closed, trail⟩ := scopes_nest_exactly.2.2 s opened last _ (.pushClass ⟨1⟩) w w rfl (by decide) path inside even
  have kind : opened.innermost.kind = .body ⟨1⟩ := rfl
  have isLocal : (w.arena.get ⟨1⟩).kind.isLocal = true := rfl
  exact ⟨_, last, after, ⟨path, inside, even, ends.2⟩, closed, trail⟩

end Scope

end ClassUniverse
