import ClassUniverse.Proofs.CacheSteps

/-! Whether misses are remembered is not to be seen. A cache that remembers them and one that does not go through the
same calls side by side: they hold the same hits, what the one remembers as a miss is not there to be found, and no miss
lies above a hit for the same name. -/
namespace ClassUniverse

open Run

variable {finds : String → Except Error Named} {known : String → Bool} {arena : Arena} {name : String}

theorem Run.answer?_mapM_cons {f : α → Run β} {rest : List α}
    (first : (f a).on w = some (.ok b, after)) (others : (rest.mapM f).answer? after = some (.ok answers)) :
    ((a :: rest).mapM f).answer? w = some (.ok (b :: answers)) := by
  obtain ⟨⟨result, last⟩, ran, rfl⟩ := Option.map_eq_some_iff.mp others
  rw [List.mapM_cons, answer?, on_bind_ok first, on_bind_ok ran]
  rfl

@[simp] theorem World.memo_insert (w : World) (key : MemoKey) (memo : Memo) :
    ({ w with memos := w.memos.insert key memo } : World).memo key = memo := by
  simp [World.memo, Assoc.getD]

/-- The hits are the same, and `plain` has no misses. -/
structure Memo.Forgets (finds : String → Except Error Named) (memo plain : Memo) : Prop where
  hits : ∀ name named, plain.find? name = some (.found named) ↔ memo.find? name = some (.found named)
  unmarked : ∀ name, plain.find? name ≠ some .missing
  misses : ∀ name, memo.find? name = some .missing → finds name = .error (.notFound name)

namespace Memo.Forgets

variable {memo plain : Memo}

theorem empty : Forgets finds .empty .empty := ⟨by simp, by simp, by simp⟩

variable (forgets : memo.Forgets finds plain)
include forgets

theorem hit (name : String) (named : Named) :
    Forgets finds (memo.insert name (.found named)) (plain.insert name (.found named)) := by
  refine ⟨fun query other => ?_, fun query => ?_, fun query missing => ?_⟩
  · rw [Assoc.find?_insert, Assoc.find?_insert]
    split
    · rfl
    · exact forgets.hits query other
  · rw [Assoc.find?_insert]
    split
    · simp
    · exact forgets.unmarked query
  · rw [Assoc.find?_insert] at missing
    split at missing
    · cases missing
    · exact forgets.misses query missing

theorem miss (unknown : memo.find? name = none) (absent : finds name = .error (.notFound name)) :
    Forgets finds (memo.insert name .missing) plain := by
  refine ⟨fun query named => ?_, forgets.unmarked, fun query missing => ?_⟩
  · rw [forgets.hits, Assoc.find?_insert]
    split
    · simp_all
    · rfl
  · rw [Assoc.find?_insert] at missing
    split at missing
    · simp_all
    · exact forgets.misses query missing

theorem unknown (noHit : ∀ named, memo.find? name ≠ some (.found named)) : plain.find? name = none := by
  cases held : plain.find? name with
  | none => rfl
  | some entry =>
    cases entry with
    | found named => exact absurd ((forgets.hits name named).mp held) (noHit named)
    | missing => exact absurd held (forgets.unmarked name)

theorem named (name : String) : (plain.find? name).bind Entry.named? = (memo.find? name).bind Entry.named? := by
  cases held : memo.find? name with
  | none => rw [forgets.unknown (by simp [held])]
  | some entry =>
    cases entry with
    | found named => rw [(forgets.hits name named).mpr held]
    | missing =>
      rw [forgets.unknown (by simp [held])]
      rfl

end Memo.Forgets

structure Layer.Forgets (finds : String → Except Error Named) (layer plain : Layer) : Prop where
  cache : Memo.Forgets finds layer.cache plain.cache
  packages : plain.packages = layer.packages
  added : plain.added = layer.added

/-- A miss in the upper layer hides no hit in the lower one. -/
def Layer.Uncovers (upper lower : Layer) : Prop :=
  ∀ name, upper.cache.find? name = some .missing → ∀ named, lower.cache.find? name ≠ some (.found named)

namespace Layers

variable {layers plain : Layers}

/-- The layers and others that remember no misses. -/
structure Forgets (finds : String → Except Error Named) (layers plain : Layers) : Prop where
  base : layers.base.Forgets finds plain.base
  overlays : List.Forall₂ (Layer.Forgets finds) layers.overlays plain.overlays
  uncovered : layers.toList.Pairwise Layer.Uncovers

namespace Forgets

theorem empty : Forgets finds {} {} := ⟨⟨.empty, rfl, rfl⟩, .nil, List.pairwise_singleton _ _⟩

variable (forgets : layers.Forgets finds plain)
include forgets

theorem toList : List.Forall₂ (Layer.Forgets finds) layers.toList plain.toList :=
  List.rel_append forgets.overlays (.cons forgets.base .nil)

theorem top : layers.top.Forgets finds plain.top := by
  have whole := forgets.toList
  rw [layers.toList_eq, plain.toList_eq] at whole
  exact (List.forall₂_cons.mp whole).1

theorem unforked : layers.overlays = [] ↔ plain.overlays = [] := by
  rw [← List.length_eq_zero_iff, forgets.overlays.length_eq, List.length_eq_zero_iff]

omit forgets in
theorem unknown {upper others : List Layer} (whole : List.Forall₂ (Layer.Forgets finds) upper others)
    (noHit : ∀ layer ∈ upper, ∀ named, layer.cache.find? name ≠ some (.found named)) :
    others.findSome? (fun layer => layer.cache.find? name) = none := by
  induction whole with
  | nil => rfl
  | cons first _ ih =>
    have ⟨here, below⟩ := List.forall_mem_cons.mp noHit
    rw [List.findSome?_cons, first.cache.unknown here]
    exact ih below

/-- What is found is the same. A miss is nothing without misses, and there is nothing to be found. -/
theorem lookup (name : String) :
    match layers.lookup name with
    | some (.found named) => plain.lookup name = some (.found named)
    | some .missing => plain.lookup name = none ∧ finds name = .error (.notFound name)
    | none => plain.lookup name = none := by
  have whole := forgets.toList
  have uncovered := forgets.uncovered
  unfold Layers.lookup
  generalize layers.toList = upper, plain.toList = others at whole uncovered ⊢
  induction whole with
  | nil => rfl
  | @cons layer other rest others first below ih =>
    have ⟨clear, deeper⟩ := List.pairwise_cons.mp uncovered
    rw [List.findSome?_cons, List.findSome?_cons]
    cases held : layer.cache.find? name with
    | none =>
      rw [first.cache.unknown (by simp [held])]
      exact ih deeper
    | some entry =>
      cases entry with
      | found named => rw [(first.cache.hits name named).mpr held]
      | missing =>
        rw [first.cache.unknown (by simp [held])]
        exact ⟨unknown below fun lower member => clear lower member name held, first.cache.misses name held⟩

theorem check (name : String) : plain.check name = layers.check name := by
  have looked := forgets.lookup name
  unfold Layers.check
  split at looked
  · simp_all
  · simp_all [Entry.named?]
  · simp_all

theorem knownPackage : plain.knownPackage = layers.knownPackage := by
  funext name
  have whole := forgets.toList
  unfold Layers.knownPackage
  generalize layers.toList = upper, plain.toList = others at whole ⊢
  induction whole with
  | nil => rfl
  | cons first _ ih => rw [List.findSome?_cons, List.findSome?_cons, first.packages, ih]

/-- A change of the top layer may bring a miss where nothing is known. -/
theorem modifyTop (changed : (change layers.top).Forgets finds (change' plain.top))
    (misses : ∀ name, (change layers.top).cache.find? name = some .missing →
      layers.top.cache.find? name = some .missing ∨ layers.lookup name = none) :
    (layers.modifyTop change).Forgets finds (plain.modifyTop change') := by
  have uncovered : (layers.modifyTop change).toList.Pairwise Layer.Uncovers := by
    have before := forgets.uncovered
    rw [toList_eq, List.pairwise_cons] at before
    rw [toList_modifyTop, List.pairwise_cons]
    refine ⟨fun lower member name missing named => ?_, before.2⟩
    rcases misses name missing with old | unknown
    · exact before.1 lower member name old named
    · rw [lookup_eq, Option.or_eq_none_iff, List.findSome?_eq_none_iff] at unknown
      rw [unknown.2 lower member]
      nofun
  obtain ⟨base, overlays⟩ := layers
  obtain ⟨base', overlays'⟩ := plain
  have ⟨bottom, above, _⟩ := forgets
  cases above with
  | nil => exact ⟨changed, .nil, uncovered⟩
  | cons first rest => exact ⟨bottom, .cons changed rest, uncovered⟩

theorem insert (name : String) (named : Named) :
    (layers.insert name named).Forgets finds (plain.insert name named) := by
  have held := forgets.top.cache.hit name named
  rw [layers.insert_eq_modifyTop, plain.insert_eq_modifyTop]
  refine forgets.modifyTop ?_ fun query missing => .inl ?_
  · simp only [forgets.unforked]
    split
    · exact ⟨held, forgets.top.packages, forgets.top.added⟩
    · exact ⟨held, forgets.top.packages, by simp only [Layer.record, forgets.top.added]⟩
  · have put : (layers.top.cache.insert name (.found named)).find? query = some .missing := by
      split at missing <;> exact missing
    rw [Assoc.find?_insert] at put
    split at put
    · cases put
    · exact put

theorem setPackage (name : String) (present : Bool) :
    (layers.setPackage name present).Forgets finds (plain.setPackage name present) := by
  refine forgets.modifyTop ⟨forgets.top.cache, ?_, forgets.top.added⟩ fun _ => .inl
  simp only [Layer.setPackage, forgets.top.packages]

theorem insertMiss (unknown : layers.lookup name = none)
    (absent : finds name = .error (.notFound name)) : (layers.insertMiss name).Forgets finds plain := by
  have blank : layers.top.cache.find? name = none := by
    rw [lookup_eq, Option.or_eq_none_iff] at unknown
    exact unknown.1
  have same : plain = plain.modifyTop fun layer => layer := by
    obtain ⟨base, overlays⟩ := plain
    cases overlays <;> rfl
  rw [same]
  refine forgets.modifyTop ⟨forgets.top.cache.miss blank absent, forgets.top.packages, forgets.top.added⟩ ?_
  intro query missing
  rw [Layer.put, Assoc.find?_insert] at missing
  split at missing
  · rename_i named
    exact .inr (named ▸ unknown)
  · exact .inl missing

theorem setPackages (names : List String) : (layers.setPackages names).Forgets finds (plain.setPackages names) := by
  induction names generalizing layers plain with
  | nil => exact forgets
  | cons name rest ih => exact ih (forgets.setPackage name true)

theorem addPackage (package : Package) : (layers.addPackage package).Forgets finds (plain.addPackage package) := by
  rw [addPackage_eq, addPackage_eq]
  exact forgets.setPackages package.names

theorem insertAll (entries : List (String × Named)) :
    (layers.insertAll entries).Forgets finds (plain.insertAll entries) := by
  induction entries generalizing layers plain with
  | nil => exact forgets
  | cons entry rest ih => exact ih (forgets.insert entry.1 entry.2)

theorem fork : layers.fork.Forgets finds plain.fork where
  base := forgets.base
  overlays := .cons ⟨.empty, rfl, rfl⟩ forgets.overlays
  uncovered := List.pairwise_cons.mpr ⟨fun _ _ _ => nofun, forgets.uncovered⟩

theorem discard : Option.Rel (Forgets finds) layers.discard? plain.discard? := by
  obtain ⟨base, overlays⟩ := layers
  obtain ⟨base', overlays'⟩ := plain
  have ⟨bottom, above, uncovered⟩ := forgets
  cases above with
  | nil => exact .none
  | cons first rest => exact .some ⟨bottom, rest, uncovered.of_cons⟩

theorem commit : Option.Rel (Forgets finds) layers.commit? plain.commit? := by
  have below := forgets.discard
  obtain ⟨base, overlays⟩ := layers
  obtain ⟨base', overlays'⟩ := plain
  have ⟨_, above, _⟩ := forgets
  cases above with
  | nil => exact .none
  | cons first rest =>
    cases below with
    | some below =>
      rw [commit?_eq rfl, commit?_eq rfl, first.added, first.packages]
      exact .some ((below.insertAll _).setPackages _)

end Forgets

theorem forgets_parallel : Parallel finds known true false (Forgets finds) where
  check forgets := forgets.check
  presence forgets name := by rw [presence, presence, forgets.knownPackage]
  ask {layers plain} forgets name := by
    rw [ask, ask, presence, presence, forgets.knownPackage]
    split
    · exact forgets
    · exact forgets.setPackage name _
  insert forgets := forgets.insert
  addPackage forgets := forgets.addPackage
  absent {layers plain name} forgets missing := by
    have looked := forgets.lookup name
    rcases missing with missing | missing
    · rw [missing] at looked
      exact looked.2
    · split at looked <;> simp_all
  missed forgets missed := forgets.insertMiss missed.1 missed.2.1
  missed' _ missed := by simp at missed

end Layers

namespace Cache

open Layers (Alike)

variable {layers plain : Layers}

theorem Op.close_alike (forgets : layers.Forgets finds plain)
    (closed : Option.Rel (Layers.Forgets finds) after after') :
    Alike (Layers.Forgets finds) (close layers after) (close plain after') := by
  cases closed with
  | some left => exact ⟨rfl, left⟩
  | none => exact ⟨rfl, forgets⟩

theorem Op.act_alike (forgets : layers.Forgets finds plain) (op : Op) :
    Alike (Layers.Forgets finds) (op.act known arena layers) (op.act known arena plain) := by
  have parallel : Layers.Parallel finds known true false (Layers.Forgets finds) := Layers.forgets_parallel
  cases op with
  | install name named => exact (parallel.install forgets name named).map _
  | addNamed name named => exact (parallel.addNamed forgets name named).map _
  | addPackage package => exact ⟨rfl, forgets.addPackage package⟩
  | packageExists name => exact ⟨by rw [act, act, parallel.presence forgets], parallel.ask forgets name⟩
  | fork => exact ⟨rfl, forgets.fork⟩
  | commit => exact (close_alike forgets forgets.commit).map _
  | discard => exact (close_alike forgets forgets.discard).map _

theorem Step.act_alike (forgets : layers.Forgets finds plain) (step : Step) :
    Alike (Layers.Forgets finds) (step.act finds known true arena layers) (step.act finds known false arena plain) := by
  cases step with
  | op call => exact (Op.act_alike forgets call).map _
  | find name => exact (Layers.forgets_parallel.find forgets name).map _
  | check name => exact ⟨by rw [act, act, forgets.check], forgets⟩

/-- Side by side, the calls get the same replies. -/
theorem Step.runAll_alike {slot : Slot} (steps : List Step) {w v : World} (classes : v.arena = w.arena)
    (forgets : (w.cache slot).Forgets finds (v.cache slot)) :
    ∃ replies, (runAll slot finds known true steps).answer? w = some (.ok replies) ∧
      (runAll slot finds known false steps).answer? v = some (.ok replies) := by
  induction steps generalizing w v with
  | nil => exact ⟨[], rfl, rfl⟩
  | cons step rest ih =>
    have alike : Alike (Layers.Forgets finds) (step.act finds known true w.arena (w.cache slot)) _ := act_alike forgets step
    have comes : (step.run slot finds known true).ComesTo slot w _ := step.comesTo w
    have comes' : (step.run slot finds known false).ComesTo slot v _ := step.comesTo v
    obtain ⟨after, ran, same, left⟩ := comes.outcome
    obtain ⟨after', ran', same', left'⟩ := comes'.outcome
    rw [classes] at ran' left'
    rw [alike.result] at ran'
    have further : (after.cache slot).Forgets finds (after'.cache slot) := by
      rw [left, left']
      exact alike.layers
    obtain ⟨replies, others, others'⟩ := ih (same'.arena.trans (classes.trans same.arena.symm)) further
    exact ⟨_ :: replies, answer?_mapM_cons ran others, answer?_mapM_cons ran' others'⟩

end Cache

namespace Memo

/-- All that can be asked of a memo. -/
inductive Step where
  | find (name : String)
  | check (name : String)
  | install (name : String) (named : Named)
  deriving DecidableEq, Repr

namespace Step

variable (key : MemoKey) (finds : String → Except Error Named) (rememberMisses : Bool)

def run : Step → Run (Option Named)
  | find name => return some (← Memo.find key (fun name => Inner.answer (finds name)) rememberMisses name)
  | check name => Memo.check key name
  | install name named => do
    Memo.install key name named
    return none

/-- The replies in turn. A call that fails does not end the sequence. -/
def runAll (steps : List Step) : Run (List (Except Error (Option Named))) :=
  steps.mapM fun step => (step.run key finds rememberMisses).outcome

variable {key finds rememberMisses}

theorem run_alike (step : Step) {w v : World} (forgets : (w.memo key).Forgets finds (v.memo key)) :
    ∃ reply after after', (step.run key finds true).on w = some (reply, after) ∧
      (step.run key finds false).on v = some (reply, after') ∧ (after.memo key).Forgets finds (after'.memo key) := by
  have changed {memo plain : Memo} (left : memo.Forgets finds plain) :
      Forgets finds (({ w with memos := w.memos.insert key memo } : World).memo key)
        (({ v with memos := v.memos.insert key plain } : World).memo key) := by
    rwa [World.memo_insert, World.memo_insert]
  cases step with
  | find name =>
    have asked {u : World} : (Inner.answer (finds name)).outcome.on u = some (.ok (finds name), u) := by
      cases finds name <;> rfl
    simp only [run, Memo.find, bind_assoc, on_get_bind]
    cases held : (w.memo key).find? name with
    | some entry =>
      cases entry with
      | found named =>
        rw [(forgets.hits name named).mpr held]
        exact ⟨.ok (some named), w, v, rfl, rfl, forgets⟩
      | missing =>
        -- Without the miss the same is asked for once more.
        rw [forgets.unknown (by simp [held])]
        refine ⟨.error (.notFound name), w, v, rfl, ?_, forgets⟩
        simp only [bind_assoc]
        rw [on_bind_ok asked, forgets.misses name held]
        simp only [Bool.and_false, Bool.false_eq_true, if_false]
        rfl
    | none =>
      rw [forgets.unknown (by simp [held])]
      simp only [bind_assoc]
      rw [on_bind_ok asked, on_bind_ok asked]
      cases answer : finds name with
      | ok named => exact ⟨.ok (some named), _, _, rfl, rfl, changed (forgets.hit name named)⟩
      | error e =>
        simp only [Bool.and_true, Bool.and_false, Bool.false_eq_true, if_false]
        split
        · rename_i missing
          rw [Layers.eq_of_isNotFoundFor missing] at answer ⊢
          refine ⟨.error (.notFound name), _, v, rfl, rfl, ?_⟩
          rw [World.memo_insert]
          exact forgets.miss held answer
        · exact ⟨.error e, w, v, rfl, rfl, forgets⟩
  | check name =>
    refine ⟨.ok (((w.memo key).find? name).bind Entry.named?), w, v, rfl, ?_, forgets⟩
    rw [← forgets.named]
    rfl
  | install name named => exact ⟨.ok none, _, _, rfl, rfl, changed (forgets.hit name named)⟩

theorem runAll_alike (steps : List Step) {w v : World} (forgets : (w.memo key).Forgets finds (v.memo key)) :
    ∃ replies, (runAll key finds true steps).answer? w = some (.ok replies) ∧
      (runAll key finds false steps).answer? v = some (.ok replies) := by
  induction steps generalizing w v with
  | nil => exact ⟨[], rfl, rfl⟩
  | cons step rest ih =>
    obtain ⟨reply, after, after', ran, ran', further⟩ := step.run_alike forgets
    obtain ⟨replies, others, others'⟩ := ih further
    exact ⟨reply :: replies, answer?_mapM_cons (on_outcome_of ran) others, answer?_mapM_cons (on_outcome_of ran') others'⟩

end Step

end Memo

/-- In front of something that never changes its mind, the same calls on a fresh layered cache get the same replies
whether it remembers misses or not, and so do the calls on a fresh memo. -/
theorem remembered_misses_unseen (finds : String → Except Error Named) (known : String → Bool) :
    (∀ (slot : Slot) (w : World), w.cache slot = {} → ∀ steps : List Cache.Step, ∃ replies,
      (Cache.Step.runAll slot finds known true steps).answer? w = some (.ok replies) ∧
      (Cache.Step.runAll slot finds known false steps).answer? w = some (.ok replies)) ∧
    ∀ (key : MemoKey) (w : World), w.memo key = .empty → ∀ steps : List Memo.Step, ∃ replies,
      (Memo.Step.runAll key finds true steps).answer? w = some (.ok replies) ∧
      (Memo.Step.runAll key finds false steps).answer? w = some (.ok replies) := by
  constructor
  · intro slot w fresh steps
    refine Cache.Step.runAll_alike steps rfl ?_
    rw [fresh]
    exact .empty
  · intro key w fresh steps
    refine Memo.Step.runAll_alike steps ?_
    rw [fresh]
    exact .empty

/-- A miss is overwritten in a fork that is committed; another one is covered up in a fork that is discarded. -/
theorem remembered_misses_unseen_forked :
    let finds : String → Except Error Named := fun name =>
      if name = "p" then .ok (.package ⟨"p"⟩) else .error (.notFound name)
    let w := World.ofUniverse {} {}
    let steps : List Cache.Step := [.find "q.X", .op .fork, .find "q.X", .op (.install "q.X" (.cls ⟨0⟩)), .find "q.X",
      .op .commit, .check "q.X", .find "r", .op .fork, .op (.addNamed "r" (.package ⟨"r"⟩)), .check "r", .op .discard,
      .find "r", .check "r", .op .commit, .find "p", .op (.install "p" (.cls ⟨0⟩))]
    let replies := [.error (.notFound "q.X"), .ok (some .done), .error (.notFound "q.X"), .ok (some .done),
      .ok (some (.named (.cls ⟨0⟩))), .ok (some .done), .ok (some (.named (.cls ⟨0⟩))), .error (.notFound "r"),
      .ok (some .done), .ok (some .done), .ok (some (.named (.package ⟨"r"⟩))), .ok (some .done),
      .error (.notFound "r"), .ok none, .error (.semantic .noForkedLayer none), .ok (some (.named (.package ⟨"p"⟩))),
      .error (.typePackageClash "p" none)]
    let asked : List Memo.Step := [.find "q.X", .check "q.X", .install "q.X" (.cls ⟨0⟩), .find "q.X", .find "p", .check "p"]
    let answers := [.error (.notFound "q.X"), .ok none, .ok none, .ok (some (.cls ⟨0⟩)), .ok (some (.package ⟨"p"⟩)),
      .ok (some (.package ⟨"p"⟩))]
    w.cache .session = {} ∧
    (Cache.Step.runAll .session finds (· == "p") true steps).answer? w = some (.ok replies) ∧
    (Cache.Step.runAll .session finds (· == "p") false steps).answer? w = some (.ok replies) ∧
    w.memo (.extra 0) = .empty ∧
    (Memo.Step.runAll (.extra 0) finds true asked).answer? w = some (.ok answers) ∧
    (Memo.Step.runAll (.extra 0) finds false asked).answer? w = some (.ok answers) := by
  intro finds w steps replies asked answers
  have fresh : w.cache .session = {} := rfl
  have blank : w.memo (.extra 0) = .empty := rfl
  obtain ⟨layered, memos⟩ := remembered_misses_unseen finds (· == "p")
  obtain ⟨given, ran, ran'⟩ := layered .session w fresh steps
  obtain ⟨told, found, found'⟩ := memos (.extra 0) w blank asked
  have replied : given = replies := Except.ok.inj (Option.some.inj (ran.symm.trans rfl))
  have answered : told = answers := Except.ok.inj (Option.some.inj (found.symm.trans rfl))
  rw [replied] at ran ran'
  rw [answered] at found found'
  exact ⟨fresh, ran, ran', blank, found, found'⟩

end ClassUniverse
