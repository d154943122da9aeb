import ClassUniverse.Proofs.CacheSteps

/-! Committing a forked layer is as if there had been no fork. A layered cache shows what it has found and which
packages it knows to exist. In front of something that never changes its mind, all it answers depends on that
view alone, and a committed layer leaves the view as it was. -/
namespace ClassUniverse

open Run

namespace Layers

variable {layers : Layers} {inner : Inner}

def hasPackage (layers : Layers) (name : String) : Bool := layers.knownPackage name == some true

theorem hasPackage_iff : layers.hasPackage name = true ↔ layers.knownPackage name = some true :=
  beq_iff_eq

@[simp] theorem hasPackage_insert (layers : Layers) (name query : String) (named : Named) :
    (layers.insert name named).hasPackage query = layers.hasPackage query := by
  simp [hasPackage]

@[simp] theorem hasPackage_insertMiss (layers : Layers) (name query : String) :
    (layers.insertMiss name).hasPackage query = layers.hasPackage query := by
  simp [hasPackage]

@[simp] theorem hasPackage_setPackage (layers : Layers) (name query : String) (present : Bool) :
    (layers.setPackage name present).hasPackage query = if query = name then present else layers.hasPackage query := by
  simp only [hasPackage, knownPackage_setPackage]
  split
  · cases present <;> rfl
  · rfl

@[simp] theorem hasPackage_fork (layers : Layers) (name : String) : layers.fork.hasPackage name = layers.hasPackage name := by
  simp [hasPackage, knownPackage, fork, toList, List.findSome?_cons]

theorem hasPackage_setPackages (layers : Layers) (names : List String) (query : String) :
    (layers.setPackages names).hasPackage query = (decide (query ∈ names) || layers.hasPackage query) := by
  unfold setPackages
  induction names generalizing layers with
  | nil => simp
  | cons name rest ih =>
    rw [List.foldl_cons, ih, hasPackage_setPackage]
    by_cases same : query = name <;> simp [same]

theorem hasPackage_insertAll (layers : Layers) (entries : List (String × Named)) (query : String) :
    (layers.insertAll entries).hasPackage query = layers.hasPackage query :=
  insertAll_keeps (P := (·.hasPackage query = layers.hasPackage query)) rfl fun _ _ _ => (hasPackage_insert ..).trans

theorem check_insertAll (layers : Layers) (entries : List (String × Named)) (query : String) :
    (layers.insertAll entries).check query = (entries.reverse.lookup query).or (layers.check query) := by
  rw [check, lookup_insertAll]
  cases entries.reverse.lookup query <;> rfl

theorem hasPackage_addPackage (layers : Layers) (package : Package) (query : String) :
    (layers.addPackage package).hasPackage query = (decide (query ∈ package.names) || layers.hasPackage query) := by
  rw [addPackage_eq, hasPackage_setPackages]

/-- What is to be seen is the same: what is found, and which packages there are. -/
structure Shows (layers after : Layers) : Prop where
  found : ∀ name, after.check name = layers.check name
  present : ∀ name, after.hasPackage name = layers.hasPackage name

namespace Shows

theorem refl (layers : Layers) : layers.Shows layers := ⟨fun _ => rfl, fun _ => rfl⟩

theorem symm (shows : layers.Shows after) : after.Shows layers :=
  ⟨fun name => (shows.found name).symm, fun name => (shows.present name).symm⟩

theorem trans (first : layers.Shows middle) (second : middle.Shows after) : layers.Shows after :=
  ⟨fun name => (second.found name).trans (first.found name), fun name => (second.present name).trans (first.present name)⟩

theorem fork (layers : Layers) : layers.Shows layers.fork := ⟨layers.check_fork, layers.hasPackage_fork⟩

/-- A miss says no more than that nothing was found. -/
theorem insertMiss (unknown : layers.check name = none) : layers.Shows (layers.insertMiss name) := by
  refine ⟨fun query => ?_, hasPackage_insertMiss layers name⟩
  rw [check_insertMiss]
  split
  · simp_all
  · rfl

end Shows

/-- The log and the packages of a forked layer on top bring the layers below it to the view of the whole. -/
structure Replays (layers below : Layers) : Prop where
  forked : layers.discard? = some below
  found : ∀ name, (layers.top.added.reverse.lookup name).or (below.check name) = layers.check name
  present : ∀ name, (name, true) ∈ layers.top.packages.entries ∨ below.hasPackage name = true ↔
    layers.hasPackage name = true

@[simp] theorem top_cons (base top : Layer) (rest : List Layer) : ({ base, overlays := top :: rest } : Layers).top = top := rfl

theorem top_fork (layers : Layers) : layers.fork.top = {} := rfl

namespace Replays

theorem fork (layers : Layers) : layers.fork.Replays layers where
  forked := rfl
  found name := (layers.check_fork name).symm
  present name := by rw [hasPackage_fork, top_fork]; simp [Assoc.empty]

variable (replays : layers.Replays below)
include replays

theorem insert (name : String) (named : Named) : (layers.insert name named).Replays below := by
  obtain ⟨top, rfl⟩ := eq_of_discard? replays.forked
  refine ⟨rfl, fun query => ?_, fun query => ?_⟩
  · have before := replays.found query
    rw [check_insert]
    by_cases same : query = name
    · simp [Layers.insert, Layers.top, Layer.record, same]
    · have apart : (query == name) = false := beq_eq_false_iff_ne.mpr same
      simpa [Layers.insert, Layers.top, Layer.record, same, apart, List.lookup_cons] using before
  · exact replays.present query

/-- A package that is seen stays so. -/
theorem setPackage {present : Bool} (known : layers.hasPackage name = true → present = true) :
    (layers.setPackage name present).Replays below := by
  obtain ⟨top, rfl⟩ := eq_of_discard? replays.forked
  refine ⟨rfl, fun query => ?_, fun query => ?_⟩
  · exact replays.found query
  · have before := replays.present query
    rw [hasPackage_setPackage]
    simp only [Layers.setPackage, modifyTop, Layers.top, List.head?_cons, Option.getD_some, Layer.setPackage,
      Assoc.insert, List.mem_cons, Prod.mk.injEq, List.mem_filter]
    by_cases same : query = name
    · subst same
      have below := known ∘ before.mp ∘ Or.inr
      simp only [true_and, ne_eq, not_true_eq_false, decide_false, Bool.false_eq_true, and_false, or_false, if_true]
      exact ⟨fun held => held.elim Eq.symm below, fun held => .inl held.symm⟩
    · simpa [same] using before

theorem insertMiss (unknown : layers.check name = none) : (layers.insertMiss name).Replays below := by
  have same := (Shows.insertMiss unknown).found
  obtain ⟨top, rfl⟩ := eq_of_discard? replays.forked
  refine ⟨rfl, fun query => ?_, fun query => ?_⟩
  · exact (replays.found query).trans (same query).symm
  · exact replays.present query

theorem commit : ∃ after, layers.commit? = some after ∧ layers.Shows after := by
  obtain ⟨top, rfl⟩ := eq_of_discard? replays.forked
  refine ⟨_, commit?_eq rfl, fun name => ?_, fun name => ?_⟩
  · rw [check, lookup_setPackages]
    exact (check_insertAll _ _ name).trans (replays.found name)
  · refine Bool.eq_iff_iff.mpr (Iff.trans ?_ (replays.present name))
    simp [hasPackage_setPackages, hasPackage_insertAll]

end Replays

theorem hasPackage_ask (known : String → Bool) (layers : Layers) (name query : String) :
    (layers.ask known name).hasPackage query = if query = name then layers.presence known name else layers.hasPackage query := by
  unfold ask
  split
  · rename_i present held
    split
    · rename_i same
      rw [same, hasPackage, presence, held]
      cases present <;> rfl
    · rfl
  · exact hasPackage_setPackage ..

theorem presence_eq_false (unseen : layers.hasPackage name = false) (absent : known name = false) :
    layers.presence known name = false := by
  unfold presence
  split
  · rename_i present held
    rw [hasPackage, held] at unseen
    cases present with
    | false => rfl
    | true => cases unseen
  · simp [absent]

theorem presence_of_hasPackage (held : layers.hasPackage name = true) : layers.presence known name = true := by
  rw [presence, hasPackage_iff.mp held]

namespace Honest

theorem absent_of_presence (honest : layers.Honest inner) (unseen : layers.presence inner.packageExists name = false) :
    inner.packageExists name = false := by
  unfold presence at unseen
  split at unseen
  · rename_i present held
    exact honest.absence (held.trans (congrArg some unseen))
  · split at unseen
    · rename_i below
      exact honest.absenceBelow below
    · exact unseen

theorem ask (honest : layers.Honest inner) (name : String) : (layers.ask inner.packageExists name).Honest inner := by
  unfold Layers.ask
  split
  · exact honest
  · exact honest.setPackage honest.absent_of_presence

theorem bring (honest : layers.Honest inner) (package : Package) (container : Option String) :
    (layers.bring package container).Honest inner := by
  unfold Layers.bring
  split
  · exact (honest.addPackage package).insert _ _
  · exact honest.addPackage package

end Honest

/-- A forked layer on top can still be replayed, and without one there is still none. -/
structure Follows (layers after : Layers) : Prop where
  unforked : layers.overlays = [] → after.overlays = []
  replays : ∀ below, layers.Replays below → after.Replays below

namespace Follows

theorem refl (layers : Layers) : layers.Follows layers := ⟨id, fun _ => id⟩

theorem trans (first : layers.Follows middle) (second : middle.Follows after) : layers.Follows after :=
  ⟨second.unforked ∘ first.unforked, fun below => second.replays below ∘ first.replays below⟩

theorem insert (layers : Layers) (name : String) (named : Named) : layers.Follows (layers.insert name named) :=
  ⟨fun bare => overlays_insert name bare named, fun _ replays => replays.insert name named⟩

theorem insertMiss (unknown : layers.check name = none) : layers.Follows (layers.insertMiss name) :=
  ⟨fun bare => overlays_modifyTop bare _, fun _ replays => replays.insertMiss unknown⟩

theorem setPackages (layers : Layers) (names : List String) : layers.Follows (layers.setPackages names) :=
  setPackages_keeps (refl layers) fun _ _ _ follows =>
    follows.trans ⟨fun bare => overlays_modifyTop bare _, fun _ replays => replays.setPackage fun _ => rfl⟩

theorem addPackage (layers : Layers) (package : Package) : layers.Follows (layers.addPackage package) :=
  layers.addPackage_eq package ▸ setPackages layers package.names

theorem insertAll (layers : Layers) (entries : List (String × Named)) : layers.Follows (layers.insertAll entries) :=
  insertAll_keeps (refl layers) fun _ entry _ follows => follows.trans (insert _ entry.1 entry.2)

theorem ask (known : String → Bool) (layers : Layers) (name : String) : layers.Follows (layers.ask known name) := by
  unfold Layers.ask
  split
  · exact refl layers
  · rename_i unknown
    refine ⟨fun bare => overlays_modifyTop bare _, fun _ replays => replays.setPackage fun held => ?_⟩
    rw [hasPackage_iff, unknown] at held
    cases held

theorem bring (layers : Layers) (package : Package) (container : Option String) :
    layers.Follows (layers.bring package container) := by
  unfold Layers.bring
  split
  · exact (addPackage layers package).trans (insert _ _ _)
  · exact addPackage layers package

theorem commit (discarded : layers.discard? = some below) (committed : layers.commit? = some after) :
    below.Follows after := by
  obtain ⟨top, rfl⟩ := eq_of_discard? discarded
  rw [commit?_eq rfl] at committed
  cases committed
  exact (insertAll below top.added).trans (setPackages _ _)

end Follows

/-- There are the packages that are seen and those behind the cache. -/
theorem Honest.presence_eq (honest : layers.Honest inner) (name : String) :
    layers.presence inner.packageExists name = (layers.hasPackage name || inner.packageExists name) := by
  cases seen : layers.hasPackage name with
  | true => exact presence_of_hasPackage seen
  | false =>
    cases there : inner.packageExists name with
    | false => exact presence_eq_false seen there
    | true =>
      by_contra unseen
      rw [honest.absent_of_presence (Bool.not_eq_true _ ▸ unseen)] at there
      cases there

/-- What becomes of layers while what they remember as absent is so. -/
structure Grows (inner : Inner) (start layers : Layers) : Prop where
  honest : layers.Honest inner
  follows : start.Follows layers

namespace Grows

variable (grows : Grows inner start layers)
include grows

/-- A fork that is closed in the end. Dropped, it leaves what there was before. -/
theorem close (inside : Grows inner layers.fork within) (kept : Bool) :
    ∃ after, (if kept then within.commit? else within.discard?) = some after ∧ Grows inner start after ∧
      (if kept then within else layers).Shows after := by
  have replays := inside.follows.replays layers (.fork layers)
  cases kept with
  | true =>
    obtain ⟨after, committed, same⟩ := replays.commit
    have further := grows.follows.trans (.commit replays.forked committed)
    exact ⟨after, committed, ⟨inside.honest.commit committed, further⟩, same⟩
  | false => exact ⟨layers, replays.forked, grows, .refl _⟩

end Grows

/-- Two caches that show the same. -/
structure Alongside (inner : Inner) (start start' layers other : Layers) : Prop extends layers.Shows other where
  grows : Grows inner start layers
  grows' : Grows inner start' other

theorem alongside_parallel (remembers remembers' : Bool) :
    Parallel inner.find inner.packageExists remembers remembers' (Alongside inner start start') := by
  have presence {layers other : Layers} (along : Alongside inner start start' layers other) (name : String) :
      other.presence inner.packageExists name = layers.presence inner.packageExists name := by
    rw [along.grows.honest.presence_eq, along.grows'.honest.presence_eq, along.present]
  have missed {start layers : Layers} {name : String} {remembers : Bool} (grows : Grows inner start layers)
      (miss : layers.lookup name = none ∧ inner.find name = .error (.notFound name) ∧ remembers = true) :
      Grows inner start (layers.insertMiss name) ∧ layers.Shows (layers.insertMiss name) := by
    have unknown : layers.check name = none := by rw [Layers.check, miss.1]; rfl
    exact ⟨⟨grows.honest.insertMiss miss.2.1, grows.follows.trans (.insertMiss unknown)⟩, .insertMiss unknown⟩
  constructor
  case check => exact fun along => along.found
  case presence => exact presence
  case ask =>
    intro layers other along name
    have asked {start layers : Layers} (grows : Grows inner start layers) :
        Grows inner start (layers.ask inner.packageExists name) :=
      ⟨grows.honest.ask name, grows.follows.trans (.ask _ layers name)⟩
    refine ⟨⟨by simp [along.found], fun query => ?_⟩, asked along.grows, asked along.grows'⟩
    rw [hasPackage_ask, hasPackage_ask, presence along, along.present]
  case insert =>
    intro layers other along name named
    have inserted {start layers : Layers} (grows : Grows inner start layers) : Grows inner start (layers.insert name named) :=
      ⟨grows.honest.insert name named, grows.follows.trans (.insert layers name named)⟩
    exact ⟨⟨by simp [along.found], by simp [along.present]⟩, inserted along.grows, inserted along.grows'⟩
  case addPackage =>
    intro layers other along package
    have added {start layers : Layers} (grows : Grows inner start layers) : Grows inner start (layers.addPackage package) :=
      ⟨grows.honest.addPackage package, grows.follows.trans (.addPackage layers package)⟩
    refine ⟨⟨fun query => ?_, fun query => ?_⟩, added along.grows, added along.grows'⟩
    · rw [check_addPackage, check_addPackage, along.found]
    · rw [hasPackage_addPackage, hasPackage_addPackage, along.present]
  case absent => exact fun along missing => missing.elim along.grows.honest.miss along.grows'.honest.miss
  case missed =>
    intro layers other name along miss
    obtain ⟨grows, shows⟩ := missed along.grows miss
    exact ⟨shows.symm.trans along.toShows, grows, along.grows'⟩
  case missed' =>
    intro layers other name along miss
    obtain ⟨grows, shows⟩ := missed along.grows' miss
    exact ⟨along.toShows.trans shows, along.grows, grows⟩

end Layers

namespace Cache

open Layers (Alike Alongside Grows Shows)

variable {inner : Inner}

def Call.act (inner : Inner) (rememberMisses : Bool) (arena : Arena) (layers : Layers) :
    Call → Except Error Reply × Layers
  | install name named => (Op.install name named).act inner.packageExists arena layers
  | addNamed name named => (Op.addNamed name named).act inner.packageExists arena layers
  | addPackage package => (Op.addPackage package).act inner.packageExists arena layers
  | packageExists name => (Op.packageExists name).act inner.packageExists arena layers
  | find name =>
    let out := layers.find inner.packageExists arena inner.find rememberMisses name
    (out.1.map .named, out.2)

theorem Call.comesTo (call : Call) (w : World) : (call.run slot inner rememberMisses).ComesTo slot w
    (call.act inner rememberMisses w.arena (w.cache slot)) := by
  cases call with
  | install name named => exact (Op.install name named).comesTo w
  | addNamed name named => exact (Op.addNamed name named).comesTo w
  | addPackage package => exact (comesTo_modifyCache _).map _
  | packageExists name => exact (Op.packageExists name).comesTo w
  | find name => exact (find_comesTo inner.find rememberMisses name w).map _

theorem Call.act_alike {arena : Arena} (along : Alongside inner start start' layers other) (call : Call) :
    Alike (Alongside inner start start') (call.act inner rememberMisses arena layers)
      (call.act inner rememberMisses arena other) := by
  have parallel : Layers.Parallel inner.find inner.packageExists rememberMisses rememberMisses
    (Alongside inner start start') := Layers.alongside_parallel _ _
  cases call with
  | install name named => exact (parallel.install along name named).map _
  | addNamed name named => exact (parallel.addNamed along name named).map _
  | addPackage package => exact ⟨rfl, parallel.addPackage along package⟩
  | packageExists name =>
    refine ⟨?_, parallel.ask along name⟩
    simp only [act, Op.act, parallel.presence along]
  | find name => exact (parallel.find along name).map _

theorem on_close (closed : (if kept then (w.cache slot).commit? else (w.cache slot).discard?) = some layers) :
    (close slot kept).on w = some (.ok (), { w with caches := w.caches.insert slot layers }) := by
  cases kept with
  | true =>
    have closed : (w.cache slot).commit? = some layers := closed
    simp only [close, if_true, commit, on_get_bind, closed]
    rfl
  | false =>
    have closed : (w.cache slot).discard? = some layers := closed
    simp only [close, Bool.false_eq_true, if_false, discard, on_get_bind, closed]
    rfl

theorem Calls.alike (calls : Calls) (classes : v.arena = w.arena)
    (along : Alongside inner start start' layers layers') (held : w.cache slot = layers) (held' : v.cache slot = layers') :
    ∃ replies after after', (calls.run slot inner rememberMisses).on w = some (.ok replies, after) ∧
      (calls.run slot inner rememberMisses).on v = some (.ok replies, after') ∧ after'.arena = after.arena ∧
      Alongside inner start start' (after.cache slot) (after'.cache slot) := by
  induction calls generalizing start start' layers layers' w v with
  | done =>
    subst held held'
    exact ⟨[], w, v, rfl, rfl, classes, along⟩
  | call call rest ih =>
    subst held held'
    have alike : Alike _ (call.act inner rememberMisses w.arena (w.cache slot)) _ := call.act_alike along
    have comes : (call.run slot inner rememberMisses).ComesTo slot w _ := call.comesTo w
    have comes' : (call.run slot inner rememberMisses).ComesTo slot v _ := call.comesTo v
    obtain ⟨middle, ran, same, left⟩ := comes.outcome
    obtain ⟨middle', ran', same', left'⟩ := comes'.outcome
    rw [classes] at ran' left'
    rw [alike.result] at ran'
    obtain ⟨replies, after, after', others, others', last⟩ :=
      ih (same'.arena.trans (classes.trans same.arena.symm)) alike.layers left left'
    exact ⟨_, after, after', (on_bind_ok ran).trans (on_bind_ok others), (on_bind_ok ran').trans (on_bind_ok others'), last⟩
  | forked inside kept rest within others =>
    have fork {start layers : Layers} (grows : Grows inner start layers) : Grows inner layers.fork layers.fork :=
      ⟨grows.honest.fork, .refl _⟩
    have above : Alongside inner layers.fork layers'.fork layers.fork layers'.fork :=
      ⟨((Shows.fork _).symm.trans along.toShows).trans (.fork _), fork along.grows, fork along.grows'⟩
    subst held held'
    obtain ⟨first, middle, middle', ran, ran', arena, inside⟩ := within (by exact classes) above (w.cache_insert ..) (v.cache_insert ..)
    obtain ⟨lower, closed, grows, shown⟩ := along.grows.close inside.grows kept
    obtain ⟨lower', closed', grows', shown'⟩ := along.grows'.close inside.grows' kept
    have same : (if kept then middle.cache slot else w.cache slot).Shows (if kept then middle'.cache slot else v.cache slot) := by
      cases kept with
      | true => exact inside.toShows
      | false => exact along.toShows
    have further : Alongside inner start start' lower lower' := ⟨(shown.symm.trans same).trans shown', grows, grows'⟩
    obtain ⟨replies, after, after', others, others', last⟩ :=
      others (by exact arena) further (middle.cache_insert ..) (middle'.cache_insert ..)
    refine ⟨first ++ replies, after, after', ?_, ?_, last⟩
    · exact (on_bind_ok rfl).trans ((on_bind_ok ran).trans ((on_bind_ok (on_close closed)).trans (on_bind_ok others)))
    · exact (on_bind_ok rfl).trans ((on_bind_ok ran').trans ((on_bind_ok (on_close closed')).trans (on_bind_ok others')))

theorem operation_honest (operation : Operation slot inner rememberMisses x)
    (honest : (w.cache slot).Honest inner) : ∃ out, x.ComesTo slot w out ∧ out.2.Honest inner := by
  have called (call : Call) : (call.act inner rememberMisses w.arena (w.cache slot)).2.Honest inner := by
    have fresh : Grows inner (w.cache slot) (w.cache slot) := ⟨honest, .refl _⟩
    exact (call.act_alike ⟨.refl _, fresh, fresh⟩).layers.grows.honest
  cases operation with
  | call call => exact ⟨_, call.comesTo w, called call⟩
  | installEverywhere name named =>
    have comes : (install slot inner.backing.packageExists name named).ComesTo slot w
      ((w.cache slot).install inner.packageExists w.arena name named) := install_comesTo name named w
    have kept : ((w.cache slot).install inner.packageExists w.arena name named).2.Honest inner := called (.install name named)
    generalize (w.cache slot).install inner.packageExists w.arena name named = out at comes kept
    obtain ⟨result, layers⟩ := out
    cases result with
    | error e => exact ⟨_, comes.fails, kept⟩
    | ok _ =>
      refine ⟨(.ok (), layers.insertBelow name named), comes.bind fun middle _ left => ?_, kept.insertBelow name named⟩
      rw [← left]
      exact comesTo_modifyCache _
  | insertAll entries => exact ⟨_, comesTo_modifyCache _, honest.insertAll entries⟩
  | clearAdded => exact ⟨_, comesTo_modifyCache _, honest.clearAdded⟩
  | fork => exact ⟨_, comesTo_modifyCache _, honest.fork⟩
  | commit =>
    cases committed : (w.cache slot).commit? with
    | none => exact ⟨_, comesTo_get (by rw [committed]; exact comesTo_throw _), honest⟩
    | some after => exact ⟨_, comesTo_get (by rw [committed]; exact comesTo_modifyCache _), honest.commit committed⟩
  | discard =>
    cases discarded : (w.cache slot).discard? with
    | none => exact ⟨_, comesTo_get (by rw [discarded]; exact comesTo_throw _), honest⟩
    | some after => exact ⟨_, comesTo_get (by rw [discarded]; exact comesTo_modifyCache _), honest.discard discarded⟩

/-- Whatever has been done to the cache, what it remembers as absent is absent. -/
theorem Reached.honest (reached : Reached slot inner rememberMisses w) : (w.cache slot).Honest inner := by
  induction reached with
  | fresh empty =>
    rw [empty]
    exact .empty
  | operation earlier operation ran honest =>
    obtain ⟨out, comes, kept⟩ := operation_honest operation honest
    rwa [(comes.left ran).2]
  | elsewhere earlier same honest => rwa [same]

end Cache

/-- Calls on a layered cache in front of something that never changes its mind are answered between a fork and its
commit as they are without, and afterwards the cache answers the same for every name. -/
theorem commit_as_without_fork {slot : Slot} {inner : Inner} {rememberMisses : Bool} {w : World}
    (reached : Cache.Reached slot inner rememberMisses w) (calls : Cache.Calls) :
    ∃ replies direct committed,
      (calls.run slot inner rememberMisses).on w = some (.ok replies, direct) ∧
      (do
        Cache.fork slot
        let replies ← calls.run slot inner rememberMisses
        Cache.commit slot
        return replies : Run (List (Except Error Cache.Reply))).on w = some (.ok replies, committed) ∧
      ∀ name, (committed.cache slot).check name = (direct.cache slot).check name ∧
        (∃ found, (Cache.find slot inner.backing rememberMisses name).answer? direct = some found ∧
          (Cache.find slot inner.backing rememberMisses name).answer? committed = some found) ∧
        ∃ present, (Cache.packageExists slot inner.backing.packageExists name).answer? direct = some present ∧
          (Cache.packageExists slot inner.backing.packageExists name).answer? committed = some present := by
  have fresh : Layers.Grows inner (w.cache slot) (w.cache slot) := ⟨reached.honest, .refl _⟩
  have along : Layers.Alongside inner (w.cache slot) (w.cache slot).fork (w.cache slot) (w.cache slot).fork :=
    ⟨.fork _, fresh, reached.honest.fork, .refl _⟩
  obtain ⟨replies, direct, middle, ran, ran', classes, along⟩ := calls.alike (by rfl) along rfl (w.cache_insert ..)
  obtain ⟨layers, closed, kept, shown⟩ := fresh.close along.grows' true
  have along : Layers.Alongside inner _ _ (direct.cache slot) layers := ⟨along.toShows.trans shown, along.grows, kept⟩
  have parallel : Layers.Parallel inner.find inner.packageExists rememberMisses rememberMisses
    (Layers.Alongside inner (w.cache slot) (w.cache slot)) := Layers.alongside_parallel _ _
  let committed : World := { middle with caches := middle.caches.insert slot layers }
  have held : committed.cache slot = layers := middle.cache_insert slot layers
  refine ⟨replies, direct, committed, ran,
    (on_bind_ok rfl).trans ((on_bind_ok ran').trans (on_bind_ok (Cache.on_close closed))), fun name => ?_⟩
  have answers {α : Type} {x : Run α} {out out' : Except Error α × Layers} (comes : x.ComesTo slot direct out)
      (comes' : x.ComesTo slot committed out') (same : out'.1 = out.1) :
      ∃ result, x.answer? direct = some result ∧ x.answer? committed = some result :=
    ⟨out.1, comes.answer, comes'.answer.trans (congrArg some same)⟩
  refine ⟨?_, answers (Cache.find_comesTo inner.find rememberMisses name direct) (Cache.find_comesTo _ _ name committed) ?_,
    answers (Cache.packageExists_comesTo name direct) (Cache.packageExists_comesTo name committed) ?_⟩
  · rw [held]
    exact parallel.check along name
  · rw [held, show committed.arena = direct.arena from classes]
    exact (parallel.find along name).result
  · rw [held]
    exact congrArg Except.ok (parallel.presence along name)

/-- A miss remembered before the fork is overwritten inside, one fork inside is kept and one is dropped. -/
theorem commit_as_without_fork_nested :
    let inner : Inner := {
      find := fun name => if name = "p" then .ok (.package ⟨"p"⟩) else .error (.notFound name)
      packageExists := fun name => name == "p"
      closed := fun name container inside held => by
        have top : containerName? "p" = none := by decide
        rw [beq_iff_eq.mp held, top] at inside
        cases inside }
    let calls : Cache.Calls :=
      .call (.find "q.X") <| .call (.packageExists "q") <| .call (.install "q.X" (.cls ⟨0⟩)) <|
      .forked (.call (.find "p") <| .call (.install "p" (.cls ⟨0⟩)) .done) true <|
      .forked (.call (.addPackage ⟨"q"⟩) <| .call (.install "q" (.cls ⟨0⟩)) .done) false <|
      .call (.install "q" (.cls ⟨0⟩)) <| .call (.find "q.X") .done
    ∃ w, Cache.Reached .session inner true w ∧ w.system.lookup "q.X" = some .missing ∧ ∃ direct committed,
      let replies := [.error (.notFound "q.X"), .ok (.present false), .ok .done, .ok (.named (.package ⟨"p"⟩)),
        .error (.typePackageClash "p" none), .ok .done, .error (.typePackageClash "q" none), .ok .done,
        .ok (.named (.cls ⟨0⟩))]
      (calls.run .session inner true).on w = some (.ok replies, direct) ∧
      (do
        Cache.fork .session
        let replies ← calls.run .session inner true
        Cache.commit .session
        return replies : Run (List (Except Error Cache.Reply))).on w = some (.ok replies, committed) ∧
      ∀ name, committed.system.check name = direct.system.check name := by
  intro inner calls
  have reached : Cache.Reached .session inner true _ :=
    .operation (.fresh (w := .ofUniverse {} {}) rfl) (.call (.find "q.X")) rfl
  refine ⟨_, reached, by decide, ?_⟩
  obtain ⟨replies, direct, committed, ran, ran', same⟩ := commit_as_without_fork reached calls
  have answered : some (.ok replies) = (calls.run .session inner true).answer? _ := (congrArg (Option.map Prod.fst) ran).symm
  have replied : replies = _ := Except.ok.inj (Option.some.inj (answered.trans rfl))
  rw [replied] at ran ran'
  exact ⟨direct, committed, ran, ran', fun name => (same name).1⟩

end ClassUniverse
