import ClassUniverse.World

/-! What a layered cache answers after its top layer was changed. -/
namespace ClassUniverse

/-- The package and all packages around it. -/
def Package.names (package : Package) : List String := (package :: package.enclosings).map fullName

namespace Layers

variable (layers : Layers) (name query : String)

theorem insert_eq_modifyTop (named : Named) : layers.insert name named =
    layers.modifyTop fun layer => if layers.overlays = [] then layer.put name (.found named) else layer.record name named := by
  obtain ⟨base, overlays⟩ := layers
  cases overlays <;> rfl

/-- There are all these packages. -/
def setPackages (names : List String) : Layers :=
  names.foldl (fun (layers : Layers) name => layers.setPackage name true) layers

theorem addPackage_eq (package : Package) : layers.addPackage package = layers.setPackages package.names := by
  rw [addPackage, setPackages, Package.names, List.foldl_map]

theorem commit?_eq {layers : Layers} {top : Layer}
    (forked : layers.overlays = top :: rest) : layers.commit? = some ((({ layers with overlays := rest } : Layers).insertAll top.added).setPackages
      ((top.packages.entries.filter (·.2)).map (·.1))) := by
  simp only [commit?, forked, setPackages, List.foldl_map]

theorem eq_of_discard? {layers below : Layers} (forked : layers.discard? = some below) :
    ∃ top, layers = { base := below.base, overlays := top :: below.overlays } := by
  obtain ⟨base, overlays⟩ := layers
  cases overlays with
  | nil => cases forked
  | cons top rest =>
    cases forked
    exact ⟨top, rfl⟩

theorem of_commit? {layers after : Layers} (committed : layers.commit? = some after) : ∃ below, layers.discard? = some below ∧
    after = (below.insertAll layers.top.added).setPackages ((layers.top.packages.entries.filter (·.2)).map (·.1)) := by
  obtain ⟨base, overlays⟩ := layers
  cases overlays with
  | nil => cases committed
  | cons top rest =>
    rw [commit?_eq rfl] at committed
    cases committed
    exact ⟨_, rfl, rfl⟩

section Keeping

variable {layers} {P : Layers → Prop} (start : P layers)
include start

theorem setPackages_keeps (one : ∀ layers, ∀ name ∈ names, P layers → P (layers.setPackage name true)) :
    P (layers.setPackages names) :=
  List.foldlRecOn names _ start fun layers held name listed => one layers name listed held

theorem insertAll_keeps
    (one : ∀ layers, ∀ entry ∈ entries, P layers → P (layers.insert entry.1 entry.2)) : P (layers.insertAll entries) :=
  List.foldlRecOn entries _ start fun layers held entry listed => one layers entry listed held

end Keeping

theorem toList_eq : layers.toList = layers.top :: layers.toList.tail := by
  obtain ⟨base, overlays⟩ := layers
  cases overlays <;> rfl

theorem toList_modifyTop (change : Layer → Layer) :
    (layers.modifyTop change).toList = change layers.top :: layers.toList.tail := by
  obtain ⟨base, overlays⟩ := layers
  cases overlays <;> rfl

theorem toList_insert (named : Named) : ∃ top, (layers.insert name named).toList = top :: layers.toList.tail ∧
    top.cache = layers.top.cache.insert name (.found named) ∧ top.packages = layers.top.packages := by
  obtain ⟨base, overlays⟩ := layers
  cases overlays with
  | nil => exact ⟨_, rfl, rfl, rfl⟩
  | cons layer rest => exact ⟨_, rfl, rfl, rfl⟩

/-- So it is of each layer. -/
def Every (Q : Layer → Prop) : Prop := ∀ layer ∈ layers.toList, Q layer

namespace Every

variable {layers} {Q : Layer → Prop} (every : layers.Every Q)
include every

theorem top : Q layers.top := every layers.top (layers.toList_eq ▸ List.mem_cons_self)

theorem modifyTop (changed : Q (change layers.top)) : (layers.modifyTop change).Every Q := by
  intro layer member
  rw [toList_modifyTop] at member
  rcases List.mem_cons.mp member with rfl | below
  · exact changed
  · exact every layer (layers.toList_eq ▸ List.mem_cons_of_mem _ below)

theorem insert {name : String} (put : Q (layers.top.put name (.found named)))
    (recorded : Q (layers.top.record name named)) : (layers.insert name named).Every Q := by
  rw [insert_eq_modifyTop]
  refine every.modifyTop ?_
  split
  · exact put
  · exact recorded

theorem fork (fresh : Q {}) : layers.fork.Every Q := List.forall_mem_cons.mpr ⟨fresh, every⟩

theorem discard {after : Layers} (discarded : layers.discard? = some after) : after.Every Q := by
  obtain ⟨top, rfl⟩ := eq_of_discard? discarded
  exact (List.forall_mem_cons.mp every).2

end Every

theorem lookup_eq : layers.lookup query =
    (layers.top.cache.find? query).or (layers.toList.tail.findSome? fun layer => layer.cache.find? query) := by
  rw [lookup, toList_eq, List.findSome?_cons]
  cases layers.top.cache.find? query <;> rfl

theorem knownPackage_eq : layers.knownPackage query =
    (layers.top.packages.find? query).or (layers.toList.tail.findSome? fun layer => layer.packages.find? query) := by
  rw [knownPackage, toList_eq, List.findSome?_cons]
  cases layers.top.packages.find? query <;> rfl

theorem lookup_of_top {after : Layers} {top : Layer}
    (whole : after.toList = top :: layers.toList.tail) (cache : top.cache = layers.top.cache.insert name entry) :
    after.lookup query = if query = name then some entry else layers.lookup query := by
  rw [lookup, whole, List.findSome?_cons, cache, Assoc.find?_insert, lookup_eq]
  by_cases same : query = name
  · simp [same]
  · simp only [same, if_false]
    cases layers.top.cache.find? query <;> rfl

theorem knownPackage_of_top {after : Layers} {top : Layer} (whole : after.toList = top :: layers.toList.tail)
    (packages : top.packages = layers.top.packages) : after.knownPackage query = layers.knownPackage query := by
  rw [knownPackage, whole, List.findSome?_cons, packages, knownPackage_eq]
  cases layers.top.packages.find? query <;> rfl

@[simp] theorem lookup_insert (named : Named) :
    (layers.insert name named).lookup query = if query = name then some (.found named) else layers.lookup query := by
  obtain ⟨top, whole, cache, _⟩ := layers.toList_insert name named
  exact layers.lookup_of_top name query whole cache

@[simp] theorem knownPackage_insert (named : Named) :
    (layers.insert name named).knownPackage query = layers.knownPackage query := by
  obtain ⟨top, whole, _, packages⟩ := layers.toList_insert name named
  exact layers.knownPackage_of_top query whole packages

@[simp] theorem lookup_insertMiss :
    (layers.insertMiss name).lookup query = if query = name then some .missing else layers.lookup query :=
  layers.lookup_of_top name query (layers.toList_modifyTop _) rfl

@[simp] theorem knownPackage_insertMiss : (layers.insertMiss name).knownPackage query = layers.knownPackage query :=
  layers.knownPackage_of_top query (layers.toList_modifyTop _) rfl

@[simp] theorem lookup_setPackage (present : Bool) : (layers.setPackage name present).lookup query = layers.lookup query := by
  rw [layers.lookup_eq, lookup, setPackage, toList_modifyTop, List.findSome?_cons]
  simp only [Layer.setPackage]
  cases layers.top.cache.find? query <;> rfl

@[simp] theorem knownPackage_setPackage (present : Bool) : (layers.setPackage name present).knownPackage query =
      if query = name then some present else layers.knownPackage query := by
  rw [layers.knownPackage_eq, knownPackage, setPackage, toList_modifyTop, List.findSome?_cons]
  simp only [Layer.setPackage, Assoc.find?_insert]
  by_cases same : query = name
  · simp [same]
  · simp only [same, if_false]
    cases layers.top.packages.find? query <;> rfl

@[simp] theorem check_insert (named : Named) :
    (layers.insert name named).check query = if query = name then some named else layers.check query := by
  simp only [check, lookup_insert]
  split <;> rfl

@[simp] theorem check_insertMiss :
    (layers.insertMiss name).check query = if query = name then none else layers.check query := by
  simp only [check, lookup_insertMiss]
  split <;> rfl

@[simp] theorem check_setPackage (present : Bool) : (layers.setPackage name present).check query = layers.check query := by
  simp only [check, lookup_setPackage]

theorem lookup_setPackages (names : List String) : (layers.setPackages names).lookup query = layers.lookup query :=
  setPackages_keeps (P := (·.lookup query = layers.lookup query)) rfl fun _ _ _ => (lookup_setPackage ..).trans

@[simp] theorem lookup_addPackage (package : Package) : (layers.addPackage package).lookup query = layers.lookup query := by
  rw [addPackage_eq, lookup_setPackages]

theorem check_addPackage (package : Package) : (layers.addPackage package).check query = layers.check query := by
  rw [check, lookup_addPackage, check]

/-- Packages are only ever added as such. -/
theorem knownPackage_addPackage (absent : (layers.addPackage package).knownPackage query = some false) :
    layers.knownPackage query = some false := by
  rw [addPackage_eq] at absent
  revert absent
  refine setPackages_keeps (P := (·.knownPackage query = some false → _)) (fun absent => absent) fun after name _ ih absent => ih ?_
  rw [knownPackage_setPackage] at absent
  split at absent
  · cases absent
  · exact absent

section Unforked

variable {layers} (unforked : layers.overlays = [])
include unforked

theorem overlays_modifyTop (change : Layer → Layer) : (layers.modifyTop change).overlays = [] := by
  simp [modifyTop, unforked]

theorem overlays_insert (named : Named) : (layers.insert name named).overlays = [] := by
  simp [insert, unforked]

end Unforked

end Layers

namespace World

@[simp] theorem cache_insert (w : World) (slot : Slot) (layers : Layers) :
    ({ w with caches := w.caches.insert slot layers } : World).cache slot = layers := by
  simp [cache, Assoc.getD]

@[simp] theorem system_insert (w : World) (layers : Layers) :
    ({ w with caches := w.caches.insert .session layers } : World).system = layers := w.cache_insert .session layers

end World

end ClassUniverse
