import CardLore.Proofs.Merge.Order
import CardLore.Proofs.Conduct.File

namespace CardLore

-- The key that identifiers make together.
def Key.joined (names : List Key) : Key :=
  ⟨Text.join "." (names.map (·.text))⟩

-- A component and the identifiers of the namespaces that it stands in, the outermost first.
structure PlacedComponent where
  path : List Key
  declaration : ComponentDeclaration

namespace PlacedComponent

def key (u : PlacedComponent) : Key :=
  .joined (u.path ++ [u.declaration.id])

def kind (u : PlacedComponent) : Kind :=
  u.declaration.component.kind

-- The definition that the component makes.
def definition (u : PlacedComponent) : Definition :=
  .ofDeclaration (.joined u.path) u.declaration

end PlacedComponent

-- An opening of a namespace, placed by the identifiers around it and its own one.
structure PlacedOpening where
  path : List Key
  attributes : List Attribute

def PlacedOpening.key (o : PlacedOpening) : Key :=
  .joined o.path

namespace Declaration

mutual

-- The components of a declaration that stands in the namespaces `path`, in the order of the source.
def placed (path : List Key) : Declaration → List PlacedComponent
  | scope id _ body _ => placedIn (path ++ [id]) body
  | component d => [⟨path, d⟩]

def placedIn (path : List Key) : List Declaration → List PlacedComponent
  | [] => []
  | d :: rest => d.placed path ++ placedIn path rest

end

mutual

-- The openings of namespaces, an outer one before those in it.
def opened (path : List Key) : Declaration → List PlacedOpening
  | scope id attributes body _ => ⟨path ++ [id], attributes⟩ :: openedIn (path ++ [id]) body
  | component _ => []

def openedIn (path : List Key) : List Declaration → List PlacedOpening
  | [] => []
  | d :: rest => d.opened path ++ openedIn path rest

end

end Declaration

-- All components of the files, in merge order.
def placedComponents (trees : List FileTree) : List PlacedComponent :=
  trees.flatMap fun t => Declaration.placedIn [] t.declarations

-- All openings of namespaces in the files, in merge order.
def placedOpenings (trees : List FileTree) : List PlacedOpening :=
  trees.flatMap fun t => Declaration.openedIn [] t.declarations

theorem join_concat (separator : Text) {parts : List Text} (h : parts ≠ []) (last : Text) :
    Text.join separator (parts ++ [last]) = Text.join separator parts ++ separator ++ last := by
  induction parts with
  | nil => exact absurd rfl h
  | cons part parts ih =>
      cases parts with
      | nil => simp [Text.join]
      | cons next parts =>
          have hrest := ih (List.cons_ne_nil _ _)
          simp only [Text.join, List.cons_append, List.intersperse_cons_cons, List.flatten_cons,
            List.append_assoc, List.append_cancel_left_eq] at hrest ⊢
          exact hrest

theorem join_ne_nil (separator : Text) {parts : List Text} {part : Text} (hmem : part ∈ parts)
    (hne : part ≠ []) : Text.join separator parts ≠ [] := by
  have hpart : part ∈ parts.intersperse separator := by
    induction parts with
    | nil => cases hmem
    | cons first parts ih =>
        cases parts with
        | nil => exact hmem
        | cons next parts =>
            rw [List.intersperse_cons_cons]
            rcases List.mem_cons.mp hmem with rfl | hmem
            · exact List.mem_cons_self
            · exact List.mem_cons_of_mem _ (List.mem_cons_of_mem _ (ih hmem))
  rw [Text.join, ne_eq, List.flatten_eq_nil_iff]
  exact fun h => hne (h part hpart)

-- Identifiers that are not empty: those of parsed namespaces.
def Named (path : List Key) : Prop :=
  ∀ name ∈ path, name.text ≠ []

theorem Named.nil : Named [] :=
  nofun

theorem Named.concat {path : List Key} (h : Named path) {id : Key} (hid : id.Valid) :
    Named (path ++ [id]) :=
  forall_mem_concat h hid.1

theorem isEmpty_joined {path : List Key} (h : Named path) :
    (Key.joined path).isEmpty = true ↔ path = [] := by
  rw [Key.isEmpty, List.isEmpty_iff]
  constructor
  · intro hempty
    by_contra hne
    obtain ⟨name, rest, rfl⟩ := List.exists_cons_of_ne_nil hne
    exact join_ne_nil _ (List.mem_cons_self) (h name List.mem_cons_self) hempty
  · rintro rfl
    rfl

-- Going down one namespace at a time gives the joined key.
theorem child_joined {path : List Key} (h : Named path) (name : Key) :
    (Key.joined path).child name = .joined (path ++ [name]) := by
  rw [Key.child]
  split
  next hempty =>
    rw [isEmpty_joined h] at hempty
    subst hempty
    simp [Key.joined, Text.join]
  next hne =>
    rw [isEmpty_joined h] at hne
    have hparts : path.map Key.text ≠ [] := by simpa using hne
    simp only [Key.joined, List.map_append, List.map_cons, List.map_nil, join_concat _ hparts]

theorem PlacedComponent.definition_key {u : PlacedComponent} (h : Named u.path) :
    u.definition.key = u.key :=
  child_joined h u.declaration.id

theorem PlacedComponent.definition_kind (u : PlacedComponent) : u.definition.kind = u.kind := by
  change (u.declaration.component.withId _).kind = u.declaration.component.kind
  cases u.declaration.component <;> rfl

mutual

theorem Declaration.declared_eq {path : List Key} (hpath : Named path) {d : Declaration}
    (h : d.WellFormed) :
    d.declared (.joined path) = (d.placed path).map PlacedComponent.definition := by
  cases d with
  | component d => rfl
  | scope id attributes body span =>
      obtain ⟨hid, hbody⟩ := h
      rw [Declaration.declared, Declaration.placed, child_joined hpath]
      exact Declaration.declaredIn_eq (hpath.concat hid) hbody

theorem Declaration.declaredIn_eq {path : List Key} (hpath : Named path) {ds : List Declaration}
    (h : ∀ d ∈ ds, d.WellFormed) :
    Declaration.declaredIn (.joined path) ds =
      (Declaration.placedIn path ds).map PlacedComponent.definition := by
  cases ds with
  | nil => rfl
  | cons d rest =>
      obtain ⟨hd, hrest⟩ := List.forall_mem_cons.mp h
      rw [Declaration.declaredIn, Declaration.placedIn, List.map_append,
        Declaration.declared_eq hpath hd, Declaration.declaredIn_eq hpath hrest]

end

mutual

theorem Declaration.openingsOf_events {path : List Key} (hpath : Named path) {d : Declaration}
    (h : d.WellFormed) (key : Key) :
    openingsOf key (d.events (.joined path)) =
      ((d.opened path).filter (·.key = key)).map (·.attributes) := by
  cases d with
  | component d => rfl
  | scope id attributes body span =>
      obtain ⟨hid, hbody⟩ := h
      have hrest := Declaration.openingsOf_eventsOf (hpath.concat hid) hbody key
      rw [Declaration.events, Declaration.opened, child_joined hpath]
      simp only [openingsOf, List.filterMap_cons, MergeEvent.openingOf?, List.filter_cons,
        PlacedOpening.key] at hrest ⊢
      split <;> simp_all

theorem Declaration.openingsOf_eventsOf {path : List Key} (hpath : Named path)
    {ds : List Declaration} (h : ∀ d ∈ ds, d.WellFormed) (key : Key) :
    openingsOf key (Declaration.eventsOf (.joined path) ds) =
      ((Declaration.openedIn path ds).filter (·.key = key)).map (·.attributes) := by
  cases ds with
  | nil => rfl
  | cons d rest =>
      obtain ⟨hd, hrest⟩ := List.forall_mem_cons.mp h
      rw [Declaration.eventsOf, Declaration.openedIn, List.filter_append, List.map_append,
        ← Declaration.openingsOf_events hpath hd, ← Declaration.openingsOf_eventsOf hpath hrest]
      exact List.filterMap_append

end

mutual

-- A component stands where the walk started or in a namespace that it opened on the way.
theorem Declaration.path_of_mem_placed {path : List Key} (hpath : Named path) {d : Declaration}
    (h : d.WellFormed) {u : PlacedComponent} (hu : u ∈ d.placed path) :
    Named u.path ∧ (u.path = path ∨ ∃ o ∈ d.opened path, o.path = u.path) := by
  cases d with
  | component d =>
      obtain rfl := List.mem_singleton.mp hu
      exact ⟨hpath, .inl rfl⟩
  | scope id attributes body span =>
      obtain ⟨hid, hbody⟩ := h
      obtain ⟨hnamed, hsame | ⟨o, ho, hsame⟩⟩ :=
        Declaration.path_of_mem_placedIn (hpath.concat hid) hbody hu
      · exact ⟨hnamed, .inr ⟨_, List.mem_cons_self, hsame.symm⟩⟩
      · exact ⟨hnamed, .inr ⟨o, List.mem_cons_of_mem _ ho, hsame⟩⟩

theorem Declaration.path_of_mem_placedIn {path : List Key} (hpath : Named path)
    {ds : List Declaration} (h : ∀ d ∈ ds, d.WellFormed) {u : PlacedComponent}
    (hu : u ∈ Declaration.placedIn path ds) :
    Named u.path ∧ (u.path = path ∨ ∃ o ∈ Declaration.openedIn path ds, o.path = u.path) := by
  cases ds with
  | nil => cases hu
  | cons d rest =>
      obtain ⟨hd, hrest⟩ := List.forall_mem_cons.mp h
      rcases List.mem_append.mp hu with hu | hu
      · obtain ⟨hnamed, hplace⟩ := Declaration.path_of_mem_placed hpath hd hu
        refine ⟨hnamed, hplace.imp_right ?_⟩
        rintro ⟨o, ho, hsame⟩
        exact ⟨o, List.mem_append_left _ ho, hsame⟩
      · obtain ⟨hnamed, hplace⟩ := Declaration.path_of_mem_placedIn hpath hrest hu
        refine ⟨hnamed, hplace.imp_right ?_⟩
        rintro ⟨o, ho, hsame⟩
        exact ⟨o, List.mem_append_right _ ho, hsame⟩

end

section

variable {trees : List FileTree} (h : ∀ t ∈ trees, t.WellFormed)

include h

theorem declared_eq_placed :
    declared trees = (placedComponents trees).map PlacedComponent.definition := by
  induction trees with
  | nil => rfl
  | cons t trees ih =>
      obtain ⟨ht, htrees⟩ := List.forall_mem_cons.mp h
      have hfirst : t.declared = _ := Declaration.declaredIn_eq Named.nil ht
      have hrest := ih htrees
      simp only [declared, placedComponents] at hrest ⊢
      rw [List.flatMap_cons, List.flatMap_cons, List.map_append, hfirst, hrest]

theorem openingsOf_eq_placed (key : Key) :
    openingsOf key (trees.flatMap FileTree.events) =
      ((placedOpenings trees).filter (·.key = key)).map (·.attributes) := by
  induction trees with
  | nil => rfl
  | cons t trees ih =>
      obtain ⟨ht, htrees⟩ := List.forall_mem_cons.mp h
      have hfirst : openingsOf key t.events = _ :=
        Declaration.openingsOf_eventsOf Named.nil ht key
      have hrest := ih htrees
      simp only [openingsOf, placedOpenings] at hfirst hrest ⊢
      rw [List.flatMap_cons, List.flatMap_cons, List.filterMap_append, List.filter_append,
        List.map_append, hfirst, hrest]

theorem path_of_mem_placedComponents {u : PlacedComponent} (hu : u ∈ placedComponents trees) :
    Named u.path ∧ (u.path = [] ∨ ∃ o ∈ placedOpenings trees, o.path = u.path) := by
  obtain ⟨t, ht, hu⟩ := List.mem_flatMap.mp hu
  obtain ⟨hnamed, hplace⟩ := Declaration.path_of_mem_placedIn Named.nil (h t ht) hu
  refine ⟨hnamed, hplace.imp_right ?_⟩
  rintro ⟨o, ho, hsame⟩
  exact ⟨o, List.mem_flatMap.mpr ⟨t, ht, ho⟩, hsame⟩

-- The components that stand directly in the namespace `key`.
theorem membersOf_eq_placed (key : Key) :
    membersOf key (declared trees) =
      ((placedComponents trees).filter fun u => u.path ≠ [] ∧ Key.joined u.path = key).map
        (·.key) := by
  rw [declared_eq_placed h, membersOf, List.filter_map, List.map_map]
  have hfilter : ∀ u ∈ placedComponents trees,
      ((fun d => decide (d.scope = key ∧ key.isEmpty = false)) ∘ PlacedComponent.definition) u =
        decide (u.path ≠ [] ∧ Key.joined u.path = key) := by
    intro u hu
    have hempty := isEmpty_joined (path_of_mem_placedComponents h hu).1
    change decide (Key.joined u.path = key ∧ key.isEmpty = false) = _
    rw [decide_eq_decide]
    constructor
    · rintro ⟨rfl, hne⟩
      exact ⟨fun hnil => by simp [hempty.mpr hnil] at hne, rfl⟩
    · rintro ⟨hne, rfl⟩
      exact ⟨rfl, Bool.eq_false_iff.mpr fun hnil => hne (hempty.mp hnil)⟩
  rw [List.filter_congr hfilter]
  refine List.map_congr_left fun u hu => ?_
  exact PlacedComponent.definition_key (path_of_mem_placedComponents h (List.mem_of_mem_filter hu)).1

end

theorem nodup_updateNamespace (key : Key) (f : NamespaceContent → NamespaceContent)
    {entries : List (Key × NamespaceContent)} (h : (entries.map Prod.fst).Nodup) :
    ((Merger.updateNamespace key f entries).map Prod.fst).Nodup := by
  have hkeys : (Merger.updateNamespace key f entries).map Prod.fst =
      if key ∈ entries.map Prod.fst then entries.map Prod.fst else entries.map Prod.fst ++ [key] := by
    clear h
    induction entries with
    | nil => rfl
    | cons entry rest ih =>
        obtain ⟨own, content⟩ := entry
        by_cases hown : own = key
        · simp [Merger.updateNamespace, hown]
        · rw [Merger.updateNamespace, if_neg hown, List.map_cons, ih]
          by_cases hmem : key ∈ rest.map Prod.fst <;> simp_all [eq_comm]
  rw [hkeys]
  split
  · exact h
  next hmem =>
    rw [← List.concat_eq_append]
    exact (List.nodup_concat _ _).mpr ⟨hmem, h⟩

theorem nodup_namespaces (trees : List FileTree) :
    ((finalState trees).namespaces.map Prod.fst).Nodup := by
  have happly : ∀ (m : Merger) (e : MergeEvent), (m.namespaces.map Prod.fst).Nodup →
      ((m.apply e).namespaces.map Prod.fst).Nodup := by
    intro m e hm
    cases e with
    | opening key attributes => exact nodup_updateNamespace key _ hm
    | definition scope d =>
        rw [Merger.apply, Merger.define]
        split
        · exact hm
        · split
          · exact hm
          · exact nodup_updateNamespace _ _ hm
  have hevents : ∀ (es : List MergeEvent) (m : Merger), (m.namespaces.map Prod.fst).Nodup →
      ((es.foldl Merger.apply m).namespaces.map Prod.fst).Nodup := by
    intro es
    induction es with
    | nil => exact fun m hm => hm
    | cons e es ih => exact fun m hm => ih _ (happly m e hm)
  have htrees : ∀ (trees : List FileTree) (m : Merger), (m.namespaces.map Prod.fst).Nodup →
      ((trees.foldl Merger.merge m).namespaces.map Prod.fst).Nodup := by
    intro trees
    induction trees with
    | nil => exact fun m hm => hm
    | cons t trees ih => exact fun m hm => ih _ (hevents t.events _ hm)
  obtain ⟨done, cycles, hsettled, _⟩ := exists_settled_trees trees
  obtain ⟨entries, found, hgrown, _⟩ := hsettled.grown
  rw [hgrown]
  exact htrees trees .empty List.nodup_nil

-- An entry under a key: the key is opened somewhere, and what the entry holds is collected from all
-- over the files.
theorem mem_namespaces_iff {trees : List FileTree} (h : ∀ t ∈ trees, t.WellFormed)
    (hcons : Consistent (declared trees)) (key : Key) (content : NamespaceContent) :
    (key, content) ∈ (finalState trees).namespaces ↔
      (∃ o ∈ placedOpenings trees, o.key = key) ∧
      content.components =
        ((placedComponents trees).filter fun u => u.path ≠ [] ∧ Key.joined u.path = key).map
          (·.key) ∧
      content.attributes = ((placedOpenings trees).filter (·.key = key)).flatMap (·.attributes) := by
  rw [← lookup_eq_some_iff (nodup_namespaces trees), namespaces_finalState, contentOf?,
    definitionsOf_events, kept_eq_self _ hcons.distinct, openingsOf_eq_placed h,
    membersOf_eq_placed h, content?]
  have hopened : (∃ o ∈ placedOpenings trees, o.key = key) ↔
      (placedOpenings trees).filter (·.key = key) ≠ [] := by
    simp [List.filter_eq_nil_iff]
  -- a namespace that nobody opens has no members
  have hnone : ((placedOpenings trees).filter (·.key = key)).map (·.attributes) = [] ∧
      ((placedComponents trees).filter fun u => u.path ≠ [] ∧ Key.joined u.path = key).map
        (·.key) = [] ↔ ¬ ∃ o ∈ placedOpenings trees, o.key = key := by
    rw [hopened, not_not, List.map_eq_nil_iff, and_iff_left_iff_imp, List.map_eq_nil_iff]
    intro hnil
    rw [List.filter_eq_nil_iff] at hnil ⊢
    intro u hu hplace
    obtain ⟨hne, rfl⟩ := of_decide_eq_true hplace
    obtain ⟨-, hroot | ⟨o, ho, hsame⟩⟩ := path_of_mem_placedComponents h hu
    · exact hne hroot
    · exact hnil o ho (decide_eq_true (congrArg Key.joined hsame))
  obtain ⟨components, attributes⟩ := content
  simp only [hnone, ite_not]
  split
  next hopen =>
    simp only [Option.some.injEq, NamespaceContent.mk.injEq, hopen, true_and, List.flatMap_def]
    rw [eq_comm (b := components), eq_comm (b := attributes)]
  next hopen => simp [hopen]

theorem lookup_eq_none_iff_keys {β : Type} (entries : List (Key × β)) (key : Key) :
    entries.lookup key = none ↔ key ∉ entries.map Prod.fst := by
  rw [List.lookup_eq_none_iff]
  simp only [bne_iff_ne, List.mem_map, not_exists, not_and]
  exact forall₂_congr fun entry _ => ne_comm

theorem get?_eq_none_iff (corpus : Corpus) (key : Key) :
    corpus.get? key = none ↔ ∀ kind, key ∉ (corpus.collection kind).map Prod.fst := by
  simp only [Corpus.get?, List.findSome?_eq_none_iff, lookup_eq_none_iff_keys]
  exact ⟨fun hall kind => hall kind (by cases kind <;> decide), fun hall kind _ => hall kind⟩

theorem get?_eq_some_iff (corpus : Corpus) (key : Key) (c : Component) :
    corpus.get? key = some c ↔ ∃ before kind after,
      [Kind.aspect, .card, .deck, .recipe, .verb, .legacy, .ending] = before ++ kind :: after ∧
      (∀ k ∈ before, key ∉ (corpus.collection k).map Prod.fst) ∧
      (corpus.collection kind).lookup key = some c := by
  simp only [Corpus.get?, List.findSome?_eq_some_iff, lookup_eq_none_iff_keys]
  constructor
  · rintro ⟨before, kind, after, hsplit, hfound, hbefore⟩
    exact ⟨before, kind, after, hsplit, hbefore, hfound⟩
  · rintro ⟨before, kind, after, hsplit, hbefore, hfound⟩
    exact ⟨before, kind, after, hsplit, hfound, hbefore⟩

theorem size_eq_sum (corpus : Corpus) :
    corpus.size = (Kind.all.flatMap fun kind => corpus.collection kind).length := by
  simp [Corpus.size, Kind.all, Nat.add_assoc]

-- Every component is of one of the kinds.
theorem length_flatMap_kinds (us : List PlacedComponent) :
    (Kind.all.flatMap fun kind => us.filter (·.kind = kind)).length = us.length := by
  induction us with
  | nil => rfl
  | cons u us ih =>
      simp only [Kind.all, List.flatMap_cons, List.flatMap_nil, List.length_append,
        List.length_nil, List.filter_cons, List.length_cons] at ih ⊢
      cases hkind : u.kind <;> simp <;> omega

-- The tree was read from some source.
def FileTree.IsParsed (t : FileTree) : Prop :=
  ∃ file source limit f, ParsedFile.ofSource file source limit = .ok f ∧ f.tree? = some t

-- A corpus has each component of its parsed files once, in the collection of its kind, in merge
-- order and under its joined key, and with what it inherits. It has one entry for each namespace
-- that is opened, with the keys of what stands directly in it and the attributes of all its
-- openings. A key alone finds the component in the first collection that has the key.
theorem merge_places_each_component_once {trees : List FileTree} {corpus : Corpus}
    (hparsed : ∀ t ∈ trees, t.IsParsed) (hok : mergeTrees trees = .ok corpus) :
    corpus.size = (placedComponents trees).length ∧
    (∀ kind, ((corpus.collection kind).map Prod.fst).Nodup ∧
      List.Forall₂ (fun u entry => entry.1 = u.key ∧ entry.2.kind = u.kind ∧ entry.2.id = u.key ∧
          Resolves (declared trees) u.definition entry.2)
        ((placedComponents trees).filter (·.kind = kind)) (corpus.collection kind)) ∧
    (corpus.namespaces.map Prod.fst).Nodup ∧
    (∀ key, key ∈ corpus.namespaces.map Prod.fst ↔ ∃ o ∈ placedOpenings trees, o.key = key) ∧
    (∀ key content, (key, content) ∈ corpus.namespaces →
      content.components =
        ((placedComponents trees).filter fun u => u.path ≠ [] ∧ Key.joined u.path = key).map
          (·.key) ∧
      content.attributes = ((placedOpenings trees).filter (·.key = key)).flatMap (·.attributes)) ∧
    corpus.attributes = trees.flatMap (·.attributes) ∧
    ∀ key, (corpus.get? key = none ↔ ∀ kind, key ∉ (corpus.collection kind).map Prod.fst) ∧
      ∀ c, corpus.get? key = some c ↔ ∃ before kind after,
        [Kind.aspect, .card, .deck, .recipe, .verb, .legacy, .ending] = before ++ kind :: after ∧
        (∀ k ∈ before, key ∉ (corpus.collection k).map Prod.fst) ∧
        (corpus.collection kind).lookup key = some c := by
  obtain ⟨hcons, rfl⟩ := (mergeTrees_ok_iff trees corpus).mp hok
  have h : ∀ t ∈ trees, t.WellFormed := by
    intro t ht
    obtain ⟨file, source, limit, f, hf, htree⟩ := hparsed t ht
    exact wellFormed_of_ofSource hf htree
  have hcollection : ∀ kind, (finalState trees).corpus.collection kind =
      ((placedComponents trees).filter (·.kind = kind)).map fun u =>
        (u.definition.key, (finalState trees).resolvedComponent u.definition) := by
    intro kind
    rw [collection_finalState hcons, declared_eq_placed h, List.filter_map, List.map_map]
    simp only [Function.comp_def, PlacedComponent.definition_kind]
  have hmem := mem_namespaces_iff h hcons
  refine ⟨?_, fun kind => ⟨?_, ?_⟩, nodup_namespaces trees, fun key => ?_,
    fun key content hentry => ((hmem key content).mp hentry).2, attributes_finalState trees,
    fun key => ⟨get?_eq_none_iff _ key, get?_eq_some_iff _ key⟩⟩
  · rw [size_eq_sum, ← length_flatMap_kinds]
    simp only [hcollection, List.length_flatMap, List.length_map]
  · rw [collection_finalState hcons]
    exact nodup_keys_collection hcons.distinct kind _
  · rw [hcollection, List.forall₂_map_right_iff, List.forall₂_same]
    intro u hu
    have hu := List.mem_of_mem_filter hu
    have hd : u.definition ∈ declared trees := by
      rw [declared_eq_placed h]
      exact List.mem_map_of_mem hu
    have hkey := PlacedComponent.definition_key (path_of_mem_placedComponents h hu).1
    have hresolves := resolves_finalState hcons hd
    exact ⟨hkey, hresolves.kind_eq.trans u.definition_kind,
      (hresolves.id_eq.trans (id_of_mem_declared hd)).trans hkey, hresolves⟩
  · constructor
    · intro hkey
      obtain ⟨⟨_, content⟩, hentry, rfl⟩ := List.mem_map.mp hkey
      exact ((hmem _ content).mp hentry).1
    · intro hopened
      exact List.mem_map_of_mem ((hmem key ⟨_, _⟩).mpr ⟨hopened, rfl, rfl⟩)

-- The trees of the sources that can be read.
def treesOf (sources : List (String × List Char)) : List FileTree :=
  sources.filterMap fun s => (ParsedFile.ofSource s.1 s.2).toOption.bind ParsedFile.tree?

theorem isParsed_of_mem_treesOf {sources : List (String × List Char)} {t : FileTree}
    (h : t ∈ treesOf sources) : t.IsParsed := by
  obtain ⟨⟨file, source⟩, -, h⟩ := List.mem_filterMap.mp h
  obtain ⟨f, hf, htree⟩ := Option.bind_eq_some_iff.mp h
  cases hsource : ParsedFile.ofSource file source with
  | error m =>
      rw [hsource] at hf
      cases hf
  | ok g =>
      rw [hsource] at hf
      cases hf
      exact ⟨file, source, defaultLimit, f, hsource, htree⟩

-- One namespace is opened in both files, by one name and by two.
def reopenedFiles : List (String × List Char) :=
  [("a.crucible", "#[g] namespace a.b \x7b card c \"C\" \x7b \x7d \x7d".toList),
    ("b.crucible", ("namespace a \x7b #[k] namespace b \x7b aspect c \"\" \"\" \x7b \x7d \x7d " ++
      "card d \"D\" \x7b \x7d \x7d").toList)]

theorem merge_places_each_component_once_reopened :
    (∀ t ∈ treesOf reopenedFiles, t.IsParsed) ∧
    ∃ corpus, mergeTrees (treesOf reopenedFiles) = .ok corpus ∧
      corpus.size = 3 ∧ (placedComponents (treesOf reopenedFiles)).length = 3 ∧
      corpus.namespaces.map (fun e => (e.1, e.2.components)) =
        [(("a.b" : Key), [("a.b.c" : Key), "a.b.c"]), ("a", ["a.d"])] ∧
      (corpus.namespaces.map Prod.fst).Nodup := by
  have hparsed : ∀ t ∈ treesOf reopenedFiles, t.IsParsed := fun t ht => isParsed_of_mem_treesOf ht
  have hview : (mergeTrees (treesOf reopenedFiles)).toOption.map (fun corpus =>
      (corpus.size, corpus.namespaces.map fun e => (e.1, e.2.components))) =
      some (3, [(("a.b" : Key), [("a.b.c" : Key), "a.b.c"]), ("a", ["a.d"])]) := by
    decide +kernel
  refine ⟨hparsed, ?_⟩
  cases hok : mergeTrees (treesOf reopenedFiles) with
  | error conflicts =>
      rw [hok] at hview
      cases hview
  | ok corpus =>
      rw [hok] at hview
      obtain ⟨hsize, hnamespaces⟩ := Prod.mk.inj (Option.some.inj hview)
      obtain ⟨hcount, -, hdistinct, -⟩ := merge_places_each_component_once hparsed hok
      exact ⟨corpus, rfl, hsize, hcount.symm.trans hsize, hnamespaces, hdistinct⟩

end CardLore
