import CardLore.Proofs.Merge.Declared

namespace CardLore

namespace MergeEvent

def definition? : MergeEvent → Option Definition
  | .opening .. => none
  | .definition scope d => some (.ofDeclaration scope d)

-- The attributes that an event gives to the namespace `key`, if it opens it.
def openingOf? (key : Key) : MergeEvent → Option (List Attribute)
  | .opening k attributes => if k = key then some attributes else none
  | .definition .. => none

end MergeEvent

-- The definitions among some events.
def definitionsOf (es : List MergeEvent) : List Definition :=
  es.filterMap MergeEvent.definition?

-- The keys of the definitions that stand directly in a namespace. What stands in no namespace is
-- listed nowhere.
def membersOf (key : Key) (ds : List Definition) : List Key :=
  (ds.filter fun d => d.scope = key ∧ key.isEmpty = false).map (·.key)

-- The attributes that each opening of a namespace gives to it.
def openingsOf (key : Key) (es : List MergeEvent) : List (List Attribute) :=
  es.filterMap (MergeEvent.openingOf? key)

-- The content of a namespace with the given openings and members, if there are any.
def content? (openings : List (List Attribute)) (members : List Key) : Option NamespaceContent :=
  if openings = [] ∧ members = [] then none else some ⟨members, openings.flatten⟩

def contentOf? (key : Key) (es : List MergeEvent) : Option NamespaceContent :=
  content? (openingsOf key es) (membersOf key (kept (definitionsOf es)))

theorem content?_opening (openings : List (List Attribute)) (members : List Key)
    (attributes : List Attribute) :
    content? (openings ++ [attributes]) members =
      let content := (content? openings members).getD ⟨[], []⟩
      some { content with attributes := content.attributes ++ attributes } := by
  by_cases h : openings = [] ∧ members = []
  · simp [content?, h]
  · simp [content?, h]

theorem content?_member (openings : List (List Attribute)) (members : List Key) (key : Key) :
    content? openings (members ++ [key]) =
      let content := (content? openings members).getD ⟨[], []⟩
      some { content with components := content.components ++ [key] } := by
  by_cases h : openings = [] ∧ members = []
  · simp [content?, h]
  · simp [content?, h]

mutual

theorem Declaration.definitionsOf_events (scope : Key) (d : Declaration) :
    definitionsOf (d.events scope) = d.declared scope := by
  cases d with
  | scope id attributes body span =>
      rw [Declaration.events, Declaration.declared]
      exact Declaration.definitionsOf_eventsOf (scope.child id) body
  | component d => rfl

theorem Declaration.definitionsOf_eventsOf (scope : Key) (ds : List Declaration) :
    definitionsOf (Declaration.eventsOf scope ds) = Declaration.declaredIn scope ds := by
  cases ds with
  | nil => rfl
  | cons d rest =>
      have hd := Declaration.definitionsOf_events scope d
      have hr := Declaration.definitionsOf_eventsOf scope rest
      simp only [CardLore.definitionsOf] at hd hr ⊢
      simp only [Declaration.eventsOf, Declaration.declaredIn, List.filterMap_append, hd, hr]

end

theorem definitionsOf_events (trees : List FileTree) :
    definitionsOf (trees.flatMap FileTree.events) = declared trees := by
  induction trees with
  | nil => rfl
  | cons t rest ih =>
      have ht : definitionsOf t.events = t.declared :=
        Declaration.definitionsOf_eventsOf .empty t.declarations
      simp only [definitionsOf, declared] at ht ih ⊢
      simp only [List.flatMap_cons, List.filterMap_append, ht, ih]

theorem lookup_updateNamespace (key k : Key) (f : NamespaceContent → NamespaceContent)
    (entries : List (Key × NamespaceContent)) :
    (Merger.updateNamespace key f entries).lookup k =
      if k = key then some (f ((entries.lookup key).getD ⟨[], []⟩)) else entries.lookup k := by
  induction entries with
  | nil =>
      by_cases h : k = key
      · simp [Merger.updateNamespace, h]
      · simp [Merger.updateNamespace, List.lookup_cons, h, beq_false_of_ne h]
  | cons entry rest ih =>
      obtain ⟨own, content⟩ := entry
      by_cases ho : own = key
      · subst ho
        by_cases h : k = own
        · simp [Merger.updateNamespace, h]
        · simp [Merger.updateNamespace, List.lookup_cons, h, beq_false_of_ne h]
      · have hk : (key == own) = false := beq_false_of_ne (Ne.symm ho)
        by_cases h : k = own
        · subst h
          simp [Merger.updateNamespace, ho]
        · simp [Merger.updateNamespace, List.lookup_cons, ho, beq_false_of_ne h, hk, ih]

-- The state of a merge that has seen the events `es`, with no parent looked up yet.
structure Collected (m : Merger) (es : List MergeEvent) : Prop where
  table : m.table.definitions = kept (definitionsOf es)
  conflicts : m.conflicts = repeats (definitionsOf es)
  namespaces : ∀ key, m.namespaces.lookup key = contentOf? key es
  resolved : m.resolved = []

theorem lookup?_eq_find (t : DefinitionTable) (d : Definition) :
    t.lookup? d.kind d.key = t.definitions.find? (·.sameIdentity d) := rfl

theorem Collected.openNamespace {m : Merger} {es : List MergeEvent} (hm : Collected m es)
    (key : Key) (attributes : List Attribute) :
    Collected (m.openNamespace key attributes) (es ++ [.opening key attributes]) := by
  have hds : definitionsOf (es ++ [.opening key attributes]) = definitionsOf es := by
    simp [definitionsOf, MergeEvent.definition?]
  refine ⟨?_, ?_, ?_, hm.resolved⟩
  · rw [hds]; exact hm.table
  · rw [hds]; exact hm.conflicts
  · intro k
    simp only [Merger.openNamespace, lookup_updateNamespace, hm.namespaces, contentOf?, hds]
    by_cases hk : k = key
    · subst hk
      have ho : openingsOf k (es ++ [.opening k attributes]) = openingsOf k es ++ [attributes] := by
        simp [openingsOf, MergeEvent.openingOf?]
      rw [ho, content?_opening, if_pos rfl]
    · have ho : openingsOf k (es ++ [.opening key attributes]) = openingsOf k es := by
        simp [openingsOf, MergeEvent.openingOf?, Ne.symm hk]
      rw [ho, if_neg hk]

theorem membersOf_concat (key : Key) (ds : List Definition) (d : Definition) :
    membersOf key (ds ++ [d]) =
      membersOf key ds ++ if d.scope = key ∧ key.isEmpty = false then [d.key] else [] := by
  by_cases h : d.scope = key ∧ key.isEmpty = false <;> simp [membersOf, h]

-- A definition of a kind and key that are taken already changes nothing but the conflicts.
theorem Collected.repeated {m : Merger} {es : List MergeEvent} (hm : Collected m es)
    {e : MergeEvent} {d existing : Definition} (he : definitionsOf [e] = [d])
    (hop : ∀ key, openingsOf key [e] = [])
    (hx : (definitionsOf es).find? (·.sameIdentity d) = some existing) :
    Collected (m.addConflict (.duplicate d existing)) (es ++ [e]) := by
  have hds : definitionsOf (es ++ [e]) = definitionsOf es ++ [d] := by
    rw [← he]
    exact List.filterMap_append
  have hrep : (definitionsOf es).any (·.sameIdentity d) = true := by
    rw [List.any_eq_true]
    exact ⟨existing, List.mem_of_find?_eq_some hx,
      List.find?_some (p := fun x : Definition => x.sameIdentity d) hx⟩
  have hkept : kept (definitionsOf es ++ [d]) = kept (definitionsOf es) := by
    rw [kept_concat, hrep, if_pos rfl, List.append_nil]
  refine ⟨?_, ?_, ?_, hm.resolved⟩
  · rw [hds, hkept]; exact hm.table
  · rw [hds, repeats_concat, hx]
    simp [Merger.addConflict, hm.conflicts]
  · intro key
    have ho : openingsOf key (es ++ [e]) = openingsOf key es := by
      have happ : openingsOf key (es ++ [e]) = openingsOf key es ++ openingsOf key [e] :=
        List.filterMap_append
      rw [happ, hop, List.append_nil]
    rw [contentOf?, ho, hds, hkept]
    exact hm.namespaces key

-- A definition of a new kind and key goes into the table and, unless it stands in no namespace,
-- into the content of its namespace.
theorem Collected.fresh {m : Merger} {es : List MergeEvent} (hm : Collected m es)
    {e : MergeEvent} {d : Definition} (he : definitionsOf [e] = [d])
    (hop : ∀ key, openingsOf key [e] = [])
    (hx : (definitionsOf es).find? (·.sameIdentity d) = none) :
    Collected (m.define d) (es ++ [e]) := by
  have hds : definitionsOf (es ++ [e]) = definitionsOf es ++ [d] := by
    rw [← he]
    exact List.filterMap_append
  have hnew : (definitionsOf es).any (·.sameIdentity d) = false := by
    rw [List.any_eq_false]
    exact fun x hx' => List.find?_eq_none.mp hx x hx'
  have hkept : kept (definitionsOf (es ++ [e])) = kept (definitionsOf es) ++ [d] := by
    rw [hds, kept_concat, hnew]
    simp
  have hlookup : m.table.lookup? d.kind d.key = none := by
    rw [lookup?_eq_find, hm.table, find_kept, hx]
  have htable : (m.table.add d).definitions = kept (definitionsOf (es ++ [e])) := by
    rw [hkept, DefinitionTable.add, hm.table]
  have hconf : m.conflicts = repeats (definitionsOf (es ++ [e])) := by
    rw [hds, repeats_concat, hx, hm.conflicts]
    simp
  have hcontent : ∀ key, contentOf? key (es ++ [e]) =
      content? (openingsOf key es) (membersOf key (kept (definitionsOf es)) ++
        if d.scope = key ∧ key.isEmpty = false then [d.key] else []) := by
    intro key
    have happ : openingsOf key (es ++ [e]) = openingsOf key es ++ openingsOf key [e] :=
      List.filterMap_append
    rw [contentOf?, hkept, membersOf_concat, happ, hop, List.append_nil]
  simp only [Merger.define, hlookup]
  by_cases hs : d.scope.isEmpty
  · rw [if_pos hs]
    refine ⟨htable, hconf, ?_, hm.resolved⟩
    intro key
    have hno : ¬(d.scope = key ∧ key.isEmpty = false) := by
      rintro ⟨rfl, hk⟩
      simp [hk] at hs
    rw [hcontent, if_neg hno, List.append_nil]
    exact hm.namespaces key
  · rw [if_neg hs]
    refine ⟨htable, hconf, ?_, hm.resolved⟩
    intro key
    simp only [lookup_updateNamespace, hm.namespaces, hcontent]
    by_cases hk : key = d.scope
    · subst hk
      rw [if_pos rfl, if_pos ⟨rfl, by simpa using hs⟩, content?_member, contentOf?]
    · rw [if_neg hk, if_neg (fun h => hk h.1.symm), List.append_nil, contentOf?]

theorem Collected.define {m : Merger} {es : List MergeEvent} (hm : Collected m es)
    (scope : Key) (c : ComponentDeclaration) :
    Collected (m.define (.ofDeclaration scope c)) (es ++ [.definition scope c]) := by
  have he : definitionsOf [.definition scope c] = [Definition.ofDeclaration scope c] := rfl
  have hop : ∀ key, openingsOf key [.definition scope c] = [] := fun _ => rfl
  cases hx : (definitionsOf es).find? (·.sameIdentity (Definition.ofDeclaration scope c)) with
  | some existing =>
      have hlookup : m.table.lookup? (Definition.ofDeclaration scope c).kind
          (Definition.ofDeclaration scope c).key = some existing := by
        rw [lookup?_eq_find, hm.table, find_kept, hx]
      simpa only [Merger.define, hlookup] using hm.repeated he hop hx
  | none => exact hm.fresh he hop hx

theorem Collected.apply {m : Merger} {es : List MergeEvent} (hm : Collected m es)
    (e : MergeEvent) : Collected (m.apply e) (es ++ [e]) := by
  cases e with
  | opening key attributes => exact hm.openNamespace key attributes
  | definition scope c => exact hm.define scope c

theorem Collected.foldl_apply {m : Merger} {es : List MergeEvent} (hm : Collected m es)
    (more : List MergeEvent) : Collected (more.foldl Merger.apply m) (es ++ more) := by
  induction more generalizing m es with
  | nil => simpa using hm
  | cons e rest ih => simpa using ih (hm.apply e)

theorem Collected.merge {m : Merger} {es : List MergeEvent} (hm : Collected m es)
    (t : FileTree) : Collected (m.merge t) (es ++ t.events) := by
  have hm' : Collected
      { m with attributes := m.attributes ++ t.attributes, files := m.files + 1 } es :=
    ⟨hm.table, hm.conflicts, hm.namespaces, hm.resolved⟩
  exact hm'.foldl_apply t.events

theorem Collected.foldl_merge {m : Merger} {es : List MergeEvent} (hm : Collected m es)
    (trees : List FileTree) :
    Collected (trees.foldl Merger.merge m) (es ++ trees.flatMap FileTree.events) := by
  induction trees generalizing m es with
  | nil => simpa using hm
  | cons t rest ih => simpa [List.flatMap_cons] using ih (hm.merge t)

-- The state of a fresh merge after the files `trees`.
theorem collected_trees (trees : List FileTree) :
    Collected (trees.foldl Merger.merge .empty) (trees.flatMap FileTree.events) := by
  have hempty : Collected .empty [] := by
    refine ⟨rfl, rfl, ?_, rfl⟩
    intro key
    rfl
  simpa using hempty.foldl_merge trees

theorem attributes_apply (m : Merger) (e : MergeEvent) :
    (m.apply e).attributes = m.attributes := by
  cases e with
  | opening key attributes => rfl
  | definition scope c =>
      simp only [Merger.apply, Merger.define]
      split
      · rfl
      · split <;> rfl

theorem attributes_foldl_apply (m : Merger) (es : List MergeEvent) :
    (es.foldl Merger.apply m).attributes = m.attributes := by
  induction es generalizing m with
  | nil => rfl
  | cons e rest ih => rw [List.foldl_cons, ih, attributes_apply]

theorem attributes_foldl_merge (m : Merger) (trees : List FileTree) :
    (trees.foldl Merger.merge m).attributes =
      m.attributes ++ trees.flatMap FileTree.attributes := by
  induction trees generalizing m with
  | nil => simp
  | cons t rest ih =>
      rw [List.foldl_cons, ih, Merger.merge, attributes_foldl_apply, List.flatMap_cons,
        List.append_assoc]

end CardLore
