import CardLore.Proofs.Merge.Success

namespace CardLore

-- The definitions under a key that carry attributes, in the order of the table.
def carriers (ds : List Definition) (key : Key) : List Definition :=
  (DefinitionTable.all ⟨ds⟩).filter fun d => d.key = key && !d.attributes.isEmpty

-- What a definition alone would leave under its key: all its attributes, and nothing if it has
-- none.
def Definition.ownEntry? (d : Definition) : Option (List Attribute) :=
  if d.attributes.isEmpty then none else some d.attributes

theorem mem_carriers {ds : List Definition} {key : Key} {d : Definition} :
    d ∈ carriers ds key ↔ d ∈ ds ∧ d.key = key ∧ d.attributes ≠ [] := by
  simp [carriers, mem_all]

theorem lookup_putAttributes (key k : Key) (attributes : List Attribute)
    (entries : List (Key × List Attribute)) :
    (Merger.putAttributes key attributes entries).lookup k =
      if k = key then some attributes else entries.lookup k := by
  induction entries with
  | nil =>
      by_cases h : k = key
      · simp [Merger.putAttributes, h]
      · simp [Merger.putAttributes, List.lookup_cons, h, beq_false_of_ne h]
  | cons entry rest ih =>
      obtain ⟨own, content⟩ := entry
      by_cases hown : own = key
      · subst hown
        by_cases h : k = own
        · simp [Merger.putAttributes, h]
        · simp [Merger.putAttributes, List.lookup_cons, h, beq_false_of_ne h]
      · by_cases h : k = own
        · subst h
          simp [Merger.putAttributes, hown]
        · simp [Merger.putAttributes, List.lookup_cons, hown, beq_false_of_ne h, ih]

-- Each definition that carries attributes puts them over those that its key had before.
theorem lookup_componentAttributes (m : Merger) (key : Key) :
    m.componentAttributes.lookup key =
      (carriers m.table.definitions key).getLast?.map (·.attributes) := by
  have hfold : ∀ ds : List Definition,
      (ds.foldl (fun entries d => if d.attributes.isEmpty then entries
        else Merger.putAttributes d.key d.attributes entries) []).lookup key =
      (ds.filter fun d => d.key = key && !d.attributes.isEmpty).getLast?.map (·.attributes) := by
    intro ds
    induction ds using List.reverseRecOn with
    | nil => rfl
    | append_singleton ds d ih =>
        rw [List.foldl_concat, List.filter_append]
        by_cases hnone : d.attributes.isEmpty = true
        · rw [if_pos hnone, ih]
          simp [hnone]
        · rw [if_neg hnone, lookup_putAttributes, ih]
          by_cases hkey : key = d.key
          · simp [hkey, hnone]
          · simp [hkey, Ne.symm hkey]
  exact hfold m.table.all

-- Where all carriers of a definition's key carry what it carries, they leave its own entry.
theorem getLast?_carriers {ds : List Definition} {d : Definition} (hd : d ∈ ds)
    (hagree : ∀ e ∈ carriers ds d.key, e.attributes = d.attributes) :
    (carriers ds d.key).getLast?.map (·.attributes) = d.ownEntry? := by
  cases hlast : (carriers ds d.key).getLast? with
  | none =>
      have hnone : d ∉ carriers ds d.key := by
        rw [List.getLast?_eq_none_iff.mp hlast]
        exact List.not_mem_nil
      have hempty : d.attributes = [] := by
        by_contra hcarries
        exact hnone (mem_carriers.mpr ⟨hd, rfl, hcarries⟩)
      simp [Definition.ownEntry?, hempty]
  | some e =>
      have he : e ∈ carriers ds d.key := List.mem_of_getLast? hlast
      have hcarries : d.attributes ≠ [] := hagree e he ▸ (mem_carriers.mp he).2.2
      simp [Definition.ownEntry?, hcarries, hagree e he]

-- Under a key the corpus has the attributes of the last definition in the table that carries any.
-- That is a component's own entry if no component of another kind with its key carries attributes;
-- all components have their own entries exactly if those that share a key carry the same.
theorem merge_keeps_last_attributes {trees : List FileTree} {corpus : Corpus}
    (hok : mergeTrees trees = .ok corpus) :
    (∀ key, corpus.componentAttributes.lookup key =
      (carriers (declared trees) key).getLast?.map (·.attributes)) ∧
    (∀ d ∈ declared trees,
      (∀ e ∈ declared trees, e.key = d.key → e.kind ≠ d.kind → e.attributes = []) →
        corpus.componentAttributes.lookup d.key = d.ownEntry?) ∧
    ((∀ d ∈ declared trees, corpus.componentAttributes.lookup d.key = d.ownEntry?) ↔
      ∀ d ∈ declared trees, ∀ e ∈ declared trees, e.key = d.key → e.attributes = d.attributes) := by
  obtain ⟨h, rfl⟩ := (mergeTrees_ok_iff trees corpus).mp hok
  have hlookup : ∀ key, (finalState trees).corpus.componentAttributes.lookup key =
      (carriers (declared trees) key).getLast?.map (·.attributes) := by
    intro key
    rw [← definitions_finalState h]
    exact lookup_componentAttributes (finalState trees) key
  refine ⟨hlookup, ?_, ?_, ?_⟩
  · intro d hd halone
    rw [hlookup]
    refine getLast?_carriers hd fun e he => ?_
    obtain ⟨hmem, hkey, hcarries⟩ := mem_carriers.mp he
    by_cases hkind : e.kind = d.kind
    · rw [eq_of_identity h.distinct hmem hd (Prod.ext hkind hkey)]
    · exact absurd (halone e hmem hkey hkind) hcarries
  · intro hown d hd e he hkey
    have hsame : e.ownEntry? = d.ownEntry? := by
      rw [← hown d hd, ← hown e he, hkey]
    by_cases hd' : d.attributes = [] <;> by_cases he' : e.attributes = [] <;>
      simp_all [Definition.ownEntry?]
  · intro hagree d hd
    rw [hlookup]
    refine getLast?_carriers hd fun e he => ?_
    obtain ⟨hmem, hkey, _⟩ := mem_carriers.mp he
    exact hagree d hd e hmem hkey

-- An aspect with an attribute, and a card under the same key with the given attributes.
def sharedAspect : ComponentDeclaration :=
  ⟨.ofChars ['h'], [⟨.ofChars ['x'], .null⟩],
    .aspect { id := .ofChars ['h'], label := [], description := [] }, none, .ofFile ""⟩

def sharedKeyFiles (attributes : List Attribute) : List FileTree :=
  [⟨"", [], [.component sharedAspect, .component ⟨.ofChars ['h'], attributes,
    .card { id := .ofChars ['h'], label := [] }, none, .ofFile ""⟩]⟩]

theorem merge_keeps_last_attributes_plain_card :
    ∃ corpus, mergeTrees (sharedKeyFiles []) = .ok corpus ∧
      corpus.componentAttributes.lookup (.ofChars ['h']) = some sharedAspect.attributes := by
  have hok : mergeTrees (sharedKeyFiles []) = .ok (finalState (sharedKeyFiles [])).corpus :=
    mergeTrees_of_nil rfl
  obtain ⟨hlookup, _, _⟩ := merge_keeps_last_attributes hok
  exact ⟨_, hok, (hlookup _).trans rfl⟩

-- The card's attribute takes the place of the aspect's.
theorem merge_drops_attributes_of_aspect :
    ∃ corpus, mergeTrees (sharedKeyFiles [⟨.ofChars ['y'], .null⟩]) = .ok corpus ∧
      ∃ d ∈ declared (sharedKeyFiles [⟨.ofChars ['y'], .null⟩]), d.kind = .aspect ∧
        d.attributes = sharedAspect.attributes ∧ d.attributes ≠ [] ∧
        corpus.componentAttributes.lookup d.key ≠ some d.attributes := by
  refine ⟨_, mergeTrees_of_nil rfl, .ofDeclaration .empty sharedAspect, List.mem_cons_self, rfl, rfl,
    List.cons_ne_nil _ _, fun hkept => ?_⟩
  have hkeys : some [Key.ofChars ['y']] = some [Key.ofChars ['x']] :=
    congrArg (Option.map (List.map Attribute.key)) hkept
  exact absurd hkeys (by decide)

end CardLore
