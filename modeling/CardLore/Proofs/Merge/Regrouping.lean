import CardLore.Proofs.Merge.Success

namespace CardLore

open Relation

-- One change to the body of a file or of a namespace. Neither the places nor the attributes of
-- namespaces have to stay.
inductive Regroups : List Declaration → List Declaration → Prop
  -- The name is cut at a dot. Only the part before the dot may not be empty.
  | nest {id outer inner : Key} {attributes attributes' attributes'' : List Attribute}
      {body : List Declaration} {span span' span'' : Span} (houter : outer.text ≠ [])
      (hid : id.text = outer.text ++ Text.ofString "." ++ inner.text) :
      Regroups [.scope id attributes body span]
        [.scope outer attributes' [.scope inner attributes'' body span''] span']
  | reopen {id : Key} {attributes attributes' attributes'' : List Attribute}
      {first second : List Declaration} {span span' span'' : Span} :
      Regroups [.scope id attributes (first ++ second) span]
        [.scope id attributes' first span', .scope id attributes'' second span'']
  | inside {id : Key} {attributes attributes' : List Attribute} {body body' : List Declaration}
      {span span' : Span} (h : Regroups body body') :
      Regroups [.scope id attributes body span] [.scope id attributes' body' span']
  | beside {before after body body' : List Declaration} (h : Regroups body body') :
      Regroups (before ++ body ++ after) (before ++ body' ++ after)

-- One change to the files of a run: to the declarations of one of them, or a cut through it.
inductive RegroupsFiles : List FileTree → List FileTree → Prop
  | within {before after : List FileTree} {t t' : FileTree}
      (h : Regroups t.declarations t'.declarations) :
      RegroupsFiles (before ++ t :: after) (before ++ t' :: after)
  | split {before after : List FileTree} {t first second : FileTree}
      (h : t.declarations = first.declarations ++ second.declarations) :
      RegroupsFiles (before ++ t :: after) (before ++ first :: second :: after)

theorem isEmpty_child {scope id : Key} (hid : id.text ≠ []) : (scope.child id).isEmpty = false := by
  rw [Key.child]
  split
  · simpa [Key.isEmpty] using hid
  · simp [Key.isEmpty, hid]

theorem child_of_dotted {id outer inner : Key} (houter : outer.text ≠ [])
    (hid : id.text = outer.text ++ Text.ofString "." ++ inner.text) (scope : Key) :
    scope.child id = (scope.child outer).child inner := by
  obtain ⟨text⟩ := id
  subst hid
  rw [Key.child, Key.child.eq_def (scope.child outer), isEmpty_child houter, Key.child]
  by_cases hscope : scope.isEmpty = true
  · simp [hscope]
  · simp [hscope, List.append_assoc]

theorem declaredIn_append (scope : Key) (ds es : List Declaration) :
    Declaration.declaredIn scope (ds ++ es) =
      Declaration.declaredIn scope ds ++ Declaration.declaredIn scope es := by
  induction ds with
  | nil => rfl
  | cons d ds ih =>
      rw [List.cons_append, Declaration.declaredIn, Declaration.declaredIn, ih, List.append_assoc]

theorem Regroups.declaredIn_eq {ds es : List Declaration} (h : Regroups ds es) (scope : Key) :
    Declaration.declaredIn scope ds = Declaration.declaredIn scope es := by
  induction h generalizing scope with
  | nest houter hid =>
      simp only [Declaration.declaredIn, Declaration.declared, child_of_dotted houter hid scope,
        List.append_nil]
  | reopen =>
      simp only [Declaration.declaredIn, Declaration.declared, declaredIn_append, List.append_nil]
  | inside _ ih =>
      simp only [Declaration.declaredIn, Declaration.declared, ih (scope.child _)]
  | beside _ ih => simp only [declaredIn_append, ih scope]

theorem RegroupsFiles.declared_eq {trees others : List FileTree} (h : RegroupsFiles trees others) :
    declared trees = declared others := by
  cases h with
  | @within before after t t' h =>
      have ht : t.declared = t'.declared := h.declaredIn_eq .empty
      simp only [declared, List.flatMap_append, List.flatMap_cons, ht]
  | @split before after t first second h =>
      have ht : t.declared = first.declared ++ second.declared := by
        rw [FileTree.declared, h, declaredIn_append]
        rfl
      simp only [declared, List.flatMap_append, List.flatMap_cons, ht, List.append_assoc]

theorem declared_eq_of_eqvGen {trees others : List FileTree}
    (h : EqvGen RegroupsFiles trees others) : declared trees = declared others := by
  induction h with
  | rel _ _ hstep => exact hstep.declared_eq
  | refl _ => rfl
  | symm _ _ _ ih => exact ih.symm
  | trans _ _ _ _ _ hfirst hsecond => exact hfirst.trans hsecond

namespace Merger

-- The states are the same in all that a search for parents looks at.
structure Agrees (m m' : Merger) : Prop where
  table : m.table = m'.table
  conflicts : m.conflicts = m'.conflicts
  resolved : m.resolved = m'.resolved

namespace Agrees

variable {m m' : Merger}

theorem addConflict (h : m.Agrees m') (c : Conflict) : (m.addConflict c).Agrees (m'.addConflict c) :=
  ⟨h.table, congrArg (· ++ [c]) h.conflicts, h.resolved⟩

theorem remember (h : m.Agrees m') (d : Definition) (c : Component) :
    (m.remember d c).Agrees (m'.remember d c) :=
  ⟨h.table, h.conflicts, congrArg (· ++ [((d.kind, d.key), c)]) h.resolved⟩

theorem resolve (h : m.Agrees m') (bound : Nat) (stack : List Definition) (d : Definition) :
    (Merger.resolve bound stack d m).1 = (Merger.resolve bound stack d m').1 ∧
      (Merger.resolve bound stack d m).2.Agrees (Merger.resolve bound stack d m').2 := by
  induction bound generalizing stack d with
  | zero => exact ⟨rfl, h⟩
  | succ bound ih =>
      simp only [Merger.resolve, ← h.table, ← h.resolved]
      cases m.resolved.lookup (d.kind, d.key) with
      | some c => exact ⟨rfl, h⟩
      | none =>
          cases d.inherits with
          | none => exact ⟨rfl, h.remember d d.component⟩
          | some name =>
              dsimp only
              by_cases hcycle : stack.any (·.sameIdentity d) = true
              · rw [if_pos hcycle, if_pos hcycle]
                exact ⟨rfl, h.addConflict _⟩
              · rw [if_neg hcycle, if_neg hcycle]
                cases m.table.resolve? d.kind name d.scope with
                | none => exact ⟨rfl, (h.addConflict _).remember d d.component⟩
                | some parent =>
                    obtain ⟨hcomponent, hstate⟩ := ih (stack ++ [d]) parent
                    dsimp only
                    rw [← hcomponent]
                    exact ⟨rfl, hstate.remember d _⟩

theorem foldl_resolveOne (h : m.Agrees m') (queue : List Definition) :
    (queue.foldl Merger.resolveOne m).Agrees (queue.foldl Merger.resolveOne m') := by
  induction queue generalizing m m' with
  | nil => exact h
  | cons d queue ih =>
      have hone : (m.resolveOne d).Agrees (m'.resolveOne d) := by
        rw [Merger.resolveOne, Merger.resolveOne, h.table]
        exact (h.resolve _ [] d).2
      exact ih hone

theorem resolveInheritance (h : m.Agrees m') : m.resolveInheritance.Agrees m'.resolveInheritance := by
  rw [Merger.resolveInheritance, Merger.resolveInheritance, h.table]
  exact h.foldl_resolveOne m'.table.all

end Agrees

end Merger

-- The same components under the same keys, in the same order, with the same attributes.
structure Corpus.SameComponents (c c' : Corpus) : Prop where
  collection : ∀ kind, c.collection kind = c'.collection kind
  componentAttributes : c.componentAttributes = c'.componentAttributes

theorem Merger.Agrees.sameComponents {m m' : Merger} (h : m.Agrees m') :
    m.corpus.SameComponents m'.corpus := by
  obtain ⟨table, conflicts, _, _, resolved, _⟩ := m
  obtain ⟨_, _, _, _, _, _⟩ := m'
  obtain ⟨rfl, rfl, rfl⟩ := h
  exact ⟨fun kind => by cases kind <;> rfl, rfl⟩

theorem agrees_finalState {trees others : List FileTree} (h : declared trees = declared others) :
    (finalState trees).Agrees (finalState others) := by
  have hcollected := collected_trees trees
  have hothers := collected_trees others
  apply Merger.Agrees.resolveInheritance
  refine ⟨?_, ?_, ?_⟩
  · have hdefinitions : (trees.foldl Merger.merge .empty).table.definitions =
        (others.foldl Merger.merge .empty).table.definitions := by
      rw [hcollected.table, hothers.table, definitionsOf_events, definitionsOf_events, h]
    exact congrArg DefinitionTable.mk hdefinitions
  · rw [hcollected.conflicts, hothers.conflicts, definitionsOf_events, definitionsOf_events, h]
  · rw [hcollected.resolved, hothers.resolved]

-- However often and wherever the declarations of the files are regrouped, a merge succeeds with the
-- same components and the same attributes of components, or fails with the same conflicts. The
-- definitions are the same in the same namespaces, and every name stands for the same definition as
-- before. The depth of the stack is left out of this, see `Merger.resolve`.
theorem merge_sees_only_flattened {trees others : List FileTree}
    (h : EqvGen RegroupsFiles trees others) :
    (∀ corpus, mergeTrees trees = .ok corpus →
      ∃ corpus', mergeTrees others = .ok corpus' ∧ corpus.SameComponents corpus') ∧
    (∀ conflicts, mergeTrees trees = .error conflicts → mergeTrees others = .error conflicts) ∧
    declared trees = declared others ∧
    ∀ kind name scope, (finalState trees).table.resolve? kind name scope =
      (finalState others).table.resolve? kind name scope := by
  have hdeclared := declared_eq_of_eqvGen h
  have hagrees := agrees_finalState hdeclared
  refine ⟨?_, ?_, hdeclared, fun kind name scope => by rw [hagrees.table]⟩
  · intro corpus hok
    obtain ⟨hconsistent, rfl⟩ := (mergeTrees_ok_iff trees corpus).mp hok
    refine ⟨(finalState others).corpus, (mergeTrees_ok_iff others _).mpr ?_, hagrees.sameComponents⟩
    exact ⟨hdeclared ▸ hconsistent, rfl⟩
  · intro conflicts herror
    by_cases hnone : (finalState trees).conflicts = []
    · rw [mergeTrees_of_nil hnone] at herror
      cases herror
    · rw [mergeTrees_of_ne_nil hnone] at herror
      rw [mergeTrees_of_ne_nil (hagrees.conflicts ▸ hnone), ← hagrees.conflicts]
      exact herror

-- Two cards of the namespace `a.b`, the second of which inherits from the first by its short name.
def flame : Declaration :=
  .component ⟨"x", [⟨"hot", .null⟩], .card { id := "x", label := "X", lifetime := some 4 }, none,
    .ofFile ""⟩

def ember : Declaration :=
  .component ⟨"y", [], .card { id := "y", label := "Y" }, some "x", .ofFile ""⟩

def plainScope (id : Key) (body : List Declaration) : Declaration :=
  .scope id [] body (.ofFile "")

def dottedFiles : List FileTree :=
  [⟨"", [], [plainScope "a.b" [flame, ember]]⟩]

-- The same with the namespaces in each other, and in two files.
def nestedFiles : List FileTree :=
  [⟨"", [], [plainScope "a" [plainScope "b" [flame]]]⟩,
    ⟨"", [], [plainScope "a" [plainScope "b" [ember]]]⟩]

theorem regroups_dottedFiles : EqvGen RegroupsFiles dottedFiles nestedFiles := by
  have hfile : ∀ {ds es : List Declaration}, Regroups ds es →
      EqvGen RegroupsFiles [⟨"", [], ds⟩] [⟨"", [], es⟩] :=
    fun h => .rel _ _ (@RegroupsFiles.within [] [] _ _ h)
  have hnest : Regroups [plainScope "a.b" [flame, ember]]
      [plainScope "a" [plainScope "b" [flame, ember]]] :=
    .nest (by decide) (by decide)
  have hinner : Regroups [plainScope "b" ([flame] ++ [ember])]
      [plainScope "b" [flame], plainScope "b" [ember]] :=
    .reopen
  have hinside : Regroups [plainScope "a" [plainScope "b" [flame, ember]]]
      [plainScope "a" [plainScope "b" [flame], plainScope "b" [ember]]] :=
    .inside hinner
  have houter : Regroups [plainScope "a" ([plainScope "b" [flame]] ++ [plainScope "b" [ember]])]
      [plainScope "a" [plainScope "b" [flame]], plainScope "a" [plainScope "b" [ember]]] :=
    .reopen
  refine .trans _ _ _ (hfile hnest) (.trans _ _ _ (hfile hinside) ?_)
  exact .trans _ _ _ (hfile houter) (.rel _ _ (@RegroupsFiles.split [] [] _ _ _ rfl))

theorem merge_sees_only_flattened_nested :
    EqvGen RegroupsFiles dottedFiles nestedFiles ∧
    ∃ corpus corpus', mergeTrees dottedFiles = .ok corpus ∧ mergeTrees nestedFiles = .ok corpus' ∧
      corpus.SameComponents corpus' ∧
      (corpus'.collection .card).lookup ("a.b.y" : Key) =
        some (.card { id := "a.b.y", label := "Y", lifetime := some 4 }) := by
  have hok : mergeTrees dottedFiles = .ok (finalState dottedFiles).corpus := mergeTrees_of_nil rfl
  obtain ⟨corpus', hok', hsame⟩ := (merge_sees_only_flattened regroups_dottedFiles).1 _ hok
  refine ⟨regroups_dottedFiles, _, corpus', hok, hok', hsame, ?_⟩
  rw [← hsame.collection .card]
  rfl

end CardLore
