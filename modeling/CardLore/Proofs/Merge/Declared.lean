import CardLore.Merge.Basic
import Mathlib.Data.List.Induction
import Mathlib.Data.List.Nodup

namespace CardLore

namespace Definition

def identity (d : Definition) : Kind × Key := (d.kind, d.key)

theorem sameIdentity_iff (d e : Definition) :
    d.sameIdentity e = true ↔ d.identity = e.identity := by
  simp [sameIdentity, identity]

end Definition

mutual

-- The definitions that a declaration in the namespace `scope` makes, in the order of the source.
def Declaration.declared (scope : Key) : Declaration → List Definition
  | .scope id _ body _ => Declaration.declaredIn (scope.child id) body
  | .component d => [.ofDeclaration scope d]

def Declaration.declaredIn (scope : Key) : List Declaration → List Definition
  | [] => []
  | d :: rest => d.declared scope ++ Declaration.declaredIn scope rest

end

def FileTree.declared (t : FileTree) : List Definition :=
  Declaration.declaredIn .empty t.declarations

-- All definitions of the files, in merge order.
def declared (trees : List FileTree) : List Definition :=
  trees.flatMap FileTree.declared

-- Of the definitions behind those in `earlier`, the ones that are first for their kind and key.
def keptAfter (earlier : List Definition) : List Definition → List Definition
  | [] => []
  | d :: rest =>
    if earlier.any (·.sameIdentity d) then keptAfter (earlier ++ [d]) rest
    else d :: keptAfter (earlier ++ [d]) rest

-- The conflicts of the definitions behind those in `earlier`: each one that comes too late, with
-- the first definition of its kind and key.
def repeatsAfter (earlier : List Definition) : List Definition → List Conflict
  | [] => []
  | d :: rest =>
    ((earlier.find? (·.sameIdentity d)).map (Conflict.duplicate d)).toList ++
      repeatsAfter (earlier ++ [d]) rest

def kept (ds : List Definition) : List Definition := keptAfter [] ds

def repeats (ds : List Definition) : List Conflict := repeatsAfter [] ds

theorem keptAfter_concat (earlier ds : List Definition) (d : Definition) :
    keptAfter earlier (ds ++ [d]) =
      keptAfter earlier ds ++ if (earlier ++ ds).any (·.sameIdentity d) then [] else [d] := by
  induction ds generalizing earlier with
  | nil => by_cases h : earlier.any (·.sameIdentity d) <;> simp [keptAfter, h]
  | cons e rest ih =>
      by_cases h : earlier.any (·.sameIdentity e) <;>
        simp [keptAfter, h, ih (earlier ++ [e]), List.append_assoc]

theorem repeatsAfter_concat (earlier ds : List Definition) (d : Definition) :
    repeatsAfter earlier (ds ++ [d]) = repeatsAfter earlier ds ++
      (((earlier ++ ds).find? (·.sameIdentity d)).map (Conflict.duplicate d)).toList := by
  induction ds generalizing earlier with
  | nil => simp [repeatsAfter]
  | cons e rest ih => simp [repeatsAfter, ih (earlier ++ [e]), List.append_assoc]

theorem kept_concat (ds : List Definition) (d : Definition) :
    kept (ds ++ [d]) = kept ds ++ if ds.any (·.sameIdentity d) then [] else [d] := by
  simpa only [kept, List.nil_append] using keptAfter_concat [] ds d

theorem repeats_concat (ds : List Definition) (d : Definition) :
    repeats (ds ++ [d]) = repeats ds ++
      ((ds.find? (·.sameIdentity d)).map (Conflict.duplicate d)).toList := by
  simpa only [repeats, List.nil_append] using repeatsAfter_concat [] ds d

-- Leaving out later definitions of a kind and key does not change which one is found.
theorem find_kept (ds : List Definition) (e : Definition) :
    (kept ds).find? (·.sameIdentity e) = ds.find? (·.sameIdentity e) := by
  induction ds using List.reverseRecOn with
  | nil => rfl
  | append_singleton ds d ih =>
      rw [kept_concat, List.find?_append, List.find?_append, ih]
      by_cases hrep : ds.any (·.sameIdentity d)
      · simp only [hrep, ite_true, List.find?_nil, Option.or_none]
        by_cases hde : d.sameIdentity e = true
        · obtain ⟨x, hx, hxd⟩ := List.any_eq_true.mp hrep
          have hxe : x.sameIdentity e = true := by
            rw [Definition.sameIdentity_iff] at hxd hde ⊢
            exact hxd.trans hde
          have hsome : (ds.find? (·.sameIdentity e)).isSome := List.find?_isSome.mpr ⟨x, hx, hxe⟩
          rw [Option.or_of_isSome hsome]
        · simp [hde]
      · simp [hrep]

theorem kept_sublist (ds : List Definition) : (kept ds).Sublist ds := by
  induction ds using List.reverseRecOn with
  | nil => exact List.Sublist.refl _
  | append_singleton ds d ih =>
      rw [kept_concat]
      apply ih.append
      split
      · exact List.nil_sublist _
      · exact List.Sublist.refl _

theorem kept_nodup (ds : List Definition) : ((kept ds).map Definition.identity).Nodup := by
  induction ds using List.reverseRecOn with
  | nil => exact List.nodup_nil
  | append_singleton ds d ih =>
      rw [kept_concat]
      split
      · simpa using ih
      · rename_i hnew
        rw [List.map_append, List.nodup_append]
        refine ⟨ih, by simp, ?_⟩
        intro i hi j hj hij
        obtain ⟨x, hx, rfl⟩ := List.mem_map.mp hi
        obtain rfl : j = d.identity := by simpa using hj
        apply hnew
        rw [List.any_eq_true]
        exact ⟨x, (kept_sublist ds).subset hx, (Definition.sameIdentity_iff x d).mpr hij⟩

-- Without a repeated kind and key, nothing is left out and nothing is reported.
theorem repeats_eq_nil_iff (ds : List Definition) :
    repeats ds = [] ↔ (ds.map Definition.identity).Nodup := by
  induction ds using List.reverseRecOn with
  | nil => simp [repeats, repeatsAfter]
  | append_singleton ds d ih =>
      rw [repeats_concat, List.append_eq_nil_iff, ih, List.map_append, List.nodup_append]
      simp only [Option.toList_eq_nil_iff, Option.map_eq_none_iff, List.find?_eq_none,
        Definition.sameIdentity_iff, List.map_cons, List.map_nil, List.nodup_singleton, true_and,
        List.mem_singleton, List.mem_map]
      constructor
      · rintro ⟨hn, hd⟩
        refine ⟨hn, ?_⟩
        rintro _ ⟨x, hx, rfl⟩ _ rfl
        exact hd x hx
      · rintro ⟨hn, hd⟩
        exact ⟨hn, fun x hx => hd _ ⟨x, hx, rfl⟩ _ rfl⟩

theorem kept_eq_self (ds : List Definition) (hn : (ds.map Definition.identity).Nodup) :
    kept ds = ds := by
  induction ds using List.reverseRecOn with
  | nil => rfl
  | append_singleton ds d ih =>
      rw [List.map_append, List.nodup_append] at hn
      have hnew : ds.any (·.sameIdentity d) = false := by
        rw [List.any_eq_false]
        intro x hx hxd
        exact hn.2.2 _ (List.mem_map_of_mem hx) _ (by simp)
          ((Definition.sameIdentity_iff x d).mp hxd)
      rw [kept_concat, ih hn.1, hnew]
      simp

end CardLore
