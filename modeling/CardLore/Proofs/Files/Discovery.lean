import CardLore.Files.Discovery
import CardLore.Proofs.Compilation.Outcome
import CardLore.Proofs.Files.Tree

namespace CardLore

-- A name that an entry of a directory can have.
structure IsName (name : String) : Prop where
  ne_empty : name ≠ ""
  ne_dot : name ≠ "."
  ne_up : name ≠ ".."
  no_slash : '/' ∉ name.toList
  no_null : '\x00' ∉ name.toList

namespace Entry

-- No two entries of a directory have one name, in no directory of the tree.
inductive WellFormed : Entry → Prop
  | file (bytes : List UInt8) : WellFormed (.file bytes)
  | directory (entries : List (String × Entry)) (distinct : (entries.map (·.1)).Nodup)
      (names : ∀ entry ∈ entries, IsName entry.1) (below : ∀ entry ∈ entries, WellFormed entry.2) :
      WellFormed (.directory entries)

variable {e child : Entry} {name : String} {names location : List String}
  {entries : List (String × Entry)}

theorem lookup_eq_some_iff_mem (h : (entries.map (·.1)).Nodup) :
    entries.lookup name = some child ↔ (name, child) ∈ entries := by
  induction entries with
  | nil => simp
  | cons entry entries ih =>
      obtain ⟨first, e⟩ := entry
      simp only [List.map_cons, List.nodup_cons, List.mem_map, not_exists, not_and] at h
      rw [List.lookup_cons, List.mem_cons, Prod.mk.injEq]
      by_cases hname : name = first
      · subst hname
        have hnot : (name, child) ∉ entries := fun hmem => h.1 _ hmem rfl
        simp [hnot, eq_comm]
      · simp [beq_false_of_ne hname, hname, ih h.2]

theorem WellFormed.of_at? (h : e.WellFormed) (hat : e.at? location = some child) :
    child.WellFormed := by
  induction location generalizing e with
  | nil => exact Option.some.inj hat ▸ h
  | cons name location ih =>
      obtain ⟨next, hnext, hmore⟩ := Option.bind_eq_some_iff.mp hat
      cases h with
      | file bytes => cases hnext
      | directory entries distinct names below =>
          exact ih (below _ ((lookup_eq_some_iff_mem distinct).mp hnext)) hmore

theorem WellFormed.isName (h : e.WellFormed) (hat : (e.at? location).isSome) :
    ∀ name ∈ location, IsName name := by
  induction location generalizing e with
  | nil => simp
  | cons name location ih =>
      obtain ⟨child, hchild⟩ := Option.isSome_iff_exists.mp hat
      obtain ⟨next, hnext, hmore⟩ := Option.bind_eq_some_iff.mp hchild
      cases h with
      | file bytes => cases hnext
      | directory entries distinct names below =>
          have hmem := (lookup_eq_some_iff_mem distinct).mp hnext
          exact List.forall_mem_cons.mpr
            ⟨names _ hmem, ih (below _ hmem) (Option.isSome_iff_exists.mpr ⟨child, hmore⟩)⟩

-- The paths of names to all that stands below an entry.
def pathsBelow (e : Entry) : List (List String) :=
  e.descendants.map (·.1)

def pathsBelowOf (entries : List (String × Entry)) : List (List String) :=
  (descendantsOf entries).map (·.1)

theorem pathsBelow_directory : (directory entries).pathsBelow = pathsBelowOf entries := by
  rw [pathsBelow, descendants, pathsBelowOf]

theorem pathsBelowOf_cons :
    pathsBelowOf ((name, e) :: entries) =
      ([name] :: e.pathsBelow.map (name :: ·)) ++ pathsBelowOf entries := by
  simp [pathsBelowOf, descendantsOf, pathsBelow, Function.comp_def]

theorem mem_pathsBelowOf :
    names ∈ pathsBelowOf entries ↔ ∃ entry ∈ entries, ∃ rest, names = entry.1 :: rest ∧
      (rest = [] ∨ rest ∈ entry.2.pathsBelow) := by
  induction entries with
  | nil => simp [pathsBelowOf, descendantsOf]
  | cons entry entries ih =>
      obtain ⟨name, e⟩ := entry
      rw [pathsBelowOf_cons, List.mem_append, ih, List.mem_cons, List.mem_map,
        List.exists_mem_cons_iff]
      refine or_congr_left ⟨?_, ?_⟩
      · rintro (rfl | ⟨rest, hrest, rfl⟩)
        · exact ⟨[], rfl, .inl rfl⟩
        · exact ⟨rest, rfl, .inr hrest⟩
      · rintro ⟨rest, rfl, rfl | hrest⟩
        · exact .inl rfl
        · exact .inr ⟨rest, hrest, rfl⟩

-- The way to what stands below an entry is a path that leads somewhere.
theorem WellFormed.mem_pathsBelow (h : e.WellFormed) :
    names ∈ e.pathsBelow ↔ names ≠ [] ∧ (e.at? names).isSome := by
  induction h generalizing names with
  | file bytes =>
      cases names with
      | nil => simp [pathsBelow, descendants]
      | cons name rest => simp [pathsBelow, descendants, at?, child?]
  | directory entries distinct _ _ ih =>
      rw [pathsBelow_directory, mem_pathsBelowOf]
      constructor
      · rintro ⟨⟨name, e⟩, hmem, rest, rfl, hrest⟩
        have hfound : entries.lookup name = some e := (lookup_eq_some_iff_mem distinct).mpr hmem
        refine ⟨List.cons_ne_nil _ _, ?_⟩
        rw [at?, child?, hfound, Option.bind_some]
        rcases hrest with rfl | hrest
        · rfl
        · exact ((ih _ hmem).mp hrest).2
      · rintro ⟨hne, hat⟩
        cases names with
        | nil => exact absurd rfl hne
        | cons name rest =>
            obtain ⟨child, hat⟩ := Option.isSome_iff_exists.mp hat
            obtain ⟨e, hfound, hat⟩ := Option.bind_eq_some_iff.mp hat
            have hmem := (lookup_eq_some_iff_mem distinct).mp hfound
            refine ⟨(name, e), hmem, rest, rfl, ?_⟩
            by_cases hrest : rest = []
            · exact .inl hrest
            · exact .inr ((ih _ hmem).mpr ⟨hrest, Option.isSome_iff_exists.mpr ⟨child, hat⟩⟩)

theorem nodup_pathsBelowOf (hdistinct : (entries.map (·.1)).Nodup)
    (hbelow : ∀ entry ∈ entries, entry.2.pathsBelow.Nodup ∧ [] ∉ entry.2.pathsBelow) :
    (pathsBelowOf entries).Nodup := by
  induction entries with
  | nil => simp [pathsBelowOf, descendantsOf]
  | cons entry entries ih =>
      obtain ⟨name, e⟩ := entry
      obtain ⟨⟨hnodup, hnil⟩, hbelow⟩ := List.forall_mem_cons.mp hbelow
      simp only [List.map_cons, List.nodup_cons, List.mem_map, not_exists, not_and] at hdistinct
      rw [pathsBelowOf_cons, List.nodup_append]
      refine ⟨?_, ih hdistinct.2 hbelow, ?_⟩
      · rw [List.nodup_cons]
        refine ⟨?_, hnodup.map fun a b hab => (List.cons.inj hab).2⟩
        intro hmem
        obtain ⟨rest, hrest, heq⟩ := List.mem_map.mp hmem
        exact hnil ((List.cons.inj heq).2 ▸ hrest)
      · -- The first part of a path tells in which entry it leads.
        intro a ha b hb hab
        subst hab
        obtain ⟨other, hother, rest, rfl, -⟩ := mem_pathsBelowOf.mp hb
        refine hdistinct.1 other hother ?_
        rcases List.mem_cons.mp ha with heq | ha
        · exact (List.cons.inj heq).1
        · obtain ⟨rest', -, heq⟩ := List.mem_map.mp ha
          exact (List.cons.inj heq).1.symm

theorem WellFormed.nodup_pathsBelow (h : e.WellFormed) : e.pathsBelow.Nodup := by
  induction h with
  | file bytes => simp [pathsBelow, descendants]
  | directory entries distinct _ below ih =>
      rw [pathsBelow_directory]
      refine nodup_pathsBelowOf distinct fun entry hmem => ⟨ih entry hmem, ?_⟩
      exact fun hnil => ((below entry hmem).mem_pathsBelow.mp hnil).1 rfl

end Entry

namespace Path

-- The numbers of the characters, part by part.
def points (parts : List String) : List (List Nat) :=
  parts.map fun part => part.toList.map Char.toNat

theorem map_toNat_lt_iff (a b : List Char) : a.map Char.toNat < b.map Char.toNat ↔ a < b := by
  induction a generalizing b with
  | nil => cases b <;> simp
  | cons c a ih =>
      cases b with
      | nil => simp
      | cons d b =>
          have hlt : c.toNat < d.toNat ↔ c < d := Iff.rfl
          have heq : c.toNat = d.toNat ↔ c = d := Char.toNat_inj
          simp only [List.map_cons, List.cons_lt_cons_iff, ih, hlt, heq]

theorem lePart_iff (as bs : List String) : lePart as bs = true ↔ ¬ points bs < points as := by
  induction as generalizing bs with
  | nil => simp [lePart, points]
  | cons a as ih =>
      cases bs with
      | nil => simp [lePart, points]
      | cons b bs =>
          rw [lePart, points, points, List.map_cons, List.map_cons, List.cons_lt_cons_iff]
          by_cases hab : a = b
          · subst hab
            simpa [points] using ih bs
          · have hne : b.toList.map Char.toNat ≠ a.toList.map Char.toNat := by
              rw [Ne, List.map_inj_right fun c d => Char.toNat_inj.mp, String.toList_inj]
              exact fun h => hab h.symm
            have hlt : a < b ↔ a.toList.map Char.toNat < b.toList.map Char.toNat :=
              (map_toNat_lt_iff _ _).symm
            rw [if_neg hab, decide_eq_true_iff, hlt]
            simp only [hne, false_and, or_false, not_lt]
            exact ⟨le_of_lt, fun h => lt_of_le_of_ne h hne.symm⟩

theorem points_append (as bs : List String) : points (as ++ bs) = points as ++ points bs :=
  List.map_append

theorem points_injective : Function.Injective points := by
  refine List.map_injective_iff.mpr fun part other h => ?_
  rwa [List.map_inj_right fun _ _ => Char.toNat_inj.mp, String.toList_inj] at h

-- Lists without repetition are sorted into strictly ascending ones.
theorem ascending_mergeSort {namess : List (List String)} (h : namess.Nodup) :
    (namess.mergeSort lePart).Pairwise fun a b => points a < points b := by
  have hsorted : (namess.mergeSort lePart).Pairwise fun a b => lePart a b = true := by
    refine List.pairwise_mergeSort ?_ ?_ namess
    · intro a b c hab hbc
      rw [lePart_iff, not_lt] at hab hbc ⊢
      exact hab.trans hbc
    · intro a b
      rw [Bool.or_eq_true, lePart_iff, lePart_iff, not_lt, not_lt]
      exact le_total _ _
  have hnodup : (namess.mergeSort lePart).Nodup := (List.mergeSort_perm _ _).nodup_iff.mpr h
  refine hsorted.imp₂ ?_ hnodup
  intro a b hab hne
  rw [lePart_iff, not_lt] at hab
  exact lt_of_le_of_ne hab fun heq => hne (points_injective heq)

end Path

namespace FileSystem

variable {fs : FileSystem} {p q : Path} {qs : List Path} {names location : List String} {e : Entry}

theorem eq_normalize_of_walk {parts : List String} (h : fs.walk location parts = .ok names) :
    names = Path.normalize location parts := by
  fun_induction walk fs location parts with
  | case1 location => exact (Except.ok.inj h).symm
  | case2 location rest entries hentries ih => rw [ih h, Path.normalize, if_pos rfl]
  | case4 location part rest entries hentries hup hshort hsome ih =>
      rw [ih h, Path.normalize, if_neg hup]
  | case3 | case5 | case6 | case7 => cases h

theorem hasNull_of_checkPath (h : checkPath p = .ok ()) : p.hasNull = false := by
  rw [checkPath] at h
  cases hnull : p.hasNull with
  | false => rfl
  | true => simp [hnull, bind, Except.bind] at h

-- An entry is found at the location that the path means.
theorem entry_eq_ok (h : fs.entry p = .ok e) :
    p.hasNull = false ∧ fs.root.at? (fs.resolve p) = some e := by
  rw [entry] at h
  cases hcheck : checkPath p with
  | error fault => simp [hcheck, bind, Except.bind] at h
  | ok _ =>
      refine ⟨hasNull_of_checkPath hcheck, ?_⟩
      cases hwalk : fs.walk (fs.start p) p.parts with
      | error fault => simp [hcheck, hwalk, bind, Except.bind] at h
      | ok location =>
          have hlocation : location = fs.resolve p := eq_normalize_of_walk hwalk
          cases hat : fs.root.at? location with
          | none => simp [hcheck, hwalk, hat, bind, Except.bind] at h
          | some found =>
              simp only [hcheck, hwalk, hat, bind, Except.bind, pure, Except.pure,
                Except.ok.injEq] at h
              rw [← hlocation, hat, h]

theorem hasNull_below :
    (p.below names).hasNull = (p.hasNull || names.any (·.toList.contains '\x00')) :=
  List.any_append

-- A directory stands at the path.
def IsDirectory (fs : FileSystem) (p : Path) : Prop :=
  ∃ entries, fs.entry p = .ok (.directory entries)

-- From the path on, the names lead to an entry, and the last one has the suffix of sources.
def IsSourceBelow (fs : FileSystem) (p : Path) (names : List String) : Prop :=
  (∃ name, names.getLast? = some name ∧ sourceSuffix.toList <:+ name.toList) ∧
    (fs.root.at? (fs.resolve p ++ names)).isSome

-- A source at that location is asked for by the path.
def StandsFor (fs : FileSystem) (p : Path) (location : List String) : Prop :=
  (¬ fs.IsDirectory p ∧ location = fs.resolve p) ∨
    (fs.IsDirectory p ∧ ∃ names, fs.IsSourceBelow p names ∧ location = fs.resolve p ++ names)

-- A path that a search can start from: it can be looked at, and if it is that of a directory, no
-- path below it is too long, and none leads through too many directories.
structure IsSearchable (fs : FileSystem) (p : Path) : Prop where
  no_null : p.hasNull = false
  entry : fs.entry p ≠ .error .nameTooLong
  below : fs.IsDirectory p → ∀ names, (fs.root.at? (fs.resolve p ++ names)).isSome →
    (p.below names).toText.utf8ByteSize ≤ maxPathBytes ∧ names.length ≤ maxNewDirectories

-- The paths that a path is replaced by.
inductive Contributes (fs : FileSystem) (p : Path) : List Path → Prop
  | itself (other : ¬ fs.IsDirectory p) : Contributes fs p [p]
  | sources (directory : fs.IsDirectory p) (qs : List Path)
      (ascending : qs.Pairwise fun q r => Path.points q.parts < Path.points r.parts)
      (complete : ∀ q, q ∈ qs ↔ ∃ names, fs.IsSourceBelow p names ∧ q = p.below names) :
      Contributes fs p qs

theorem endsInSource_iff :
    endsInSource names = true ↔
      ∃ name, names.getLast? = some name ∧ sourceSuffix.toList <:+ name.toList := by
  rw [endsInSource]
  cases names.getLast? with
  | none => simp
  | some name => simp [isSourceName]

theorem IsSourceBelow.isName (hfs : fs.root.WellFormed) (h : fs.IsSourceBelow p names) :
    ∀ name ∈ names, IsName name :=
  fun name hname => hfs.isName h.2 name (List.mem_append_right _ hname)

theorem IsSourceBelow.resolve (hfs : fs.root.WellFormed) (h : fs.IsSourceBelow p names) :
    fs.resolve (p.below names) = fs.resolve p ++ names :=
  resolve_below fs p fun hmem => (h.isName hfs _ hmem).ne_up rfl

theorem IsSourceBelow.hasNull (hfs : fs.root.WellFormed) (h : fs.IsSourceBelow p names) :
    (p.below names).hasNull = p.hasNull := by
  have hnames : names.any (·.toList.contains '\x00') = false := by
    rw [List.any_eq_false]
    intro name hname
    simpa using (h.isName hfs name hname).no_null
  rw [hasNull_below, hnames, Bool.or_false]

theorem contributes_sourcesBelow {entries : List (String × Entry)} (hfs : fs.root.WellFormed)
    (h : fs.entry p = .ok (.directory entries)) :
    fs.Contributes p (sourcesBelow p (.directory entries)) := by
  have hat := (entry_eq_ok h).2
  have hwell := hfs.of_at? hat
  refine .sources ⟨entries, h⟩ _ ?_ ?_
  · rw [sourcesBelow, List.pairwise_map]
    refine (Path.ascending_mergeSort (hwell.nodup_pathsBelow.filter _)).imp ?_
    intro a b hab
    rw [Path.points_append, Path.points_append]
    exact List.append_left_lt hab
  · intro q
    have hmem (names : List String) :
        names ∈ (Entry.directory entries).pathsBelow ∧ endsInSource names = true ↔
          fs.IsSourceBelow p names := by
      rw [hwell.mem_pathsBelow, IsSourceBelow, ← endsInSource_iff, Entry.at?_append, hat,
        Option.bind_some, and_comm, and_congr_right_iff]
      intro hsource
      refine and_iff_right ?_
      rintro rfl
      cases hsource
    simp only [sourcesBelow, List.mem_map (b := q), List.mem_mergeSort, List.mem_filter]
    constructor
    · rintro ⟨names, hnames, rfl⟩
      exact ⟨names, (hmem names).mp hnames, rfl⟩
    · rintro ⟨names, hnames, rfl⟩
      exact ⟨names, (hmem names).mpr hnames, rfl⟩

theorem not_isDirectory_of_error {fault : AccessFault} (h : fs.entry p = .error fault) :
    ¬ fs.IsDirectory p := by
  rintro ⟨entries, hentries⟩
  cases h.symm.trans hentries

-- A path that can be looked at contributes something, one that is too long stops the search.
theorem expand_cases (hfs : fs.root.WellFormed) (p : Path) :
    (fs.entry p = .error .nameTooLong ∧ fs.expand p = .error .nameTooLong) ∨
      (fs.entry p ≠ .error .nameTooLong ∧
        ∃ qs, fs.expand p = .ok qs ∧ fs.Contributes p qs) := by
  cases he : fs.entry p with
  | ok e =>
      refine .inr ⟨by simp, ?_⟩
      cases e with
      | file bytes =>
          refine ⟨[p], by rw [expand, entry?, he]; rfl, .itself ?_⟩
          rintro ⟨entries, hentries⟩
          cases he.symm.trans hentries
      | directory entries =>
          exact ⟨_, by rw [expand, entry?, he]; rfl, contributes_sourcesBelow hfs he⟩
  | error fault =>
      by_cases hlong : fault = .nameTooLong
      · subst hlong
        exact .inl ⟨rfl, by rw [expand, entry?, he]; rfl⟩
      · refine .inr ⟨fun h => hlong (Except.error.inj h), [p], ?_, ?_⟩
        · rw [expand, entry?, he]
          cases fault with
          | nameTooLong => exact absurd rfl hlong
          | notFound | notADirectory | isADirectory | alreadyExists | nullInName | tooDeep => rfl
        · exact .itself (not_isDirectory_of_error he)

theorem contributes_of_expand (hfs : fs.root.WellFormed) (h : fs.expand p = .ok qs) :
    fs.Contributes p qs := by
  rcases expand_cases hfs p with ⟨-, herror⟩ | ⟨-, qs', hqs', hcontributes⟩
  · cases herror.symm.trans h
  · cases hqs'.symm.trans h
    exact hcontributes

theorem Contributes.mem_locations (hfs : fs.root.WellFormed) (h : fs.Contributes p qs) :
    location ∈ qs.map fs.resolve ↔ fs.StandsFor p location := by
  cases h with
  | itself other => simp [StandsFor, other]
  | sources directory qs ascending complete =>
      simp only [List.mem_map, complete, StandsFor, directory, not_true, false_and, true_and,
        false_or]
      constructor
      · rintro ⟨q, ⟨names, hnames, rfl⟩, rfl⟩
        exact ⟨names, hnames, hnames.resolve hfs⟩
      · rintro ⟨names, hnames, rfl⟩
        exact ⟨_, ⟨names, hnames, rfl⟩, hnames.resolve hfs⟩

-- The parts of a path to a source hold a null character only if those of the given path do.
theorem Contributes.any_hasNull (hfs : fs.root.WellFormed) (h : fs.Contributes p qs) :
    qs.any (·.hasNull) = p.hasNull := by
  cases h with
  | itself other => simp
  | sources directory qs ascending complete =>
      obtain ⟨entries, hentries⟩ := directory
      rw [(entry_eq_ok hentries).1, List.any_eq_false]
      intro q hq
      obtain ⟨names, hnames, rfl⟩ := (complete q).mp hq
      rw [hnames.hasNull hfs, (entry_eq_ok hentries).1]
      exact Bool.false_ne_true

-- The place of the first path to the location of `q`.
def firstIdx (fs : FileSystem) (all : List Path) (q : Path) : Nat :=
  all.findIdx fun r => fs.resolve r = fs.resolve q

-- The first paths to each location, in their order.
structure IsFirsts (fs : FileSystem) (all kept : List Path) : Prop where
  first : ∀ q, q ∈ kept ↔ all.find? (fun r => fs.resolve r = fs.resolve q) = some q
  ordered : kept.Pairwise fun q r => fs.firstIdx all q < fs.firstIdx all r

variable {all kept : List Path}

theorem mem_distinct (seen : List (List String)) (all : List Path) :
    q ∈ fs.distinct seen all ↔
      fs.resolve q ∉ seen ∧ all.find? (fun r => fs.resolve r = fs.resolve q) = some q := by
  induction all generalizing seen with
  | nil => simp [distinct]
  | cons p all ih =>
      rw [distinct, List.find?_cons]
      by_cases hsame : fs.resolve p = fs.resolve q
      · simp only [hsame, decide_true]
        by_cases hseen : fs.resolve q ∈ seen
        · simp [hseen, ih]
        · simp [hseen, ih, eq_comm]
      · by_cases hseen : fs.resolve p ∈ seen
        · simp [hseen, ih, hsame]
        · have hne : q ≠ p := fun h => hsame (h ▸ rfl)
          simp [hseen, ih, hsame, hne, Ne.symm hsame]

theorem ordered_distinct (seen : List (List String)) (all : List Path) :
    (fs.distinct seen all).Pairwise fun q r => fs.firstIdx all q < fs.firstIdx all r := by
  induction all generalizing seen with
  | nil => simp [distinct]
  | cons p all ih =>
      -- Behind `p`, no path that is kept leads where `p` does.
      have hmore (seen : List (List String)) (hp : fs.resolve p ∈ seen) :
          (fs.distinct seen all).Pairwise fun q r =>
            fs.firstIdx (p :: all) q < fs.firstIdx (p :: all) r := by
        refine (ih seen).imp_of_mem fun {q r} hq hr hlt => ?_
        have hne : ∀ q ∈ fs.distinct seen all, fs.resolve p ≠ fs.resolve q :=
          fun q hq heq => ((mem_distinct seen all).mp hq).1 (heq ▸ hp)
        rw [firstIdx] at hlt
        simpa [firstIdx, List.findIdx_cons, hne q hq, hne r hr] using hlt
      rw [distinct]
      by_cases hseen : fs.resolve p ∈ seen
      · simpa [hseen] using hmore seen hseen
      · simp only [hseen, if_false]
        refine List.pairwise_cons.mpr ⟨fun q hq => ?_, hmore _ List.mem_cons_self⟩
        have hne : fs.resolve p ≠ fs.resolve q := fun heq =>
          ((mem_distinct _ all).mp hq).1 (heq ▸ List.mem_cons_self)
        simp [firstIdx, List.findIdx_cons, hne]

theorem isFirsts_distinct (fs : FileSystem) (all : List Path) :
    fs.IsFirsts all (fs.distinct [] all) where
  first q := by simp [mem_distinct]
  ordered := ordered_distinct [] all

theorem IsFirsts.pairwise_ne (h : fs.IsFirsts all kept) :
    kept.Pairwise fun q r => fs.resolve q ≠ fs.resolve r := by
  refine h.ordered.imp fun {q r} hlt heq => ?_
  rw [firstIdx, firstIdx, heq] at hlt
  exact Nat.lt_irrefl _ hlt

theorem IsFirsts.eq_of_resolve_eq {r : Path} (h : fs.IsFirsts all kept) (hq : q ∈ kept)
    (hr : r ∈ kept) (heq : fs.resolve q = fs.resolve r) : q = r := by
  have hfirst := (h.first q).mp hq
  rw [heq, (h.first r).mp hr] at hfirst
  exact (Option.some.inj hfirst).symm

theorem IsFirsts.mem_locations (h : fs.IsFirsts all kept) :
    location ∈ kept.map fs.resolve ↔ location ∈ all.map fs.resolve := by
  simp only [List.mem_map]
  constructor
  · rintro ⟨q, hq, rfl⟩
    exact ⟨q, List.mem_of_find?_eq_some ((h.first q).mp hq), rfl⟩
  · rintro ⟨q, hq, rfl⟩
    cases hfind : all.find? fun r => fs.resolve r = fs.resolve q with
    | none => exact absurd (List.find?_eq_none.mp hfind q hq) (by simp)
    | some first =>
        have hsame : fs.resolve first = fs.resolve q := by
          simpa using List.find?_some hfind
        exact ⟨first, (h.first first).mpr (by rw [hsame, hfind]), hsame⟩

theorem discover_eq_ok_iff {paths found : List Path} :
    fs.discover paths = .ok found ↔
      ∃ shares, List.Forall₂ (fun p qs => fs.expand p = .ok qs) paths shares ∧
        shares.flatten.any (·.hasNull) = false ∧ found = fs.distinct [] shares.flatten := by
  simp only [← mapM_eq_ok_iff]
  rw [discover]
  cases paths.mapM fs.expand with
  | error fault => simp [bind, Except.bind]
  | ok shares =>
      simp only [Except.ok.injEq, exists_eq_left']
      cases hnull : shares.flatten.any (·.hasNull) with
      | true => simp [bind, Except.bind, hnull]
      | false => simp [bind, Except.bind, pure, Except.pure, hnull, eq_comm (a := found)]

theorem exists_expansions_iff (hfs : fs.root.WellFormed) (paths : List Path) :
    (∃ shares, List.Forall₂ (fun p qs => fs.expand p = .ok qs) paths shares) ↔
      ∀ p ∈ paths, fs.entry p ≠ .error .nameTooLong := by
  induction paths with
  | nil => simp
  | cons p paths ih =>
      rw [List.forall_mem_cons, ← ih]
      constructor
      · rintro ⟨_, hshares⟩
        cases hshares with
        | cons hp hshares =>
            rcases expand_cases hfs p with ⟨-, herror⟩ | ⟨hentry, -⟩
            · cases herror.symm.trans hp
            · exact ⟨hentry, _, hshares⟩
      · rintro ⟨hentry, shares, hshares⟩
        rcases expand_cases hfs p with ⟨hlong, -⟩ | ⟨-, qs, hqs, -⟩
        · exact absurd hlong hentry
        · exact ⟨qs :: shares, .cons hqs hshares⟩

theorem any_hasNull_flatten (hfs : fs.root.WellFormed) {paths : List Path}
    {shares : List (List Path)} (h : List.Forall₂ fs.Contributes paths shares) :
    shares.flatten.any (·.hasNull) = paths.any (·.hasNull) := by
  induction h with
  | nil => rfl
  | cons hp _ ih => rw [List.flatten_cons, List.any_append, hp.any_hasNull hfs, ih, List.any_cons]

theorem mem_locations_flatten (hfs : fs.root.WellFormed) {paths : List Path}
    {shares : List (List Path)} (h : List.Forall₂ fs.Contributes paths shares) :
    location ∈ shares.flatten.map fs.resolve ↔ ∃ p ∈ paths, fs.StandsFor p location := by
  induction h with
  | nil => simp
  | cons hp _ ih =>
      rw [List.flatten_cons, List.map_append, List.mem_append, hp.mem_locations hfs, ih,
        List.exists_mem_cons_iff]

-- The search ends well if each path can be looked at and none has a null character in it.
theorem exists_discover_iff (hfs : fs.root.WellFormed) (paths : List Path) :
    (∃ found, fs.discover paths = .ok found) ↔
      ∀ p ∈ paths, p.hasNull = false ∧ fs.entry p ≠ .error .nameTooLong := by
  simp only [discover_eq_ok_iff, forall_and, ← exists_expansions_iff hfs]
  constructor
  · rintro ⟨found, shares, hshares, hnull, -⟩
    refine ⟨?_, shares, hshares⟩
    have hcontributes := hshares.imp fun p qs => contributes_of_expand hfs
    simpa [any_hasNull_flatten hfs hcontributes] using hnull
  · rintro ⟨hnull, shares, hshares⟩
    refine ⟨_, shares, hshares, ?_, rfl⟩
    have hcontributes := hshares.imp fun p qs => contributes_of_expand hfs
    simpa [any_hasNull_flatten hfs hcontributes] using hnull

-- The search for sources gives one path for each location that is asked for, and none besides:
-- those of the given paths that are no directories, and those of the sources below the given
-- directories. The paths stand in the order in which they are first met, where a directory
-- contributes its sources in ascending order. What is no path at all stops the search; that nothing
-- else does is said only as long as no path below a directory is longer, or goes deeper, than a
-- system allows.
theorem discover_each_source_once (fs : FileSystem) (paths : List Path)
    (hfs : fs.root.WellFormed) :
    ((∀ p ∈ paths, fs.IsSearchable p) → ∃ found, fs.discover paths = .ok found) ∧
    ∀ found, fs.discover paths = .ok found →
      (∀ p ∈ paths, p.hasNull = false ∧ fs.entry p ≠ .error .nameTooLong) ∧
      (found.Pairwise fun q r => fs.resolve q ≠ fs.resolve r) ∧
      (∀ location, (∃ p ∈ paths, fs.StandsFor p location) →
        ∃! q, q ∈ found ∧ fs.resolve q = location) ∧
      (∀ q ∈ found, ∃ p ∈ paths, fs.StandsFor p (fs.resolve q)) ∧
      ∃ shares, List.Forall₂ fs.Contributes paths shares ∧ fs.IsFirsts shares.flatten found := by
  have hends := exists_discover_iff hfs paths
  refine ⟨fun hpaths => hends.mpr fun p hp => ⟨(hpaths p hp).no_null, (hpaths p hp).entry⟩, ?_⟩
  intro found hfound
  refine ⟨hends.mp ⟨found, hfound⟩, ?_⟩
  obtain ⟨shares, hshares, -, rfl⟩ := discover_eq_ok_iff.mp hfound
  have hcontributes := hshares.imp fun p qs => contributes_of_expand hfs
  have hfirsts := isFirsts_distinct fs shares.flatten
  have hlocations (location : List String) :
      location ∈ (fs.distinct [] shares.flatten).map fs.resolve ↔
        ∃ p ∈ paths, fs.StandsFor p location := by
    rw [hfirsts.mem_locations, mem_locations_flatten hfs hcontributes]
  refine ⟨hfirsts.pairwise_ne, ?_, ?_, shares, hcontributes, hfirsts⟩
  · intro location hlocation
    obtain ⟨q, hq, rfl⟩ := List.mem_map.mp ((hlocations location).mpr hlocation)
    exact ⟨q, ⟨hq, rfl⟩, fun r hr => hfirsts.eq_of_resolve_eq hr.1 hq hr.2⟩
  · intro q hq
    exact (hlocations _).mp (List.mem_map_of_mem hq)

-- A directory inside another, which itself is named like a source and holds a hidden one.
def sampleFiles : FileSystem where
  root := .directory [("w", .directory [
    ("b.crucible", .file []), ("a.crucible", .directory [(".crucible", .file [])])])]
  cwd := ["w"]

-- One source by itself, the whole by its name and from inside, and a way back from nowhere.
def samplePaths : List Path :=
  [⟨"", ["a.crucible", "..", "b.crucible"]⟩, ⟨"/", ["w"]⟩, ⟨"", ["a.crucible"]⟩,
    ⟨"", ["gone", ".."]⟩]

theorem wellFormed_sampleFiles : sampleFiles.root.WellFormed := by
  have hw : IsName "w" := by constructor <;> decide
  have ha : IsName "a.crucible" := by constructor <;> decide
  have hb : IsName "b.crucible" := by constructor <;> decide
  have hhidden : IsName ".crucible" := by constructor <;> decide
  refine .directory _ (by decide) (by simp [hw]) ?_
  rw [List.forall_mem_singleton]
  refine .directory _ (by decide) (by simp [ha, hb]) ?_
  rw [List.forall_mem_cons, List.forall_mem_singleton]
  refine ⟨.file _, .directory _ (by decide) (by simp [hhidden]) ?_⟩
  rw [List.forall_mem_singleton]
  exact .file _

-- The limits concern the paths of what is there.
theorem isSearchable_of_pathsBelow (hfs : fs.root.WellFormed) (h : fs.entry p = .ok e)
    (hbelow : ∀ names ∈ [] :: e.pathsBelow,
      (p.below names).toText.utf8ByteSize ≤ maxPathBytes ∧ names.length ≤ maxNewDirectories) :
    fs.IsSearchable p where
  no_null := (entry_eq_ok h).1
  entry := by simp [h]
  below := by
    intro _ names hnames
    refine hbelow names (List.mem_cons.mpr ?_)
    have hat := (entry_eq_ok h).2
    rw [Entry.at?_append, hat, Option.bind_some] at hnames
    by_cases hnil : names = []
    · exact .inl hnil
    · exact .inr ((hfs.of_at? hat).mem_pathsBelow.mpr ⟨hnil, hnames⟩)

theorem discover_sampleFiles :
    sampleFiles.root.WellFormed ∧ ∃ found, sampleFiles.discover samplePaths = .ok found ∧
      (found.Pairwise fun q r => sampleFiles.resolve q ≠ sampleFiles.resolve r) ∧
      ∃! q, q ∈ found ∧ sampleFiles.resolve q = ["w", "a.crucible", ".crucible"] := by
  obtain ⟨hends, hfound⟩ := discover_each_source_once sampleFiles samplePaths wellFormed_sampleFiles
  have hpaths : ∀ p ∈ samplePaths, sampleFiles.IsSearchable p := by
    have hfs := wellFormed_sampleFiles
    rw [samplePaths, List.forall_mem_cons, List.forall_mem_cons, List.forall_mem_cons,
      List.forall_mem_singleton]
    refine ⟨isSearchable_of_pathsBelow hfs rfl (by decide +kernel),
      isSearchable_of_pathsBelow hfs rfl (by decide +kernel),
      isSearchable_of_pathsBelow hfs rfl (by decide +kernel), by decide, ?_, ?_⟩
    · intro h
      cases h
    · rintro ⟨entries, h⟩
      cases h
  obtain ⟨found, h⟩ := hends hpaths
  obtain ⟨-, hdistinct, hall, -⟩ := hfound found h
  refine ⟨wellFormed_sampleFiles, found, h, hdistinct, hall _ ?_⟩
  refine ⟨⟨"/", ["w"]⟩, by decide, .inr ⟨⟨_, by rfl⟩, ["a.crucible", ".crucible"], ?_, rfl⟩⟩
  exact ⟨⟨_, rfl, by decide⟩, by decide⟩

end FileSystem

end CardLore
