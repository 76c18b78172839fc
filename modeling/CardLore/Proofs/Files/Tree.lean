import CardLore.Files.Tree

namespace CardLore

namespace Entry

-- A directory stands at the location.
def HasDirectory (e : Entry) (location : List String) : Prop :=
  ∃ entries, e.at? location = some (.directory entries)

variable {e new : Entry} {name other : String} {location dir more q : List String}

theorem at?_append (e : Entry) (location more : List String) :
    e.at? (location ++ more) = (e.at? location).bind (·.at? more) := by
  induction location generalizing e with
  | nil => rfl
  | cons name location ih =>
      rw [List.cons_append, at?, at?, Option.bind_assoc]
      exact congrArg _ (funext fun child => ih child)

theorem hasDirectory_nil (h : e.HasDirectory location) : e.HasDirectory [] := by
  obtain ⟨entries, h⟩ := h
  cases e with
  | file bytes =>
      cases location with
      | nil => cases h
      | cons name location => cases h
  | directory entries => exact ⟨entries, rfl⟩

-- What stands in a directory stands in a directory.
theorem HasDirectory.of_append (h : e.HasDirectory (location ++ more)) :
    e.HasDirectory location := by
  obtain ⟨entries, h⟩ := h
  rw [at?_append] at h
  obtain ⟨e', he', hmore⟩ := Option.bind_eq_some_iff.mp h
  obtain ⟨entries', hentries'⟩ := hasDirectory_nil ⟨entries, hmore⟩
  exact ⟨entries', he'.trans hentries'⟩

theorem HasDirectory.dropLast (h : e.HasDirectory location) : e.HasDirectory location.dropLast := by
  cases hempty : location.isEmpty with
  | true =>
      obtain rfl := List.isEmpty_iff.mp hempty
      exact h
  | false =>
      have hne : location ≠ [] := List.isEmpty_eq_false_iff.mp hempty
      rw [← List.dropLast_concat_getLast hne] at h
      exact h.of_append

-- The first step of a location leads from a directory to one of its entries.
theorem exists_child (h : e.HasDirectory (name :: location)) :
    ∃ entries child, e = .directory entries ∧ entries.lookup name = some child ∧
      child.HasDirectory location := by
  obtain ⟨inside, h⟩ := h
  cases e with
  | file bytes => cases h
  | directory entries =>
      obtain ⟨child, hchild, hinside⟩ := Option.bind_eq_some_iff.mp h
      exact ⟨entries, child, rfl, hchild, inside, hinside⟩

theorem lookup_putChild (entries : List (String × Entry)) :
    (putChild name new entries).lookup other =
      if other = name then some new else entries.lookup other := by
  induction entries with
  | nil =>
      by_cases ho : other = name
      · simp [putChild, ho]
      · simp [putChild, List.lookup_cons, beq_false_of_ne ho, ho]
  | cons entry entries ih =>
      obtain ⟨n, old⟩ := entry
      by_cases hn : n = name
      · subst hn
        by_cases ho : other = n
        · simp [putChild, ho]
        · simp [putChild, List.lookup_cons, beq_false_of_ne ho, ho]
      · by_cases ho : other = n
        · subst ho
          simp [putChild, hn]
        · simp [putChild, List.lookup_cons, hn, beq_false_of_ne ho, ih]

theorem at?_put_self (h : e.HasDirectory dir) :
    (e.put new (dir ++ [name])).at? (dir ++ [name]) = some new := by
  induction dir generalizing e with
  | nil =>
      obtain ⟨entries, h⟩ := h
      cases h
      simp [put, at?, child?, lookup_putChild]
  | cons step dir ih =>
      obtain ⟨entries, child, rfl, hchild, hdir⟩ := exists_child h
      simp [put, at?, child?, lookup_putChild, hchild, ih hdir]

-- An entry leaves alone what is not on its way.
theorem at?_put_beside (dir : List String) (h : e.HasDirectory dir) (hne : other ≠ name) :
    (e.put new (dir ++ name :: more)).at? (dir ++ other :: q) = e.at? (dir ++ other :: q) := by
  induction dir generalizing e with
  | nil =>
      obtain ⟨entries, h⟩ := h
      cases h
      simp [put, at?, child?, lookup_putChild, hne]
  | cons step dir ih =>
      obtain ⟨entries, child, rfl, hchild, hdir⟩ := exists_child h
      simp [put, at?, child?, lookup_putChild, hchild, ih hdir]

-- An entry that replaces no directory takes none away.
theorem HasDirectory.put (hq : e.HasDirectory q) (h : e.HasDirectory dir)
    (hnew : ¬ e.HasDirectory (dir ++ [name])) : (e.put new (dir ++ [name])).HasDirectory q := by
  induction dir generalizing e q with
  | nil =>
      obtain ⟨entries, h⟩ := h
      cases h
      cases q with
      | nil => exact ⟨_, rfl⟩
      | cons step q =>
          have hne : step ≠ name := by
            rintro rfl
            rw [← List.singleton_append] at hq
            exact hnew hq.of_append
          obtain ⟨inside, hq⟩ := hq
          refine ⟨inside, ?_⟩
          rw [← hq]
          exact at?_put_beside [] ⟨entries, rfl⟩ hne
  | cons first dir ih =>
      obtain ⟨entries, child, rfl, hchild, hdir⟩ := exists_child h
      cases q with
      | nil => exact ⟨_, rfl⟩
      | cons step q =>
          by_cases hstep : step = first
          · subst hstep
            obtain ⟨_, child', heq, hchild', hq⟩ := exists_child hq
            cases heq
            obtain rfl := Option.some.inj (hchild.symm.trans hchild')
            have hnew' : ¬ child.HasDirectory (dir ++ [name]) := by
              rintro ⟨inside, hinside⟩
              exact hnew ⟨inside, by simp [at?, child?, hchild, hinside]⟩
            obtain ⟨inside, hinside⟩ := ih hq hdir hnew'
            exact ⟨inside, by simp [Entry.put, at?, child?, lookup_putChild, hchild, hinside]⟩
          · obtain ⟨inside, hq⟩ := hq
            refine ⟨inside, ?_⟩
            rw [← hq]
            exact at?_put_beside [] ⟨entries, rfl⟩ hstep

end Entry

namespace FileSystem

-- Every location that the path comes by is a directory, and no name in it is too long.
structure Leads (root : Entry) (location parts : List String) : Prop where
  stands : ∀ front, front <+: parts → root.HasDirectory (Path.normalize location front)
  short : ∀ part ∈ parts, part ≠ ".." → isTooLong part = false

variable {root root' : Entry} {location parts : List String} {part : String}

theorem Leads.nil (h : root.HasDirectory location) : Leads root location [] where
  stands := by
    intro front hfront
    obtain rfl := List.prefix_nil.mp hfront
    exact h
  short := by simp

-- The location behind the first part of a path.
def stepInto (location : List String) (part : String) : List String :=
  if part = ".." then location.dropLast else location ++ [part]

theorem stepInto_of_ne (h : part ≠ "..") : stepInto location part = location ++ [part] :=
  if_neg h

theorem normalize_cons (location : List String) (part : String) (parts : List String) :
    Path.normalize location (part :: parts) = Path.normalize (stepInto location part) parts := by
  rw [Path.normalize, stepInto]
  split <;> rfl

theorem Leads.cons (h : root.HasDirectory location) (hpart : part ≠ ".." → isTooLong part = false)
    (hmore : Leads root (stepInto location part) parts) : Leads root location (part :: parts) where
  stands := by
    intro front hfront
    cases front with
    | nil => exact h
    | cons first front =>
        obtain ⟨rfl, hfront'⟩ := List.cons_prefix_cons.mp hfront
        rw [normalize_cons]
        exact hmore.stands front hfront'
  short := List.forall_mem_cons.mpr ⟨hpart, hmore.short⟩

theorem Leads.tail (h : Leads root location (part :: parts)) :
    Leads root (stepInto location part) parts where
  stands := by
    intro front hfront
    rw [← normalize_cons]
    exact h.stands _ (List.cons_prefix_cons.mpr ⟨rfl, hfront⟩)
  short := fun p hp => h.short p (List.mem_cons_of_mem _ hp)

theorem Leads.head (h : Leads root location parts) : root.HasDirectory location :=
  h.stands [] (List.nil_prefix)

theorem Leads.last (h : Leads root location parts) :
    root.HasDirectory (Path.normalize location parts) :=
  h.stands parts List.prefix_rfl

theorem Leads.mono (h : Leads root location parts)
    (hkeep : ∀ q, root.HasDirectory q → root'.HasDirectory q) : Leads root' location parts where
  stands := fun front hfront => hkeep _ (h.stands front hfront)
  short := h.short

-- Along directories a walk gets through.
theorem Leads.walk_append {cwd : List String} (h : Leads root location parts)
    (more : List String) :
    (⟨root, cwd⟩ : FileSystem).walk location (parts ++ more) =
      (⟨root, cwd⟩ : FileSystem).walk (Path.normalize location parts) more := by
  induction parts generalizing location with
  | nil => rfl
  | cons part parts ih =>
      obtain ⟨entries, hentries⟩ := h.head
      rw [normalize_cons, ← ih h.tail, List.cons_append, walk, hentries]
      by_cases hup : part = ".."
      · simp only [hup, stepInto, if_true]
      · have hshort := h.short part List.mem_cons_self hup
        obtain ⟨inside, hinside⟩ := h.tail.head
        rw [stepInto, if_neg hup, Entry.at?_append, hentries, Option.bind_some] at hinside
        obtain ⟨_, child, heq, hchild, -⟩ := Entry.exists_child ⟨inside, hinside⟩
        cases heq
        have hfound : (entries.lookup part).isSome = true := by rw [hchild, Option.isSome_some]
        simp only [hup, hshort, hfound, stepInto, if_true, if_false, Bool.false_eq_true]

-- Making directories keeps all there are, and the path leads to the last of the new ones.
theorem leads_of_makeDirectories {p : Path} {made : Bool} (hstart : root.HasDirectory location)
    (h : makeDirectories root location p made parts = .ok root') :
    (∀ q, root.HasDirectory q → root'.HasDirectory q) ∧ Leads root' location parts := by
  fun_induction makeDirectories root location p made parts with
  | case1 =>
      cases h
      exact ⟨fun _ hq => hq, .nil hstart⟩
  | case2 root location p made rest p' ih =>
      obtain ⟨hkeep, hleads⟩ := ih hstart.dropLast h
      exact ⟨hkeep, .cons (hkeep _ hstart) (absurd rfl) hleads⟩
  | case5 root location p made part rest p' next hup hshort hnone hroom ih =>
      have hnew : ¬ root.HasDirectory next := by
        rintro ⟨entries, hentries⟩
        cases hnone.symm.trans hentries
      have hput : ∀ q, root.HasDirectory q → (root.put (.directory []) next).HasDirectory q :=
        fun q hq => hq.put hstart hnew
      obtain ⟨hkeep, hleads⟩ := ih ⟨[], Entry.at?_put_self hstart⟩ h
      rw [← show stepInto location part = next from stepInto_of_ne hup] at hleads
      refine ⟨fun q hq => hkeep q (hput q hq), .cons (hkeep _ (hput _ hstart)) ?_ hleads⟩
      exact fun _ => Bool.eq_false_iff.mpr hshort
  | case7 root location p made part rest p' next hup hshort entries hfound hmore ih =>
      obtain ⟨hkeep, hleads⟩ := ih ⟨entries, hfound⟩ h
      rw [← show stepInto location part = next from stepInto_of_ne hup] at hleads
      exact ⟨hkeep, .cons (hkeep _ hstart) (fun _ => Bool.eq_false_iff.mpr hshort) hleads⟩
  | case3 | case4 | case6 | case8 => cases h

-- A file in the directory that a path leads to is found behind the path.
theorem Leads.walk_file (h : Leads root location parts) (cwd : List String) {e : Entry}
    (name : String) (hname : name ≠ "..") (hshort : isTooLong name = false)
    (he : root.at? (Path.normalize location parts ++ [name]) = some e) :
    (⟨root, cwd⟩ : FileSystem).walk location (parts ++ [name]) =
      .ok (Path.normalize location parts ++ [name]) := by
  obtain ⟨entries, hentries⟩ := h.last
  rw [Entry.at?_append, hentries, Option.bind_some] at he
  obtain ⟨child, hchild, -⟩ := Option.bind_eq_some_iff.mp he
  have hfound : (entries.lookup name).isSome = true := by
    rw [show entries.lookup name = some child from hchild, Option.isSome_some]
  rw [h.walk_append, walk, hentries]
  simp only [hname, hshort, hfound, if_true, if_false, Bool.false_eq_true]
  rfl

theorem normalize_append (location front back : List String) :
    Path.normalize location (front ++ back) =
      Path.normalize (Path.normalize location front) back := by
  induction front generalizing location with
  | nil => rfl
  | cons part front ih => rw [List.cons_append, normalize_cons, normalize_cons, ih]

end FileSystem

section

open FileSystem

-- The path that goes on behind another one.
def Path.below (p : Path) (names : List String) : Path :=
  p.join ⟨"", names⟩

theorem parts_below (p : Path) (names : List String) :
    p.below names = ⟨p.root, p.parts ++ names⟩ :=
  rfl

theorem start_below (fs : FileSystem) (p : Path) (names : List String) :
    fs.start (p.below names) = fs.start p :=
  rfl

theorem resolve_below (fs : FileSystem) (p : Path) {names : List String}
    (h : ".." ∉ names) : fs.resolve (p.below names) = fs.resolve p ++ names := by
  have hplain : ∀ location, Path.normalize location names = location ++ names := by
    intro location
    induction names generalizing location with
    | nil => exact (List.append_nil _).symm
    | cons part names ih =>
        obtain ⟨hpart, hnames⟩ := not_or.mp (mt List.mem_cons.mpr h)
        rw [normalize_cons, stepInto_of_ne (Ne.symm hpart), ih hnames, List.append_assoc]
        rfl
  rw [resolve, start_below, parts_below, normalize_append, hplain]
  rfl

end

end CardLore
