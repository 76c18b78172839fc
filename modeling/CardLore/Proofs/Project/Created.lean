import CardLore.Files.Sources
import CardLore.Project.Scaffold
import CardLore.Proofs.Construction.Invariant
import CardLore.Proofs.Files.Tree
import CardLore.Proofs.Text.Utf8

namespace CardLore

open FileSystem

variable {fs fs' : FileSystem} {root root' : Entry} {p base project : Path} {e : Entry}
  {name : String} {dir : List String}

theorem mapError_eq_ok_iff {ε ε' α : Type} {x : Except ε α} {f : ε → ε'} {v : α} :
    x.mapError f = .ok v ↔ x = .ok v := by
  cases x <;> simp [Except.mapError]

-- What a written file leaves: the file itself, and all directories.
theorem writeFile_eq_ok (hlocation : fs.resolve p = dir ++ [name])
    (hdir : fs.root.HasDirectory dir) (h : fs.writeFile p e = .ok root') :
    checkPath p = .ok () ∧ root' = fs.root.put e (dir ++ [name]) ∧
      ∀ q, fs.root.HasDirectory q → root'.HasDirectory q := by
  rw [writeFile, hlocation] at h
  obtain ⟨_, hcheck, h⟩ := bind_ok_iff.mp h
  refine ⟨mapError_eq_ok_iff.mp hcheck, ?_⟩
  split at h
  · cases h
  next hnone =>
    cases h
    refine ⟨rfl, fun q hq => hq.put hdir ?_⟩
    rintro ⟨entries, hentries⟩
    exact hnone entries hentries

-- The path of the first source.
def Scaffold.mainPath (project : Path) : Path :=
  project.below ["src", "content", "main.crucible"]

theorem make_eq_ok (hcwd : fs.root.HasDirectory fs.cwd)
    (h : Scaffold.make fs project name = .ok root') :
    checkPath (Scaffold.mainPath project) = .ok () ∧
      FileSystem.Leads root' (fs.start project) (project.parts ++ ["src", "content"]) ∧
      root'.at? (fs.resolve project ++ ["src", "content", "main.crucible"]) =
        some (Scaffold.firstSource name) := by
  obtain ⟨_, -, h⟩ := bind_ok_iff.mp h
  obtain ⟨made, hmade, h⟩ := bind_ok_iff.mp h
  have hstart : fs.root.HasDirectory (fs.start project) := by
    rw [start]
    split
    · exact Entry.hasDirectory_nil hcwd
    · exact hcwd
  have hcontent : project.join (.ofString "src/content") = project.below ["src", "content"] := rfl
  rw [hcontent, start_below, parts_below] at hmade
  obtain ⟨-, hleads⟩ := leads_of_makeDirectories hstart hmade
  have hproject : made.HasDirectory (fs.resolve project) :=
    hleads.stands project.parts (List.prefix_append _ _)
  have hinner : made.HasDirectory (fs.resolve project ++ ["src", "content"]) := by
    rw [← resolve_below fs project (by decide)]
    exact hleads.last
  -- The four files are written one after the other.
  obtain ⟨first, hfirst, h⟩ := bind_ok_iff.mp h
  obtain ⟨second, hsecond, h⟩ := bind_ok_iff.mp h
  obtain ⟨third, hthird, h⟩ := bind_ok_iff.mp h
  obtain ⟨fourth, hfourth, h⟩ := bind_ok_iff.mp h
  cases h
  have hat : ∀ root names, ".." ∉ names →
      ({ fs with root } : FileSystem).resolve (project.below names) = fs.resolve project ++ names :=
    fun _ _ hnames => resolve_below fs project hnames
  have hmain : ({ fs with root := first } : FileSystem).resolve (Scaffold.mainPath project) =
      (fs.resolve project ++ ["src", "content"]) ++ ["main.crucible"] := by
    rw [Scaffold.mainPath, hat first _ (by decide), List.append_assoc]
    rfl
  obtain ⟨-, -, hkeep₁⟩ := writeFile_eq_ok (hat made [Config.fileName] (by decide)) hproject hfirst
  obtain ⟨hcheck, hsource, hkeep₂⟩ := writeFile_eq_ok hmain (hkeep₁ _ hinner) hsecond
  have hproject₂ : second.HasDirectory (fs.resolve project) := hkeep₂ _ (hkeep₁ _ hproject)
  obtain ⟨-, hignored, hkeep₃⟩ := writeFile_eq_ok (hat second [".gitignore"] (by decide)) hproject₂
    hthird
  have hproject₃ : third.HasDirectory (fs.resolve project) := hkeep₃ _ hproject₂
  obtain ⟨-, hreadme, hkeep₄⟩ := writeFile_eq_ok (hat third ["README.md"] (by decide)) hproject₃
    hfourth
  refine ⟨hcheck, hleads.mono fun q hq => hkeep₄ q (hkeep₃ q (hkeep₂ q (hkeep₁ q hq))), ?_⟩
  calc root'.at? (fs.resolve project ++ "src" :: ["content", "main.crucible"])
      = third.at? (fs.resolve project ++ "src" :: ["content", "main.crucible"]) := by
        rw [hreadme]
        exact Entry.at?_put_beside _ hproject₃ (by decide)
    _ = second.at? (fs.resolve project ++ "src" :: ["content", "main.crucible"]) := by
        rw [hignored]
        exact Entry.at?_put_beside _ hproject₂ (by decide)
    _ = some (Scaffold.firstSource name) := by
        rw [hsource, ← Entry.at?_put_self (hkeep₁ _ hinner), List.append_assoc]
        rfl

-- A project that was made has its first source, and nothing is in the way of finding it.
theorem entry_mainPath (hcwd : fs.root.HasDirectory fs.cwd)
    (h : scaffold fs base name = .ok (project, fs')) :
    checkPath (Scaffold.mainPath project) = .ok () ∧
      fs'.entry (Scaffold.mainPath project) = .ok (Scaffold.firstSource name) := by
  rw [scaffold] at h
  split at h
  · cases h
  · cases h
  obtain ⟨root, hmake, h⟩ := bind_ok_iff.mp h
  cases h
  obtain ⟨hcheck, hleads, hsource⟩ := make_eq_ok hcwd (mapError_eq_ok_iff.mp hmake)
  refine ⟨hcheck, ?_⟩
  generalize base.join (.ofString name) = project at *
  have hcontent : Path.normalize (fs.start project) (project.parts ++ ["src", "content"]) =
      fs.resolve project ++ ["src", "content"] :=
    resolve_below fs project (by decide)
  have hlocation : Path.normalize (fs.start project) (project.parts ++ ["src", "content"]) ++
      ["main.crucible"] = fs.resolve project ++ ["src", "content", "main.crucible"] := by
    rw [hcontent, List.append_assoc]
    rfl
  have hwalk : ({ fs with root } : FileSystem).walk (fs.start project)
      (Scaffold.mainPath project).parts =
        .ok (fs.resolve project ++ ["src", "content", "main.crucible"]) := by
    rw [← hlocation]
    rw [← hlocation] at hsource
    have hfile := hleads.walk_file fs.cwd "main.crucible" (by decide) (by decide) hsource
    rwa [List.append_assoc] at hfile
  refine bind_ok_iff.mpr ⟨(), hcheck, bind_ok_iff.mpr ⟨_, hwalk, ?_⟩⟩
  rw [hsource]
  rfl

namespace Scaffold

-- What stands before the name of the project.
def opening : String :=
  "#![mod.name = \""

-- What stands between the name of the project and the name of the namespace.
def closing : String :=
  "\"]" ++ ("\n" ++ ("" ++ ("\n" ++ "namespace ")))

-- What stands behind the name of the namespace.
def declarations : String :=
  " \x7b" ++ ("\n" ++ String.join (firstDeclarations.map (· ++ "\n")))

-- The first source of a project of that name and namespace.
def sourceText (name scope : List Char) : List Char :=
  opening.toList ++ (name ++ (closing.toList ++ (scope ++ declarations.toList)))

theorem ofList_appends (a b c d e : String) :
    String.ofList (a.toList ++ (b.toList ++ (c.toList ++ (d.toList ++ e.toList)))) =
      a ++ (b ++ (c ++ (d ++ e))) := by
  rw [String.ofList_append, String.ofList_append, String.ofList_append, String.ofList_append,
    String.ofList_toList, String.ofList_toList, String.ofList_toList, String.ofList_toList,
    String.ofList_toList]

-- Three lines before others. With strings for all parts, no literal is opened on the way.
theorem join_lines (front name close blank word scope brace feed : String) (rest : List String) :
    String.join (([front ++ name ++ close, blank, word ++ scope ++ brace] ++ rest).map (· ++ feed)) =
      front ++ (name ++ ((close ++ (feed ++ (blank ++ (feed ++ word)))) ++
        (scope ++ (brace ++ (feed ++ String.join (rest.map (· ++ feed))))))) := by
  simp only [List.cons_append, List.nil_append, List.map_cons, String.join_cons,
    String.append_assoc]

theorem firstSource_eq (name : String) :
    firstSource name = .file
      (String.ofList (sourceText name.toList (namespaceFor name).toList)).toUTF8.toList := by
  have htext : String.ofList (sourceText name.toList (namespaceFor name).toList) =
      opening ++ (name ++ (closing ++ (namespaceFor name ++ declarations))) :=
    ofList_appends opening name closing (namespaceFor name) declarations
  have hlines := join_lines opening name "\"]" "" "namespace " (namespaceFor name) " \x7b" "\n"
    firstDeclarations
  rw [htext]
  exact congrArg (fun text => Entry.file text.toUTF8.toList) hlines

-- The text of the first source, as it is read.
theorem readText_mainPath (hcwd : fs.root.HasDirectory fs.cwd)
    (h : scaffold fs base name = .ok (project, fs')) :
    fs'.readText (mainPath project) =
      .ok (Text.unifyLineEnds (sourceText name.toList (namespaceFor name).toList)) := by
  obtain ⟨-, hentry⟩ := entry_mainPath hcwd h
  rw [firstSource_eq] at hentry
  have hdecode := Text.Utf8.decode_toUTF8
    (String.ofList (sourceText name.toList (namespaceFor name).toList))
  rw [String.toList_ofList] at hdecode
  refine bind_ok_iff.mpr ⟨_, mapError_eq_ok_iff.mpr (bind_ok_iff.mpr ⟨_, hentry, rfl⟩), ?_⟩
  exact bind_ok_iff.mpr ⟨_, mapError_eq_ok_iff.mpr hdecode, rfl⟩

-- To compile the first source is to read its text and to merge nothing else with it.
theorem ofPaths_mainPath (hcwd : fs.root.HasDirectory fs.cwd)
    (h : scaffold fs base name = .ok (project, fs')) (limit : Nat) (c : Compilation) :
    Compilation.ofPaths fs' [mainPath project] limit = .ok c ↔
      ∃ f, ParsedFile.ofSource (mainPath project).toText
          (Text.unifyLineEnds (sourceText name.toList (namespaceFor name).toList)) limit = .ok f ∧
        c = .ofFiles [f] := by
  obtain ⟨hcheck, hentry⟩ := entry_mainPath hcwd h
  have hread := readText_mainPath hcwd h
  rw [firstSource_eq] at hentry
  have hnull : (mainPath project).hasNull = false := by
    cases hcase : (mainPath project).hasNull with
    | false => rfl
    | true =>
        rw [checkPath, hcase] at hcheck
        cases hcheck
  have hexpand : fs'.expand (mainPath project) = .ok [mainPath project] := by
    rw [expand, entry?, hentry]
    rfl
  have hdiscover : fs'.discover [mainPath project] = .ok [mainPath project] := by
    refine bind_ok_iff.mpr ⟨[[mainPath project]], ?_, ?_⟩
    · exact bind_ok_iff.mpr ⟨_, hexpand, rfl⟩
    · simp [hnull, distinct]
      rfl
  have hparse : fs'.parse (mainPath project) limit =
      (ParsedFile.ofSource (mainPath project).toText (Text.unifyLineEnds
        (sourceText name.toList (namespaceFor name).toList)) limit).mapError .openComment := by
    rw [FileSystem.parse, hread]
  rw [Compilation.ofPaths, hdiscover]
  change ([mainPath project].mapM (fs'.parse · limit) >>= fun files =>
    pure (Compilation.ofFiles files)) = _ ↔ _
  rw [List.mapM_cons, List.mapM_nil, hparse]
  constructor
  · intro hfiles
    obtain ⟨files, hfiles, hc⟩ := bind_ok_iff.mp hfiles
    obtain ⟨f, hf, hfiles⟩ := bind_ok_iff.mp hfiles
    cases hfiles
    cases hc
    exact ⟨f, mapError_eq_ok_iff.mp hf, rfl⟩
  · rintro ⟨f, hf, rfl⟩
    exact bind_ok_iff.mpr ⟨_, bind_ok_iff.mpr ⟨f, mapError_eq_ok_iff.mpr hf, rfl⟩, rfl⟩

end Scaffold

end CardLore
