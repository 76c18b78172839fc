import CardLore.Proofs.Compilation.Conclusion
import CardLore.Proofs.Course.Layout
import CardLore.Proofs.Merge.Order
import CardLore.Proofs.Project.Source
import CardLore.Proofs.Text.LineEnds

namespace CardLore

namespace Scaffold

theorem toChars?_ofChars (cs : List Char) : (Text.ofChars cs).toChars? = some cs := by
  induction cs with
  | nil => rfl
  | cons c cs ih =>
      change (Text.toChars? (Text.ofChars cs)).map (c :: ·) = _
      rw [ih, Option.map_some]

-- Characters stay characters in lower case.
theorem exists_lower (before : Text) (cs : List Char) :
    ∃ ds, Text.lowerFrom before (Text.ofChars cs) = Text.ofChars ds := by
  induction cs generalizing before with
  | nil => exact ⟨[], rfl⟩
  | cons c cs ih =>
      obtain ⟨ds, hds⟩ := ih (.scalar c :: before)
      change ∃ es, Text.lowerFrom before (.scalar c :: Text.ofChars cs) = Text.ofChars es
      rw [Text.lowerFrom, hds]
      exact ⟨_, (List.map_append ..).symm⟩

-- The characters of the namespace: those of the name in lower case, but for what is no part of a
-- word.
theorem exists_namespaceFor (name : String) : ∃ cs, Text.lower name = Text.ofChars cs ∧
    (namespaceFor name).toList = if cs = [] then "content".toList
      else cs.map fun c => if Text.isWord c then c else '_' := by
  obtain ⟨cs, hcs⟩ := exists_lower [] name.toList
  have hlower : Text.lower name = Text.ofChars cs := hcs
  refine ⟨cs, hlower, ?_⟩
  rw [namespaceFor, hlower, toChars?_ofChars, Option.getD_some]
  cases cs with
  | nil => rfl
  | cons c cs => exact String.toList_ofList

theorem namespaceFor_ne_nil (name : String) : (namespaceFor name).toList ≠ [] := by
  obtain ⟨cs, -, hcs⟩ := exists_namespaceFor name
  rw [hcs]
  split
  · decide
  next hne => simpa using hne

theorem dash_notMem_namespaceFor (name : String) : '-' ∉ (namespaceFor name).toList := by
  obtain ⟨cs, -, hcs⟩ := exists_namespaceFor name
  rw [hcs]
  split
  · decide
  · intro hmem
    obtain ⟨c, -, hc⟩ := List.mem_map.mp hmem
    split at hc
    next hword =>
      rw [hc] at hword
      exact absurd hword (by decide)
    next => cases hc

theorem namespaceFor_keys_iff (name : String) :
    (∀ c ∈ (namespaceFor name).toList, isKeyChar c = true) ↔
      ∀ c, .scalar c ∈ Text.lower name → Text.isWord c = true → isKeyChar c = true := by
  obtain ⟨cs, hlower, hcs⟩ := exists_namespaceFor name
  have hmem : ∀ c, CodePoint.scalar c ∈ Text.lower name ↔ c ∈ cs := by
    intro c
    rw [hlower]
    exact List.mem_map_of_injective fun _ _ => CodePoint.scalar.inj
  simp only [hcs, hmem]
  constructor
  · intro h c hc hword
    rw [if_neg (List.ne_nil_of_mem hc)] at h
    have hkey := h _ (List.mem_map_of_mem hc)
    rwa [if_pos hword] at hkey
  · intro h
    split
    · exact List.all_eq_true.mp (by decide)
    · intro d hd
      obtain ⟨c, hc, rfl⟩ := List.mem_map.mp hd
      split
      next hword => exact h c hc hword
      next => rfl

theorem valid_ofChars_iff {cs : List Char} (hne : cs ≠ []) :
    (Key.ofChars cs).Valid ↔ ∀ c ∈ cs, isKeyChar c = true := by
  constructor
  · rintro ⟨-, h⟩ c hc
    exact h (.scalar c) (List.mem_map_of_mem hc)
  · intro h
    exact ⟨fun hnil => hne (List.map_eq_nil_iff.mp hnil), List.forall_mem_map.mpr h⟩

theorem valid_namespaceFor_iff (name : String) :
    (Key.ofChars (namespaceFor name).toList).Valid ↔
      ∀ c, .scalar c ∈ Text.lower name → Text.isWord c = true → isKeyChar c = true :=
  (valid_ofChars_iff (namespaceFor_ne_nil name)).trans (namespaceFor_keys_iff name)

-- What stands before and behind the namespace, between the quote behind the name and the next one.
def beforeScope : List Char :=
  "]\n\nnamespace ".toList

def behindScope : List Char :=
  " \x7b\n    aspect lantern ".toList

theorem toList_closing : closing.toList = '"' :: beforeScope := by
  decide

theorem return_notMem_declarations : '\r' ∉ declarations.toList := by
  rw [declarations, toList_lines]
  decide

theorem unifyLineEnds_sourceText {scope : List Char} (hscope : '\r' ∉ scope) (name : List Char) :
    Text.unifyLineEnds (sourceText name scope) = sourceText (Text.unifyLineEnds name) scope := by
  have hafter : '\r' ∉ closing.toList ++ (scope ++ declarations.toList) := by
    simp only [List.mem_append, not_or]
    exact ⟨by decide, hscope, return_notMem_declarations⟩
  have hquote : (closing.toList ++ (scope ++ declarations.toList)).head? ≠ some '\n' := by
    rw [toList_closing, List.cons_append, List.head?_cons]
    decide
  rw [sourceText, sourceText, Text.unifyLineEnds_append_left (by decide),
    Text.unifyLineEnds_append_right _ hquote, Text.unifyLineEnds_eq_self hafter]

theorem length_le_of_body {body : List Char} {t : Text} (h : StringBody body t) :
    t.length ≤ body.length := by
  induction h with
  | nil => exact Nat.le_refl _
  | raw _ _ _ ih => exact Nat.succ_le_succ ih
  | short _ _ ih =>
      simp only [List.length_cons]
      omega
  | numbered _ _ _ _ _ ih =>
      simp only [List.length_cons]
      omega

-- A text as long as what writes it is written without escapes.
theorem plain_of_body {body : List Char} {t : Text} (h : StringBody body t)
    (hlength : body.length ≤ t.length) :
    t = Text.ofChars body ∧ ∀ c ∈ body, c ≠ '"' ∧ c ≠ '\\' := by
  induction h with
  | nil => exact ⟨rfl, List.forall_mem_nil _⟩
  | raw hquote hslash _ ih =>
      obtain ⟨rfl, hplain⟩ := ih (Nat.le_of_succ_le_succ hlength)
      exact ⟨rfl, List.forall_mem_cons.mpr ⟨⟨hquote, hslash⟩, hplain⟩⟩
  | short _ h =>
      have := length_le_of_body h
      simp only [List.length_cons] at hlength
      omega
  | numbered _ _ _ _ h =>
      have := length_le_of_body h
      simp only [List.length_cons] at hlength
      omega

-- A quote in the middle is the end of an escape, so the rest can be read from there.
theorem body_of_quote {front rest : List Char} {t : Text}
    (h : StringBody (front ++ '"' :: rest) t) : ∃ t', StringBody rest t' := by
  generalize hcs : front ++ '"' :: rest = cs at h
  induction h generalizing front with
  | nil => simp at hcs
  | raw hquote _ _ ih =>
      cases front with
      | nil => exact absurd (List.cons.inj hcs).1.symm hquote
      | cons _ front => exact ih (List.cons.inj hcs).2
  | short _ h ih =>
      match front, hcs with
      | [], hcs => cases hcs
      | [_], hcs =>
          cases hcs
          exact ⟨_, h⟩
      | _ :: _ :: front, hcs => exact ih (List.cons.inj (List.cons.inj hcs).2).2
  | numbered ha hb hc hd _ ih =>
      have hdigit : ∀ n, ('"', n) ∉ hexDigits := by
        intro n hn
        cases (hexValue?_eq_some_iff '"' n).mpr hn
      match front, hcs with
      | [], hcs => cases hcs
      | [_], hcs => cases hcs
      | [_, _], hcs =>
          cases hcs
          exact absurd ha (hdigit _)
      | [_, _, _], hcs =>
          cases hcs
          exact absurd hb (hdigit _)
      | [_, _, _, _], hcs =>
          cases hcs
          exact absurd hc (hdigit _)
      | [_, _, _, _, _], hcs =>
          cases hcs
          exact absurd hd (hdigit _)
      | _ :: _ :: _ :: _ :: _ :: _ :: front, hcs =>
          simp only [List.cons_append, List.cons.injEq] at hcs
          exact ih hcs.2.2.2.2.2.2

theorem exists_declarations : ∃ rest, declarations.toList = behindScope ++ '"' :: 'L' :: rest := by
  have hfront : declarations.toList.take 24 = behindScope ++ ['"', 'L'] := by
    rw [declarations, toList_lines]
    decide
  refine ⟨declarations.toList.drop 24, (List.take_append_drop 24 _).symm.trans ?_⟩
  rw [hfront, List.append_assoc, List.cons_append, List.cons_append, List.nil_append]

def gap (scope : List Char) : List Char :=
  beforeScope ++ (scope ++ behindScope)

theorem exists_sourceText (name scope : List Char) : ∃ rest,
    sourceText name scope = opening.toList ++ (name ++ '"' :: (gap scope ++ '"' :: 'L' :: rest)) := by
  obtain ⟨rest, hrest⟩ := exists_declarations
  refine ⟨rest, ?_⟩
  rw [sourceText, toList_closing, hrest, gap]
  simp only [List.cons_append, List.append_assoc]

theorem stringBody_gap {scope : List Char} (h : ∀ c ∈ scope, isKeyChar c = true) :
    StringBody (gap scope) (Text.ofChars (gap scope)) := by
  have hbefore : (beforeScope.all fun c => c ≠ '"' ∧ c ≠ '\\') = true := by decide
  have hbehind : (behindScope.all fun c => c ≠ '"' ∧ c ≠ '\\') = true := by decide
  simp only [List.all_eq_true, decide_eq_true_eq] at hbefore hbehind
  refine stringBody_plain ?_
  simp only [gap, List.forall_mem_append]
  refine ⟨hbefore, fun c hc => ⟨?_, ?_⟩, hbehind⟩
  · rintro rfl
    cases h _ hc
  · rintro rfl
    cases h _ hc

variable {ctx : Context} {s t : State}

-- The string of the attribute ends at the quote behind the name: at the next one no bracket
-- follows.
theorem eq_of_fileAttribute {name scope : List Char} {key : Key} {text : Text}
    (hctx : ctx.newlines = true) (hlimit : 0 < ctx.limit)
    (hscope : ∀ c ∈ scope, isKeyChar c = true) (hs : s.rest = sourceText name scope)
    (hlength : name.length ≤ text.length)
    (h : Parser.fileAttribute ctx s = .ok ⟨key, .string text⟩ t) :
    text = Text.ofChars name ∧ ∀ c ∈ name, c ≠ '"' ∧ c ≠ '\\' := by
  obtain ⟨rest, hrest⟩ := exists_sourceText name scope
  obtain ⟨u, hu, heq⟩ := fileAttribute_opening hctx hlimit (hs.trans hrest)
  rw [heq] at h
  obtain ⟨_, v, hstring, h⟩ := bind_eq_ok_iff.mp h
  obtain ⟨_, w, hsymbol, ⟨⟩⟩ := bind_eq_ok_iff.mp h
  have hread := string_sound hctx (s := u)
  rw [hstring] at hread
  obtain ⟨lead, body, hlead, hbody, htakes⟩ := hread
  have hmark : "]".toList = [']'] := rfl
  have hshown := symbol_spec hmark (by decide) hctx (s := v)
  rw [hsymbol] at hshown
  obtain ⟨lead', hlead', hbracket⟩ := hshown
  have hfront : [] ++ '"' :: (name ++ '"' :: (gap scope ++ '"' :: 'L' :: rest)) =
      lead ++ '"' :: (body ++ '"' :: v.rest) := by
    rw [List.nil_append, ← hu, htakes.1]
    simp only [List.cons_append, List.append_assoc, List.nil_append]
  have hquote : IsSolid '"' := by decide
  have hinside := (List.cons.inj (IsTrivia.nil.unique hlead hquote hquote hfront).2).2
  have hlast := length_le_of_body hbody
  rcases List.append_eq_append_iff.mp hinside with ⟨more, hmore, htail⟩ | ⟨more, hmore, htail⟩
  · -- a later quote of the source is the end of the string
    cases more with
    | nil =>
        rw [List.append_nil] at hmore
        rw [← hmore]
        exact plain_of_body hbody (by rwa [hmore])
    | cons c more =>
        exfalso
        have hrests : gap scope ++ '"' :: 'L' :: rest = more ++ '"' :: v.rest :=
          (List.cons.inj htail).2
        rw [hmore, ← (List.cons.inj htail).1] at hbody
        obtain ⟨_, hmore⟩ := body_of_quote hbody
        have hscan := scanString_body hmore v.rest
        rw [← hrests, scanString_body (stringBody_gap hscope)] at hscan
        have hsame : (gap scope).length = more.length := by
          injection hscan with _ hlength
          omega
        obtain ⟨-, hbehind⟩ := List.append_inj hrests hsame
        have hshows : Shows ']' ([] ++ 'L' :: rest) := by
          refine ⟨lead', t.rest, hlead', (List.cons.inj hbehind).2.trans ?_⟩
          rw [hbracket.1, List.append_assoc]
          rfl
        exact not_shows .nil (by decide) (by decide) (by decide) hshows
  · -- the string cannot end in the name, which is not longer than what it says
    have hmore' := congrArg List.length hmore
    rw [List.length_append] at hmore'
    obtain rfl : more = [] := List.length_eq_zero_iff.mp (by omega)
    rw [List.append_nil] at hmore
    rw [hmore]
    exact plain_of_body hbody (by rwa [← hmore])

-- The keys that a project starts with.
def firstKeys (scope : Key) : Kind → List Key
  | .aspect => [scope.child "lantern"]
  | .card => [scope.child "candle"]
  | .verb => [scope.child "work"]
  | _ => []

-- The definition of an outline in a namespace.
def within (scope : Key) (o : Kind × Key × Option Key) : Kind × Key × Option Key :=
  (o.1, scope.child o.2.1, o.2.2)

theorem declaredIn_outlines {scope : Key} {body : List Declaration}
    {outlines : List (Kind × Key × Option Key)} (h : body.map outline = outlines.map some) :
    (Declaration.declaredIn scope body).map (fun d => (d.kind, d.key, d.inherits)) =
      outlines.map (within scope) := by
  induction body generalizing outlines with
  | nil =>
      obtain rfl := List.map_eq_nil_iff.mp h.symm
      rfl
  | cons d body ih =>
      cases outlines with
      | nil => cases h
      | cons o outlines =>
          obtain ⟨hd, hbody⟩ := List.cons.inj h
          cases d with
          | scope => cases hd
          | component d =>
              have hkind : (d.component.withId (scope.child d.id)).kind = d.component.kind := by
                cases d.component <;> rfl
              rw [Declaration.declaredIn, List.map_append, ih hbody, List.map_cons,
                ← Option.some.inj hd, within, ← hkind]
              rfl

theorem mergeTrees_first {file : String} {attributes : List Attribute} {scope : Key}
    {body : List Declaration} {span : Span} (h : body.map outline = firstOutlines.map some) :
    ∃ corpus, mergeTrees [⟨file, attributes, [.scope scope [] body span]⟩] = .ok corpus ∧
      corpus.attributes = attributes ∧
      ∀ kind, (corpus.collection kind).map Prod.fst = firstKeys scope kind := by
  generalize htrees : [(⟨file, attributes, [.scope scope [] body span]⟩ : FileTree)] = trees
  have houtlines : (declared trees).map (fun d => (d.kind, d.key, d.inherits)) =
      firstOutlines.map (within scope) := by
    have hdeclared : declared trees = Declaration.declaredIn scope body ++ [] ++ [] := by
      rw [← htrees]
      rfl
    rw [hdeclared, List.append_nil, List.append_nil, declaredIn_outlines h]
  have hroot : ∀ d ∈ declared trees, d.inherits = none := by
    have hall : ∀ o ∈ firstOutlines.map (within scope), o.2.2 = none := by
      simp [firstOutlines, within]
    rw [← houtlines] at hall
    exact List.forall_mem_map.mp hall
  have hconsistent : Consistent (declared trees) := by
    refine ⟨?_, fun d hd name hname => ?_, fun d hcycle => ?_⟩
    · have hidentity : (declared trees).map Definition.identity =
          ((declared trees).map fun d => (d.kind, d.key, d.inherits)).map fun o => (o.1, o.2.1) := by
        rw [List.map_map]
        rfl
      rw [hidentity, houtlines]
      simp [firstOutlines, within]
    · cases (hroot d hd).symm.trans hname
    · obtain ⟨_, ⟨name, hname, -⟩, -⟩ := Relation.TransGen.head'_iff.mp hcycle
      obtain ⟨_, -, ⟨-, -, hd, -⟩⟩ := Relation.TransGen.tail'_iff.mp hcycle
      cases (hroot d hd).symm.trans hname
  refine ⟨_, (mergeTrees_ok_iff trees _).mpr ⟨hconsistent, rfl⟩, ?_, fun kind => ?_⟩
  · change (finalState trees).attributes = attributes
    rw [attributes_finalState, ← htrees]
    exact List.append_nil attributes
  · have hkeys : ((declared trees).filter (·.kind = kind)).map Definition.key =
        (((declared trees).map fun d => (d.kind, d.key, d.inherits)).filter (·.1 = kind)).map
          fun o => o.2.1 := by
      rw [List.filter_map, List.map_map]
      rfl
    rw [collection_finalState hconsistent, List.map_map]
    refine hkeys.trans ?_
    rw [houtlines]
    cases kind <;> rfl

-- The first source compiles, where brackets may nest `limit` deep, and its corpus has the name of
-- the project and the first definitions in its namespace.
def Compiles (fs : FileSystem) (project : Path) (name : String) (limit : Nat := defaultLimit) :
    Prop :=
  ∃ c corpus, Compilation.ofPaths fs [mainPath project] limit = .ok c ∧ c.corpus = some corpus ∧
    corpus.attributes = [⟨"mod.name", .string name⟩] ∧
    ∀ kind, (corpus.collection kind).map Prod.fst =
      firstKeys (Key.ofChars (namespaceFor name).toList) kind

theorem corpus_of_tree {file : String} {tree : FileTree} {corpus : Corpus}
    (h : mergeTrees [tree] = .ok corpus) :
    (Compilation.ofFiles [⟨file, .ok tree⟩]).corpus = some corpus := by
  refine (Compilation.corpus_ofFiles_iff _ corpus).mpr ⟨?_, h⟩
  rw [Compilation.diagnostics_ofFiles]
  change [] ++ (mergeConflicts [tree]).map _ = []
  rw [mergeConflicts, h]
  rfl

theorem tree_of_corpus {f : ParsedFile} {corpus : Corpus}
    (h : (Compilation.ofFiles [f]).corpus = some corpus) :
    ∃ tree, f.result = .ok tree ∧ corpus.attributes = tree.attributes := by
  obtain ⟨hnone, hmerge⟩ := (Compilation.corpus_ofFiles_iff _ corpus).mp h
  rw [Compilation.diagnostics_ofFiles] at hnone
  obtain ⟨file, result⟩ := f
  cases result with
  | error fault => cases hnone
  | ok tree =>
      refine ⟨tree, rfl, ?_⟩
      obtain ⟨-, rfl⟩ := (mergeTrees_ok_iff [tree] corpus).mp hmerge
      exact (attributes_finalState [tree]).trans (List.append_nil _)

theorem return_notMem_of_keys {scope : List Char} (h : ∀ c ∈ scope, isKeyChar c = true) :
    '\r' ∉ scope := by
  intro hmem
  cases h _ hmem

-- The first attribute of an accepted file is read where the file begins.
theorem fileAttribute_of_accepted {a : Attribute} {found : List Attribute × List Declaration}
    (h : Parser.accepted ctx s = .ok found t) (hfound : found.1 = [a]) :
    ∃ u, Parser.fileAttribute ctx s = .ok a u := by
  obtain ⟨attributes, u, hmany, h⟩ := bind_eq_ok_iff.mp h
  obtain ⟨ds, v, -, ⟨⟩⟩ := bind_eq_ok_iff.mp h
  change attributes = [a] at hfound
  subst hfound
  obtain ⟨o, v, hattempt, h⟩ := bind_eq_ok_iff.mp hmany
  cases o with
  | none => cases h
  | some first =>
      obtain ⟨_, _, -, ⟨⟩⟩ := bind_eq_ok_iff.mp h
      rcases attempt_eq_ok hattempt with ⟨_, ⟨⟩, hfirst⟩ | ⟨_, _, _, ⟨⟩, -⟩
      exact ⟨v, hfirst⟩

end Scaffold

variable {fs fs' : FileSystem} {base project : Path} {name : String} {limit : Nat}

-- Wherever something may stand inside of a namespace, a new project compiles if and only if its
-- name, in lower case, has no letters or digits but those of identifiers, and holds no quote, no
-- backslash and no carriage return.
theorem scaffolded_project_compiles_iff (hlimit : 2 ≤ limit) (hcwd : fs.root.HasDirectory fs.cwd)
    (h : scaffold fs base name = .ok (project, fs')) :
    (Key.ofChars (Scaffold.namespaceFor name).toList).Valid ∧
        Scaffold.Compiles fs' project name limit ↔
      (∀ c, .scalar c ∈ Text.lower name → Text.isWord c = true → isKeyChar c = true) ∧
        ∀ c ∈ name.toList, c ≠ '"' ∧ c ≠ '\\' ∧ c ≠ '\r' := by
  rw [Scaffold.valid_namespaceFor_iff]
  refine and_congr_right fun hwords => ?_
  have hkeys := (Scaffold.namespaceFor_keys_iff name).mpr hwords
  have hread := Scaffold.ofPaths_mainPath hcwd h limit
  rw [Scaffold.unifyLineEnds_sourceText (Scaffold.return_notMem_of_keys hkeys)] at hread
  constructor
  · rintro ⟨c, corpus, hc, hcorpus, hattributes, -⟩
    obtain ⟨f, hf, rfl⟩ := (hread c).mp hc
    obtain ⟨tree, htree, hsame⟩ := Scaffold.tree_of_corpus hcorpus
    have hfile := file_ofSource hf
    obtain ⟨file, result⟩ := f
    subst htree hfile
    generalize hsource : Scaffold.sourceText _ _ = source at hf
    obtain ⟨-, _, _, _, haccepted, -⟩ := ofSource_eq_tree_iff.mp hf
    obtain ⟨_, hattribute⟩ :=
      Scaffold.fileAttribute_of_accepted haccepted (hsame.symm.trans hattributes)
    have hctx : ∀ file, (Context.ofSource file source limit).newlines = true := fun _ => rfl
    have hlength : (Text.unifyLineEnds name.toList).length ≤ (Text.ofString name).length := by
      rw [Text.ofString, Text.ofChars, List.length_map]
      exact Text.length_unifyLineEnds_le _
    obtain ⟨htext, hplain⟩ :=
      Scaffold.eq_of_fileAttribute (hctx _) (Nat.zero_lt_of_lt hlimit) hkeys hsource.symm hlength
        hattribute
    have hself : name.toList = Text.unifyLineEnds name.toList := ofChars_inj htext
    rw [← hself] at hplain
    refine fun c hc => ⟨(hplain c hc).1, (hplain c hc).2, ?_⟩
    rintro rfl
    rw [hself] at hc
    exact Text.return_notMem_unifyLineEnds _ hc
  · intro hplain
    have hself : Text.unifyLineEnds name.toList = name.toList :=
      Text.unifyLineEnds_eq_self fun hc => (hplain _ hc).2.2 rfl
    rw [hself] at hread
    have hquotes : ∀ c ∈ name.toList, c ≠ '"' ∧ c ≠ '\\' :=
      fun c hc => ⟨(hplain c hc).1, (hplain c hc).2.1⟩
    obtain ⟨body, span, hf, hbody⟩ :=
      Scaffold.ofSource_sourceText (Scaffold.mainPath project).toText hlimit hquotes
        (Scaffold.namespaceFor_ne_nil name) hkeys (Scaffold.dash_notMem_namespaceFor name)
    obtain ⟨corpus, hmerge, hattributes, hcollections⟩ := Scaffold.mergeTrees_first hbody
    exact ⟨_, corpus, (hread _).mpr ⟨_, hf, rfl⟩, Scaffold.corpus_of_tree hmerge, hattributes,
      hcollections⟩

def emptyFiles : FileSystem := ⟨.directory [], []⟩

theorem scaffolded_project_compiles_iff_blank_name :
    ∃ project fs', scaffold emptyFiles ⟨"", []⟩ "Night Garden" = .ok (project, fs') ∧
      (Key.ofChars (Scaffold.namespaceFor "Night Garden").toList).Valid ∧
        Scaffold.Compiles fs' project "Night Garden" := by
  have hmade : (scaffold emptyFiles ⟨"", []⟩ "Night Garden").isOk = true := by decide +kernel
  cases h : scaffold emptyFiles ⟨"", []⟩ "Night Garden" with
  | error fault =>
      rw [h] at hmade
      cases hmade
  | ok made =>
      have hwords := (Scaffold.valid_namespaceFor_iff "Night Garden").mp (by decide +kernel)
      have hplain : ("Night Garden".toList.all fun c => c ≠ '"' ∧ c ≠ '\\' ∧ c ≠ '\r') = true := by
        decide +kernel
      simp only [List.all_eq_true, decide_eq_true_eq] at hplain
      exact ⟨made.1, made.2, rfl,
        (scaffolded_project_compiles_iff (by decide) ⟨[], rfl⟩ h).mpr ⟨hwords, hplain⟩⟩

-- A letter that is no character of identifiers: the project is made, but its source is refused.
theorem scaffolded_accent_is_refused :
    ((scaffold emptyFiles ⟨"", []⟩ "café").toOption.bind fun made =>
      (Compilation.ofPaths made.2 [Scaffold.mainPath made.1]).toOption.map (·.ok)) = some false := by
  decide +kernel

end CardLore
