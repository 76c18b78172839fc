import CardLore.Compilation
import CardLore.Proofs.Merge.Reports
import CardLore.Proofs.Parsed.Basic

namespace CardLore

namespace Parser

-- The attributes and declarations that are accepted from the front of a file.
def accepted : Parser (List Attribute × List Declaration) := do
  let attributes ← many fileAttribute
  let declarations ← declarations
  return (attributes, declarations)

theorem onlyTriviaLeft_eq (ctx : Context) (s : State) :
    onlyTriviaLeft ctx s = match Trivia.skip true s.pos s.rest with
      | .stopped _ rest _ => .ok rest.isEmpty s
      | .unclosed start => .mismatch start "'*)' to close block comment"
          (s.furthest.record start "'*)' to close block comment") := by
  change lookahead (Parser.bind (skipTriviaWith true) _) ctx s = _
  rw [lookahead, Parser.bind, skipTriviaWith_eq]
  cases Trivia.skip true s.pos s.rest <;> rfl

-- The rest behind the declarations is looked at twice from one place, so only the first look can
-- find a comment that is not closed.
theorem file_mismatch_iff (ctx : Context) (s : State) (pos : Nat) (expected : String) :
    (∃ furthest, file ctx s = .mismatch pos expected furthest) ↔
      (∃ found last, accepted ctx s = .ok found last ∧
        Trivia.skip true last.pos last.rest = .unclosed pos) ∧
      expected = "'*)' to close block comment" := by
  constructor
  · rintro ⟨furthest, h⟩
    rcases bind_eq_mismatch_iff.mp h with h | ⟨attributes, next, hattributes, h⟩
    · exact absurd h (many_ne_mismatch _ _ _ _ _ _)
    rcases bind_eq_mismatch_iff.mp h with h | ⟨declarations, last, hdeclarations, h⟩
    · exact absurd h (many_ne_mismatch _ _ _ _ _ _)
    have haccepted : accepted ctx s = .ok (attributes, declarations) last :=
      bind_eq_ok_iff.mpr ⟨_, _, hattributes, bind_eq_ok_iff.mpr ⟨_, _, hdeclarations, rfl⟩⟩
    cases hskip : Trivia.skip true last.pos last.rest with
    | unclosed start =>
        rcases bind_eq_mismatch_iff.mp h with h | ⟨only, final, honly, -⟩
        · rw [onlyTriviaLeft_eq, hskip] at h
          cases h
          exact ⟨⟨_, last, haccepted, hskip⟩, rfl⟩
        · rw [onlyTriviaLeft_eq, hskip] at honly
          cases honly
    | stopped pos' rest crossed =>
        rcases bind_eq_mismatch_iff.mp h with h | ⟨only, final, honly, h⟩
        · rw [onlyTriviaLeft_eq, hskip] at h
          cases h
        · rw [onlyTriviaLeft_eq, hskip] at honly
          cases honly
          cases rest with
          | nil => cases h
          | cons c cs =>
              change (skipTriviaWith true >>= _) ctx last = _ at h
              rcases bind_eq_mismatch_iff.mp h with h | ⟨_, _, -, h⟩
              · rw [skipTriviaWith_eq, hskip] at h
                cases h
              · cases h
  · rintro ⟨⟨found, last, haccepted, hskip⟩, rfl⟩
    obtain ⟨attributes, next, hattributes, h⟩ := bind_eq_ok_iff.mp haccepted
    obtain ⟨declarations, last, hdeclarations, ⟨⟩⟩ := bind_eq_ok_iff.mp h
    have honly := onlyTriviaLeft_eq ctx last
    rw [hskip] at honly
    exact ⟨_, bind_eq_mismatch_iff.mpr (.inr ⟨_, _, hattributes,
      bind_eq_mismatch_iff.mpr (.inr ⟨_, _, hdeclarations,
        bind_eq_mismatch_iff.mpr (.inl honly)⟩)⟩)⟩

end Parser

-- Behind all that is accepted from the source, a block comment is opened at `start` and not closed.
def LeavesCommentOpen (file : String) (source : List Char) (limit start : Nat) : Prop :=
  ∃ found s, Parser.accepted (.ofSource file source limit) (.ofSource source) = .ok found s ∧
    Trivia.skip true s.pos s.rest = .unclosed start

theorem ofSource_eq_error_iff (file : String) (source : List Char) (limit : Nat) (m : Mismatch) :
    ParsedFile.ofSource file source limit = .error m ↔
      LeavesCommentOpen file source limit m.pos ∧ m.expected = "'*)' to close block comment" := by
  rw [LeavesCommentOpen, ← Parser.file_mismatch_iff, ParsedFile.ofSource]
  obtain ⟨pos, expected⟩ := m
  constructor
  · intro h
    split at h
    · cases h
    · cases h
    · rename_i furthest hfile
      cases h
      exact ⟨furthest, hfile⟩
    · cases h
    · cases h
  · rintro ⟨furthest, hfile⟩
    rw [hfile]

theorem exists_ofSource_iff (file : String) (source : List Char) (limit : Nat) :
    (∃ f, ParsedFile.ofSource file source limit = .ok f) ↔
      ∀ start, ¬ LeavesCommentOpen file source limit start := by
  constructor
  · rintro ⟨f, hf⟩ start hopen
    have herror := (ofSource_eq_error_iff file source limit ⟨start, _⟩).mpr ⟨hopen, rfl⟩
    rw [hf] at herror
    cases herror
  · intro h
    cases hsource : ParsedFile.ofSource file source limit with
    | ok f => exact ⟨f, rfl⟩
    | error m => exact absurd ((ofSource_eq_error_iff file source limit m).mp hsource).1 (h m.pos)

theorem file_ofSource {file : String} {source : List Char} {limit : Nat} {f : ParsedFile}
    (h : ParsedFile.ofSource file source limit = .ok f) : f.file = file := by
  rw [ParsedFile.ofSource] at h
  split at h <;> cases h <;> rfl

section

variable {ε α β : Type} (read : α → Except ε β)

theorem exists_mem_of_forall₂ {R : α → β → Prop} {xs : List α} {ys : List β}
    (h : List.Forall₂ R xs ys) {y : β} (hy : y ∈ ys) : ∃ x ∈ xs, R x y := by
  induction h with
  | nil => cases hy
  | @cons a b xs ys hab _ ih =>
      rcases List.mem_cons.mp hy with rfl | hy
      · exact ⟨a, List.mem_cons_self, hab⟩
      · obtain ⟨x, hx, hxy⟩ := ih hy
        exact ⟨x, List.mem_cons_of_mem a hx, hxy⟩

theorem mapM_eq_ok_iff (xs : List α) (ys : List β) :
    xs.mapM read = .ok ys ↔ List.Forall₂ (fun x y => read x = .ok y) xs ys := by
  induction xs generalizing ys with
  | nil => cases ys <;> simp [pure, Except.pure]
  | cons x xs ih =>
      rw [List.mapM_cons]
      cases hx : read x with
      | error e => cases ys <;> simp [bind, Except.bind, hx]
      | ok y =>
          cases hxs : xs.mapM read with
          | error e =>
              have hnone : ∀ ys, ¬ List.Forall₂ (fun x y => read x = .ok y) xs ys := by
                intro ys hys
                cases hxs.symm.trans ((ih ys).mpr hys)
              cases ys <;> simp [bind, Except.bind, hx, hnone]
          | ok zs =>
              have hzs := fun ys => (ih ys).symm.trans (by rw [hxs, Except.ok.injEq])
              cases ys <;> simp [bind, Except.bind, pure, Except.pure, hx, hzs]

-- The first element that cannot be read gives the error.
theorem mapM_eq_error_iff (xs : List α) (e : ε) :
    xs.mapM read = .error e ↔ ∃ before x after, xs = before ++ x :: after ∧
      (∀ y ∈ before, ∃ v, read y = .ok v) ∧ read x = .error e := by
  induction xs with
  | nil => simp [pure, Except.pure]
  | cons x xs ih =>
      rw [List.mapM_cons]
      constructor
      · intro h
        cases hx : read x with
        | error e' =>
            simp only [bind, Except.bind, hx, Except.error.injEq] at h
            exact ⟨[], x, xs, rfl, by simp, h ▸ hx⟩
        | ok y =>
            cases hxs : xs.mapM read with
            | error e' =>
                simp only [bind, Except.bind, hx, hxs, Except.error.injEq] at h
                obtain ⟨before, z, after, rfl, hbefore, hz⟩ := ih.mp (h ▸ hxs)
                exact ⟨x :: before, z, after, rfl, List.forall_mem_cons.mpr ⟨⟨y, hx⟩, hbefore⟩, hz⟩
            | ok zs => simp [bind, Except.bind, pure, Except.pure, hx, hxs] at h
      · rintro ⟨before, z, after, heq, hbefore, hz⟩
        cases before with
        | nil =>
            obtain ⟨rfl, rfl⟩ := List.cons.inj heq
            rw [hz]
            rfl
        | cons b before =>
            obtain ⟨rfl, rfl⟩ := List.cons.inj heq
            obtain ⟨⟨y, hx⟩, hbefore⟩ := List.forall_mem_cons.mp hbefore
            rw [hx, ih.mpr ⟨before, z, after, rfl, hbefore, hz⟩]
            rfl

end

-- The conflicts that the merge of the trees reports.
def mergeConflicts (trees : List FileTree) : List Conflict :=
  match mergeTrees trees with
  | .ok _ => []
  | .error conflicts => conflicts

theorem mergeTrees_error_ne_nil {trees : List FileTree} {conflicts : List Conflict}
    (h : mergeTrees trees = .error conflicts) : conflicts ≠ [] := by
  by_cases hnil : (finalState trees).conflicts = []
  · cases h.symm.trans (mergeTrees_of_nil hnil)
  · cases h.symm.trans (mergeTrees_of_ne_nil hnil)
    exact hnil

namespace Compilation

-- The trees of the files that were read.
def trees (c : Compilation) : List FileTree :=
  c.files.filterMap (·.tree?)

theorem diagnostics_ofFiles (files : List ParsedFile) :
    (ofFiles files).diagnostics = files.flatMap (·.diagnostics) ++
      (mergeConflicts (files.filterMap (·.tree?))).map (·.diagnostic) := by
  rw [ofFiles, mergeConflicts]
  cases mergeTrees (files.filterMap (·.tree?)) with
  | error conflicts => rfl
  | ok corpus => cases files.flatMap (·.diagnostics) <;> simp

theorem corpus_ofFiles_iff (files : List ParsedFile) (corpus : Corpus) :
    (ofFiles files).corpus = some corpus ↔
      (ofFiles files).diagnostics = [] ∧ mergeTrees (files.filterMap (·.tree?)) = .ok corpus := by
  rw [ofFiles]
  cases hmerge : mergeTrees (files.filterMap (·.tree?)) with
  | error conflicts => simp
  | ok found => cases files.flatMap (·.diagnostics) <;> simp

theorem isSome_corpus_ofFiles (files : List ParsedFile) :
    (ofFiles files).corpus.isSome ↔ (ofFiles files).diagnostics = [] := by
  rw [Option.isSome_iff_exists]
  refine ⟨fun ⟨corpus, h⟩ => ((corpus_ofFiles_iff files corpus).mp h).1, fun hnil => ?_⟩
  cases hmerge : mergeTrees (files.filterMap (·.tree?)) with
  | ok corpus => exact ⟨corpus, (corpus_ofFiles_iff files corpus).mpr ⟨hnil, hmerge⟩⟩
  | error conflicts =>
      rw [diagnostics_ofFiles, mergeConflicts, hmerge] at hnil
      have hmap := (List.append_eq_nil_iff.mp hnil).2
      exact absurd (List.map_eq_nil_iff.mp hmap) (mergeTrees_error_ne_nil hmerge)

theorem files_ofFiles (files : List ParsedFile) : (ofFiles files).files = files := by
  rw [ofFiles]
  cases mergeTrees (files.filterMap (·.tree?)) with
  | error conflicts => rfl
  | ok corpus => cases files.flatMap (·.diagnostics) <;> rfl

theorem ofSources_eq (sources : List (String × List Char)) (limit : Nat) :
    ofSources sources limit =
      (sources.mapM fun s => ParsedFile.ofSource s.1 s.2 limit) >>= fun files => .ok (ofFiles files) :=
  rfl

theorem ofSources_eq_ok_iff (sources : List (String × List Char)) (limit : Nat) (c : Compilation) :
    ofSources sources limit = .ok c ↔
      List.Forall₂ (fun s f => ParsedFile.ofSource s.1 s.2 limit = .ok f) sources c.files ∧
        c = ofFiles c.files := by
  rw [← mapM_eq_ok_iff, ofSources_eq]
  cases sources.mapM fun s => ParsedFile.ofSource s.1 s.2 limit with
  | error m => simp [bind, Except.bind]
  | ok files =>
      simp only [bind, Except.bind, Except.ok.injEq]
      constructor
      · rintro rfl
        rw [files_ofFiles]
        exact ⟨rfl, rfl⟩
      · rintro ⟨rfl, hc⟩
        exact hc.symm

theorem ofSources_eq_error_iff (sources : List (String × List Char)) (limit : Nat) (m : Mismatch) :
    ofSources sources limit = .error m ↔ ∃ before s after, sources = before ++ s :: after ∧
      (∀ t ∈ before, ∃ f, ParsedFile.ofSource t.1 t.2 limit = .ok f) ∧
      ParsedFile.ofSource s.1 s.2 limit = .error m := by
  rw [← mapM_eq_error_iff (fun s : String × List Char => ParsedFile.ofSource s.1 s.2 limit), ofSources_eq]
  cases sources.mapM fun s => ParsedFile.ofSource s.1 s.2 limit <;> simp [bind, Except.bind]

end Compilation

-- A run gives a report exactly if no source leaves a block comment open behind its declarations,
-- else it ends at the first one that does. A report has the files of the sources, each with what
-- reading it alone gives, their diagnostics in order and behind them the conflicts of the trees,
-- and a corpus if and only if there is nothing to report. The depth of the stack is left out of
-- this, see `Merger.resolve`.
theorem run_reports_unless_comment_left_open (sources : List (String × List Char)) (limit : Nat) :
    ((∃ c, Compilation.ofSources sources limit = .ok c) ↔
      ∀ s ∈ sources, ∀ start, ¬ LeavesCommentOpen s.1 s.2 limit start) ∧
    (∀ m, Compilation.ofSources sources limit = .error m ↔
      ∃ before s after, sources = before ++ s :: after ∧
        (∀ t ∈ before, ∀ start, ¬ LeavesCommentOpen t.1 t.2 limit start) ∧
        LeavesCommentOpen s.1 s.2 limit m.pos ∧ m.expected = "'*)' to close block comment") ∧
    ∀ c, Compilation.ofSources sources limit = .ok c →
      List.Forall₂ (fun s f => ParsedFile.ofSource s.1 s.2 limit = .ok f ∧ f.file = s.1)
        sources c.files ∧
      (c.ok = true ↔ c.corpus.isSome) ∧ (c.corpus.isSome ↔ c.diagnostics = []) ∧
      c.diagnostics = c.files.flatMap (·.diagnostics) ++
        (mergeConflicts c.trees).map (·.diagnostic) ∧
      ∀ corpus, c.corpus = some corpus → mergeTrees c.trees = .ok corpus := by
  have herror : ∀ m, Compilation.ofSources sources limit = .error m ↔
      ∃ before s after, sources = before ++ s :: after ∧
        (∀ t ∈ before, ∀ start, ¬ LeavesCommentOpen t.1 t.2 limit start) ∧
        LeavesCommentOpen s.1 s.2 limit m.pos ∧ m.expected = "'*)' to close block comment" := by
    intro m
    simp only [Compilation.ofSources_eq_error_iff, exists_ofSource_iff, ofSource_eq_error_iff]
  refine ⟨⟨?_, ?_⟩, herror, ?_⟩
  · rintro ⟨c, hc⟩ s hs
    obtain ⟨hfiles, -⟩ := (Compilation.ofSources_eq_ok_iff sources limit c).mp hc
    obtain ⟨f, -, hf⟩ := exists_mem_of_forall₂ hfiles.flip hs
    exact (exists_ofSource_iff s.1 s.2 limit).mp ⟨f, hf⟩
  · intro hclosed
    cases hsources : Compilation.ofSources sources limit with
    | ok c => exact ⟨c, rfl⟩
    | error m =>
        obtain ⟨before, s, after, rfl, -, hopen, -⟩ := (herror m).mp hsources
        exact absurd hopen (hclosed s (by simp) m.pos)
  · intro c hc
    obtain ⟨hfiles, hreport⟩ := (Compilation.ofSources_eq_ok_iff sources limit c).mp hc
    rw [Compilation.trees, hreport, Compilation.files_ofFiles]
    refine ⟨hfiles.imp fun _ _ h => ⟨h, file_ofSource h⟩, Iff.rfl,
      Compilation.isSome_corpus_ofFiles _, Compilation.diagnostics_ofFiles _, ?_⟩
    exact fun corpus hcorpus => ((Compilation.corpus_ofFiles_iff _ corpus).mp hcorpus).2

def strayWordFiles : List (String × List Char) :=
  [("a.crucible", "card a \"A\" \x7b \x7d".toList), ("b.crucible", "stray".toList)]

theorem run_reports_unless_comment_left_open_stray_word :
    ∃ c, Compilation.ofSources strayWordFiles = .ok c ∧ c.files.length = 2 ∧
      c.diagnostics.map (·.code) = ["E101"] ∧ c.ok = false := by
  have hcodes : (Compilation.ofSources strayWordFiles).toOption.map
      (fun c => c.diagnostics.map (·.code)) = some ["E101"] := by decide +kernel
  cases hrun : Compilation.ofSources strayWordFiles with
  | error m =>
      rw [hrun] at hcodes
      cases hcodes
  | ok c =>
      rw [hrun] at hcodes
      have hdiagnostics : c.diagnostics.map (·.code) = ["E101"] := Option.some.inj hcodes
      obtain ⟨hfiles, hok, hcorpus, -⟩ :=
        (run_reports_unless_comment_left_open strayWordFiles defaultLimit).2.2 c hrun
      refine ⟨c, rfl, hfiles.length_eq.symm, hdiagnostics, ?_⟩
      rw [Bool.eq_false_iff, ne_eq, hok, hcorpus]
      intro hnil
      rw [hnil] at hdiagnostics
      cases hdiagnostics

def openCommentFiles : List (String × List Char) :=
  [("a.crucible", "card a \"A\" \x7b \x7d".toList), ("b.crucible", "(*".toList)]

-- The first file alone compiles; with the second one there is no report on either.
theorem run_stops_at_open_comment :
    (Compilation.ofSources (openCommentFiles.take 1)).toOption.map (·.ok) = some true ∧
      (Compilation.ofSources openCommentFiles).isOk = false := by
  decide +kernel

end CardLore
