import CardLore.Proofs.Conduct.File

namespace CardLore

section

variable {cs inside lead rest : List Char}

theorem afterComment?_eq_none_iff : afterComment? cs = none ↔ ¬ ['*', ')'] <:+: cs := by
  fun_induction afterComment? cs with
  | case1 tail =>
      refine iff_of_false (Option.some_ne_none tail) (not_not_intro ?_)
      exact ⟨[], tail, rfl⟩
  | case2 c tail hclose ih =>
      rw [ih, List.infix_cons_iff, not_or, iff_and_self]
      intro _ hfront
      obtain ⟨rfl, hnext⟩ := List.cons_prefix_cons.mp hfront
      obtain ⟨more, rfl⟩ := hnext
      exact hclose more rfl rfl
  | case3 => exact iff_of_true rfl (by decide)

theorem skip_eq_unclosed_iff (pos start : Nat) (cs : List Char) :
    Trivia.skip true pos cs = .unclosed start ↔ ∃ lead inside, IsTrivia lead ∧
      cs = lead ++ '(' :: '*' :: inside ∧ afterComment? inside = none ∧
      start = pos + lead.length := by
  constructor
  · intro h
    obtain ⟨pieces, rest, hrun, ⟨inside, rfl, hinside⟩, rfl⟩ := Trivia.exists_run_of_unclosed h
    exact ⟨pieces.flatten, inside, hrun.run.isTrivia hrun.ends (List.cons_ne_nil _ _), hrun.text,
      afterComment?_eq_none_iff.mpr hinside, rfl⟩
  · rintro ⟨lead, inside, hlead, rfl, hinside, rfl⟩
    obtain ⟨crossed, hscan⟩ := scan_trivia hlead pos false ('(' :: '*' :: inside)
    rw [Trivia.skip, hscan, Trivia.scan, scan_unclosed (afterComment?_eq_none_iff.mp hinside)]

theorem IsTrivia.scans (h : IsTrivia lead) (pending rest : List Char) :
    Scans pending (lead ++ rest) pending rest := by
  obtain ⟨pieces, rfl, hrun⟩ := h.exists_isRun rest
  exact hrun.scans pending

-- From the start of a comment that is never closed, and from the end of the text, there is no way
-- on.
def IsStuck (cs : List Char) : Prop :=
  cs = [] ∨ ∃ inside, cs = '(' :: '*' :: inside ∧ afterComment? inside = none

theorem IsStuck.not_passes (h : IsStuck cs) (pending : List Char) (q : List Char × List Char) :
    ¬ Passes (pending, cs) q := by
  rintro hpass
  rcases h with rfl | ⟨inside, rfl, hinside⟩
  · cases hpass
  · cases hpass with
    | inert hc => exact absurd hc (by decide)
    | round hcs => exact hcs rfl
    | blockComment hcs => cases hinside.symm.trans hcs
    | opening hpair => simp [brackets] at hpair
    | closing hclose => exact absurd hclose (by decide)

theorem IsStuck.eq_of_scans (h : IsStuck cs) {pending pending' : List Char}
    (hscans : Scans pending cs pending' rest) : pending' = pending ∧ rest = cs := by
  rcases Relation.ReflTransGen.cases_head hscans with heq | ⟨q, hpass, -⟩
  · cases heq
    exact ⟨rfl, rfl⟩
  · exact absurd hpass (h.not_passes pending q)

-- Whatever way one has come, the way goes on to where there is none.
theorem Scans.resume {first second third : List Char} (h : Scans first cs second rest)
    {stop : List Char} (hstop : Scans first cs third stop) (hstuck : IsStuck stop) :
    Scans second rest third stop := by
  have hunique : Relator.RightUnique Passes := fun _ _ _ hq hr => hq.unique hr
  rcases Relation.ReflTransGen.total_of_right_unique hunique h hstop with hon | hback
  · exact hon
  · obtain ⟨rfl, rfl⟩ := hstuck.eq_of_scans hback
    exact .refl

end

section

variable {file : String} {source : List Char} {limit : Nat}

-- What is accepted is a front of the source, with all that is opened in it closed.
theorem accepted_scans {found : List Attribute × List Declaration} {s : State}
    (h : Parser.accepted (.ofSource file source limit) (.ofSource source) = .ok found s) :
    Scans [] source [] s.rest ∧ source.drop s.pos = s.rest := by
  have hgets := (Tandem.accepted (w := .twice ⟨file, limit⟩)).of_ok rfl h |>.2
  have hscans : Scans [] source [] s.rest := hgets.scans []
  have hpos : s.pos = source.length - s.rest.length := by
    have hposition : s.pos + s.rest.length = 0 + source.length := hgets.position
    omega
  refine ⟨hscans, ?_⟩
  rw [hpos]
  exact (List.suffix_iff_eq_drop.mp hscans.suffix).symm

theorem accepted_fault {cause : Fault} {furthest : Furthest}
    (h : Parser.accepted (.ofSource file source limit) (.ofSource source) = .fault cause furthest) :
    FaultIn file limit [] source cause := by
  have hsetting : (Context.ofSource file source limit).toSetting =
      (Settings.twice ⟨file, limit⟩).left := rfl
  have hreply := Tandem.accepted.fares hsetting (.refl (.ofSource source)) trivial
  rw [h] at hreply
  cases hreply with
  | fault hfault => exact hfault

-- The input that is left is pointed out in the file.
def Leftover.IsIn (file : String) (l : Leftover) : Prop :=
  l.start.file = file ∧ ∀ place expected, l.furthest = some (place, expected) → place.file = file

theorem Leftover.IsIn.labels {l : Leftover} (h : l.IsIn file) :
    ∀ label ∈ l.diagnostic.labels, label.span.file = file := by
  obtain ⟨start, furthest⟩ := l
  obtain ⟨hstart, hfurthest⟩ := h
  intro label hlabel
  cases furthest with
  | none =>
      cases List.mem_singleton.mp hlabel
      exact hstart
  | some found =>
      rcases List.mem_cons.mp hlabel with rfl | hlabel
      · exact hstart
      · split at hlabel
        · cases hlabel
        · cases List.mem_singleton.mp hlabel
          exact hfurthest _ _ rfl

namespace Parser

-- What comes behind the accepted part of a file.
def conclude (found : List Attribute × List Declaration) : Parser (FileTree ⊕ Leftover) := do
  if ← onlyTriviaLeft then fun ctx s => .ok (.inl ⟨ctx.file, found.1, found.2⟩) s
  else
    let _ ← skipTriviaWith true
    fun ctx s =>
      let place (pos : Nat) := ctx.index.span ctx.file pos (pos + 1)
      let furthest := match s.furthest.pos with
        | some pos => if s.pos ≤ pos then some (place pos, s.furthest.expected) else none
        | none => none
      .ok (.inr ⟨place s.pos, furthest⟩) s

theorem file_eq : Parser.file = accepted >>= conclude := by
  rw [accepted, bind_assoc]
  refine congrArg _ (funext fun attributes => ?_)
  rw [bind_assoc]
  rfl

variable {s : State} {pos : Nat} {crossed : Bool}

theorem conclude_tree (ctx : Context) (found : List Attribute × List Declaration)
    (h : Trivia.skip true s.pos s.rest = .stopped pos [] crossed) :
    conclude found ctx s = .ok (.inl ⟨ctx.file, found.1, found.2⟩) s := by
  have honly : onlyTriviaLeft ctx s = .ok true s := by rw [onlyTriviaLeft_eq, h]; rfl
  exact bind_eq_ok_iff.mpr ⟨true, s, honly, rfl⟩

theorem conclude_leftover (ctx : Context) (found : List Attribute × List Declaration) {c : Char}
    {cs : List Char} (h : Trivia.skip true s.pos s.rest = .stopped pos (c :: cs) crossed) :
    ∃ l t, conclude found ctx s = .ok (.inr l) t ∧ l.IsIn ctx.file := by
  have honly : onlyTriviaLeft ctx s = .ok false s := by rw [onlyTriviaLeft_eq, h]; rfl
  have hskip : skipTriviaWith true ctx s = .ok crossed { s with pos, rest := c :: cs } := by
    rw [skipTriviaWith_eq, h]
  refine ⟨_, _, bind_eq_ok_iff.mpr ⟨false, s, honly, bind_eq_ok_iff.mpr ⟨_, _, hskip, rfl⟩⟩, rfl,
    fun place expected hplace => ?_⟩
  dsimp only at hplace
  split at hplace
  · split at hplace
    · cases hplace
      rfl
    · cases hplace
  · cases hplace

end Parser

-- The file has a tree.
def GivesTree (file : String) (source : List Char) (limit : Nat) : Prop :=
  ∃ attributes declarations,
    ParsedFile.ofSource file source limit = .ok ⟨file, .ok ⟨file, attributes, declarations⟩⟩

-- The file has no tree, which one diagnostic reports. It is an error and points to the file alone;
-- it complains about nesting only if brackets nest as deep as the limit.
def GivesError (file : String) (source : List Char) (limit : Nat) : Prop :=
  ∃ fault d, ParsedFile.ofSource file source limit = .ok ⟨file, .error fault⟩ ∧
    (⟨file, .error fault⟩ : ParsedFile).diagnostics = [d] ∧ d.severity = .error ∧
    (∀ label ∈ d.labels, label.span.file = file) ∧
    (fault = .tooDeep → BracketsNest limit source)

-- Behind all that is accepted from the source, and the trivia in `lead`, a block comment is opened
-- and never closed.
structure OpensComment (file : String) (source : List Char) (limit : Nat)
    (lead inside : List Char) (s : State) : Prop where
  accepted : ∃ found, Parser.accepted (.ofSource file source limit) (.ofSource source) = .ok found s
  left : source.drop s.pos = lead ++ '(' :: '*' :: inside
  trivia : IsTrivia lead
  unclosed : ¬ ['*', ')'] <:+: inside

theorem GivesTree.not_error (h : GivesTree file source limit) : ¬ GivesError file source limit := by
  obtain ⟨attributes, declarations, htree⟩ := h
  rintro ⟨fault, d, herror, -⟩
  cases htree.symm.trans herror

theorem GivesTree.ne_mismatch (h : GivesTree file source limit) (m : Mismatch) :
    ParsedFile.ofSource file source limit ≠ .error m := by
  obtain ⟨attributes, declarations, htree⟩ := h
  intro hm
  cases htree.symm.trans hm

theorem GivesError.ne_mismatch (h : GivesError file source limit) (m : Mismatch) :
    ParsedFile.ofSource file source limit ≠ .error m := by
  obtain ⟨fault, d, herror, -⟩ := h
  intro hm
  cases herror.symm.trans hm

theorem givesError_leftover {l : Leftover} (hl : l.IsIn file)
    (h : ParsedFile.ofSource file source limit = .ok ⟨file, .error (.leftover l)⟩) :
    GivesError file source limit := by
  refine ⟨_, l.diagnostic, h, rfl, ?_, hl.labels, ?_⟩
  · rw [Leftover.diagnostic]
    split <;> rfl
  · rintro ⟨⟩

theorem givesError_fault {cause : Fault} {furthest : Furthest}
    (h : Parser.accepted (.ofSource file source limit) (.ofSource source) = .fault cause furthest) :
    GivesError file source limit := by
  have hfault := accepted_fault h
  have hfile : Parser.file (.ofSource file source limit) (.ofSource source) =
      .fault cause furthest := by
    rw [Parser.file_eq]
    change Parser.bind Parser.accepted _ _ _ = _
    rw [Parser.bind, h]
  cases cause with
  | refused r =>
      refine ⟨.refused r, r.diagnostic, ?_, rfl, rfl, hfault, ?_⟩
      · rw [ParsedFile.ofSource, hfile]
      · rintro ⟨⟩
  | tooDeep =>
      refine ⟨.tooDeep, _, ?_, rfl, rfl, List.forall_mem_singleton.mpr rfl, fun _ => ?_⟩
      · rw [ParsedFile.ofSource, hfile]
      · exact hfault []

theorem ofSource_eq_error_iff_opensComment (m : Mismatch) :
    ParsedFile.ofSource file source limit = .error m ↔ ∃ s lead inside,
      OpensComment file source limit lead inside s ∧
      m = ⟨s.pos + lead.length, "'*)' to close block comment"⟩ := by
  rw [ofSource_eq_error_iff]
  constructor
  · rintro ⟨⟨found, s, haccepted, hskip⟩, hexpected⟩
    obtain ⟨lead, inside, hlead, hrest, hinside, hpos⟩ := (skip_eq_unclosed_iff _ _ _).mp hskip
    refine ⟨s, lead, inside, ⟨⟨found, haccepted⟩, ?_, hlead, ?_⟩, ?_⟩
    · rw [(accepted_scans haccepted).2, hrest]
    · exact afterComment?_eq_none_iff.mp hinside
    · rw [← hpos, ← hexpected]
  · rintro ⟨s, lead, inside, ⟨⟨found, haccepted⟩, hrest, hlead, hinside⟩, rfl⟩
    rw [(accepted_scans haccepted).2] at hrest
    refine ⟨⟨found, s, haccepted, ?_⟩, rfl⟩
    exact (skip_eq_unclosed_iff _ _ _).mpr
      ⟨lead, inside, hlead, hrest, afterComment?_eq_none_iff.mpr hinside, rfl⟩

theorem accepted_ne_mismatch (ctx : Context) (s : State) (pos : Nat) (expected : String)
    (furthest : Furthest) : Parser.accepted ctx s ≠ .mismatch pos expected furthest := by
  intro h
  rcases bind_eq_mismatch_iff.mp h with h | ⟨attributes, next, -, h⟩
  · exact many_ne_mismatch _ _ _ _ _ _ h
  · rcases bind_eq_mismatch_iff.mp h with h | ⟨declarations, last, -, h⟩
    · exact many_ne_mismatch _ _ _ _ _ _ h
    · cases h

-- With a tree, only trivia is left behind what was accepted.
theorem ofSource_ways (file : String) (source : List Char) (limit : Nat) :
    (GivesTree file source limit ∧ Scans [] source [] []) ∨ GivesError file source limit ∨
      ∃ m, ParsedFile.ofSource file source limit = .error m := by
  cases haccepted : Parser.accepted (.ofSource file source limit) (.ofSource source) with
  | mismatch => exact absurd haccepted (accepted_ne_mismatch _ _ _ _ _)
  | fault => exact .inr (.inl (givesError_fault haccepted))
  | ok found s =>
      have hfile : Parser.file (.ofSource file source limit) (.ofSource source) =
          Parser.conclude found (.ofSource file source limit) s := by
        rw [Parser.file_eq]
        change Parser.bind Parser.accepted _ _ _ = _
        rw [Parser.bind, haccepted]
      cases hskip : Trivia.skip true s.pos s.rest with
      | unclosed start =>
          have hopen : LeavesCommentOpen file source limit start := ⟨found, s, haccepted, hskip⟩
          exact .inr (.inr ⟨⟨start, _⟩, (ofSource_eq_error_iff _ _ _ _).mpr ⟨hopen, rfl⟩⟩)
      | stopped pos rest crossed =>
          cases rest with
          | nil =>
              refine .inl ⟨⟨found.1, found.2, ?_⟩,
                (accepted_scans haccepted).1.trans (scans_of_scan hskip [])⟩
              rw [ParsedFile.ofSource, hfile, Parser.conclude_tree _ found hskip]
              rfl
          | cons c cs =>
              obtain ⟨l, t, hconclude, hl⟩ :=
                Parser.conclude_leftover (.ofSource file source limit) found hskip
              refine .inr (.inl (givesError_leftover hl ?_))
              rw [ParsedFile.ofSource, hfile, hconclude]

end

-- A file has a tree if all of it is accepted, up to trivia.
theorem ofSource_eq_tree_iff {file : String} {source : List Char} {limit : Nat} {tree : FileTree} :
    ParsedFile.ofSource file source limit = .ok ⟨file, .ok tree⟩ ↔ tree.file = file ∧
      ∃ s pos crossed, Parser.accepted (.ofSource file source limit) (.ofSource source) =
          .ok (tree.attributes, tree.declarations) s ∧
        Trivia.skip true s.pos s.rest = .stopped pos [] crossed := by
  constructor
  · intro h
    rw [ParsedFile.ofSource] at h
    split at h
    next tree' last hfile =>
      cases h
      rw [Parser.file_eq] at hfile
      obtain ⟨found, s, haccepted, hconclude⟩ := bind_eq_ok_iff.mp hfile
      obtain ⟨only, next, honly, hconclude⟩ := bind_eq_ok_iff.mp hconclude
      rw [Parser.onlyTriviaLeft_eq] at honly
      split at honly
      next pos rest crossed hskip =>
        cases honly
        cases rest with
        | nil =>
            cases hconclude
            exact ⟨rfl, _, pos, crossed, haccepted, hskip⟩
        | cons c rest =>
            obtain ⟨_, _, -, hconclude⟩ := bind_eq_ok_iff.mp hconclude
            cases hconclude
      next => cases honly
    all_goals cases h
  · rintro ⟨rfl, s, pos, crossed, haccepted, hskip⟩
    have hfile := bind_eq_ok_iff.mpr ⟨_, s, haccepted, Parser.conclude_tree _ _ hskip⟩
    rw [← Parser.file_eq] at hfile
    rw [ParsedFile.ofSource, hfile]
    rfl

-- Every reading of a file ends in exactly one of three ways: a tree, one error in the file, or a
-- mismatch. The mismatch is that of a block comment which is never closed and stands right behind
-- what was accepted, at its offset. A comment that is never closed inside of brackets, or behind
-- anything but trivia, is an error.
theorem reading_ends_in_one_of_three_ways (file : String) (source : List Char) (limit : Nat) :
    (GivesTree file source limit ∧ ¬ GivesError file source limit ∧
        (∀ m, ParsedFile.ofSource file source limit ≠ .error m) ∨
      ¬ GivesTree file source limit ∧ GivesError file source limit ∧
        (∀ m, ParsedFile.ofSource file source limit ≠ .error m) ∨
      ¬ GivesTree file source limit ∧ ¬ GivesError file source limit ∧
        ∃ m, ParsedFile.ofSource file source limit = .error m) ∧
    (∀ m, ParsedFile.ofSource file source limit = .error m ↔ ∃ s lead inside,
      OpensComment file source limit lead inside s ∧
      m = ⟨s.pos + lead.length, "'*)' to close block comment"⟩) ∧
    ∀ pending inside, Scans [] source pending ('(' :: '*' :: inside) →
      ¬ ['*', ')'] <:+: inside →
      GivesError file source limit ∨
        pending = [] ∧ ∃ s lead, OpensComment file source limit lead inside s := by
  refine ⟨?_, ofSource_eq_error_iff_opensComment, ?_⟩
  · rcases ofSource_ways file source limit with ⟨htree, -⟩ | herror | ⟨m, hm⟩
    · exact .inl ⟨htree, htree.not_error, htree.ne_mismatch⟩
    · exact .inr (.inl ⟨fun htree => htree.not_error herror, herror, herror.ne_mismatch⟩)
    · exact .inr (.inr ⟨fun htree => htree.ne_mismatch m hm, fun herror => herror.ne_mismatch m hm,
        m, hm⟩)
  · intro pending inside hscans hinside
    have hstuck : IsStuck ('(' :: '*' :: inside) :=
      .inr ⟨inside, rfl, afterComment?_eq_none_iff.mpr hinside⟩
    rcases ofSource_ways file source limit with ⟨-, hall⟩ | herror | ⟨m, hm⟩
    · -- all of the text is passed over, the comment included
      have hend : IsStuck [] := .inl rfl
      cases (hend.eq_of_scans (hall.resume hscans hstuck)).2
    · exact .inl herror
    · obtain ⟨s, lead, after, hopens, -⟩ := (ofSource_eq_error_iff_opensComment m).mp hm
      obtain ⟨found, haccepted⟩ := hopens.accepted
      obtain ⟨hfront, hleft⟩ := accepted_scans haccepted
      rw [← hleft, hopens.left] at hfront
      have hopen := hfront.trans (hopens.trivia.scans [] ('(' :: '*' :: after))
      -- two comments at which there is no way on are one
      have hstop : IsStuck ('(' :: '*' :: after) :=
        .inr ⟨after, rfl, afterComment?_eq_none_iff.mpr hopens.unclosed⟩
      obtain ⟨rfl, heq⟩ := hstop.eq_of_scans (hopen.resume hscans hstuck)
      cases heq
      exact .inr ⟨rfl, s, lead, hopens⟩

-- A comment in a namespace is not closed, and one at the start of a file is not.
def openCommentInside : List Char := "namespace a \x7b (* \x7d".toList

def openCommentOutside : List Char := "(* a".toList

theorem reading_ends_in_one_of_three_ways_open_comments :
    GivesError "a.crucible" openCommentInside 2 ∧
      ∃ s lead inside, OpensComment "a.crucible" openCommentOutside 2 lead inside s := by
  constructor
  · have hinert : ∀ c ∈ "namespace a ".toList, IsInert c := isInert_of_all rfl
    have hname : Scans [] openCommentInside [] "\x7b (* \x7d".toList := scans_inert hinert [] _
    have hbrace : Scans [] "\x7b (* \x7d".toList ['}'] " (* \x7d".toList :=
      (Passes.opening (by decide)).scans
    have hblank : Scans ['}'] " (* \x7d".toList ['}'] "(* \x7d".toList :=
      (Passes.inert (by decide)).scans
    rcases (reading_ends_in_one_of_three_ways "a.crucible" openCommentInside 2).2.2 ['}'] _
      (hname.trans (hbrace.trans hblank)) (by decide) with herror | ⟨⟨⟩, -⟩
    exact herror
  · have hm : ParsedFile.ofSource "a.crucible" openCommentOutside 2 =
        .error ⟨0, "'*)' to close block comment"⟩ := by rfl
    obtain ⟨s, lead, inside, hopens, -⟩ :=
      ((reading_ends_in_one_of_three_ways "a.crucible" openCommentOutside 2).2.1 _).mp hm
    exact ⟨s, lead, inside, hopens⟩

end CardLore
