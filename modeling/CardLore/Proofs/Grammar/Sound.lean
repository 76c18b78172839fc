import CardLore.Proofs.Grammar.Literal

namespace CardLore

section

variable {α : Type} {item : List α → Parser α} {close : String} {c : Char} {ctx : Context}
  {E : List Char → α → Prop} {I : List α → Prop} {F : Fault → Prop} {start : State}

-- The elements before the current one are complete, and the list did not close at once.
structure IsListed (E : List Char → α → Prop) (I : List α → Prop) (c : Char) (start : State)
    (before : List Char) (seen : List α) (s : State) : Prop where
  listed : Listed E before seen
  seen : I seen
  takes : start.Takes before s
  opened : before = [] → ¬ Shows c s.rest

-- An element that is read takes at least one character, so the bound is not reached.
theorem delimitedFrom_sound (hclose : close.toList = [c]) (hc : IsSolid c)
    (hctx : ctx.newlines = true)
    (hitem : ∀ before seen s, IsListed E I c start before seen s →
      (item seen ctx s).Sat (fun v t => I (seen ++ [v]) ∧ ∃ elem, elem ≠ [] ∧ E elem v ∧
        s.Takes elem t) True F)
    (bound : Nat) (before : List Char) (seen : List α) (s : State)
    (hlisted : IsListed E I c start before seen s) (hbound : s.rest.length < bound) :
    (Parser.delimitedFrom item close bound seen ctx s).Sat
      (fun vs t => I vs ∧ ∃ inside, Bracketed E inside vs ∧ start.Takes (inside ++ [c]) t)
      True F := by
  induction bound generalizing before seen s with
  | zero => exact absurd hbound (Nat.not_lt_zero _)
  | succ bound ih =>
      refine sat_bind (hitem before seen s hlisted) ?_
      rintro v t ⟨hseen, elem, hne, helem, htakes⟩
      refine sat_bind_of (trySymbol_spec hclose hc hctx) False.elim (fun _ h => h.elim) ?_
      rintro found u ⟨hfound, hnot⟩
      cases found with
      | true =>
          obtain ⟨gap, hgap, hsymbol⟩ := hfound rfl
          refine sat_pure ⟨hseen, _, .elements hlisted.listed helem hgap, ?_⟩
          have hall := (hlisted.takes.trans htakes).trans hsymbol
          simpa only [List.append_assoc] using hall
      | false =>
          obtain ⟨-, hsame⟩ := hnot rfl
          have hcomma : IsSolid ',' := by decide
          refine sat_bind_of (symbol_spec (c := ',') rfl hcomma hctx) (fun _ => trivial)
            (fun _ h => h.elim) ?_
          rintro _ w ⟨gap, hgap, hsymbol⟩
          have hread := (htakes.trans hsame).trans hsymbol
          refine ih _ (seen ++ [v]) w ⟨.concat hlisted.listed helem hgap, hseen, ?_, ?_⟩ ?_
          · have hall := hlisted.takes.trans hread
            simpa only [List.append_assoc, List.append_nil] using hall
          · simp
          · have hlength := hread.length_eq
            have hpos := List.length_pos_of_ne_nil hne
            simp only [List.length_append] at hlength
            omega

theorem delimitedWith_sound (hclose : close.toList = [c]) (hc : IsSolid c) (hnil : I [])
    (hitem : ∀ before seen s, IsListed E I c start before seen s →
      (item seen { ctx with newlines := true } s).Sat
        (fun v t => I (seen ++ [v]) ∧ ∃ elem, elem ≠ [] ∧ E elem v ∧ s.Takes elem t) True F) :
    (Parser.delimitedWith item close ctx start).Sat
      (fun vs t => I vs ∧ ∃ inside, Bracketed E inside vs ∧ start.Takes (inside ++ [c]) t)
      True F := by
  refine sat_bind_of (trySymbol_spec hclose hc rfl) False.elim (fun _ h => h.elim) ?_
  rintro found t ⟨hfound, hnot⟩
  cases found with
  | true =>
      obtain ⟨gap, hgap, hsymbol⟩ := hfound rfl
      exact sat_pure ⟨hnil, gap, .empty hgap, hsymbol⟩
  | false =>
      obtain ⟨habsent, hsame⟩ := hnot rfl
      refine delimitedFrom_sound hclose hc rfl hitem _ [] [] t ⟨.nil, hnil, hsame, fun _ => ?_⟩
        (Nat.lt_succ_self _)
      rwa [← List.nil_append t.rest, ← hsame.1]

end

-- Why a reading that starts at `s` may fail for good: literals nest as deep as `Deep` says, or a
-- name is repeated, and then the refusal points at the name.
def FaultAt (ctx : Context) (Deep : List Char → Prop) (s : State) (cause : Fault) : Prop :=
  (cause = .tooDeep ∧ Deep s.rest) ∨
    ∃ front cs name after, Repeats front cs name after ∧ s.rest = front ++ (cs ++ after) ∧
      cause = .refused ⟨.repeatedMember name, ctx.index.span ctx.file (s.pos + front.length)
        (s.pos + front.length + cs.length)⟩

-- A fault inside of a literal is one of the literal.
theorem FaultAt.enters {ctx : Context} {depth : Nat} {s t : State} {lead : List Char} {cause : Fault}
    (h : FaultAt ctx (NestsTo depth) t cause) (htakes : s.Takes lead t)
    (henters : Enters lead t.rest) : FaultAt ctx (NestsTo (depth + 1)) s cause := by
  rcases h with ⟨rfl, hdeep⟩ | ⟨front, cs, name, after, hrepeats, hrest, rfl⟩
  · exact .inl ⟨rfl, lead, t.rest, htakes.1, henters, hdeep⟩
  · refine .inr ⟨lead ++ front, cs, name, after, .inside (hrest ▸ henters) hrepeats, ?_, ?_⟩
    · rw [htakes.1, hrest, List.append_assoc]
    · rw [htakes.2, List.length_append, Nat.add_assoc s.pos]

-- A solid character ends the trivia that is skipped, so no more of it follows.
theorem State.Skips.eq_nil {s t u : State} {lead gap tail : List Char} {c : Char}
    (h : s.Skips lead t) (hgap : IsTrivia gap) (hc : IsSolid c)
    (htakes : t.Takes (gap ++ c :: tail) u) : gap = [] := by
  have hs : s.rest = (lead ++ gap) ++ c :: (tail ++ u.rest) := by
    rw [h.takes.1, htakes.1]
    simp
  have hsame := (h.only _ c _ (h.trivia.append hgap) hc hs).1
  exact List.append_cancel_left (hsame.trans (List.append_nil lead).symm)

theorem any_name_iff {seen : List (Text × Literal)} {name : Text} :
    seen.any (·.1 = name) = true ↔ name ∈ seen.map (·.1) := by
  simp only [List.any_eq_true, decide_eq_true_eq, List.mem_map]

-- The parser reads literals, and fails for good only as it may.
def IsSound (depth : Nat) (value : Parser Literal) : Prop :=
  ∀ ctx s, (value ctx s).Sat
    (fun v t => ∃ item, ItemText Derives item v ∧ s.Takes item t ∧ EndsBefore v t.rest) True
    (FaultAt ctx (NestsTo depth) s)

section

variable {depth : Nat} {value : Parser Literal} {ctx : Context} {origin start s : State}
  {lead before : List Char}

theorem item_sound (hvalue : IsSound depth value) (hlead : IsTrivia lead)
    (hopen : origin.Takes (lead ++ ['[']) start) {seen : List Literal}
    (hlisted : IsListed (ItemText Derives) (fun _ => True) ']' start before seen s) :
    (value ctx s).Sat (fun v t => True ∧ ∃ elem, elem ≠ [] ∧ ItemText Derives elem v ∧
      s.Takes elem t) True (FaultAt ctx (NestsTo (depth + 1)) origin) := by
  have hread : origin.Takes (lead ++ '[' :: before) s := by
    simpa only [List.append_assoc, List.singleton_append] using hopen.trans hlisted.takes
  refine (hvalue ctx s).mono ?_ id fun cause hfault => ?_
  · rintro v t ⟨item, hitem, htakes, -⟩
    refine ⟨trivial, item, ?_, hitem, htakes⟩
    obtain ⟨-, hbody⟩ := hitem
    obtain ⟨c, tail, rfl, -⟩ := hbody.head
    exact List.append_ne_nil_of_right_ne_nil _ (List.cons_ne_nil c tail)
  · exact hfault.enters hread (.item hlead hlisted.listed hlisted.opened)

-- A member of an object. Its name is looked up before anything behind it is read.
theorem member_sound (hvalue : IsSound depth value) (hctx : ctx.newlines = true)
    (hlead : IsTrivia lead) (hopen : origin.Takes (lead ++ ['{']) start)
    {seen : List (Text × Literal)}
    (hlisted : IsListed (MemberText Derives) (fun ms => (ms.map (·.1)).Nodup) '}' start before
      seen s) :
    (Parser.member value seen ctx s).Sat (fun m t => ((seen ++ [m]).map (·.1)).Nodup ∧
      ∃ elem, elem ≠ [] ∧ MemberText Derives elem m ∧ s.Takes elem t) True
      (FaultAt ctx (NestsTo (depth + 1)) origin) := by
  have hread : origin.Takes (lead ++ '{' :: before) s := by
    simpa only [List.append_assoc, List.singleton_append] using hopen.trans hlisted.takes
  rw [Parser.member, Parser.tokenStart, Parser.bind_assoc]
  refine sat_skipTrivia hctx (fun crossed gap t hskips _ => ?_) fun _ => ⟨trivial, ?_⟩
  · rw [Parser.position_bind]
    refine sat_bind_of (memberName_sound hctx) (fun _ => trivial) (fun _ h => h.elim) ?_
    rintro name u ⟨gap', cs, hgap', hname, htakes⟩
    obtain rfl : gap' = [] := by
      obtain ⟨c, tail, rfl, hc, -⟩ := hname.head
      exact hskips.eq_nil hgap' hc htakes
    rw [List.nil_append] at htakes
    have hnamed : origin.Takes (lead ++ '{' :: (before ++ gap)) t := by
      simpa only [List.append_assoc, List.cons_append] using hread.trans hskips.takes
    by_cases hseen : seen.any (·.1 = name) = true
    · rw [if_pos hseen]
      refine .inr ⟨_, cs, name, u.rest, .here hlead hlisted.listed hlisted.seen hskips.trivia hname
        (any_name_iff.mp hseen), ?_, ?_⟩
      · rw [hnamed.1, htakes.1]
      · rw [← hnamed.2, ← htakes.2]
    · rw [if_neg hseen]
      have hfresh : name ∉ seen.map (·.1) := fun hmem => hseen (any_name_iff.mpr hmem)
      have hcolon : IsSolid ':' := by decide
      refine sat_bind_of (symbol_spec (c := ':') rfl hcolon hctx) (fun _ => trivial)
        (fun _ h => h.elim) ?_
      rintro _ w ⟨colon, htrivia, hsymbol⟩
      have hafter : u.rest = colon ++ ':' :: w.rest := by
        rw [hsymbol.1, List.append_assoc]
        rfl
      rw [hafter, NameText.colon htrivia] at hname
      refine sat_bind ((hvalue ctx w).mono (fun _ _ h => h) id fun cause hfault => ?_) ?_
      · refine hfault.enters ?_ (.value hlead hlisted.listed hlisted.seen hskips.trivia hname hfresh
          htrivia)
        simpa only [List.append_assoc, List.cons_append] using
          hnamed.trans (htakes.trans hsymbol)
      · rintro v x ⟨item, hitem, hvalued, -⟩
        refine sat_pure ⟨nodup_map_concat hlisted.seen hfresh, _, ?_,
          .mk hskips.trivia hname htrivia hitem, ?_⟩
        · simp
        · simpa only [List.append_assoc, List.singleton_append] using
            hskips.takes.trans (htakes.trans (hsymbol.trans hvalued))
  · intro crossed t hend
    rw [Parser.position_bind]
    refine sat_bind_of (memberName_sound hctx) (fun _ => trivial) (fun _ h => h.elim) ?_
    rintro name u ⟨gap, cs, -, hname, htakes⟩
    obtain ⟨c, tail, rfl, -⟩ := hname.head
    have hnil := htakes.1
    rw [hend] at hnil
    simp at hnil

end

theorem endsBefore_of_number {body after : List Char} {v : Literal} (h : NumberText body v) :
    EndsBefore v after ↔ continuesKey after = false := by
  cases h <;> rfl

theorem endsBefore_of_word {body after : List Char} {v : Literal} (h : WordText body v) :
    EndsBefore v after ↔ continuesKey after = false := by
  cases h <;> rfl

section

variable {depth : Nat} {ctx : Context} {s t : State} {lead : List Char}

-- What is read behind the trivia is the item less the trivia.
theorem State.Skips.item {lead' body : List Char} {v : Literal} {u : State} (h : s.Skips lead t)
    (hlead' : IsTrivia lead') (hbody : Derives body v) (htakes : t.Takes (lead' ++ body) u)
    (hends : EndsBefore v u.rest) :
    ∃ item, ItemText Derives item v ∧ s.Takes item u ∧ EndsBefore v u.rest := by
  refine ⟨_, .mk (h.trivia.append hlead') hbody, ?_, hends⟩
  rw [List.append_assoc]
  exact h.takes.trans htakes

theorem array_sound (ih : IsSound depth (Parser.literalWithin depth)) (hskips : s.Skips lead t)
    (hctx : ctx.newlines = true) :
    ((do
        Parser.symbol "["
        return .array (← Parser.delimited (Parser.literalWithin depth) "]") : Parser Literal)
      ctx t).Sat
      (fun v u => ∃ item, ItemText Derives item v ∧ s.Takes item u ∧ EndsBefore v u.rest) True
      (FaultAt ctx (NestsTo (depth + 1)) s) := by
  refine sat_bind_of (symbol_spec (c := '[') rfl (by decide) hctx) (fun _ => trivial)
    (fun _ h => h.elim) ?_
  rintro _ u ⟨lead', hlead', hopen⟩
  have hopened : s.Takes (lead ++ lead' ++ ['[']) u := by
    rw [List.append_assoc]
    exact hskips.takes.trans hopen
  refine sat_bind (delimitedWith_sound (c := ']') rfl (by decide) trivial
    fun before seen w hlisted => item_sound ih (hskips.trivia.append hlead') hopened hlisted) ?_
  rintro items w ⟨-, inside, hinside, hclose⟩
  refine sat_pure (hskips.item hlead' (.array hinside) ?_ trivial)
  simpa only [List.append_assoc, List.singleton_append] using hopen.trans hclose

theorem object_sound (ih : IsSound depth (Parser.literalWithin depth)) (hskips : s.Skips lead t)
    (hctx : ctx.newlines = true) :
    ((do
        Parser.symbol "\x7b"
        return .object
          (← Parser.delimitedWith (Parser.member (Parser.literalWithin depth)) "\x7d") :
        Parser Literal) ctx t).Sat
      (fun v u => ∃ item, ItemText Derives item v ∧ s.Takes item u ∧ EndsBefore v u.rest) True
      (FaultAt ctx (NestsTo (depth + 1)) s) := by
  refine sat_bind_of (symbol_spec (c := '{') rfl (by decide) hctx) (fun _ => trivial)
    (fun _ h => h.elim) ?_
  rintro _ u ⟨lead', hlead', hopen⟩
  have hopened : s.Takes (lead ++ lead' ++ ['{']) u := by
    rw [List.append_assoc]
    exact hskips.takes.trans hopen
  refine sat_bind (delimitedWith_sound (c := '}')
    (I := fun ms : List (Text × Literal) => (ms.map (·.1)).Nodup) rfl (by decide) List.nodup_nil
    fun before seen w hlisted =>
      member_sound ih rfl (hskips.trivia.append hlead') hopened hlisted) ?_
  rintro members w ⟨hnames, inside, hinside, hclose⟩
  refine sat_pure (hskips.item hlead' (.object hinside hnames) ?_ trivial)
  simpa only [List.append_assoc, List.singleton_append] using hopen.trans hclose

end

theorem literalWithin_sound (depth : Nat) : IsSound depth (Parser.literalWithin depth) := by
  induction depth with
  | zero => exact fun ctx s => .inl ⟨rfl, trivial⟩
  | succ depth ih =>
      intro ctx s
      have hctx : ({ ctx with newlines := true } : Context).newlines = true := rfl
      refine sat_skipTrivia hctx (fun crossed lead t hskips _ => ?_) fun _ => ⟨trivial, ?_⟩
      · rw [Parser.ahead_bind]
        generalize hrest : t.rest = cs
        split
        next =>
          refine sat_bind_of (string_sound rfl) (fun _ => trivial) (fun _ h => h.elim) ?_
          rintro text u ⟨lead', body, hlead', hbody, htakes⟩
          exact sat_pure (hskips.item hlead' (.string hbody) htakes trivial)
        next => exact array_sound ih hskips hctx
        next => exact object_sound ih hskips hctx
        next =>
          split
          next hstart =>
            rw [← hrest] at hstart
            refine (number_sound hstart).mono ?_ id fun _ h => h.elim
            rintro v u ⟨body, hbody, htakes, hends⟩
            exact hskips.item .nil (.number hbody) htakes ((endsBefore_of_number hbody).mpr hends)
          next =>
            refine literalWord_sound.mono ?_ id fun _ h => h.elim
            rintro v u ⟨body, hbody, htakes, hends⟩
            exact hskips.item .nil (.word hbody) htakes ((endsBefore_of_word hbody).mpr hends)
      · intro crossed t hend
        rw [Parser.ahead_bind, hend]
        refine literalWord_sound.mono ?_ id fun _ h => h.elim
        rintro v u ⟨body, hbody, htakes, -⟩
        have hnil := htakes.1
        rw [hend] at hnil
        cases hbody <;> simp at hnil

end CardLore
