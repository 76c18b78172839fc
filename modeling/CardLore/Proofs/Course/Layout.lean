import CardLore.Proofs.Conduct.File

namespace CardLore

section

variable {α : Type} {p item : Parser α} {ctx : Context} {s t : State}

theorem attempt_eq_ok {o : Option α} (h : Parser.attempt p ctx s = .ok o t) :
    (∃ v, o = some v ∧ p ctx s = .ok v t) ∨
      ∃ pos expected furthest, o = none ∧ p ctx s = .mismatch pos expected furthest ∧
        t = { s with furthest } := by
  rw [Parser.attempt] at h
  split at h
  next v next hp =>
    cases h
    exact .inl ⟨v, rfl, hp⟩
  next pos expected furthest hp =>
    cases h
    exact .inr ⟨pos, expected, furthest, rfl, hp, rfl⟩
  next => cases h

-- The value of a choice is that of one of the alternatives, run where the choice was.
theorem choice_eq_ok {others : List (Parser α)} {v : α}
    (h : Parser.choice p others ctx s = .ok v t) :
    ∃ q ∈ p :: others, ∃ furthest, q ctx { s with furthest } = .ok v t := by
  induction others generalizing p s with
  | nil => exact ⟨p, List.mem_cons_self, s.furthest, h⟩
  | cons q others ih =>
      rw [Parser.choice] at h
      beta_reduce at h
      split at h
      next =>
        obtain ⟨r, hr, furthest, hok⟩ := ih h
        exact ⟨r, List.mem_cons_of_mem p hr, furthest, hok⟩
      next => exact ⟨p, List.mem_cons_self, s.furthest, h⟩

-- Item after item is read, until one does not match.
inductive ReadsMany (item : Parser α) (ctx : Context) : State → List α → State → Prop
  | stop {s : State} {pos : Nat} {expected : String} {furthest : Furthest}
      (h : item ctx s = .mismatch pos expected furthest) :
      ReadsMany item ctx s [] { s with furthest }
  | item {s t u : State} {v : α} {vs : List α} (h : item ctx s = .ok v t)
      (hmore : ReadsMany item ctx t vs u) : ReadsMany item ctx s (v :: vs) u

-- Each item takes at least one character, so there are always enough of them for the bound.
theorem readsMany_of_many {vs : List α} (hitem : Tracks .closed item)
    (h : Parser.many item ctx s = .ok vs t) : ReadsMany item ctx s vs t := by
  have hbound : ∀ bound s vs, s.rest.length < bound →
      Parser.manyUpTo item bound ctx s = .ok vs t → ReadsMany item ctx s vs t := by
    intro bound
    induction bound with
    | zero => exact fun s vs hlt => absurd hlt (Nat.not_lt_zero _)
    | succ bound ih =>
        intro s vs hlt h
        obtain ⟨o, next, ho, h⟩ := bind_eq_ok_iff.mp h
        rcases attempt_eq_ok ho with ⟨v, rfl, hv⟩ | ⟨pos, expected, furthest, rfl, hstop, rfl⟩
        · obtain ⟨vs, last, hvs, h⟩ := bind_eq_ok_iff.mp h
          cases h
          have hless := Closes.length_lt (hitem hv).reach
          exact .item hv (ih next vs (by omega) hvs)
        · cases h
          exact .stop hstop
  exact hbound (s.rest.length + 1) s vs (Nat.lt_succ_self _) h

end

section

variable {ctx : Context} {s t u : State}

theorem tryKeyword_eq_ok {word : String} {found : Bool} (hword : word ∈ keywords)
    (h : Parser.tryKeyword word ctx s = .ok found t) :
    (found = true ∧ Opens (Spells word) s.rest t.rest) ∨ (found = false ∧ t.rest = s.rest) := by
  obtain ⟨o, next, ho, h⟩ := bind_eq_ok_iff.mp h
  cases h
  rcases attempt_eq_ok ho with ⟨v, rfl, hv⟩ | ⟨pos, expected, furthest, rfl, -, rfl⟩
  · exact .inl ⟨rfl, (Tracks.of (fun _ => .keyword_opens hword) hv).reach⟩
  · exact .inr ⟨rfl, rfl⟩

def Component.OpensWith (c : Component) (first : List Char) : Prop :=
  Spells c.firstWord first

theorem hidden_opens {word : String} {f : Bool → Parser Component} {c : Component}
    (hf : ∀ (w : Settings) (a : List Char) (hidden : Bool),
      Behaves w w.left.limit (.opens (Spells word)) a a (f hidden)
        (Component.ReadBehind (if hidden then "hidden" else word)))
    (h : (Parser.tryKeyword "hidden" >>= f) ctx s = .ok c t) : Opens c.OpensWith s.rest t.rest := by
  obtain ⟨hidden, mid, hfound, h⟩ := bind_eq_ok_iff.mp h
  obtain ⟨⟨-, hword⟩, hgets⟩ := (hf (.twice ctx.toSetting) [] hidden).of_ok rfl h
  have hopens : Opens (Spells word) mid.rest t.rest := hgets.reach
  rcases tryKeyword_eq_ok (by decide) hfound with ⟨rfl, hmark⟩ | ⟨rfl, hrest⟩
  · refine (hmark.trans hopens.closes).mono fun first hfirst => ?_
    rwa [Component.OpensWith, hword]
  · rw [hrest] at hopens
    refine hopens.mono fun first hfirst => ?_
    rwa [Component.OpensWith, hword]

theorem component_opens {c : Component} (h : Parser.component ctx s = .ok c t) :
    Opens c.OpensWith s.rest t.rest := by
  have hkind : ∀ {word : String} {p : Parser Component} {furthest : Furthest},
      (∀ w : Settings, Behaves w w.left.limit (.opens (Spells word)) [] [] p
        (Component.ReadBehind word)) →
      p ctx { s with furthest } = .ok c t → Opens c.OpensWith s.rest t.rest := by
    intro word p furthest h hok
    obtain ⟨⟨-, rfl⟩, hgets⟩ := (h (.twice ctx.toSetting)).of_ok rfl hok
    exact hgets.reach
  obtain ⟨q, hq, furthest, hok⟩ := choice_eq_ok h
  simp only [List.mem_cons, List.not_mem_nil, or_false] at hq
  rcases hq with rfl | rfl | rfl | rfl | rfl | rfl | rfl
  · obtain ⟨f, heq, hf⟩ := Tandem.aspect_eq
    rw [heq] at hok
    exact hidden_opens (s := { s with furthest }) hf hok
  · obtain ⟨f, heq, hf⟩ := Tandem.card_eq
    rw [heq] at hok
    exact hidden_opens (s := { s with furthest }) hf hok
  · exact hkind (fun _ => .deck) hok
  · exact hkind (fun _ => .verb) hok
  · exact hkind (fun _ => .recipe) hok
  · exact hkind (fun _ => .legacy) hok
  · exact hkind (fun _ => .ending) hok

theorem ReadsMany.held {α : Type} {item : Parser α} {vs : List α} (hitem : Tracks .closed item)
    (h : ReadsMany item ctx s vs t) : Reach.held.Holds s.rest t.rest := by
  induction h with
  | stop => exact .inl rfl
  | item hv _ ih => exact .inr (Reach.Holds.trans (hitem hv).reach ih)

-- What stands behind attributes starts with the mark of the first one, if there is any.
theorem opens_attributes {attributes : List Attribute} {P Q : List Char → Prop}
    (hattributes : Parser.many Parser.localAttribute ctx s = .ok attributes t)
    (hopens : Opens P t.rest u.rest) (hnil : attributes = [] → ∀ first, P first → Q first)
    (hcons : attributes ≠ [] → Q ['#']) : Opens Q s.rest u.rest := by
  have hclosed : Tracks .closed Parser.localAttribute := .of fun _ => Tandem.localAttribute.closed
  cases readsMany_of_many hclosed hattributes with
  | stop => exact Opens.mono hopens (hnil rfl)
  | item hfirst hmore =>
      have hmark : Opens (· = ['#']) s.rest t.rest :=
        Reach.Holds.trans (Tracks.localAttribute hfirst).reach (hmore.held hclosed)
      refine (hmark.trans hopens.closes).mono ?_
      rintro _ rfl
      exact hcons (List.cons_ne_nil _ _)

end

namespace Declaration

def span : Declaration → Span
  | .scope _ _ _ span => span
  | .component d => d.span

-- The declarations inside of a namespace.
def body : Declaration → List Declaration
  | .scope _ _ body _ => body
  | .component _ => []

-- The first token is the mark of the first attribute, or else the first keyword.
def OpensWith : Declaration → List Char → Prop
  | .scope _ [] _ _, first => Spells "namespace" first
  | .scope _ (_ :: _) _ _, first => first = ['#']
  | .component d, first => match d.attributes, d.inherits with
    | [], none => d.component.OpensWith first
    | [], some _ => Spells "from" first
    | _ :: _, _ => first = ['#']

-- Reading from an offset on, where `own` and then `after` is left, gives the declaration and takes
-- just `own` for it.
def ReadFrom (ctx : Context) (start : Nat) (own after : List Char) (d : Declaration) : Prop :=
  ∃ depth furthest furthest', Parser.declarationWithin depth ctx ⟨start, own ++ after, furthest⟩ =
    .ok d ⟨start + own.length, after, furthest'⟩

-- What the declaration was read from starts with no trivia. It is a run of tokens, and the
-- declaration is placed at just these.
structure Stands (ctx : Context) (start : Nat) (own after : List Char) (d : Declaration) : Prop where
  read : d.ReadFrom ctx start own after
  idle : ¬ StartsTrivia (own ++ after)
  run : ∃ first, d.OpensWith first ∧ TokenRun first own
  span : d.span = ctx.index.span ctx.file start (start + own.length)

end Declaration

-- The declarations of a text that starts at an offset, with `behind` after it. Between them there
-- is nothing but trivia, and those of a namespace stand between what opens and what closes it.
inductive LaidOut (ctx : Context) : Nat → List Char → List Char → List Declaration → Prop
  | nil {offset : Nat} {behind : List Char} : LaidOut ctx offset [] behind []
  | cons {offset : Nat} {gap head inside tail more behind : List Char} {d : Declaration}
      {ds : List Declaration} (hgap : IsTrivia gap)
      (hstands : d.Stands ctx (offset + gap.length) (head ++ inside ++ tail) (more ++ behind))
      (hbody : LaidOut ctx (offset + gap.length + head.length) inside (tail ++ (more ++ behind))
        d.body)
      (hsides : d.body ≠ [] → head ≠ [] ∧ tail ≠ [])
      (hmore : LaidOut ctx (offset + gap.length + (head ++ inside ++ tail).length) more behind ds) :
      LaidOut ctx offset (gap ++ (head ++ inside ++ tail) ++ more) behind (d :: ds)

section

variable {ctx : Context} {s t u : State}

theorem State.Takes.unique {cs ds : List Char} (h : s.Takes cs t) (h' : s.Takes ds t) : cs = ds :=
  List.append_cancel_right (h.1.symm.trans h'.1)

theorem Course.exists_takes {e : Reach} (h : Course e s t) : ∃ cs, s.Takes cs t := by
  obtain ⟨cs, hcs⟩ := h.reach.moves.suffix
  refine ⟨cs, hcs.symm, ?_⟩
  have hposition := h.position
  rw [← hcs, List.length_append] at hposition
  omega

theorem Course.exists_takes_cons (h : Course .closed s t) : ∃ cs, cs ≠ [] ∧ s.Takes cs t := by
  obtain ⟨cs, htakes⟩ := h.exists_takes
  refine ⟨cs, ?_, htakes⟩
  rintro rfl
  have hless := Closes.length_lt h.reach
  rw [htakes.1] at hless
  exact absurd hless (Nat.lt_irrefl _)

theorem tokenStart_eq_ok {start : Nat} (hctx : ctx.newlines = true)
    (h : Parser.tokenStart ctx s = .ok start t) (hne : t.rest ≠ []) :
    start = t.pos ∧ ¬ StartsTrivia t.rest ∧ ∃ gap, IsTrivia gap ∧ s.Takes gap t := by
  obtain ⟨crossed, next, hskip, h⟩ := bind_eq_ok_iff.mp h
  cases h
  refine ⟨rfl, ?_⟩
  rw [Parser.skipTrivia, Parser.skipTriviaWith_eq, hctx] at hskip
  split at hskip
  next pos rest crossed' hscan =>
    cases hskip
    exact exists_gap_of_skip hscan hne
  next => cases hskip

-- From the next token on, what starts at the next token starts right there. Earlier mismatches do
-- not matter for that.
theorem tokenStart_bind_eq {α : Type} {f : Nat → Parser α} {start : Nat}
    (h : Parser.tokenStart ctx s = .ok start t) (furthest : Furthest) :
    (Parser.tokenStart >>= f) ctx { s with furthest } =
      (Parser.tokenStart >>= f) ctx { t with furthest } := by
  obtain ⟨crossed, next, hskip, h⟩ := bind_eq_ok_iff.mp h
  cases h
  have hstart : ∀ {u v : State} {crossed : Bool}, Parser.skipTrivia ctx u = .ok crossed v →
      Parser.tokenStart ctx u = .ok v.pos v := fun h => bind_eq_ok_iff.mpr ⟨_, _, h, rfl⟩
  rw [Parser.skipTrivia, Parser.skipTriviaWith_eq] at hskip
  split at hskip
  next pos rest crossed' hscan =>
    cases hskip
    obtain ⟨pieces, hrun, hclosed, -⟩ := Trivia.exists_run_of_stopped hscan
    have hagain : Trivia.skip ctx.newlines pos rest = .stopped pos rest false :=
      Trivia.scan_of_endsAt hrun.ends hclosed pos false
    have hfirst : Parser.skipTrivia ctx { s with furthest } =
        .ok crossed { s with pos, rest, furthest } := by
      rw [Parser.skipTrivia, Parser.skipTriviaWith_eq, hscan]
    have hsecond : Parser.skipTrivia ctx { s with pos, rest, furthest } =
        .ok false { s with pos, rest, furthest } := by
      rw [Parser.skipTrivia, Parser.skipTriviaWith_eq, hagain]
    rw [bind_of_ok (hstart hfirst), bind_of_ok (hstart hsecond)]
  next => cases hskip

-- Both kinds of declarations start at the next token.
theorem declarationWithin_eq {start : Nat} (h : Parser.tokenStart ctx s = .ok start t)
    (depth : Nat) (furthest : Furthest) :
    Parser.declarationWithin depth ctx { s with furthest } =
      Parser.declarationWithin depth ctx { t with furthest } := by
  cases depth with
  | zero => rfl
  | succ depth =>
      have hscope : Parser.scope (Parser.many (Parser.declarationWithin depth)) ctx
          { s with furthest } = Parser.scope (Parser.many (Parser.declarationWithin depth)) ctx
            { t with furthest } := tokenStart_bind_eq h furthest
      rw [Parser.declarationWithin, Parser.choice]
      beta_reduce
      rw [hscope]
      split
      next noted _ => exact tokenStart_bind_eq h noted
      next => rfl

-- A declaration that starts at the next token, and is placed from there to where its reading ends.
theorem Opens.stands {d : Declaration} {start depth : Nat} {furthest : Furthest}
    (hctx : ctx.newlines = true) (hstart : Parser.tokenStart ctx s = .ok start t)
    (hread : Parser.declarationWithin depth ctx { s with furthest } = .ok d u)
    (h : Opens d.OpensWith t.rest u.rest) (hspan : d.span = ctx.index.span ctx.file start u.pos) :
    ∃ gap own, IsTrivia gap ∧ s.Takes gap t ∧ t.Takes own u ∧ d.Stands ctx t.pos own u.rest := by
  have hne : t.rest ≠ [] := by
    intro hnil
    have hless := h.closes.length_lt
    rw [hnil] at hless
    exact absurd hless (Nat.not_lt_zero _)
  rw [declarationWithin_eq hstart] at hread
  obtain ⟨rfl, hidle, gap, hgap, htakes⟩ := tokenStart_eq_ok hctx hstart hne
  obtain ⟨first, own, hfirst, hrun, hrest⟩ := h.exists_run hidle
  have hposition : u.pos + u.rest.length = t.pos + t.rest.length :=
    (Tracks.declarationWithin depth hread).position
  have hpos : u.pos = t.pos + own.length := by
    rw [hrest, List.length_append] at hposition
    omega
  refine ⟨gap, own, hgap, htakes, ⟨hrest, hpos⟩, ⟨depth, furthest, u.furthest, ?_⟩, hrest ▸ hidle,
    ⟨first, hfirst, hrun⟩, by rw [hspan, hpos]⟩
  rw [← hrest, hread, ← hpos]

-- A component behind its attributes and what it inherits from.
theorem component_bind_eq_ok {d : Declaration} {start : Nat} {attributes : List Attribute}
    {inherits : Option Key}
    (h : (do
      let component ← Parser.component
      return .component
        { id := component.id, attributes, component, inherits, span := ← Parser.spanFrom start } :
      Parser Declaration) ctx s = .ok d t) :
    ∃ c : Component, Opens c.OpensWith s.rest t.rest ∧
      d = .component ⟨c.id, attributes, c, inherits, ctx.index.span ctx.file start t.pos⟩ := by
  obtain ⟨c, next, hcomponent, h⟩ := bind_eq_ok_iff.mp h
  obtain ⟨span, last, hspan, h⟩ := bind_eq_ok_iff.mp h
  cases hspan
  cases h
  exact ⟨c, component_opens hcomponent, rfl⟩

theorem componentDeclaration_opens {d : Declaration} {start : Nat}
    (hstart : Parser.tokenStart ctx s = .ok start t)
    (h : Parser.componentDeclaration ctx s = .ok d u) :
    (∃ c, d = .component c) ∧ d.span = ctx.index.span ctx.file start u.pos ∧
      Opens d.OpensWith t.rest u.rest := by
  obtain ⟨_, _, hsame, h⟩ := bind_eq_ok_iff.mp h
  cases hstart.symm.trans hsame
  obtain ⟨attributes, t₁, hattributes, h⟩ := bind_eq_ok_iff.mp h
  obtain ⟨found, t₂, hfound, h⟩ := bind_eq_ok_iff.mp h
  have hcons : ∀ {c : Component} {inherits : Option Key} {span : Span}, attributes ≠ [] →
      (Declaration.component ⟨c.id, attributes, c, inherits, span⟩).OpensWith ['#'] := by
    intro c inherits span hne
    obtain ⟨a, more, rfl⟩ := List.exists_cons_of_ne_nil hne
    rfl
  rcases tryKeyword_eq_ok (by decide) hfound with ⟨rfl, hopens⟩ | ⟨rfl, hrest⟩
  · obtain ⟨_, t₃, hparent, h⟩ := bind_eq_ok_iff.mp h
    obtain ⟨parent, _, hkey, hparent⟩ := bind_eq_ok_iff.mp hparent
    cases hparent
    obtain ⟨c, hc, rfl⟩ := component_bind_eq_ok h
    refine ⟨⟨_, rfl⟩, rfl, opens_attributes hattributes (hopens.trans ?_) ?_ hcons⟩
    · exact (Tracks.of (fun _ => .key) hkey).reach.moves.closes hc.closes
    · rintro rfl first hfirst
      exact hfirst
  · obtain ⟨_, _, hnone, h⟩ := bind_eq_ok_iff.mp h
    cases hnone
    obtain ⟨c, hc, rfl⟩ := component_bind_eq_ok h
    rw [hrest] at hc
    refine ⟨⟨_, rfl⟩, rfl, opens_attributes hattributes hc ?_ hcons⟩
    rintro rfl first hfirst
    exact hfirst

-- A namespace starts before its opening brace, and its closing brace comes behind its body.
theorem scope_opens {body : Parser (List Declaration)}
    (hbody : ∀ {s t ds}, body ctx s = .ok ds t → Reach.held.Holds s.rest t.rest)
    {d : Declaration} {start : Nat} (hstart : Parser.tokenStart ctx s = .ok start t)
    (h : Parser.scope body ctx s = .ok d u) :
    ∃ id attributes ds first last,
      d = .scope id attributes ds (ctx.index.span ctx.file start u.pos) ∧
      Course .closed t first ∧ body ctx first = .ok ds last ∧ Course .closed last u ∧
      Opens d.OpensWith t.rest u.rest := by
  obtain ⟨_, _, hsame, h⟩ := bind_eq_ok_iff.mp h
  cases hstart.symm.trans hsame
  obtain ⟨attributes, t₁, hattributes, h⟩ := bind_eq_ok_iff.mp h
  obtain ⟨_, t₂, hword, h⟩ := bind_eq_ok_iff.mp h
  obtain ⟨id, t₃, hkey, h⟩ := bind_eq_ok_iff.mp h
  obtain ⟨_, first, hopen, h⟩ := bind_eq_ok_iff.mp h
  obtain ⟨ds, last, hds, h⟩ := bind_eq_ok_iff.mp h
  obtain ⟨_, u', hclose, h⟩ := bind_eq_ok_iff.mp h
  obtain ⟨span, _, hspan, h⟩ := bind_eq_ok_iff.mp h
  cases hspan
  cases h
  have hattributes' := Tracks.of (fun _ => Tandem.localAttribute.closed.many) hattributes
  have hword' := Tracks.of (fun _ => .keyword_opens (by decide)) hword
  have hkey' := Tracks.of (fun _ => .key) hkey
  have hopen' := Tracks.ofWithin (a := []) (n := fun _ => 0)
    (fun _ => .symbol_open (d := '}') (by decide) rfl (by decide)) hopen
  have hclose' := Tracks.ofWithin (b := []) (n := fun _ => 0)
    (fun _ => .symbol_close (c := '{') (by decide) rfl (by decide)) hclose
  have hbehind : Closes t₂.rest u.rest :=
    ((hkey'.trans hopen').reach.trans (hbody hds)).moves.closes hclose'.reach
  refine ⟨id, attributes, ds, first, last, rfl,
    ((hattributes'.trans hword').trans hkey').trans hopen', hds, hclose',
    opens_attributes hattributes (Opens.trans hword'.reach hbehind) ?_ ?_⟩
  · rintro rfl first hfirst
    exact hfirst
  · intro hne
    obtain ⟨a, more, rfl⟩ := List.exists_cons_of_ne_nil hne
    rfl

-- The parser reads a declaration that is laid out before whatever is laid out behind it.
def LaysOut (ctx : Context) (p : Parser Declaration) : Prop :=
  ∀ s d u, p ctx s = .ok d u → ∃ text, s.Takes text u ∧
    ∀ more behind ds, u.rest = more ++ behind → LaidOut ctx u.pos more behind ds →
      LaidOut ctx s.pos (text ++ more) behind (d :: ds)

theorem LaysOut.many {item : Parser Declaration} {ds : List Declaration} (hitem : LaysOut ctx item)
    (h : ReadsMany item ctx s ds t) :
    ∃ text, s.Takes text t ∧ LaidOut ctx s.pos text t.rest ds := by
  induction h with
  | stop => exact ⟨[], .of_eq rfl rfl, .nil⟩
  | item hd _ ih =>
      obtain ⟨text, htakes, hlaid⟩ := hitem _ _ _ hd
      obtain ⟨more, htakes', hmore⟩ := ih
      exact ⟨text ++ more, htakes.trans htakes', hlaid more _ _ htakes'.1 hmore⟩

variable {d : Declaration} {depth : Nat} {furthest : Furthest}

-- A component has no body, so all of it stands in front of the empty one.
theorem component_laidOut (hctx : ctx.newlines = true)
    (hread : Parser.declarationWithin depth ctx { s with furthest } = .ok d u)
    (h : Parser.componentDeclaration ctx s = .ok d u) :
    ∃ text, s.Takes text u ∧ ∀ more behind ds, u.rest = more ++ behind →
      LaidOut ctx u.pos more behind ds → LaidOut ctx s.pos (text ++ more) behind (d :: ds) := by
  obtain ⟨start, t, hstart, -⟩ := bind_eq_ok_iff.mp h
  obtain ⟨⟨c, rfl⟩, hspan, hopens⟩ := componentDeclaration_opens hstart h
  obtain ⟨gap, own, hgap, htakes, htakes', hstands⟩ := hopens.stands hctx hstart hread hspan
  refine ⟨gap ++ own, htakes.trans htakes', fun more behind ds hrest hmore => ?_⟩
  have hown : own ++ [] ++ [] = own := by simp
  rw [← hown]
  refine .cons hgap ?_ .nil (fun hne => absurd rfl hne) ?_
  · rwa [hown, ← htakes.2, ← hrest]
  · rwa [hown, ← htakes.2, ← htakes'.2]

theorem LaysOut.scope_laidOut {item : Parser Declaration} (hctx : ctx.newlines = true)
    (hitem : LaysOut ctx item) (htracks : Tracks .closed item)
    (hread : Parser.declarationWithin depth ctx { s with furthest } = .ok d u)
    (h : Parser.scope (Parser.many item) ctx s = .ok d u) :
    ∃ text, s.Takes text u ∧ ∀ more behind ds, u.rest = more ++ behind →
      LaidOut ctx u.pos more behind ds → LaidOut ctx s.pos (text ++ more) behind (d :: ds) := by
  obtain ⟨start, t, hstart, -⟩ := bind_eq_ok_iff.mp h
  obtain ⟨id, attributes, body, first, last, rfl, hfirst, hbody, hlast, hopens⟩ :=
    scope_opens (fun hds => (readsMany_of_many htracks hds).held htracks) hstart h
  obtain ⟨gap, own, hgap, htakes, htakes', hstands⟩ := hopens.stands hctx hstart hread rfl
  obtain ⟨head, hhead, htakesHead⟩ := hfirst.exists_takes_cons
  obtain ⟨inside, htakesInside, hinside⟩ := hitem.many (readsMany_of_many htracks hbody)
  obtain ⟨tail, htail, htakesTail⟩ := hlast.exists_takes_cons
  obtain rfl : own = head ++ inside ++ tail :=
    htakes'.unique ((htakesHead.trans htakesInside).trans htakesTail)
  refine ⟨gap ++ (head ++ inside ++ tail), htakes.trans htakes', fun more behind ds hrest hmore =>
    .cons hgap ?_ ?_ (fun _ => ⟨hhead, htail⟩) ?_⟩
  · rwa [← htakes.2, ← hrest]
  · rwa [← htakes.2, ← htakesHead.2, ← hrest, ← htakesTail.1]
  · rwa [← htakes.2, ← htakes'.2]

theorem laysOut_declarationWithin (hctx : ctx.newlines = true) (depth : Nat) :
    LaysOut ctx (Parser.declarationWithin depth) := by
  induction depth with
  | zero =>
      intro s d u h
      cases h
  | succ depth ih =>
      intro s d u h
      obtain ⟨q, hq, noted, hok⟩ := choice_eq_ok h
      simp only [List.mem_cons, List.not_mem_nil, or_false] at hq
      -- an alternative is run where the choice was, be it with more mismatches noted
      rcases hq with rfl | rfl
      · exact ih.scope_laidOut (s := { s with furthest := noted }) hctx
          (Tracks.declarationWithin depth) h hok
      · exact component_laidOut (s := { s with furthest := noted }) hctx h hok

end

end CardLore
