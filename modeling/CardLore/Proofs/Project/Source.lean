import CardLore.Proofs.Comments.File
import CardLore.Proofs.Grammar.Complete
import CardLore.Proofs.Project.Created

namespace CardLore

section

variable {α : Type} {P : α → State → Prop} {M : Prop} {F : Fault → Prop} {ctx ctx' : Context}
  {s t : State}

instance [∀ v t, Decidable (P v t)] [Decidable M] [∀ cause, Decidable (F cause)] (r : Reply α) :
    Decidable (r.Sat P M F) :=
  match r with
  | .ok v t => inferInstanceAs (Decidable (P v t))
  | .mismatch _ _ _ => inferInstanceAs (Decidable M)
  | .fault cause _ => inferInstanceAs (Decidable (F cause))

-- No reply but a mismatch.
abbrev Reply.Mismatches (r : Reply α) : Prop :=
  r.Sat (fun _ _ => False) True fun _ => False

theorem Reply.Mismatches.exists {r : Reply α} (h : r.Mismatches) :
    ∃ pos expected furthest, r = .mismatch pos expected furthest := by
  cases r with
  | ok => exact h.elim
  | mismatch pos expected furthest => exact ⟨pos, expected, furthest, rfl⟩
  | fault => exact h.elim

theorem Reply.Sat.exists_ok {r : Reply α} (h : r.Sat P False fun _ => False) :
    ∃ v t, r = .ok v t ∧ P v t := by
  cases r with
  | ok v t => exact ⟨v, t, rfl, h⟩
  | mismatch => exact h.elim
  | fault => exact h.elim

theorem sat_manyUpTo_none {item : Parser α} (h : (item ctx s).Mismatches) (bound : Nat) :
    (Parser.manyUpTo item bound ctx s).Sat (fun vs t => vs = [] ∧ s.Takes [] t) False
      fun _ => False := by
  cases bound with
  | zero => exact sat_pure ⟨rfl, .of_eq rfl rfl⟩
  | succ bound =>
      refine sat_bind (sat_attempt h) ?_
      rintro o t ⟨hsome, hnone⟩
      cases o with
      | none => exact sat_pure ⟨rfl, (hnone rfl).2⟩
      | some v => exact (hsome v rfl).elim

theorem sat_many_one {item : Parser α} (hfirst : (item ctx s).Sat P False fun _ => False)
    (hsecond : ∀ v t, P v t → (item ctx t).Mismatches) :
    (Parser.many item ctx s).Sat (fun vs u => ∃ v t, P v t ∧ vs = [v] ∧ t.Takes [] u) False
      fun _ => False := by
  refine sat_bind (sat_attempt hfirst) ?_
  rintro o t ⟨hsome, hnone⟩
  cases o with
  | none => exact (hnone rfl).1.elim
  | some v =>
      have hv := hsome v rfl
      refine sat_bind (sat_manyUpTo_none (hsecond v t hv) _) ?_
      rintro vs u ⟨rfl, hu⟩
      exact sat_pure ⟨v, t, hv, rfl, hu⟩

theorem sat_choice_first {p : Parser α} (h : (p ctx s).Sat P False fun _ => False)
    (others : List (Parser α)) :
    (Parser.choice p others ctx s).Sat P False fun _ => False := by
  obtain ⟨v, t, heq, hv⟩ := h.exists_ok
  cases others with
  | nil => exact h
  | cons q others =>
      simp only [Parser.choice, heq]
      exact hv

section

variable {w : Settings} {depth : Nat} {e : Reach} {a b : List Char} {p q : Parser α}
  {Q : α → Prop} {R : α → α → Prop}

-- A run on the text without its comments, where no more may nest, tells what a run on the text
-- itself does.
theorem Tandem.sat {x : α} {t' : State} (h : Tandem .any w depth e a b p q Q R)
    (hrun : q ctx' t = .ok x t') (hctx : w.Aligned ctx ctx')
    (hrest : t.rest = stripComments s.rest) :
    (p ctx s).Sat (fun v s' => R v x ∧ t'.rest = stripComments s'.rest) False fun _ => False := by
  have hreply := h.follows hctx trivial trivial hrest
  rw [hrun] at hreply
  generalize p ctx s = r at hreply
  cases hreply with
  | ok hR hadvances => exact ⟨hR, hadvances.stripped⟩

theorem Tandem.mismatches {pos : Nat} {expected : String} {furthest : Furthest}
    (h : Tandem .any w depth e a b p q Q R) (hrun : q ctx' t = .mismatch pos expected furthest)
    (hctx : w.Aligned ctx ctx') (hrest : t.rest = stripComments s.rest) :
    (p ctx s).Mismatches := by
  have hreply := h.follows hctx trivial trivial hrest
  rw [hrun] at hreply
  generalize p ctx s = r at hreply
  cases hreply with
  | mismatch => trivial

end

variable {text word : String} {lead after : List Char} {c d : Char} {tail : List Char}

theorem symbol_front (htext : text.toList = c :: tail) (hc : IsSolid c)
    (hctx : ctx.newlines = true) (hlead : IsTrivia lead)
    (hrest : s.rest = lead ++ (text.toList ++ after)) :
    (Parser.symbol text ctx s).Sat (fun _ t => s.Takes (lead ++ text.toList) t) False
      fun _ => False := by
  have hfront : s.rest = lead ++ c :: (tail ++ after) := by rw [hrest, htext, List.cons_append]
  refine sat_skipTrivia_solid hctx hlead hc hfront fun crossed u htakes _ => ?_
  have hu : u.rest = text.toList ++ after := htakes.rest_eq hrest
  rw [Parser.ahead_bind, hu, if_pos (List.isPrefixOf_iff_prefix.mpr (List.prefix_append _ _)),
    ← String.length_toList]
  exact htakes.trans (.advance hu)

theorem symbol_behind (htext : text.toList = c :: tail) (hctx : ctx.newlines = true)
    (hlead : IsTrivia lead) (hd : IsSolid d) (hne : d ≠ c) (hrest : s.rest = lead ++ d :: after) :
    (Parser.symbol text ctx s).Mismatches := by
  refine sat_skipTrivia_solid hctx hlead hd hrest fun crossed u _ hu => ?_
  rw [Parser.ahead_bind, hu, htext, if_neg]
  · trivial
  · intro hfront
    exact hne (List.cons_prefix_cons.mp (List.isPrefixOf_iff_prefix.mp hfront)).1.symm

theorem keyword_front (hword : word.toList = c :: tail) (hc : IsSolid c)
    (hlower : Text.lower (Text.ofString word) = Text.ofString word) (hctx : ctx.newlines = true)
    (hlead : IsTrivia lead) (hafter : continuesKey after = false)
    (hrest : s.rest = lead ++ (word.toList ++ after)) :
    (Parser.keyword word ctx s).Sat (fun _ t => s.Takes (lead ++ word.toList) t) False
      fun _ => False := by
  have hfront : s.rest = lead ++ c :: (tail ++ after) := by rw [hrest, hword, List.cons_append]
  refine sat_skipTrivia_solid hctx hlead hc hfront fun crossed u htakes _ => ?_
  have hu : u.rest = word.toList ++ after := htakes.rest_eq hrest
  rw [Parser.ahead_bind, hu, ← String.length_toList, List.take_left, List.drop_left, hafter,
    if_pos ⟨hlower, rfl⟩]
  exact htakes.trans (.advance hu)

-- An identifier without a dash, with no key character behind it.
theorem keyText_of_plain {cs : List Char} (hne : cs ≠ []) (hkeys : ∀ c ∈ cs, isKeyChar c = true)
    (hdash : '-' ∉ cs) (hafter : continuesKey after = false) : KeyText after cs := by
  refine ⟨hne, hkeys, fun tail htail hne => ?_, fun h => ?_⟩
  · obtain ⟨c, tail, rfl⟩ := List.exists_cons_of_ne_nil hne
    have hc : c ≠ '-' := fun h => hdash (h ▸ htail.subset List.mem_cons_self)
    rw [List.cons_append, startsArrow_cons, beq_false_of_ne hc, Bool.false_and]
  · rw [hafter] at h
    cases h

end

namespace Scaffold

variable {ctx : Context} {s t : State} {name scope inside : List Char}

theorem bind_congr_at {α β : Type} {p q : Parser α} {f : α → Parser β}
    (h : p ctx s = q ctx t) : (p >>= f) ctx s = (q >>= f) ctx t := by
  change Parser.bind p f ctx s = Parser.bind q f ctx t
  rw [Parser.bind, Parser.bind, h]

-- The attribute is read up to the quote of its value, whatever stands behind it.
theorem fileAttribute_opening (hctx : ctx.newlines = true) (hlimit : 0 < ctx.limit)
    (hs : s.rest = opening.toList ++ inside) :
    ∃ u, u.rest = '"' :: inside ∧ Parser.fileAttribute ctx s =
      (Parser.string >>= fun text => Parser.symbol "]" >>= fun _ =>
        pure ⟨"mod.name", .string text⟩) ctx u := by
  have hblank : IsTrivia [' '] := .blank (by decide) .nil
  have hmark : s.rest = [] ++ ("#!".toList ++ '[' :: ("mod.name".toList ++
      ([' '] ++ '=' :: ([' '] ++ '"' :: inside)))) := hs
  obtain ⟨_, s₁, hread₁, htakes₁⟩ := (symbol_front rfl (by decide) hctx .nil hmark).exists_ok
  have hbracket : s₁.rest = [] ++ '[' :: ("mod.name".toList ++
      ([' '] ++ '=' :: ([' '] ++ '"' :: inside))) := htakes₁.rest_eq hmark
  obtain ⟨_, s₂, hread₂, htakes₂⟩ :=
    (symbol_shown (rfl : "[".toList = _) (by decide) hctx .nil hbracket).exists_ok
  have hname : s₂.rest = [] ++ ("mod.name".toList ++
      ([' '] ++ '=' :: ([' '] ++ '"' :: inside))) := htakes₂.rest_eq hbracket
  have hkey : KeyText ([' '] ++ '=' :: ([' '] ++ '"' :: inside)) "mod.name".toList := by
    refine keyText_of_plain (by decide) (List.all_eq_true.mp (by decide)) ?_ rfl
    decide
  obtain ⟨_, s₃, hread₃, rfl, htakes₃⟩ := (key_complete hctx .nil hkey hname).exists_ok
  have hequals : s₃.rest = [' '] ++ '=' :: ([' '] ++ '"' :: inside) := htakes₃.rest_eq hname
  obtain ⟨_, s₄, hread₄, rfl, htakes₄⟩ :=
    (trySymbol_shown (rfl : "=".toList = _) (by decide) hctx hblank hequals).exists_ok
  have hvalue : s₄.rest = [' '] ++ '"' :: inside := htakes₄.rest_eq hequals
  have hfree : ({ ctx with newlines := true } : Context) = ctx := by rw [← hctx]
  obtain ⟨crossed, hread₅⟩ := skipTrivia_solid hctx hblank (by decide : IsSolid '"') hvalue
  refine ⟨{ s₄ with pos := s₄.pos + [' '].length, rest := '"' :: inside }, rfl, ?_⟩
  have hliteral : Parser.literal ctx s₄ = (Parser.string >>= fun text => pure (.string text)) ctx
      { s₄ with pos := s₄.pos + [' '].length, rest := '"' :: inside } := by
    obtain ⟨depth, hdepth⟩ := Nat.exists_eq_add_one.mpr hlimit
    rw [Parser.literal, hdepth]
    change Parser.bind Parser.skipTrivia _ { ctx with newlines := true } s₄ = _
    rw [hfree, Parser.bind, hread₅]
    rfl
  rw [Parser.fileAttribute, bind_of_ok hread₁, Parser.attributeBody, bind_of_ok hread₂,
    bind_of_ok hread₃, Parser.after?, Parser.bind_assoc, bind_of_ok hread₄, if_pos rfl,
    Parser.bind_assoc, bind_congr_at hliteral, Parser.bind_assoc]
  rfl

theorem stringBody_plain (h : ∀ c ∈ name, c ≠ '"' ∧ c ≠ '\\') :
    StringBody name (Text.ofChars name) := by
  induction name with
  | nil => exact .nil
  | cons c name ih =>
      obtain ⟨⟨hquote, hslash⟩, hname⟩ := List.forall_mem_cons.mp h
      exact .raw hquote hslash (ih hname)

-- What follows the attribute with the name.
def afterName (scope : List Char) : List Char :=
  ['\n', '\n'] ++ ("namespace".toList ++ ([' '] ++ (scope ++ declarations.toList)))

theorem isTrivia_lineEnds : IsTrivia ['\n', '\n'] :=
  .blank (by decide) (.blank (by decide) .nil)

theorem fileAttribute_name (hctx : ctx.newlines = true) (hlimit : 0 < ctx.limit)
    (h : ∀ c ∈ name, c ≠ '"' ∧ c ≠ '\\')
    (hs : s.rest = sourceText name scope) :
    (Parser.fileAttribute ctx s).Sat (fun a t => a = ⟨"mod.name", .string (Text.ofChars name)⟩ ∧
      t.rest = afterName scope) False fun _ => False := by
  obtain ⟨u, hu, heq⟩ := fileAttribute_opening hctx hlimit hs
  have hrest : u.rest = [] ++ '"' :: (name ++ '"' :: ([] ++ ']' :: afterName scope)) := hu
  rw [heq]
  refine sat_bind (string_complete hctx .nil (stringBody_plain h) hrest) ?_
  rintro _ t ⟨rfl, htakes⟩
  have ht : t.rest = [] ++ ']' :: afterName scope := htakes.rest_eq (by simpa using hrest)
  refine sat_bind (symbol_shown (rfl : "]".toList = _) (by decide) hctx .nil ht) ?_
  rintro _ v htakes'
  exact sat_pure ⟨rfl, htakes'.rest_eq ht⟩

theorem fileAttribute_afterName (hctx : ctx.newlines = true) (hs : s.rest = afterName scope) :
    (Parser.fileAttribute ctx s).Mismatches :=
  sat_bind_never (symbol_behind (rfl : "#!".toList = '#' :: _) hctx isTrivia_lineEnds
    (by decide : IsSolid 'n') (by decide) hs)

-- What a declaration of a component is known by.
def outline : Declaration → Option (Kind × Key × Option Key)
  | .scope _ _ _ _ => none
  | .component d => some (d.component.kind, d.id, d.inherits)

theorem outline_of_agrees {d d' : Declaration} (h : d.Agrees d') : outline d' = outline d := by
  have hplaces : ∀ d : Declaration, outline d.eraseSpans = outline d := fun d => by
    cases d <;> rfl
  rw [← hplaces d', h, hplaces d]

theorem map_outline_of_agrees {ds ds' : List Declaration}
    (h : List.Forall₂ Declaration.Agrees ds ds') : ds'.map outline = ds.map outline := by
  induction h with
  | nil => rfl
  | cons hd _ ih => rw [List.map_cons, List.map_cons, outline_of_agrees hd, ih]

-- The body of a namespace, between braces.
def braced (depth : Nat) : Parser (List Declaration) := do
  Parser.symbol "\x7b"
  let body ← Parser.many (Parser.declarationWithin depth)
  Parser.symbol "\x7d"
  return body

theorem tandem_braced {w : Settings} {m n : Nat} (hle : n ≤ m) (htighter : n < m → w.Tighter) :
    Tandem .any w (min m w.left.limit + 1) .closed [] [] (braced m) (braced n) (fun _ => True)
      (List.Forall₂ Declaration.Agrees) := by
  refine (Tandem.symbol_open (d := '}') (by decide) rfl (by decide)).next fun _ _ => ?_
  refine ((Tandem.declarationWithin hle htighter).frame ['}']).many.next_bind fun _ _ _ hbody => ?_
  refine (Tandem.symbol_close (c := '{') (by decide) rfl (by decide)).keep fun _ _ => ?_
  exact .pure trivial hbody

-- A reading in which two brackets may be open at least, and another one in which no more may be.
def againstTwo (ctx : Context) (hlimit : 2 ≤ ctx.limit) : Settings :=
  ⟨ctx.toSetting, ⟨"", 2⟩, hlimit⟩

theorem aligned_againstTwo (hctx : ctx.newlines = true) (hlimit : 2 ≤ ctx.limit) :
    (againstTwo ctx hlimit).Aligned ctx (.ofSource "" [] 2) :=
  ⟨rfl, rfl, hctx.symm⟩

-- The definitions that a project starts with.
def firstOutlines : List (Kind × Key × Option Key) :=
  [(.aspect, "lantern", none), (.card, "candle", none), (.verb, "work", none)]

-- The body holds these definitions, and a line end is left behind it.
def IsFirst (body : List Declaration) (t : State) : Prop :=
  body.map outline = firstOutlines.map some ∧ t.rest = ['\n']

instance (body : List Declaration) (t : State) : Decidable (IsFirst body t) :=
  inferInstanceAs (Decidable (_ ∧ _))

theorem toList_lines (brace feed : String) (lines : List String) :
    (brace ++ (feed ++ String.join (lines.map (· ++ feed)))).toList =
      brace.toList ++ (feed.toList ++ lines.flatMap fun line => line.toList ++ feed.toList) := by
  rw [String.toList_append, String.toList_append]
  congr 2
  induction lines with
  | nil => rfl
  | cons line lines ih =>
      rw [List.map_cons, String.join_cons, String.toList_append, String.toList_append, ih,
        List.flatMap_cons]

theorem continuesKey_declarations : continuesKey declarations.toList = false := by
  rw [declarations, toList_lines]
  rfl

theorem braced_declarations : ∃ body t,
    braced 1 (.ofSource "" [] 2) (.ofSource (stripComments declarations.toList)) = .ok body t ∧
      IsFirst body t := by
  rw [declarations, toList_lines]
  apply Reply.Sat.exists_ok
  decide +kernel

theorem declarationWithin_lineEnd : ∃ pos expected furthest,
    Parser.declarationWithin 2 (.ofSource "" [] 2) (.ofSource ['\n']) =
      .mismatch pos expected furthest := by
  apply Reply.Mismatches.exists
  decide +kernel

theorem scope_eq (depth : Nat) :
    Parser.scope (Parser.many (Parser.declarationWithin depth)) = (do
      let start ← Parser.tokenStart
      let attributes ← Parser.many Parser.localAttribute
      Parser.keyword "namespace"
      let id ← Parser.key
      let body ← braced depth
      return .scope id attributes body (← Parser.spanFrom start)) := by
  simp only [braced, Parser.bind_assoc]
  rfl

theorem scope_header {after : List Char} {P : List Declaration → State → Prop}
    (hctx : ctx.newlines = true) (hkey : KeyText after scope)
    (hs : s.rest = ['\n', '\n'] ++ ("namespace".toList ++ ([' '] ++ (scope ++ after))))
    {depth : Nat} (hbody : ∀ u, u.rest = after → (braced depth ctx u).Sat P False fun _ => False) :
    (Parser.scope (Parser.many (Parser.declarationWithin depth)) ctx s).Sat
      (fun d u => ∃ body span, d = .scope (Key.ofChars scope) [] body span ∧ P body u) False
      fun _ => False := by
  rw [scope_eq, Parser.tokenStart, Parser.bind_assoc]
  refine sat_skipTrivia_solid hctx isTrivia_lineEnds (by decide : IsSolid 'n') hs ?_
  intro crossed t _ ht
  rw [Parser.position_bind]
  refine sat_bind (sat_manyUpTo_none (sat_bind_never (symbol_behind (rfl : "#".toList = '#' :: _)
    hctx .nil (by decide : IsSolid 'n') (by decide) ht)) _) ?_
  rintro _ u ⟨rfl, hu⟩
  have hword : u.rest = [] ++ ("namespace".toList ++ ([' '] ++ (scope ++ after))) :=
    hu.1.symm.trans ht
  refine sat_bind (keyword_front (rfl : "namespace".toList = 'n' :: _) (by decide)
    (by decide) hctx .nil rfl hword) ?_
  rintro _ v hv
  have hid : v.rest = [' '] ++ (scope ++ after) := hv.rest_eq hword
  refine sat_bind (key_complete hctx (.blank (by decide) .nil) hkey hid) ?_
  rintro _ w ⟨rfl, hw⟩
  refine sat_bind (hbody w (hw.rest_eq hid)) ?_
  intro body x hx
  exact ⟨body, _, rfl, hx⟩

-- The namespace of the project with its definitions, and a line end behind it.
def IsNamespace (scope : List Char) (d : Declaration) (t : State) : Prop :=
  ∃ body span, d = .scope (Key.ofChars scope) [] body span ∧
    body.map outline = firstOutlines.map some ∧ stripComments t.rest = ['\n']

theorem braced_first {depth : Nat} (hctx : ctx.newlines = true) (hlimit : ctx.limit = depth + 1)
    (hdepth : 1 ≤ depth) (hs : s.rest = declarations.toList) :
    (braced depth ctx s).Sat (fun body u => body.map outline = firstOutlines.map some ∧
      stripComments u.rest = ['\n']) False fun _ => False := by
  obtain ⟨body', t, hrun, houtlines, ht⟩ := braced_declarations
  have hrest : (State.ofSource (stripComments declarations.toList)).rest =
      stripComments s.rest := by rw [hs, State.ofSource]
  have htwo : 2 ≤ ctx.limit := by omega
  have htighter : 1 < depth → (againstTwo ctx htwo).Tighter := fun hlt =>
    (Nat.succ_lt_succ hlt).trans_eq hlimit.symm
  refine ((tandem_braced hdepth htighter).sat hrun (aligned_againstTwo hctx htwo) hrest).mono ?_ id
    fun _ h => h
  rintro body u ⟨hagree, hu⟩
  exact ⟨(map_outline_of_agrees hagree).symm.trans houtlines, hu.symm.trans ht⟩

theorem declarations_afterName (hctx : ctx.newlines = true) (hlimit : 2 ≤ ctx.limit)
    (hne : scope ≠ []) (hkeys : ∀ c ∈ scope, isKeyChar c = true) (hdash : '-' ∉ scope)
    (hs : s.rest = afterName scope) :
    (Parser.declarations ctx s).Sat (fun ds u => ∃ d t, IsNamespace scope d t ∧ ds = [d] ∧
      t.Takes [] u) False fun _ => False := by
  have hkey : KeyText declarations.toList scope :=
    keyText_of_plain hne hkeys hdash continuesKey_declarations
  rw [Parser.declarations]
  refine sat_many_one ?_ ?_
  · obtain ⟨depth, hdepth⟩ := Nat.exists_eq_add_one.mpr (Nat.zero_lt_of_lt hlimit)
    rw [hdepth]
    refine sat_choice_first (scope_header hctx hkey hs fun _ => ?_) _
    exact braced_first hctx hdepth (by omega)
  · rintro d t ⟨-, -, -, -, ht⟩
    obtain ⟨_, _, _, hend⟩ := declarationWithin_lineEnd
    have hdeclaration : Tandem .any (againstTwo ctx hlimit) _ _ [] []
        (Parser.declarationWithin ctx.limit) (Parser.declarationWithin 2) _ _ :=
      .declarationWithin hlimit id
    exact hdeclaration.mismatches hend (aligned_againstTwo hctx hlimit) ht.symm

theorem file_sourceText (hctx : ctx.newlines = true) (hlimit : 2 ≤ ctx.limit)
    (h : ∀ c ∈ name, c ≠ '"' ∧ c ≠ '\\')
    (hne : scope ≠ []) (hkeys : ∀ c ∈ scope, isKeyChar c = true) (hdash : '-' ∉ scope)
    (hs : s.rest = sourceText name scope) :
    ∃ body span last, Parser.file ctx s = .ok (.inl ⟨ctx.file,
        [⟨"mod.name", .string (Text.ofChars name)⟩],
        [.scope (Key.ofChars scope) [] body span]⟩) last ∧
      body.map outline = firstOutlines.map some := by
  obtain ⟨_, t, hattributes, _, u, ⟨rfl, hu⟩, rfl, ht⟩ :=
    (sat_many_one (fileAttribute_name hctx (Nat.zero_lt_of_lt hlimit) h hs) fun _ _ h =>
      fileAttribute_afterName hctx h.2).exists_ok
  obtain ⟨_, v, hdeclarations, _, w, ⟨body, span, rfl, hbody, hw⟩, rfl, hv⟩ :=
    (declarations_afterName hctx hlimit hne hkeys hdash (ht.1.symm.trans hu)).exists_ok
  have hrest : stripComments v.rest = ['\n'] := by rw [← hw, hv.1, List.nil_append]
  have hend : Parser.onlyTriviaLeft (.ofSource "" [] 2) (.ofSource ['\n']) =
      .ok true (.ofSource ['\n']) := rfl
  have honly : Behaves (againstTwo ctx hlimit) 0 .held [] [] Parser.onlyTriviaLeft _ :=
    .onlyTriviaLeft
  obtain ⟨_, last, honly, rfl, -⟩ :=
    (honly.sat hend (aligned_againstTwo hctx hlimit) hrest.symm).exists_ok
  refine ⟨body, span, last, ?_, hbody⟩
  rw [Parser.file, bind_of_ok hattributes, bind_of_ok hdeclarations, bind_of_ok honly]
  rfl

-- A name that needs no escapes comes back, in front of the namespace with its definitions.
theorem ofSource_sourceText (file : String) {limit : Nat} (hlimit : 2 ≤ limit)
    (h : ∀ c ∈ name, c ≠ '"' ∧ c ≠ '\\')
    (hne : scope ≠ []) (hkeys : ∀ c ∈ scope, isKeyChar c = true) (hdash : '-' ∉ scope) :
    ∃ body span, ParsedFile.ofSource file (sourceText name scope) limit = .ok ⟨file, .ok ⟨file,
        [⟨"mod.name", .string (Text.ofChars name)⟩],
        [.scope (Key.ofChars scope) [] body span]⟩⟩ ∧
      body.map outline = firstOutlines.map some := by
  generalize hsource : sourceText name scope = source
  have hctx : (Context.ofSource file source limit).newlines = true := rfl
  have hs : (State.ofSource source).rest = sourceText name scope := hsource.symm
  obtain ⟨body, span, last, hfile, hbody⟩ := file_sourceText hctx hlimit h hne hkeys hdash hs
  refine ⟨body, span, ?_, hbody⟩
  rw [ParsedFile.ofSource, hfile]
  rfl

end Scaffold

end CardLore
