import CardLore.Proofs.Compilation.Outcome
import CardLore.Proofs.Conduct.Component
import CardLore.Proofs.Reading.File

namespace CardLore

-- A component with a name of its own, or a namespace of such declarations.
inductive Declaration.WellFormed : Declaration → Prop
  | scope {id : Key} {attributes : List Attribute} {body : List Declaration} {span : Span}
      (hid : id.Valid) (hbody : ∀ d ∈ body, WellFormed d) :
      WellFormed (.scope id attributes body span)
  | component {d : ComponentDeclaration} (hid : d.id.Valid) (h : d.component.WellBuilt) :
      WellFormed (.component d)

theorem Component.WellFormed.id_valid {c : Component} (h : c.WellFormed) : c.id.Valid := by
  cases c with
  | aspect r => exact h.known.id
  | card r => exact h.known.id
  | deck r => exact h.id
  | recipe r => exact h.known.id
  | verb r => exact h.known.id
  | legacy r => exact h.known.id
  | ending r => exact h.id

instance : Std.Refl Declaration.Agrees :=
  ⟨fun _ => rfl⟩

namespace Tandem

variable {w : Settings} {depth m n : Nat} {e : Reach} {a : List Char}

theorem attributeBody : Behaves w w.left.limit .closed a a Parser.attributeBody fun _ => True :=
  (symbol_open (d := ']') (by decide) rfl (by decide)).next fun _ _ => key.next fun _ _ =>
    (after? (by decide) literal).ofOptionRel.next fun _ _ =>
      (symbol_close (c := '[') (by decide) rfl (by decide)).keep fun _ _ => value trivial

theorem fileAttribute : Behaves w w.left.limit .closed a a Parser.fileAttribute fun _ => True :=
  (symbol (by decide)).next fun _ _ => attributeBody

theorem localAttribute :
    Behaves w w.left.limit (.opens (· = ['#'])) a a Parser.localAttribute fun _ => True := by
  have hmark : Behaves w w.left.limit (.opens (· = "#".toList)) a a (Parser.symbol "#")
      fun _ => True := symbol_opens (by decide)
  exact hmark.opens_next fun _ _ => attributeBody

-- Behind the place where a component declaration starts.
theorem componentDeclaration_eq : ∃ f : Nat → Parser Declaration,
    Parser.componentDeclaration = (Parser.tokenStart >>= f) ∧
      ∀ (w : Settings) (a : List Char) (start start' : Nat),
        Tandem .any w w.left.limit .closed a a (f start) (f start') Declaration.WellFormed
          Declaration.Agrees := by
  refine ⟨_, rfl, fun w a start start' => ?_⟩
  refine localAttribute.closed.many.ofForall₂.next fun attributes _ => ?_
  refine (tryKeyword (by decide)).next fun found _ => ?_
  have hparent : Behaves w w.left.limit .held a a (some <$> Parser.key) fun _ => True :=
    (key.keep fun _ _ => value trivial).held
  refine either (e := .held) (k := .closed) hparent (value trivial) fun parent _ _ hsame => ?_
  subst hsame
  exact component.keep fun c hc => spanFrom start start' fun _ _ _ =>
    pure (.component hc.wellFormed.id_valid hc) rfl

theorem componentDeclaration :
    Tandem .any w w.left.limit .closed a a Parser.componentDeclaration Parser.componentDeclaration
      Declaration.WellFormed Declaration.Agrees := by
  obtain ⟨f, heq, hf⟩ := componentDeclaration_eq
  rw [heq]
  exact ofTokenStart (e := .closed) fun start _ start' _ => (hf w a start start').narrow

theorem scope {body body' : Parser (List Declaration)}
    (h : Tandem .any w depth e ('}' :: a) ('}' :: a) body body'
      (fun ds => ∀ d ∈ ds, d.WellFormed) (List.Forall₂ Declaration.Agrees))
    (hdepth : depth ≤ w.left.limit) :
    Tandem .any w depth .closed a a (Parser.scope body) (Parser.scope body')
      Declaration.WellFormed Declaration.Agrees := by
  refine ofTokenStart (e := .closed) fun start _ start' _ => narrow ?_
  refine (localAttribute.closed.shallower hdepth).many.ofForall₂.next fun attributes _ => ?_
  refine (keyword (by decide)).next fun _ _ => key.next fun id hid => ?_
  refine (symbol_open (d := '}') (by decide) rfl (by decide)).next fun _ _ => ?_
  refine h.next_bind fun ds ds' hds hsame => ?_
  refine (symbol_close (c := '{') (by decide) rfl (by decide)).keep fun _ _ => ?_
  refine spanFrom start start' fun _ _ _ => pure (.scope hid hds) ?_
  rw [Declaration.Agrees, Declaration.eraseSpans, Declaration.eraseSpans,
    eraseBodySpans_of_agrees hsame]

-- Inside of a namespace one more brace is open, and one less may be opened.
theorem declarationWithin_succ
    (h : Tandem .any w (min m w.left.limit) .closed [] [] (Parser.declarationWithin m)
      (Parser.declarationWithin n) Declaration.WellFormed Declaration.Agrees) :
    Tandem .any w (min (m + 1) w.left.limit) .closed [] [] (Parser.declarationWithin (m + 1))
      (Parser.declarationWithin (n + 1)) Declaration.WellFormed Declaration.Agrees := by
  have hbody : Tandem .any w (min (m + 1) w.left.limit) .closed ['}'] ['}']
      (Parser.declarationWithin m) (Parser.declarationWithin n) Declaration.WellFormed
      Declaration.Agrees := (h.frame ['}']).shallower (by rw [List.length_singleton]; omega)
  exact choice (scope hbody.many (Nat.min_le_right _ _)) (List.forall_iff_forall_mem.mp
    (componentDeclaration.shallower (Nat.min_le_right _ _)))

theorem declarationWithin (hle : n ≤ m) (htighter : n < m → w.Tighter) :
    Tandem .any w (min m w.left.limit) .closed [] [] (Parser.declarationWithin m)
      (Parser.declarationWithin n) Declaration.WellFormed Declaration.Agrees := by
  refine nested Parser.declarationWithin (min · w.left.limit) ?_
    (fun _ _ => declarationWithin_succ) rfl hle htighter
  rw [Nat.zero_min]
  exact tooDeep

theorem declarationWithin_same (m : Nat) :
    Tandem .any w (min m w.left.limit) .closed [] [] (Parser.declarationWithin m)
      (Parser.declarationWithin m) Declaration.WellFormed Declaration.Agrees :=
  declarationWithin (Nat.le_refl m) fun h => absurd h (Nat.lt_irrefl m)

theorem declarations :
    Tandem .any w w.left.limit .held [] [] Parser.declarations Parser.declarations
      (fun ds => ∀ d ∈ ds, d.WellFormed) (List.Forall₂ Declaration.Agrees) := by
  have hmany := (declarationWithin w.le id).many
  rw [Nat.min_self] at hmany
  constructor
  · intro ctx s s' hw hmeets hs
    have hlimit : ctx.limit = w.left.limit := congrArg Setting.limit hw
    rw [Parser.declarations, Parser.declarations, hlimit]
    exact hmany.fares hw hmeets hs
  · intro ctx ctx' s t hctx hs ht hrest
    have hlimit : ctx.limit = w.left.limit := congrArg Setting.limit hctx.left
    have hlimit' : ctx'.limit = w.right.limit := congrArg Setting.limit hctx.right
    rw [Parser.declarations, Parser.declarations, hlimit, hlimit']
    exact hmany.follows hctx hs ht hrest

-- The same is accepted from the front of both texts, places apart.
theorem accepted :
    Tandem .any w w.left.limit .held [] [] Parser.accepted Parser.accepted
      (fun found => ∀ d ∈ found.2, d.WellFormed)
      fun found found' => found.1 = found'.1 ∧ List.Forall₂ Declaration.Agrees found.2 found'.2 :=
  fileAttribute.many.ofForall₂.keep fun _ _ => declarations.keep_bind fun _ _ hds hsame =>
    pure hds ⟨rfl, hsame⟩

end Tandem

theorem Tracks.localAttribute : Tracks (.opens (· = ['#'])) Parser.localAttribute :=
  .of fun _ => .localAttribute

theorem Tracks.declarationWithin (depth : Nat) :
    Tracks .closed (Parser.declarationWithin depth) :=
  .ofWithin fun _ => .declarationWithin_same depth

theorem Tracks.accepted : Tracks .held Parser.accepted :=
  .of fun _ => .accepted

def FileTree.WellFormed (t : FileTree) : Prop :=
  ∀ d ∈ t.declarations, d.WellFormed

theorem wellFormed_of_ofSource {file : String} {source : List Char} {limit : Nat} {f : ParsedFile}
    {t : FileTree} (h : ParsedFile.ofSource file source limit = .ok f) (ht : f.tree? = some t) :
    t.WellFormed := by
  rw [ParsedFile.ofSource] at h
  split at h
  next tree last hfile =>
    cases h
    cases ht
    obtain ⟨attributes, _, -, hfile⟩ := bind_eq_ok_iff.mp hfile
    obtain ⟨declarations, _, hdeclarations, hfile⟩ := bind_eq_ok_iff.mp hfile
    obtain ⟨only, _, -, hfile⟩ := bind_eq_ok_iff.mp hfile
    cases only with
    | true =>
        cases hfile
        exact Tandem.declarations.value_of_ok hdeclarations
    | false =>
        obtain ⟨_, _, -, ⟨⟩⟩ := bind_eq_ok_iff.mp hfile
  all_goals
    cases h
    try cases ht

end CardLore
