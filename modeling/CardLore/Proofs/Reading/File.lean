import CardLore.Declaration.Parser
import CardLore.Proofs.Reading.Component

namespace CardLore

namespace Declaration

mutual

-- The declaration with all places forgotten.
def eraseSpans : Declaration → Declaration
  | scope id attributes body _ => scope id attributes (eraseBodySpans body) default
  | component d => component { d with span := default }

def eraseBodySpans : List Declaration → List Declaration
  | [] => []
  | d :: ds => d.eraseSpans :: eraseBodySpans ds

end

end Declaration

def FileTree.eraseSpans (t : FileTree) : FileTree :=
  { t with declarations := Declaration.eraseBodySpans t.declarations }

-- The source is read as the tree, places apart, where values may nest `limit` deep.
def FileTree.ReadFrom (limit : Nat) (t : FileTree) (source : List Char) : Prop :=
  ∃ t', ParsedFile.ofSource t.file source limit = .ok ⟨t.file, .ok t'⟩ ∧
    t'.eraseSpans = t.eraseSpans

-- The declarations agree, places apart.
def Declaration.Agrees (d d' : Declaration) : Prop :=
  d'.eraseSpans = d.eraseSpans

theorem eraseBodySpans_of_agrees {ds ds' : List Declaration}
    (h : List.Forall₂ Declaration.Agrees ds ds') :
    Declaration.eraseBodySpans ds' = Declaration.eraseBodySpans ds := by
  induction h with
  | nil => rfl
  | cons hd _ ih => rw [Declaration.eraseBodySpans, Declaration.eraseBodySpans, hd, ih]

section

variable {limit : Nat} {newlines : Bool} {ls rest : List Lexeme}

theorem reads_attributeBody {a : Attribute} (h : a.Valid limit) :
    Reads limit Parser.attributeBody newlines
      (.symbol "[" :: .key a.key :: .symbol "=" :: (a.value.lexemes ++ .symbol "]" :: rest)) rest
      (· = a) := by
  refine .bind (reads_symbol "[") fun _ _ => .bind (reads_key a.key) fun key hkey => ?_
  refine .bind (reads_literal h.value).after? fun _ ⟨value, ho, hvalue⟩ => ?_
  subst ho hkey hvalue
  exact .bind (reads_symbol "]") fun _ _ => .pure rfl

theorem reads_fileAttribute {a : Attribute} (h : a.Valid limit) :
    Reads limit Parser.fileAttribute true (.lineEnd :: (a.lexemes "#!" ++ rest)) rest (· = a) := by
  simp only [Attribute.lexemes, List.cons_append, List.append_assoc, List.nil_append]
  exact .bind (reads_symbol_next rfl) fun _ _ => reads_attributeBody h

theorem reads_localAttributes {attributes : List Attribute} (h : ∀ a ∈ attributes, a.Valid limit)
    (hrest : startsWithSymbol "#" (next newlines rest) = false) :
    Reads limit (Parser.many Parser.localAttribute) newlines
      (attributes.flatMap (·.lexemes "#") ++ rest) rest (· = attributes) := by
  refine (reads_many (fun _ _ => List.cons_ne_nil _ _) (fun a ha tail => ?_)
    (.bind (mismatches_symbol (by decide) hrest))).mono fun _ => eq_of_forall₂
  simp only [List.cons_append, List.append_assoc, List.nil_append]
  exact .bind (reads_symbol "#") fun _ _ => reads_attributeBody (h a ha)

theorem next_attributes (attributes : List Attribute) (h : next true rest = rest) :
    next true (attributes.flatMap (·.lexemes "#") ++ rest) =
      attributes.flatMap (·.lexemes "#") ++ rest := by
  cases attributes with
  | nil => exact h
  | cons a attributes => rfl

theorem next_next (ls : List Lexeme) : next newlines (next newlines ls) = next newlines ls := by
  induction ls with
  | nil => rfl
  | cons l ls ih =>
      cases l with
      | lineEnd =>
          cases newlines with
          | true => exact ih
          | false => rfl
      | _ => rfl

-- The words that a component can start with.
def componentWords : List String :=
  ["hidden", "aspect", "card", "deck", "verb", "recipe", "legacy", "ending"]

theorem exists_word_component (c : Component) (rest : List Lexeme) :
    ∃ w ∈ componentWords, ∃ tail, c.lexemes ++ rest = .word w :: tail := by
  have hhidden : ∀ (b : Bool) {w : String}, w ∈ componentWords → ∀ tail, ∃ v ∈ componentWords,
      ∃ tail', writeIf b (.word "hidden") ++ .word w :: tail = .word v :: tail' := by
    intro b w hw tail
    cases b with
    | true => exact ⟨"hidden", List.mem_cons_self, _, rfl⟩
    | false => exact ⟨w, hw, _, rfl⟩
  cases c with
  | aspect r =>
      rw [Component.lexemes, Aspect.lexemes, List.append_assoc]
      exact hhidden r.hidden (by decide) _
  | card r =>
      rw [Component.lexemes, Card.lexemes, List.append_assoc]
      exact hhidden r.hidden (by decide) _
  | deck r => exact ⟨"deck", by decide, _, rfl⟩
  | verb r => exact ⟨"verb", by decide, _, rfl⟩
  | recipe r => exact ⟨"recipe", by decide, _, rfl⟩
  | legacy r => exact ⟨"legacy", by decide, _, rfl⟩
  | ending r => exact ⟨"ending", by decide, _, rfl⟩

-- What follows the attributes of a component.
def ComponentDeclaration.headed (d : ComponentDeclaration) : List Lexeme :=
  d.inherits.toList.flatMap (fun parent => [.word "from", .key parent]) ++ d.component.lexemes

theorem exists_word_headed (d : ComponentDeclaration) (rest : List Lexeme) :
    ∃ w ∈ "from" :: componentWords, ∃ tail, d.headed ++ rest = .word w :: tail := by
  rw [ComponentDeclaration.headed, List.append_assoc]
  cases d.inherits with
  | none =>
      obtain ⟨w, hw, tail, heq⟩ := exists_word_component d.component rest
      exact ⟨w, List.mem_cons_of_mem _ hw, tail, heq⟩
  | some parent => exact ⟨"from", List.mem_cons_self, _, rfl⟩

theorem reads_tokenStart_next {mid : List Lexeme} (h : next newlines ls = mid) :
    Reads limit Parser.tokenStart newlines ls mid fun _ => True :=
  h ▸ reads_tokenStart

theorem reads_inherits {α : Type} {d : ComponentDeclaration} {f : Option Key → Parser α}
    {mid : List Lexeme} {P : α → Prop}
    (h : Reads limit (f d.inherits) newlines (d.component.lexemes ++ mid) rest P) :
    Reads limit (do
      let inherits ← if ← Parser.tryKeyword "from" then some <$> Parser.key else pure none
      f inherits) newlines (d.headed ++ mid) rest P := by
  rw [ComponentDeclaration.headed, List.append_assoc]
  cases hinherits : d.inherits with
  | none =>
      obtain ⟨w, hw, tail, heq⟩ := exists_word_component d.component mid
      have hfrom : ∀ w ∈ componentWords, (w == "from") = false := by decide
      have hnone : startsWithWord "from" (next newlines (d.component.lexemes ++ mid)) = false := by
        rw [heq]
        exact hfrom w hw
      refine .bind (reads_tryKeyword_false (by decide) hnone) fun b hb => ?_
      subst hb
      rwa [hinherits] at h
  | some parent =>
      have hparent : Reads limit (some <$> Parser.key) newlines
          (.key parent :: (d.component.lexemes ++ mid)) (d.component.lexemes ++ mid)
          (· = some parent) :=
        .bind (reads_key parent) fun _ hkey => .pure (congrArg some hkey)
      refine .bind (reads_tryKeyword "from") fun b hb => ?_
      subst hb
      refine .bind hparent fun o ho => ?_
      rwa [ho, ← hinherits]

theorem next_component (d : ComponentDeclaration) :
    next true (.lineEnd :: (d.lexemes ++ rest)) =
      d.attributes.flatMap (·.lexemes "#") ++ (d.headed ++ rest) := by
  rw [next_lineEnd, ComponentDeclaration.lexemes, List.append_assoc]
  refine next_attributes d.attributes ?_
  obtain ⟨w, _, tail, heq⟩ := exists_word_headed d rest
  change next true (d.headed ++ rest) = d.headed ++ rest
  rw [heq]
  rfl

theorem not_mark_headed (d : ComponentDeclaration) :
    startsWithSymbol "#" (next newlines (d.headed ++ rest)) = false := by
  obtain ⟨w, _, tail, heq⟩ := exists_word_headed d rest
  rw [heq]
  rfl

theorem reads_componentDeclaration {d : ComponentDeclaration} (h : d.Valid (limit + 1)) :
    Reads (limit + 1) Parser.componentDeclaration true (.lineEnd :: (d.lexemes ++ rest)) rest
      (Declaration.component d).Agrees := by
  refine .bind (reads_tokenStart_next (next_component d)) fun start _ => ?_
  refine .bind (reads_localAttributes h.attributes (not_mark_headed d)) fun attributes ha => ?_
  refine reads_inherits (.bind (reads_component h.component) fun component hcomponent => ?_)
  refine .bind (reads_spanFrom start) fun span _ => .pure ?_
  subst ha hcomponent
  rw [Declaration.Agrees, Declaration.eraseSpans, Declaration.eraseSpans, h.id]

-- The word that a component starts with opens no namespace.
theorem mismatches_scope_component {body : Parser (List Declaration)} {d : ComponentDeclaration}
    (h : ∀ a ∈ d.attributes, a.Valid limit) :
    Mismatches limit (Parser.scope body) true (.lineEnd :: (d.lexemes ++ rest)) := by
  refine .after (reads_tokenStart_next (next_component d)) fun _ _ => ?_
  refine .after (reads_localAttributes h (not_mark_headed d)) fun _ _ => ?_
  have hword : ∀ w ∈ "from" :: componentWords, (w == "namespace") = false := by decide
  obtain ⟨w, hw, tail, heq⟩ := exists_word_headed d rest
  rw [heq]
  exact mismatches_word (by decide) (hword w hw)

-- Neither the end of the file nor a closing brace starts a declaration.
theorem mismatches_declarationWithin (depth : Nat)
    (hsymbol : startsWithSymbol "#" (next true ls) = false)
    (hword : ∀ w ∈ keywords, startsWithWord w (next true ls) = false) :
    Mismatches limit (Parser.declarationWithin (depth + 1)) true ls := by
  have hattributes : Reads limit (Parser.many Parser.localAttribute) true (next true ls) (next true ls)
      (· = []) := by
    rw [← next_next] at hsymbol
    exact reads_localAttributes (nofun : ∀ a ∈ ([] : List Attribute), a.Valid limit) hsymbol
  have hnext : ∀ w ∈ keywords, startsWithWord w (next true (next true ls)) = false := by
    rwa [next_next]
  refine .choice ?_ (List.forall_mem_singleton.mpr ?_)
  · refine .after reads_tokenStart fun _ _ => .after hattributes fun _ _ => ?_
    exact .bind (mismatches_keyword (by decide) (hnext _ (by decide)))
  · refine .after reads_tokenStart fun _ _ => .after hattributes fun _ _ => ?_
    refine .after (reads_tryKeyword_false (by decide) (hnext _ (by decide))) fun b hb => ?_
    subst hb
    exact .after (Reads.pure (P := fun _ => True) trivial) fun _ _ =>
      .bind (mismatches_component hnext)

theorem reads_scope {depth : Nat} {id : Key} {attributes : List Attribute} {body : List Declaration}
    {span : Span} (hattributes : ∀ a ∈ attributes, a.Valid limit)
    (hbody : ∀ d ∈ body, ∀ tail,
      Reads limit (Parser.declarationWithin (depth + 1)) true (.lineEnd :: (d.lexemes ++ tail)) tail
        d.Agrees) :
    Reads limit (Parser.scope (Parser.many (Parser.declarationWithin (depth + 1)))) true
      (.lineEnd :: ((Declaration.scope id attributes body span).lexemes ++ rest)) rest
      (Declaration.scope id attributes body span).Agrees := by
  simp only [Declaration.lexemes, Declaration.bodyLexemes_eq_flatMap, List.append_assoc,
    List.cons_append, List.nil_append]
  refine .bind (reads_tokenStart_next (next_attributes attributes rfl)) fun start _ => ?_
  refine .bind (reads_localAttributes hattributes rfl) fun _ ha => ?_
  refine .bind (reads_keyword "namespace") fun _ _ => .bind (reads_key id) fun _ hid => ?_
  refine .bind (reads_symbol "\x7b") fun _ _ => ?_
  refine .bind (reads_many (fun _ _ => List.cons_ne_nil _ _) hbody
    (mismatches_declarationWithin depth rfl fun _ _ => rfl)) fun body' hbody' => ?_
  refine .bind (reads_symbol_next rfl) fun _ _ => .bind (reads_spanFrom start) fun span' _ => ?_
  subst ha hid
  refine .pure ?_
  rw [Declaration.Agrees, Declaration.eraseSpans, Declaration.eraseSpans,
    eraseBodySpans_of_agrees hbody']

theorem reads_declarationWithin {depth : Nat} {d : Declaration} (h : d.Fits (limit + 1) depth)
    (rest : List Lexeme) :
    Reads (limit + 1) (Parser.declarationWithin depth) true (.lineEnd :: (d.lexemes ++ rest)) rest
      d.Agrees := by
  induction h generalizing rest with
  | scope _ hattributes _ ih => exact .choice_first (reads_scope hattributes ih) _
  | component h =>
      exact .choice_next (mismatches_scope_component h.attributes)
        (.choice_first (reads_componentDeclaration h) [])

-- A declaration's own attributes are none of the file.
theorem not_fileMark_declaration (d : Declaration) :
    startsWithSymbol "#!" (next true (.lineEnd :: (d.lexemes ++ rest))) = false := by
  have hattributes : ∀ (attributes : List Attribute) {ls : List Lexeme},
      startsWithSymbol "#!" ls = false →
        startsWithSymbol "#!" (attributes.flatMap (·.lexemes "#") ++ ls) = false := by
    intro attributes ls hls
    cases attributes with
    | nil => exact hls
    | cons a attributes => rfl
  cases d with
  | scope id attributes body span =>
      rw [Declaration.lexemes, List.append_assoc, next_lineEnd, next_attributes attributes rfl]
      exact hattributes attributes rfl
  | component d =>
      rw [Declaration.lexemes, next_component]
      refine hattributes d.attributes ?_
      obtain ⟨w, _, tail, heq⟩ := exists_word_headed d rest
      rw [heq]
      rfl

theorem mismatches_fileAttribute (ds : List Declaration) :
    Mismatches limit Parser.fileAttribute true (ds.flatMap (.lineEnd :: ·.lexemes) ++ [.lineEnd]) := by
  refine .bind (mismatches_symbol (by decide) ?_)
  cases ds with
  | nil => rfl
  | cons d ds =>
      rw [List.flatMap_cons, List.append_assoc]
      exact not_fileMark_declaration d

theorem file_ok {t : FileTree} (h : t.Valid limit) (ctx : Context) (s : State)
    (hctx : ctx.newlines = true ∧ ctx.limit = limit) (hfile : ctx.file = t.file) (hs : Written t.lexemes s.rest) :
    ∃ t' last, Parser.file ctx s = .ok (.inl t') last ∧ t'.eraseSpans = t.eraseSpans := by
  obtain ⟨depth, rfl⟩ := Nat.exists_eq_add_one.mpr h.depth
  rw [FileTree.lexemes, Declaration.bodyLexemes_eq_flatMap] at hs
  obtain ⟨attributes, mid, hattributes, hmid, hvalues⟩ :=
    reads_many (fun _ _ => List.cons_ne_nil _ _)
      (fun a ha _ => reads_fileAttribute (h.attributes a ha))
      (mismatches_fileAttribute t.declarations) ctx s hctx hs
  obtain ⟨ds, last, hds, hlast, hagree⟩ :=
    reads_many (fun _ _ => List.cons_ne_nil _ _)
      (fun d hd => reads_declarationWithin (h.declarations d hd))
      (mismatches_declarationWithin depth rfl fun _ _ => rfl) ctx mid hctx hmid
  obtain ⟨only, final, honly, _, hempty⟩ := reads_onlyTriviaLeft ctx last hctx hlast
  obtain rfl : only = true := hempty
  refine ⟨⟨ctx.file, attributes, ds⟩, final, ?_, ?_⟩
  · change Parser.bind (Parser.many Parser.fileAttribute) _ ctx s = _
    rw [Parser.bind, hattributes]
    change Parser.bind Parser.declarations _ ctx mid = _
    rw [Parser.bind, Parser.declarations, hctx.2, hds]
    change Parser.bind Parser.onlyTriviaLeft _ ctx last = _
    rw [Parser.bind, honly]
    rfl
  · rw [FileTree.eraseSpans, FileTree.eraseSpans, eraseBodySpans_of_agrees hagree, hfile,
      eq_of_forall₂ hvalues]

theorem readFrom_written {t : FileTree} (h : t.Valid limit) {source : List Char}
    (hsource : Written t.lexemes source) : t.ReadFrom limit source := by
  obtain ⟨t', last, hok, herase⟩ :=
    file_ok h (.ofSource t.file source limit) (.ofSource source) ⟨rfl, rfl⟩ rfl hsource
  refine ⟨t', ?_, herase⟩
  rw [ParsedFile.ofSource, hok]

-- A valid tree is read back from its canonical text, and from every text that differs from it only
-- in the letter case of words, in leading zeros and in blanks.
theorem readFrom_print {t : FileTree} (h : t.Valid limit) :
    t.ReadFrom limit t.print ∧ ∀ source, Written t.lexemes source → t.ReadFrom limit source :=
  ⟨readFrom_written h (written_render h.writable), fun _ => readFrom_written h⟩

end

-- Every key of this card is a word of the language or looks like a number.
def wordyCard : Card where
  id := "card"
  label := "a \"card\" \\"
  decaysTo := some "spawn"
  hidden := true
  aspects := [("set", 2), ("7", 0)]
  lifetime := some 60
  uniquenessGroup := some "unique"
  slots := [("unique", [⟨"slot", [], [], true, false, [⟨.forbid, "default", 1⟩]⟩])]
  xtriggers := [⟨.transform, "mutate", "spawn", 3, .certain⟩]
  others := [("induce", .array [.int (-3), .null])]

def wordyTree : FileTree where
  file := "words"
  attributes := [⟨"hidden", .bool true⟩]
  declarations :=
    [.scope "namespace" [⟨"from", .object [("from", .string "from")]⟩]
      [.component ⟨"card", [], .card wordyCard, some "from", default⟩] default]

theorem valid_wordyCard : wordyCard.Valid 2 where
  id := by decide
  induces := nofun
  decaysTo := fun _ h => by cases h; decide
  aspects := ⟨by decide, by decide, by decide +kernel⟩
  lifetime := fun _ h => by cases h; decide +kernel
  notBoth := nofun
  group := fun _ h => by cases h; decide
  slotVerbs := by decide
  slotVerb := by decide
  slotLists := by decide
  slots := by
    simp only [wordyCard, List.forall_mem_singleton]
    exact ⟨by decide, List.forall_mem_singleton.mpr ⟨by decide, by decide +kernel⟩⟩
  xtriggers := List.forall_mem_singleton.mpr
    ⟨by decide, by decide, by decide +kernel, fun _ => by decide⟩
  others :=
    { nodup := by decide
      key := by decide
      unsigned := by decide
      unknown := by decide
      value := List.forall_mem_singleton.mpr (.array (List.forall_mem_cons.mpr
        ⟨.int (by decide +kernel), List.forall_mem_singleton.mpr .null⟩)) }

theorem valid_wordyTree : wordyTree.Valid 2 where
  depth := Nat.two_pos
  attributes := List.forall_mem_singleton.mpr ⟨by decide, .bool true⟩
  declarations := by
    refine List.forall_mem_singleton.mpr (.scope (by decide) ?_ ?_)
    · exact List.forall_mem_singleton.mpr ⟨by decide,
        .object (by decide) (List.forall_mem_singleton.mpr (.string _))⟩
    · exact List.forall_mem_singleton.mpr (.component
        ⟨rfl, nofun, fun _ h => by cases h; decide, valid_wordyCard⟩)

theorem readFrom_print_wordyTree : wordyTree.Valid 2 ∧ wordyTree.ReadFrom 2 wordyTree.print :=
  ⟨valid_wordyTree, (readFrom_print valid_wordyTree).1⟩

end CardLore
