import CardLore.Proofs.Compilation.WellFormed
import CardLore.Proofs.Reading.File

namespace CardLore

-- Digits only, however many.
def Key.IsDigits (k : Key) : Prop :=
  k.text ≠ [] ∧ ∀ p ∈ k.text, p.isDigitPoint = true

-- Digits only, behind a minus sign or not.
def Key.IsSignedDigits (k : Key) : Prop :=
  k.IsDigits ∨ k.text.head? = some (.scalar '-') ∧ Key.IsDigits ⟨k.text.tail⟩

def Key.digitCount (k : Key) : Nat :=
  k.text.countP CodePoint.isDigitPoint

-- The component has the key, which is a number, as the name of something.
inductive Component.NamesNumber : Component → Key → Prop
  | decay {r : Card} {key : Key} (h : r.decaysTo = some key) (hdigits : key.IsDigits) :
      NamesNumber (.card r) key
  | requirement {r : Recipe} {q : Requirement} {key : Key} (hq : q ∈ r.requirements)
      (h : q.amount = .element key) (hdigits : key.IsSignedDigits) : NamesNumber (.recipe r) key
  | branch {r : Recipe} {b : Branch} {q : Requirement} {key : Key} (hb : b ∈ r.branches)
      (hq : q ∈ b.requirements) (h : q.amount = .element key) (hdigits : key.IsSignedDigits) :
      NamesNumber (.recipe r) key

theorem Key.IsDigits.lt_digitCount {k : Key} (h : k.IsDigits) (hnumber : ¬ k.IsNumber) :
    maxIntegerDigits < k.digitCount := by
  rw [Key.digitCount, List.countP_eq_length.mpr h.2]
  exact Nat.lt_of_not_le fun hle => hnumber ⟨h.1, h.2, hle⟩

theorem Key.IsSignedDigits.lt_digitCount {k : Key} (h : k.IsSignedDigits)
    (hnumber : ¬ k.IsSignedNumber) : maxIntegerDigits < k.digitCount := by
  rcases h with h | ⟨hminus, h⟩
  · exact h.lt_digitCount fun hn => hnumber (.inl hn)
  · have htail := h.lt_digitCount fun hn => hnumber (.inr ⟨hminus, hn⟩)
    exact Nat.lt_of_lt_of_le htail (List.tail_sublist k.text).countP_le

theorem Threshold.Valid.lt_digitCount {amount : Threshold} (hvalid : amount.Valid) {key : Key}
    (h : amount = .element key) (hdigits : key.IsSignedDigits) :
    maxIntegerDigits < key.digitCount := by
  subst h
  exact hdigits.lt_digitCount hvalid.2

theorem Component.WellBuilt.lt_digitCount {c : Component} (h : c.WellBuilt) {key : Key}
    (hkey : c.NamesNumber key) : maxIntegerDigits < key.digitCount := by
  cases hkey with
  | decay hdecays hdigits => exact hdigits.lt_digitCount (h.known.decaysTo key hdecays).2
  | requirement hq hamount hdigits =>
      exact (h.known.requirements _ hq).amount.lt_digitCount hamount hdigits
  | branch hb hq hamount hdigits =>
      exact ((h.known.branches _ hb).requirements _ hq).amount.lt_digitCount hamount hdigits

section

variable {ctx : Context} {s s' : State} {crossed : Bool}

theorem attempt_of_ok {α : Type} {p : Parser α} {v : α} {next : State} (h : p ctx s = .ok v next) :
    Parser.attempt p ctx s = .ok (some v) next := by
  rw [Parser.attempt, h]

theorem keyChars_ne_nil {cs : List Char} (h : (Key.ofChars (keyChars cs)).text ≠ []) :
    keyChars cs ≠ [] :=
  fun hnil => h (by rw [hnil]; rfl)

theorem cardDecay_number (hskip : Parser.skipTrivia ctx s = .ok crossed s')
    (h : (Key.ofChars (keyChars s'.rest)).IsNumber) :
    ∃ next, Parser.cardDecay ctx s = .ok (none, some ↑(decimalValue (keyChars s'.rest))) next := by
  obtain ⟨next, hok⟩ := exists_unsigned hskip (keyChars_ne_nil h.1) h
  exact ⟨next, bind_eq_ok_iff.mpr ⟨_, _, attempt_of_ok hok, rfl⟩⟩

theorem requirementBody_number {kind : RequirementKind} {element : Key} {s₁ s₂ : State}
    (hkey : Parser.key ctx s = .ok element s₁) (hcolon : Parser.symbol ":" ctx s₁ = .ok () s₂)
    (hskip : Parser.skipTrivia ctx s₂ = .ok crossed s')
    (h : (Key.ofChars (keyChars s'.rest)).IsSignedNumber) :
    ∃ n next, Parser.requirementBody kind ctx s = .ok ⟨kind, element, .number n⟩ next := by
  have hne : (Key.ofChars (keyChars s'.rest)).text ≠ [] := by
    rcases h with h | ⟨hminus, -⟩
    · exact h.1
    · exact fun hnil => by simp [hnil] at hminus
  obtain ⟨n, next, hok⟩ := exists_signed hskip (keyChars_ne_nil hne) h
  refine ⟨n, next, bind_eq_ok_iff.mpr ⟨_, _, hkey, bind_eq_ok_iff.mpr ⟨_, _, hcolon, ?_⟩⟩⟩
  exact bind_eq_ok_iff.mpr ⟨_, _, attempt_of_ok hok, rfl⟩

end

mutual

-- The components of a declaration do not depend on the places.
theorem Declaration.map_declared_eraseSpans (scope : Key) : ∀ d : Declaration,
    (d.eraseSpans.declared scope).map (·.component) = (d.declared scope).map (·.component)
  | .scope id _ body _ => Declaration.map_declaredIn_eraseBodySpans (scope.child id) body
  | .component _ => rfl

theorem Declaration.map_declaredIn_eraseBodySpans (scope : Key) : ∀ body : List Declaration,
    (Declaration.declaredIn scope (Declaration.eraseBodySpans body)).map (·.component) =
      (Declaration.declaredIn scope body).map (·.component)
  | [] => rfl
  | d :: rest => by
      simp only [Declaration.eraseBodySpans, Declaration.declaredIn, List.map_append,
        Declaration.map_declared_eraseSpans scope d,
        Declaration.map_declaredIn_eraseBodySpans scope rest]

end

theorem map_declared_of_eraseSpans {t t' : FileTree} (h : t'.eraseSpans = t.eraseSpans) :
    t'.declared.map (·.component) = t.declared.map (·.component) := by
  calc
    _ = t'.eraseSpans.declared.map (·.component) :=
      (Declaration.map_declaredIn_eraseBodySpans .empty t'.declarations).symm
    _ = t.eraseSpans.declared.map (·.component) := by rw [h]
    _ = t.declared.map (·.component) :=
      Declaration.map_declaredIn_eraseBodySpans .empty t.declarations

def longNumber : Key :=
  ⟨List.replicate (maxIntegerDigits + 1) (.scalar '1')⟩

def fadingCard : Card where
  id := "a"
  label := "A"
  decaysTo := some longNumber

def demandingRecipe : Recipe where
  id := "r"
  label := "R"
  verb := "v"
  requirements := [⟨.basic, "a", .element longNumber⟩]

def longTree : FileTree where
  file := "long"
  attributes := []
  declarations := [.component ⟨"a", [], .card fadingCard, none, default⟩,
    .component ⟨"r", [], .recipe demandingRecipe, none, default⟩]

theorem forall_mem_longNumber {P : CodePoint → Prop} (h : P (.scalar '1')) :
    ∀ p ∈ longNumber.text, P p := by
  intro p hp
  rwa [List.eq_of_mem_replicate hp]

theorem isDigits_longNumber : longNumber.IsDigits :=
  ⟨List.cons_ne_nil _ _, forall_mem_longNumber rfl⟩

theorem valid_longNumber : longNumber.Valid :=
  ⟨List.cons_ne_nil _ _, forall_mem_longNumber rfl⟩

theorem not_isSignedNumber_longNumber : ¬ longNumber.IsSignedNumber := by
  rintro (⟨-, -, hlength⟩ | ⟨hminus, -⟩)
  · rw [longNumber, List.length_replicate] at hlength
    exact absurd hlength (Nat.not_succ_le_self _)
  · cases hminus

theorem valid_fadingCard {limit : Nat} : fadingCard.Valid limit where
  id := by decide
  induces := nofun
  decaysTo := fun _ h => by
    cases h
    exact ⟨valid_longNumber, fun h => not_isSignedNumber_longNumber (.inl h)⟩
  aspects := ⟨List.nodup_nil, nofun, nofun⟩
  lifetime := nofun
  notBoth := nofun
  group := nofun
  slotVerbs := List.nodup_nil
  slotVerb := nofun
  slotLists := nofun
  slots := nofun
  xtriggers := nofun
  others := .nil _

theorem valid_demandingRecipe {limit : Nat} : demandingRecipe.Valid limit where
  id := by decide
  verb := by decide
  warmup := by decide
  maxExecutions := by decide
  requirements := List.forall_mem_singleton.mpr
    ⟨by decide, valid_longNumber, not_isSignedNumber_longNumber⟩
  quantities := fun q _ => by cases q <;> exact ⟨List.nodup_nil, nofun, nofun⟩
  mutations := nofun
  ending := nofun
  slot := nofun
  branches := nofun
  others := .nil _

theorem valid_longTree : longTree.Valid defaultLimit where
  depth := by decide
  attributes := nofun
  declarations := List.forall_mem_cons.mpr ⟨.component ⟨rfl, nofun, nofun, valid_fadingCard⟩,
    List.forall_mem_singleton.mpr (.component ⟨rfl, nofun, nofun, valid_demandingRecipe⟩)⟩

-- The text of the tree is read, and its components come back.
theorem exists_longTree : ∃ f t card recipe,
    ParsedFile.ofSource longTree.file longTree.print = .ok f ∧ f.tree? = some t ∧
      t.declared = [card, recipe] ∧ card.component = .card fadingCard ∧
        recipe.component = .recipe demandingRecipe := by
  obtain ⟨t, hread, herase⟩ :=
    readFrom_written valid_longTree (written_render valid_longTree.writable)
  have hcomponents : t.declared.map (·.component) =
      [.card fadingCard, .recipe demandingRecipe] := map_declared_of_eraseSpans herase
  obtain ⟨card, rest, hdeclared, hcard, hrest⟩ := List.map_eq_cons_iff.mp hcomponents
  obtain ⟨recipe, rfl, hrecipe⟩ := List.map_eq_singleton_iff.mp hrest
  exact ⟨_, t, card, recipe, hread, rfl, hdeclared, hcard, hrecipe⟩

-- In a file that is read, a number stands for a name only if it has too many digits. With no more
-- digits than can be read, a number behind the arrow of a card is a lifetime, and one behind the
-- colon of a requirement is an amount.
theorem number_named_only_if_too_long {file : String} {source : List Char} {limit : Nat}
    {f : ParsedFile} {t : FileTree} (h : ParsedFile.ofSource file source limit = .ok f)
    (ht : f.tree? = some t) :
    (∀ d ∈ t.declared, ∀ key, d.component.NamesNumber key → maxIntegerDigits < key.digitCount) ∧
    (∀ ctx s crossed s', Parser.skipTrivia ctx s = .ok crossed s' →
      (Key.ofChars (keyChars s'.rest)).IsNumber →
        ∃ next, Parser.cardDecay ctx s =
          .ok (none, some ↑(decimalValue (keyChars s'.rest))) next) ∧
    ∀ kind ctx s element s₁ s₂ crossed s', Parser.key ctx s = .ok element s₁ →
      Parser.symbol ":" ctx s₁ = .ok () s₂ → Parser.skipTrivia ctx s₂ = .ok crossed s' →
        (Key.ofChars (keyChars s'.rest)).IsSignedNumber →
          ∃ n next, Parser.requirementBody kind ctx s = .ok ⟨kind, element, .number n⟩ next := by
  refine ⟨fun d hd key hkey => ?_, fun _ _ _ _ => cardDecay_number,
    fun _ _ _ _ _ _ _ _ => requirementBody_number⟩
  have hwellFormed : ∀ t' ∈ [t], t'.WellFormed :=
    List.forall_mem_singleton.mpr (wellFormed_of_ofSource h ht)
  have hmem : d ∈ declared [t] := List.mem_flatMap.mpr ⟨t, List.mem_cons_self, hd⟩
  exact (wellBuilt_of_mem_declared hwellFormed hmem).lt_digitCount hkey

theorem number_named_only_if_too_long_longTree :
    (∃ f t d, ParsedFile.ofSource longTree.file longTree.print = .ok f ∧ f.tree? = some t ∧
      d ∈ t.declared ∧ d.component.NamesNumber longNumber ∧
        maxIntegerDigits < longNumber.digitCount) ∧
    (∃ next, Parser.cardDecay (.ofSource "a" "60 \x7b".toList) (.ofSource "60 \x7b".toList) =
      .ok (none, some 60) next) ∧
    ∃ n next, Parser.requirementBody .table (.ofSource "a" "b:-3".toList)
      (.ofSource "b:-3".toList) = .ok ⟨.table, "b", .number n⟩ next := by
  obtain ⟨f, t, card, recipe, hf, ht, hdeclared, hcard, -⟩ := exists_longTree
  obtain ⟨hlong, hlifetime, hamount⟩ := number_named_only_if_too_long hf ht
  have hmem : card ∈ t.declared := hdeclared ▸ List.mem_cons_self
  have hnames : card.component.NamesNumber longNumber := hcard ▸ .decay rfl isDigits_longNumber
  refine ⟨⟨f, t, card, hf, ht, hmem, hnames, hlong card hmem longNumber hnames⟩, ?_, ?_⟩
  · exact hlifetime _ _ false (.ofSource "60 \x7b".toList) rfl (by decide)
  · exact hamount _ _ _ _ _ _ false ((State.ofSource "b:-3".toList).advance 2) rfl rfl rfl
      (by decide)

-- With one digit more than can be read, a number is what a card decays to, and what a requirement
-- is measured by.
theorem long_number_read_as_name : ∃ f t card recipe,
    ParsedFile.ofSource longTree.file longTree.print = .ok f ∧ f.tree? = some t ∧
      t.declared = [card, recipe] ∧ card.component.NamesNumber longNumber ∧
        recipe.component.NamesNumber longNumber := by
  obtain ⟨f, t, card, recipe, hf, ht, hdeclared, hcard, hrecipe⟩ := exists_longTree
  refine ⟨f, t, card, recipe, hf, ht, hdeclared, ?_, ?_⟩
  · exact hcard ▸ .decay rfl isDigits_longNumber
  · exact hrecipe ▸ .requirement List.mem_cons_self rfl (.inl isDigits_longNumber)

end CardLore
