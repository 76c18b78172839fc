import CardLore.Proofs.Choice.Token
import CardLore.Statement.Parser

namespace CardLore

section

variable {α β : Type} {newlines : Bool} {heads : List Head} {C : Spot → Prop}

def quantityHeads : List Head :=
  [.word "effect", .word "aspect", .word "purge", .word "draw", .word "halt", .word "delete"]

def branchHeads : List Head :=
  [.word "link", .word "goto"]

def modifierHeads : List Head :=
  [.mark '!', .word "consume", .mark '?', .word "greedy"]

def slotHeads : List Head :=
  .word "slot" :: modifierHeads

theorem Front.of_word {w : String} (hw : .word w ∈ heads) {x y : Spot}
    (h : TakesWord newlines w x y) : Front newlines (Among heads) x := by
  obtain ⟨m, hm, hmatches⟩ := Takes.front h
  exact ⟨m, hm, .word w, hw, hmatches⟩

theorem Front.of_mark {c : Char} (hc : .mark c ∈ heads) {text : String} (htext : text.toList = [c])
    {x y : Spot} (h : TakesMark newlines text x y) : Front newlines (Among heads) x := by
  obtain ⟨m, hm, hmark⟩ := Takes.front h
  rw [htext] at hmark
  exact ⟨m, hm, .mark c, hc, head?_of_isPrefix hmark⟩

namespace Commits

-- With the span of the text, and up to the end of the statement.
theorem statement {p : Parser α} (hp : Commits newlines p C)
    (hC : ∀ {x m}, SkipsTo newlines x m → C m → C x) :
    Commits newlines (Parser.terminated (Parser.located p)) C := by
  refine left ((Expects.located hp).mono ?_ ?_)
  · rintro x _ ⟨m, hm, h⟩
    exact hC hm h
  · rintro x ⟨m, hm, h⟩
    exact hC hm h

theorem word {w : String} {f : Unit → Parser α} (hw : .word w ∈ heads) :
    Commits newlines (Parser.keyword w >>= f) (Front newlines (Among heads)) :=
  (Expects.keyword w).commits.left.mono fun _ h => .of_word hw h.choose_spec

theorem quantityWord :
    Commits newlines Parser.quantityWord (Front newlines (Among quantityHeads)) := by
  refine choice (word (by decide)) ?_
  simp only [List.forall_mem_cons]
  exact ⟨word (by decide), word (by decide), word (by decide), word (by decide), word (by decide),
    List.forall_mem_nil _⟩

theorem branchKind : Commits newlines Parser.branchKind (Front newlines (Among branchHeads)) := by
  have hgoto : Commits newlines (do Parser.keyword "goto"; return BranchKind.goto)
      (Front newlines (Among branchHeads)) := word (by decide)
  exact found (Expects.keyword "link") (fun _ _ h => .of_word (by decide) h) hgoto

end Commits

-- A modifier stands here, or what follows has to be found.
theorem Expects.modifier {c : Char} {w : String} (hc : .mark c ∈ heads) (hw : .word w ∈ heads)
    {text : String} (htext : text.toList = [c]) {f : Bool → Parser α} {R : Spot → Spot → Prop}
    {F : Spot → Prop} (hf : Expects newlines (f false) R F) :
    Expects newlines (Parser.symbolOrKeyword text w >>= f)
      (fun x y => Front newlines (Among heads) x ∨ R x y)
      fun x => Front newlines (Among heads) x ∨ F x := by
  have hword : Expects newlines (Parser.tryKeyword w >>= f)
      (fun x y => Front newlines (Among heads) x ∨ R x y)
      fun x => Front newlines (Among heads) x ∨ F x :=
    (keyword w).found (fun _ _ h => .of_word hw h) hf
  have hmark : Expects newlines (Parser.symbolOrKeyword text w >>= f)
      (fun x y => Front newlines (Among heads) x ∨ Front newlines (Among heads) x ∨ R x y)
      fun x => Front newlines (Among heads) x ∨ Front newlines (Among heads) x ∨ F x := by
    rw [Parser.symbolOrKeyword, Parser.bind_assoc]
    exact (symbol text).found (fun _ _ h => .of_mark hc htext h) hword
  refine hmark.mono (fun _ _ h => ?_) fun _ h => ?_
  · rwa [or_self_left] at h
  · rwa [or_self_left] at h

theorem Expects.modifiers (bound : Nat) :
    Expects newlines (Parser.modifiersUpTo (bound + 1))
      (fun x y => Front newlines (Among modifierHeads) x ∨ SkipsTo newlines x y)
      (Front newlines (Among modifierHeads)) := by
  have hnone : Expects newlines (Pure.pure [] : Parser (List (Parser.SlotModifier × Nat)))
      (fun x y => y = x) fun _ => False := pure
  have hconsume : .mark '!' ∈ modifierHeads ∧ .word "consume" ∈ modifierHeads := by decide
  have hgreedy : .mark '?' ∈ modifierHeads ∧ .word "greedy" ∈ modifierHeads := by decide
  refine (tokenStart.bind fun pos => modifier hconsume.1 hconsume.2 rfl
    (modifier hgreedy.1 hgreedy.2 rfl hnone)).mono ?_ ?_
  · rintro x y ⟨m, hm, h | h | rfl⟩
    · exact .inl (.of_skips hm h)
    · exact .inl (.of_skips hm h)
    · exact .inr hm
  · rintro x (h | ⟨m, hm, h | h | h⟩)
    · exact h.elim
    · exact .of_skips hm h
    · exact .of_skips hm h
    · exact h.elim

theorem Commits.slot : Commits newlines Parser.slot (Front newlines (Among slotHeads)) := by
  have hmodifiers : Expects newlines
      (fun ctx s => Parser.modifiersUpTo (s.rest.length + 1) ctx s)
      (fun x y => Front newlines (Among modifierHeads) x ∨ SkipsTo newlines x y)
      (Front newlines (Among modifierHeads)) :=
    fun ctx s => Expects.modifiers s.rest.length ctx s
  have hmodified : ∀ x, Front newlines (Among modifierHeads) x →
      Front newlines (Among slotHeads) x := by
    rintro x ⟨m, hm, h, hh, hmatches⟩
    exact ⟨m, hm, h, List.mem_cons_of_mem _ hh, hmatches⟩
  refine Expects.mono (hmodifiers.bind (S := fun x _ => Front newlines (Among slotHeads) x)
    (G := Front newlines (Among slotHeads)) fun _ => Commits.word (by decide)) ?_ ?_
  · rintro x _ ⟨y, h | hskips, hslot⟩
    · exact hmodified x h
    · exact .of_skips hskips hslot
  · rintro x (h | ⟨y, h | hskips, hslot⟩)
    · exact hmodified x h
    · exact hmodified x h
    · exact .of_skips hskips hslot

variable {w : String}

theorem KeyThen.front {x : Spot} (h : KeyThen newlines C x) : Front newlines StartsKey x := by
  obtain ⟨y, hkey, -⟩ := h
  exact Takes.front hkey

namespace Commits

theorem keyThen {p : Key → Parser α} (hp : ∀ k, Commits newlines (p k) C) :
    Commits newlines (Parser.key >>= p) (KeyThen newlines C) :=
  .next Expects.key hp

theorem wordThen {p : Unit → Parser α} (hp : Commits newlines (p ()) C) :
    Commits newlines (Parser.keyword w >>= p) (WordThen newlines w C) :=
  .next (Expects.keyword w) fun _ => hp

theorem mark {text : String} {f : Unit → Parser α} :
    Commits newlines (Parser.symbol text >>= f) (Front newlines (text.toList <+: ·)) :=
  (Expects.symbol text).commits.left.mono fun _ h => Takes.front h.choose_spec

theorem wordThenKey {f : Key → Parser α} :
    Commits newlines (Parser.keyword w >>= fun _ => Parser.key >>= f)
      (WordThen newlines w (Front newlines StartsKey)) :=
  wordThen ((keyThen fun _ => any _).mono fun _ => KeyThen.front)

end Commits

-- The name of a card, or the end of the statement.
def Continues (cs : List Char) : Prop :=
  StartsKey cs ∨ Parser.endsStatement cs = true

theorem Commits.uniqueStatement :
    Commits false (Parser.terminated (Parser.located Parser.uniqueClause))
      (WordThen false "unique" (Front false Continues)) := by
  have hunique : Expects false Parser.uniqueClause
      (Relation.Comp (TakesWord false "unique") fun y z => TakesKey false y z ∨ z = y)
      fun _ => False :=
    (Expects.keyword "unique").next fun _ => Expects.key.attempt.returns fun _ => ⟨_, rfl⟩
  refine hunique.located.terminated.mono ?_ ?_
  · rintro x _ ⟨z, ⟨m, hm, y, hword, hz⟩, hover⟩
    refine .of_skips hm ⟨y, hword, ?_⟩
    rcases hz with hkey | rfl
    · exact (Takes.front hkey).imp fun _ => .inl
    · exact hover.imp fun _ => .inr
  · rintro x ⟨m, -, h⟩
    exact h.elim

-- A description, or the end of the statement.
def Describes (cs : List Char) : Prop :=
  cs.head? = some '"' ∨ Parser.endsStatement cs = true

theorem Commits.deckCardStatement (isDefault : Bool) :
    Commits false (Parser.terminated (Parser.located (Parser.deckCard isDefault)))
      (KeyThen false (Front false Describes)) := by
  have hcard : Expects false (Parser.deckCard isDefault)
      (Relation.Comp (TakesKey false)
        fun y z => Front false (fun cs => cs.head? = some '"') y ∨ z = y)
      fun _ => False :=
    Expects.key.next fun _ => Expects.string.attempt.returns fun _ => ⟨_, rfl⟩
  refine hcard.located.terminated.mono ?_ ?_
  · rintro x _ ⟨z, ⟨m, hm, y, hkey, hz⟩, hover⟩
    refine .of_skips hm ⟨y, hkey, ?_⟩
    rcases hz with hquote | rfl
    · exact hquote.imp fun _ => .inl
    · exact hover.imp fun _ => .inr
  · rintro x ⟨m, -, h⟩
    exact h.elim

end

end CardLore
