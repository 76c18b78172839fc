import CardLore.Proofs.Grammar.Complete

namespace CardLore

-- The text is trivia, a literal and a rest that does not go on with the literal.
structure Splits (text lead body : List Char) (v : Literal) (rest : List Char) : Prop where
  text_eq : text = lead ++ (body ++ rest)
  trivia : IsTrivia lead
  derives : Derives body v
  ends : EndsBefore v rest

-- An object in the text repeats a name, and all that stands before the name is complete. The
-- refusal is of that name, at its place.
inductive RepeatsName (file : String) (text : List Char) : Refusal → Prop
  | mk {front cs after : List Char} {name : Text} (htext : text = front ++ (cs ++ after))
      (h : Repeats front cs name after) :
      RepeatsName file text ⟨.repeatedMember name,
        (LineIndex.ofChars text).span file front.length (front.length + cs.length)⟩

def opensBracket (c : Char) : Bool :=
  c = '[' || c = '{'

theorem Enters.countP_pos {lead inner : List Char} (h : Enters lead inner) :
    0 < lead.countP opensBracket := by
  cases h <;> simp [List.countP_append, opensBracket]

-- Where literals nest `n` times, `n` brackets open.
theorem le_countP_of_nestsTo {n : Nat} {text : List Char} (h : NestsTo n text) :
    n ≤ text.countP opensBracket := by
  induction n generalizing text with
  | zero => exact Nat.zero_le _
  | succ n ih =>
      obtain ⟨lead, inner, rfl, henters, hinner⟩ := h
      have hlead := henters.countP_pos
      have hrest := ih hinner
      rw [List.countP_append]
      omega

section

variable {file : String} {text : List Char} {limit : Nat}

-- The three ways in which a reading ends, each with what is known of it.
theorem read_cases {P : Literal → State → Prop} {M : Prop} {F : Fault → Prop}
    (h : (Parser.literal (.ofSource file text limit) (.ofSource text)).Sat P M F) :
    (∃ v t, Literal.read text file limit = .value v t.rest ∧ P v t) ∨
      (∃ pos expected, Literal.read text file limit = .mismatch pos expected ∧ M) ∨
      ∃ cause, Literal.read text file limit = .fault cause ∧ F cause := by
  rw [Literal.read]
  cases hreply : Parser.literal (.ofSource file text limit) (.ofSource text) with
  | ok v t =>
      rw [hreply] at h
      exact .inl ⟨v, t, rfl, h⟩
  | mismatch pos expected =>
      rw [hreply] at h
      exact .inr (.inl ⟨pos, expected, rfl, h⟩)
  | fault cause =>
      rw [hreply] at h
      exact .inr (.inr ⟨cause, rfl, h⟩)

theorem read_sound (text : List Char) (file : String) (limit : Nat) :
    (∃ lead body v rest, Literal.read text file limit = .value v rest ∧ Splits text lead body v rest) ∨
      (∃ pos expected, Literal.read text file limit = .mismatch pos expected) ∨
      (Literal.read text file limit = .fault .tooDeep ∧ NestsTo limit text) ∨
      ∃ r, Literal.read text file limit = .fault (.refused r) ∧ RepeatsName file text r := by
  rcases read_cases (literalWithin_sound limit (.ofSource file text limit) (.ofSource text)) with
    ⟨v, t, hread, item, ⟨hlead, hbody⟩, htakes, hends⟩ | ⟨pos, expected, hread, -⟩ |
    ⟨cause, hread, ⟨rfl, hdeep⟩ | ⟨front, cs, name, after, hrepeats, htext, rfl⟩⟩
  · refine .inl ⟨_, _, v, t.rest, hread, ?_, hlead, hbody, hends⟩
    exact htakes.1.trans (List.append_assoc _ _ _)
  · exact .inr (.inl ⟨pos, expected, hread⟩)
  · exact .inr (.inr (.inl ⟨hread, hdeep⟩))
  · have hstart : (State.ofSource text).pos + front.length = front.length := Nat.zero_add _
    rw [hstart] at hread
    exact .inr (.inr (.inr ⟨_, hread, .mk htext hrepeats⟩))

theorem read_of_nestsTo (h : NestsTo limit text) :
    Literal.read text file limit = .fault .tooDeep := by
  have hstops : (Parser.literal (.ofSource file text limit) (.ofSource text)).Sat (fun _ _ => False) False
      (· = .tooDeep) := (literalWithin_complete limit).stops h
  rcases read_cases hstops with ⟨_, _, _, h⟩ | ⟨_, _, _, h⟩ | ⟨_, hread, rfl⟩
  · exact h.elim
  · exact h.elim
  · exact hread

-- The limit on nesting is met exactly where literals nest that deep.
theorem read_tooDeep_iff :
    Literal.read text file limit = .fault .tooDeep ↔ NestsTo limit text := by
  refine ⟨fun h => ?_, read_of_nestsTo⟩
  rcases read_sound text file limit with
    ⟨_, _, _, _, hread, -⟩ | ⟨_, _, hread⟩ | ⟨-, hdeep⟩ | ⟨_, hread, -⟩
  case inr.inr.inl => exact hdeep
  all_goals cases h.symm.trans hread

theorem literal_refuses {front cs after : List Char} {name : Text} (h : Repeats front cs name after)
    (htext : text = front ++ (cs ++ after)) :
    (Parser.literal (.ofSource file text limit) (.ofSource text)).Sat (fun _ _ => False) False
      fun cause => cause = .tooDeep ∨ cause = .refused ⟨.repeatedMember name,
        (LineIndex.ofChars text).span file front.length (front.length + cs.length)⟩ := by
  have hrefuses : (Parser.literal (.ofSource file text limit) (.ofSource text)).Sat _ _ _ :=
    (literalWithin_complete limit).refuses h htext
  rwa [State.ofSource, Nat.zero_add] at hrefuses

theorem splits_of_read {v : Literal} {rest : List Char}
    (h : Literal.read text file limit = .value v rest) : ∃ lead body, Splits text lead body v rest := by
  rcases read_sound text file limit with ⟨lead, body, _, _, hread, hsplits⟩ | ⟨_, _, hread⟩ |
    ⟨hread, -⟩ | ⟨_, hread, -⟩
  · cases h.symm.trans hread
    exact ⟨lead, body, hsplits⟩
  all_goals cases h.symm.trans hread

variable (hdepth : ¬ NestsTo limit text)

include hdepth

theorem read_of_splits {lead body rest : List Char} {v : Literal}
    (h : Splits text lead body v rest) : Literal.read text file limit = .value v rest := by
  have haccepts : (Parser.literal (.ofSource file text limit) (.ofSource text)).Sat
      (fun v' t => v' = v ∧ (State.ofSource text).Takes (lead ++ body) t) False (· = .tooDeep) :=
    (literalWithin_complete limit).accepts h.trivia h.derives h.ends h.text_eq
  rcases read_cases haccepts with ⟨_, t, hread, rfl, htakes⟩ | ⟨_, _, _, h⟩ | ⟨_, hread, rfl⟩
  · rwa [htakes.rest_eq (h.text_eq.trans (List.append_assoc _ _ _).symm)] at hread
  · exact h.elim
  · exact absurd (read_tooDeep_iff.mp hread) hdepth

theorem read_of_repeats {r : Refusal} (h : RepeatsName file text r) :
    Literal.read text file limit = .fault (.refused r) := by
  obtain ⟨htext, hrepeats⟩ := h
  rcases read_cases (literal_refuses hrepeats htext) with ⟨_, _, _, h⟩ | ⟨_, _, _, h⟩ |
    ⟨_, hread, rfl | rfl⟩
  · exact h.elim
  · exact h.elim
  · exact absurd (read_tooDeep_iff.mp hread) hdepth
  · exact hread

theorem repeats_of_read {cause : Fault} (h : Literal.read text file limit = .fault cause) :
    ∃ r, cause = .refused r ∧ RepeatsName file text r := by
  rcases read_sound text file limit with ⟨_, _, _, _, hread, -⟩ | ⟨_, _, hread⟩ | ⟨-, hdeep⟩ |
    ⟨r, hread, hrepeats⟩
  · cases h.symm.trans hread
  · cases h.symm.trans hread
  · exact absurd hdeep hdepth
  · cases h.symm.trans hread
    exact ⟨r, rfl, hrepeats⟩

-- A text splits in one way only: the reading gives value and rest, and trivia ends where a literal
-- starts.
theorem Splits.unique {lead body rest lead' body' rest' : List Char} {v v' : Literal}
    (h : Splits text lead body v rest) (h' : Splits text lead' body' v' rest') :
    lead = lead' ∧ body = body' ∧ v = v' ∧ rest = rest' := by
  have hread : Literal.read text "" limit = .value v rest := read_of_splits hdepth h
  rw [read_of_splits hdepth h'] at hread
  obtain ⟨rfl, rfl⟩ := Literal.Reading.value.inj hread
  obtain ⟨c, tail, hbody, hc, -⟩ := h.derives.head
  obtain ⟨c', tail', hbody', hc', -⟩ := h'.derives.head
  have heq : lead ++ (body ++ rest') = lead' ++ (body' ++ rest') := h.text_eq.symm.trans h'.text_eq
  rw [hbody, hbody'] at heq
  obtain ⟨rfl, hsame⟩ := h.trivia.unique h'.trivia hc hc' heq
  rw [hbody, hbody']
  exact ⟨rfl, List.append_cancel_right hsame, rfl, rfl⟩

end

-- Below the limit of nesting, a value is read from a text exactly if the text splits into trivia,
-- the grammar of that value and a rest, and it does so in one way at most. Besides, a name that is
-- given twice in one object is refused, at its second place, and all else is a mismatch.
theorem literal_read_iff_grammar (file : String) (text : List Char) (limit : Nat)
    (hdepth : ¬ NestsTo limit text) :
    (∀ v rest, Literal.read text file limit = .value v rest ↔
      ∃ lead body, Splits text lead body v rest) ∧
    (∀ lead body v rest lead' body' v' rest', Splits text lead body v rest →
      Splits text lead' body' v' rest' → lead = lead' ∧ body = body' ∧ v = v' ∧ rest = rest') ∧
    (∀ cause, Literal.read text file limit = .fault cause ↔
      ∃ r, cause = .refused r ∧ RepeatsName file text r) ∧
    (∀ r, RepeatsName file text r → ∃ name, r.diagnostic = .errorAt "E200"
      (Text.concat ["key '", name, "' is assigned more than once in this object"]) r.span) ∧
    ((∃ pos expected, Literal.read text file limit = .mismatch pos expected) ↔
      (∀ lead body v rest, ¬ Splits text lead body v rest) ∧ ∀ r, ¬ RepeatsName file text r) := by
  refine ⟨fun v rest => ⟨splits_of_read, ?_⟩, ?_, fun cause => ⟨repeats_of_read hdepth, ?_⟩, ?_,
    ?_, ?_⟩
  · rintro ⟨lead, body, h⟩
    exact read_of_splits hdepth h
  · intro lead body v rest lead' body' v' rest' h h'
    exact h.unique hdepth h'
  · rintro ⟨r, rfl, h⟩
    exact read_of_repeats hdepth h
  · rintro _ ⟨-, -⟩
    exact ⟨_, rfl⟩
  · rintro ⟨pos, expected, hread⟩
    refine ⟨fun lead body v rest h => ?_, fun r h => ?_⟩
    · cases hread.symm.trans (read_of_splits hdepth h)
    · cases hread.symm.trans (read_of_repeats hdepth h)
  · rintro ⟨hsplits, hrepeats⟩
    rcases read_sound text file limit with ⟨_, _, _, _, -, h⟩ | hread | ⟨-, hdeep⟩ | ⟨r, -, h⟩
    · exact absurd h (hsplits _ _ _ _)
    · exact hread
    · exact absurd hdeep hdepth
    · exact absurd h (hrepeats r)

-- An object with comments, a bare and a quoted name, and a rest that no literal goes on with.
def nestedText : List Char :=
  " (* a *) \x7b a : [ 1, -2 ], // b\n \"c\" : [ \"\\n\", null, \x7b \x7d ] \x7d-> d".toList

-- The names of the object that is read, and what is left of the text.
def Literal.Reading.names? : Literal.Reading → Option (List Text × List Char)
  | .value (.object members) rest => some (members.map (·.1), rest)
  | _ => none

theorem Literal.Reading.exists_members {reading : Literal.Reading} {names : List Text}
    {rest : List Char} (h : reading.names? = some (names, rest)) :
    ∃ members, reading = .value (.object members) rest ∧ members.map (·.1) = names := by
  cases reading with
  | value v rest =>
      cases v <;> cases h
      exact ⟨_, rfl, rfl⟩
  | mismatch => cases h
  | fault => cases h

theorem literal_read_iff_grammar_nested :
    ¬ NestsTo 5 nestedText ∧ ∃ members lead body,
      members.map (·.1) = [("a" : Text), "c"] ∧
        Splits nestedText lead body (.object members) "-> d".toList := by
  have hdepth : ¬ NestsTo 5 nestedText := by
    intro h
    exact absurd (le_countP_of_nestsTo h) (by decide)
  obtain ⟨members, hread, hnames⟩ := Literal.Reading.exists_members
    (by decide +kernel :
      (Literal.read nestedText "t" 5).names? = some ([("a" : Text), "c"], "-> d".toList))
  obtain ⟨lead, body, hsplits⟩ := ((literal_read_iff_grammar "t" nestedText 5 hdepth).1 _ _).mp hread
  exact ⟨hdepth, members, lead, body, hnames, hsplits⟩

end CardLore
