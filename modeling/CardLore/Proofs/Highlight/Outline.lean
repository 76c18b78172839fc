import CardLore.Proofs.Highlight.Regular

namespace CardLore.Highlight

-- What the outline of a text shows: its words outside of attributes, the number signs that open no
-- attribute, and the characters of comments inside of attributes that would end the attribute or
-- start a string if they stood outside of the comment.
inductive Feature where
  | word (cs : List Char)
  | loose
  | buried
deriving DecidableEq, Repr

-- What a character of the text lies in. A comment opens with two characters.
inductive Place where
  | text
  | word
  | lineComment
  | opening
  | blockComment
  | string
  | escape
deriving DecidableEq, Repr

-- Besides, a character lies inside of an attribute or outside.
structure Spot where
  place : Place
  inside : Bool
deriving DecidableEq, Repr

def opensAttribute : List Char → Bool
  | '[' :: _ => true
  | '!' :: '[' :: _ => true
  | _ => false

def startsWord : List Char → Bool
  | [] => false
  | c :: rest => isWordChar c && !startsArrow (c :: rest)

-- The word at the front of a text.
def wordChars : List Char → List Char
  | [] => []
  | c :: rest => if startsWord (c :: rest) then c :: wordChars rest else []

namespace Spot

def feature? (s : Spot) (c : Char) (rest : List Char) : Option Feature :=
  match s.place with
  | .string | .escape => none
  | .lineComment | .opening | .blockComment =>
    if s.inside && (c == ']' || c == '"') then some .buried else none
  | .text | .word =>
    if s.inside then none
    else if c = '#' ∧ opensAttribute rest = false then some .loose
    else if s.place = .text ∧ startsWord (c :: rest) = true then
      some (.word (wordChars (c :: rest)))
    else none

def next (s : Spot) (c : Char) (rest : List Char) : Spot :=
  match s.place with
  | .lineComment => if Trivia.isLineEnd c then { s with place := .text } else s
  | .opening => { s with place := .blockComment }
  | .blockComment => if c = '*' ∧ rest.head? = some ')' then { s with place := .text } else s
  | .string =>
    if c = '"' then { s with place := .text }
    else if c = '\\' then { s with place := .escape }
    else s
  | .escape => { s with place := .string }
  | .text | .word =>
    if c = '/' ∧ rest.head? = some '/' then { s with place := .lineComment }
    else if c = '(' ∧ rest.head? = some '*' then { s with place := .opening }
    else if c = '"' then { s with place := .string }
    else if s.inside then ⟨.text, c != ']'⟩
    else if startsWord (c :: rest) then ⟨.word, false⟩
    else ⟨.text, c == '#' && opensAttribute rest⟩

end Spot

def outline (s : Spot) : List Char → List Feature
  | [] => []
  | c :: rest => (s.feature? c rest).toList ++ outline (s.next c rest) rest

def features (source : List Char) : List Feature :=
  outline ⟨.text, false⟩ (prepare source)

-- What of a comment is of interest.
def buriedIn (inside : Bool) (cs : List Char) : List Feature :=
  cs.flatMap fun c => if inside && (c == ']' || c == '"') then [.buried] else []

variable {cs rest w : List Char} {inside : Bool}

theorem ne_of_buried_notMem (h : .buried ∉ buriedIn true cs) : ∀ c ∈ cs, c ≠ ']' ∧ c ≠ '"' := by
  intro c hc
  refine ⟨?_, ?_⟩ <;>
  · rintro rfl
    exact h (List.mem_flatMap.mpr ⟨_, hc, List.mem_cons_self⟩)

theorem buriedIn_eq_nil (h : ∀ c ∈ cs, c ≠ ']' ∧ c ≠ '"') : buriedIn inside cs = [] := by
  refine List.flatMap_eq_nil_iff.mpr fun c hc => ?_
  simp [h c hc]

theorem buriedIn_outside (cs : List Char) : buriedIn false cs = [] :=
  List.flatMap_eq_nil_iff.mpr fun _ _ => rfl

theorem buriedIn_cons (inside : Bool) (c : Char) (cs : List Char) :
    buriedIn inside (c :: cs) = buriedIn inside [c] ++ buriedIn inside cs := by
  rw [← List.singleton_append, buriedIn, List.flatMap_append]
  rfl

-- The two kinds of comments.
theorem outline_comment {place : Place} (h : place = .lineComment ∨ place = .blockComment)
    (inside : Bool) (c : Char) (rest : List Char) :
    outline ⟨place, inside⟩ (c :: rest) =
      buriedIn inside [c] ++ outline (Spot.next ⟨place, inside⟩ c rest) rest := by
  have hfeature : Spot.feature? ⟨place, inside⟩ c rest =
      if inside && (c == ']' || c == '"') then some .buried else none := by
    rcases h with rfl | rfl <;> rfl
  rw [outline, buriedIn, List.flatMap_singleton, hfeature]
  split_ifs <;> rfl

theorem outline_lineComment (inside : Bool) (cs : List Char) :
    ∃ front, cs = front ++ cs.dropWhile (fun c => !Trivia.isLineEnd c) ∧
      outline ⟨.lineComment, inside⟩ cs = buriedIn inside front ++
        outline ⟨.text, inside⟩ (cs.dropWhile fun c => !Trivia.isLineEnd c) := by
  induction cs with
  | nil => exact ⟨[], rfl, rfl⟩
  | cons c cs ih =>
      by_cases hline : Trivia.isLineEnd c = true
      · rw [List.dropWhile_cons_of_neg (by simp [hline])]
        refine ⟨[], rfl, ?_⟩
        rcases (isLineEnd_iff c).mp hline with rfl | rfl <;> cases inside <;> rfl
      · obtain ⟨front, hfront, hcs⟩ := ih
        rw [List.dropWhile_cons_of_pos (by simp [hline])]
        refine ⟨c :: front, congrArg (c :: ·) hfront, ?_⟩
        rw [outline_comment (.inl rfl), Spot.next, if_neg hline, hcs,
          buriedIn_cons inside c front, List.append_assoc]

theorem outline_blockComment (inside : Bool) (h : afterComment? cs = some rest) :
    ∃ front, cs = front ++ rest ∧ outline ⟨.blockComment, inside⟩ cs =
      buriedIn inside front ++ outline ⟨.text, inside⟩ rest := by
  induction cs with
  | nil => cases h
  | cons c cs ih =>
      rw [afterComment?_cons] at h
      split_ifs at h with hclose
      · obtain ⟨tail, rfl⟩ := List.head?_eq_some_iff.mp hclose.2
        cases h
        refine ⟨[c, ')'], rfl, ?_⟩
        rw [hclose.1]
        cases inside <;> rfl
      · obtain ⟨front, rfl, hcs⟩ := ih h
        refine ⟨c :: front, rfl, ?_⟩
        rw [outline_comment (.inr rfl), Spot.next, if_neg hclose, hcs,
          buriedIn_cons inside c front, List.append_assoc]

theorem outline_trivia (inside : Bool) (h : TriviaPiece cs rest) :
    ∃ front, cs = front ++ rest ∧
      outline ⟨.text, inside⟩ cs = buriedIn inside front ++ outline ⟨.text, inside⟩ rest := by
  cases h with
  | @blank c _ hc =>
      refine ⟨[c], rfl, ?_⟩
      simp only [List.mem_cons, List.not_mem_nil, or_false] at hc
      rcases hc with rfl | rfl | rfl | rfl <;> cases inside <;> rfl
  | @lineComment cs =>
      obtain ⟨front, hfront, hcs⟩ := outline_lineComment inside cs
      refine ⟨'/' :: '/' :: front, congrArg ('/' :: '/' :: ·) hfront, ?_⟩
      cases inside <;> exact hcs
  | blockComment hcs =>
      obtain ⟨front, rfl, hcs⟩ := outline_blockComment inside hcs
      refine ⟨'(' :: '*' :: front, rfl, ?_⟩
      cases inside <;> exact hcs

theorem outline_raw {c : Char} (hquote : c ≠ '"') (hslash : c ≠ '\\') (inside : Bool)
    (rest : List Char) :
    outline ⟨.string, inside⟩ (c :: rest) = outline ⟨.string, inside⟩ rest := by
  have hnext : Spot.next ⟨.string, inside⟩ c rest = ⟨.string, inside⟩ :=
    (if_neg hquote).trans (if_neg hslash)
  rw [outline, hnext]
  rfl

theorem outline_string {body : List Char} {t : Text} (h : StringBody body t) (inside : Bool)
    (rest : List Char) :
    outline ⟨.string, inside⟩ (body ++ '"' :: rest) = outline ⟨.text, inside⟩ rest := by
  induction h with
  | nil => rfl
  | raw hquote hslash _ ih => exact (outline_raw hquote hslash inside _).trans ih
  | short _ _ ih => exact ih
  | @numbered a b c d _ _ _ _ cs _ ha hb hc hd _ ih =>
      have hplain : (hexDigits.all fun p => p.1 != '"' && p.1 != '\\') = true := by decide
      have hdigit {d : Char} {n : Nat} (hd : (d, n) ∈ hexDigits) (rest : List Char) :
          outline ⟨.string, inside⟩ (d :: rest) = outline ⟨.string, inside⟩ rest := by
        have hne : d ≠ '"' ∧ d ≠ '\\' := by simpa using List.all_eq_true.mp hplain _ hd
        exact outline_raw hne.1 hne.2 inside rest
      calc outline ⟨.string, inside⟩ ('\\' :: 'u' :: a :: b :: c :: d :: cs ++ '"' :: rest)
        _ = outline ⟨.string, inside⟩ (a :: b :: c :: d :: (cs ++ '"' :: rest)) := rfl
        _ = outline ⟨.string, inside⟩ (cs ++ '"' :: rest) := by
          rw [hdigit ha, hdigit hb, hdigit hc, hdigit hd]
        _ = outline ⟨.text, inside⟩ rest := ih

theorem outline_quoted {body : List Char} {t : Text} (h : StringBody body t) (inside : Bool)
    (rest : List Char) :
    outline ⟨.text, inside⟩ ('"' :: (body ++ '"' :: rest)) = outline ⟨.text, inside⟩ rest := by
  cases inside <;> exact outline_string h _ rest

theorem ne_of_isWordChar {c d : Char} (hc : isWordChar c = true) (hd : isWordChar d = false) :
    c ≠ d := by
  rintro rfl
  rw [hc] at hd
  cases hd

theorem next_word {place : Place} (hplace : place = .text ∨ place = .word) {c : Char}
    (hc : isWordChar c = true) (inside : Bool) (rest : List Char) :
    Spot.next ⟨place, inside⟩ c rest =
      if inside then ⟨.text, true⟩
      else if startsWord (c :: rest) then ⟨.word, false⟩ else ⟨.text, false⟩ := by
  have hslash := ne_of_isWordChar hc (d := '/') rfl
  have hparen := ne_of_isWordChar hc (d := '(') rfl
  have hquote := ne_of_isWordChar hc (d := '"') rfl
  have hbracket : (c != ']') = true := bne_iff_ne.mpr (ne_of_isWordChar hc rfl)
  have hhash : (c == '#') = false := beq_false_of_ne (ne_of_isWordChar hc rfl)
  rcases hplace with rfl | rfl <;> simp [Spot.next, hslash, hparen, hquote, hbracket, hhash]

theorem outline_word_inside (hw : ∀ c ∈ w, isWordChar c = true) (rest : List Char) :
    outline ⟨.text, true⟩ (w ++ rest) = outline ⟨.text, true⟩ rest := by
  induction w with
  | nil => rfl
  | cons c w ih =>
      obtain ⟨hc, hw⟩ := List.forall_mem_cons.mp hw
      rw [List.cons_append, outline, next_word (.inl rfl) hc]
      exact ih hw

theorem startsWord_append {c : Char} (hc : isWordChar c = true) (hw : ∀ c ∈ w, isWordChar c = true)
    (hrest : Stops rest) : startsWord (c :: (w ++ rest)) = true := by
  have hnext : (w ++ rest).head? ≠ some '>' := by
    cases w with
    | nil =>
        cases hrest with
        | nil => nofun
        | arrow => nofun
        | char hd =>
            rintro ⟨⟩
            exact absurd hd (by decide)
    | cons d w =>
        rintro ⟨⟩
        exact absurd (hw _ List.mem_cons_self) (by decide)
  have harrow : startsArrow (c :: (w ++ rest)) = false := by
    rw [startsArrow_cons, beq_false_of_ne hnext, Bool.and_false]
  rw [startsWord, hc, harrow]
  rfl

theorem not_startsWord (h : Stops cs) : startsWord cs = false := by
  cases h with
  | nil => rfl
  | arrow => rfl
  | @char c cs hc =>
      have hall : (stopChars.all fun c => !isWordChar c) = true := by decide
      have hword : isWordChar c = false := by simpa using List.all_eq_true.mp hall c hc
      rw [startsWord, hword, Bool.false_and]

theorem wordChars_append (hw : ∀ c ∈ w, isWordChar c = true) (hrest : Stops rest) :
    wordChars (w ++ rest) = w := by
  induction w with
  | nil =>
      cases rest with
      | nil => rfl
      | cons c rest =>
          rw [List.nil_append, wordChars, not_startsWord hrest, if_neg Bool.false_ne_true]
  | cons c w ih =>
      obtain ⟨hc, hw⟩ := List.forall_mem_cons.mp hw
      rw [List.cons_append, wordChars, startsWord_append hc hw hrest, if_pos rfl, ih hw]

-- Behind a word the text goes on as anywhere.
theorem outline_behind_word (hrest : Stops rest) :
    outline ⟨.word, false⟩ rest = outline ⟨.text, false⟩ rest := by
  cases rest with
  | nil => rfl
  | cons c rest =>
      have hword := not_startsWord hrest
      have hnext : Spot.next ⟨.word, false⟩ c rest = Spot.next ⟨.text, false⟩ c rest := rfl
      rw [outline, outline, hnext]
      simp [Spot.feature?, hword]

theorem outline_word (hne : w ≠ []) (hw : ∀ c ∈ w, isWordChar c = true) (hrest : Stops rest) :
    outline ⟨.text, false⟩ (w ++ rest) = .word w :: outline ⟨.text, false⟩ rest := by
  have hword : ∀ w : List Char, (∀ c ∈ w, isWordChar c = true) →
      outline ⟨.word, false⟩ (w ++ rest) = outline ⟨.word, false⟩ rest := by
    intro w hw
    induction w with
    | nil => rfl
    | cons c w ih =>
        obtain ⟨hc, hw⟩ := List.forall_mem_cons.mp hw
        have hhash := ne_of_isWordChar hc (d := '#') rfl
        rw [List.cons_append, outline, next_word (.inr rfl) hc, startsWord_append hc hw hrest,
          if_pos rfl]
        simp [Spot.feature?, hhash, ih hw]
  obtain ⟨c, w, rfl⟩ := List.exists_cons_of_ne_nil hne
  have hchars := wordChars_append hw hrest
  obtain ⟨hc, hw⟩ := List.forall_mem_cons.mp hw
  have hhash := ne_of_isWordChar hc (d := '#') rfl
  rw [List.cons_append] at hchars
  rw [List.cons_append, outline, next_word (.inl rfl) hc]
  simp [Spot.feature?, hhash, startsWord_append hc hw hrest, hchars, hword w hw,
    outline_behind_word hrest]

theorem outline_arrow (inside : Bool) (rest : List Char) :
    outline ⟨.text, inside⟩ ('-' :: '>' :: rest) = outline ⟨.text, inside⟩ rest := by
  cases inside <;> rfl

theorem next_mark {c : Char} (hc : c ∈ marks) (hrest : rest.head? ≠ some '*') (inside : Bool) :
    Spot.next ⟨.text, inside⟩ c rest =
      ⟨.text, if inside then c != ']' else c == '#' && opensAttribute rest⟩ := by
  have hopens : ¬ (c = '(' ∧ rest.head? = some '*') := fun h => hrest h.2
  have hstart : startsWord (c :: rest) = false := not_startsWord (.char (mem_stopChars_of_mark hc))
  have hall : (marks.all fun c => c != '/' && c != '"') = true := by decide
  have hne : c ≠ '/' ∧ c ≠ '"' := by simpa using List.all_eq_true.mp hall c hc
  cases inside <;> simp [Spot.next, hopens, hstart, hne]

theorem outline_mark_inside {c : Char} (hc : c ∈ marks) (hrest : rest.head? ≠ some '*') :
    outline ⟨.text, true⟩ (c :: rest) = outline ⟨.text, c != ']'⟩ rest := by
  rw [outline, next_mark hc hrest]
  rfl

theorem outline_mark {c : Char} (hc : c ∈ marks) (hrest : rest.head? ≠ some '*') :
    outline ⟨.text, false⟩ (c :: rest) =
      (if c = '#' ∧ opensAttribute rest = false then [.loose] else []) ++
        outline ⟨.text, c == '#' && opensAttribute rest⟩ rest := by
  have hstart : startsWord (c :: rest) = false := not_startsWord (.char (mem_stopChars_of_mark hc))
  rw [outline, next_mark hc hrest]
  simp only [Spot.feature?, hstart]
  split_ifs <;> simp_all

end CardLore.Highlight
