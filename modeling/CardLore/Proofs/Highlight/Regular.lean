import CardLore.Proofs.Compilation.Outcome
import CardLore.Proofs.Conduct.File
import CardLore.Proofs.Highlight.Token

namespace CardLore

namespace Highlight

-- What keys, keywords and numbers are made of. A keyword may hold the sign for kelvin.
def isWordChar (c : Char) : Bool :=
  isKeyChar c || c == '+' || c == '%' || c == '\u212a'

-- The characters behind which no word goes on.
def stopChars : List Char :=
  [' ', '\t', '\r', '\n', '/', '(', '"', '{', '}', ')', '[', ']', ',', ':', '=', '!', '?', '#']

-- No word goes on with the text: it is empty, or starts with an arrow or one of these characters.
inductive Stops : List Char → Prop
  | nil : Stops []
  | arrow {cs : List Char} : Stops ('-' :: '>' :: cs)
  | char {c : Char} {cs : List Char} (hc : c ∈ stopChars) : Stops (c :: cs)

def marks : List Char :=
  ['{', '}', '(', ')', '[', ']', ',', ':', '=', '!', '?', '#']

-- The first part of a text, and what is left behind it.
inductive Front : List Char → List Char → Prop
  | trivia {cs rest : List Char} (h : TriviaPiece cs rest) : Front cs rest
  | quoted {body rest : List Char} {t : Text} (hbody : StringBody body t) :
      Front ('"' :: (body ++ '"' :: rest)) rest
  | arrow {rest : List Char} : Front ('-' :: '>' :: rest) rest
  | mark {c : Char} {rest : List Char} (hc : c ∈ marks) (hrest : rest.head? ≠ some '*') :
      Front (c :: rest) rest
  | word {w rest : List Char} (hne : w ≠ []) (hw : ∀ c ∈ w, isWordChar c = true)
      (hrest : Stops rest) : Front (w ++ rest) rest

variable {cs rest w : List Char}

-- A property of the plain characters can be checked one by one.
theorem forall_plain {P : Char → Prop} (h : ∀ n : Fin 128, P (Char.ofNat n)) {c : Char}
    (hc : c.toNat < 128) : P c := by
  have hchar := h ⟨c.toNat, hc⟩
  rwa [Char.ofNat_toNat] at hchar

theorem isWordChar_of_lowers {c d : Char} (h : Lowers c d) (hd : d.isLower = true) :
    isWordChar c = true := by
  rcases h with ⟨hlt, rfl⟩ | ⟨rfl, -⟩
  · exact forall_plain (P := fun c => c.toLower.isLower = true → isWordChar c = true)
      (by decide) hlt hd
  · decide

theorem isWordChar_of_token {token : List Char} (h : IsToken token) :
    (∀ c ∈ token, isWordChar c = true) ∨ (∃ text ∈ symbols, token = text.toList) ∨
      ∃ body t, StringBody body t ∧ token = '"' :: (body ++ ['"']) := by
  cases h with
  | @symbol text htext =>
      rcases List.mem_cons.mp htext with rfl | htext
      · exact .inl (List.all_eq_true.mp (by decide))
      · exact .inr (.inl ⟨text, htext, rfl⟩)
  | @keyword word _ hword h =>
      refine .inl fun c hc => ?_
      obtain ⟨d, hd, hlowers⟩ := exists_mem_of_forall₂ h.flip hc
      exact isWordChar_of_lowers hlowers (isLower_of_mem_keyword hword hd)
  | word _ hcs =>
      refine .inl fun c hc => ?_
      rcases hcs c hc with hkey | rfl
      · simp [isWordChar, hkey]
      · decide
  | quoted hbody => exact .inr (.inr ⟨_, _, hbody, rfl⟩)

-- A symbol is an arrow or made of marks.
theorem toList_of_mem_symbols {text : String} (h : text ∈ symbols) :
    text.toList = ['-', '>'] ∨ text.toList = ['#', '!'] ∨ ∃ c ∈ marks, text.toList = [c] := by
  have hall : (symbols.all fun text => text.toList == ['-', '>'] || text.toList == ['#', '!'] ||
      marks.any fun c => text.toList == [c]) = true := by decide
  simpa [or_assoc] using List.all_eq_true.mp hall text h

theorem mem_stopChars_of_mark {c : Char} (h : c ∈ marks) : c ∈ stopChars := by
  have hall : (marks.all fun c => stopChars.elem c) = true := by decide
  exact List.elem_iff.mp (List.all_eq_true.mp hall c h)

theorem stops_symbol {text : String} (h : text ∈ symbols) : Stops (text.toList ++ rest) := by
  rcases toList_of_mem_symbols h with heq | heq | ⟨c, hc, heq⟩ <;> rw [heq]
  · exact .arrow
  · exact .char (mem_stopChars_of_mark (by decide))
  · exact .char (mem_stopChars_of_mark hc)

theorem mem_stopChars_of_blank {c : Char} (h : c ∈ [' ', '\t', '\r', '\n']) : c ∈ stopChars := by
  simp only [List.mem_cons, List.not_mem_nil, or_false] at h
  rcases h with rfl | rfl | rfl | rfl <;> decide

-- A word, which may be empty, is as long as it gets.
theorem exists_word (h : Moves cs []) : ∃ w rest, cs = w ++ rest ∧
    (∀ c ∈ w, isWordChar c = true) ∧ Stops rest ∧ Moves rest [] := by
  induction h using Relation.ReflTransGen.head_induction_on with
  | refl => exact ⟨[], [], rfl, List.forall_mem_nil _, .nil, .refl⟩
  | @head cs mid hpiece hmid ih =>
      cases hpiece with
      | trivia htrivia =>
          refine ⟨[], cs, rfl, List.forall_mem_nil _, ?_, .head (.trivia htrivia) hmid⟩
          cases htrivia with
          | blank hc => exact .char (mem_stopChars_of_blank hc)
          | lineComment => exact .char (by decide)
          | blockComment => exact .char (by decide)
      | @token token _ htoken =>
          rcases isWordChar_of_token htoken with hword | ⟨text, htext, rfl⟩ | ⟨body, t, hbody, rfl⟩
          · obtain ⟨w, rest, rfl, hw, hrest, hmoves⟩ := ih
            refine ⟨token ++ w, rest, (List.append_assoc ..).symm, ?_, hrest, hmoves⟩
            exact List.forall_mem_append.mpr ⟨hword, hw⟩
          · refine ⟨[], _, rfl, List.forall_mem_nil _, stops_symbol htext, ?_⟩
            exact .head (.token htoken) hmid
          · exact ⟨[], _, rfl, List.forall_mem_nil _, .char (by decide), .head (.token htoken) hmid⟩

-- A text starts with the character of a word, or behind no word.
theorem head_of_moves {c : Char} (h : Moves (c :: cs) []) :
    isWordChar c = true ∨ c ∈ stopChars := by
  obtain ⟨w, rest, heq, hw, hrest, -⟩ := exists_word h
  cases w with
  | nil =>
      rw [List.nil_append] at heq
      subst heq
      cases hrest with
      | arrow => exact .inl rfl
      | char hc => exact .inr hc
  | cons d w =>
      obtain ⟨rfl, -⟩ := List.cons.inj heq
      exact .inl (hw _ List.mem_cons_self)

theorem head?_ne_star (h : Moves cs []) : cs.head? ≠ some '*' := by
  intro hhead
  obtain ⟨tail, rfl⟩ := List.head?_eq_some_iff.mp hhead
  exact absurd (head_of_moves h) (by decide)

theorem exists_front (h : Moves cs []) (hne : cs ≠ []) : ∃ rest, Front cs rest ∧ Moves rest [] := by
  rcases Relation.ReflTransGen.cases_head h with rfl | ⟨mid, hpiece, hmid⟩
  · exact absurd rfl hne
  cases hpiece with
  | trivia htrivia => exact ⟨mid, .trivia htrivia, hmid⟩
  | @token token _ htoken =>
      rcases isWordChar_of_token htoken with hword | ⟨text, htext, rfl⟩ | ⟨body, t, hbody, rfl⟩
      · obtain ⟨w, rest, rfl, hw, hrest, hmoves⟩ := exists_word hmid
        refine ⟨rest, ?_, hmoves⟩
        rw [← List.append_assoc]
        refine .word ?_ (List.forall_mem_append.mpr ⟨hword, hw⟩) hrest
        obtain ⟨c, tail, rfl, -⟩ := htoken.exists_cons
        exact List.cons_ne_nil _ _
      · rcases toList_of_mem_symbols htext with heq | heq | ⟨c, hc, heq⟩ <;> rw [heq]
        · exact ⟨mid, .arrow, hmid⟩
        · have hmark : IsToken "!".toList := .symbol (by decide)
          exact ⟨'!' :: mid, .mark (by decide) nofun, .head (.token hmark) hmid⟩
        · exact ⟨mid, .mark hc (head?_ne_star hmid), hmid⟩
      · refine ⟨mid, ?_, hmid⟩
        rw [List.cons_append, List.append_assoc]
        exact .quoted hbody

theorem Front.exists_append (h : Front cs rest) : ∃ front, front ≠ [] ∧ cs = front ++ rest := by
  cases h with
  | trivia h =>
      cases h with
      | @blank c _ _ => exact ⟨[c], List.cons_ne_nil _ _, rfl⟩
      | @lineComment cs =>
          obtain ⟨inside, heq⟩ := List.dropWhile_suffix (l := cs) fun c => !Trivia.isLineEnd c
          exact ⟨'/' :: '/' :: inside, List.cons_ne_nil _ _, congrArg ('/' :: '/' :: ·) heq.symm⟩
      | blockComment hcs =>
          obtain ⟨inside, heq⟩ := afterComment?_suffix hcs
          exact ⟨'(' :: '*' :: inside, List.cons_ne_nil _ _, congrArg ('(' :: '*' :: ·) heq.symm⟩
  | @quoted body rest _ _ =>
      refine ⟨'"' :: (body ++ ['"']), List.cons_ne_nil _ _, ?_⟩
      rw [List.cons_append, List.append_assoc, List.singleton_append]
  | arrow => exact ⟨['-', '>'], List.cons_ne_nil _ _, rfl⟩
  | @mark c rest _ _ => exact ⟨[c], List.cons_ne_nil _ _, rfl⟩
  | word hne _ _ => exact ⟨_, hne, rfl⟩

end Highlight

variable {cs rest : List Char}

theorem afterComment?_cons (c : Char) (cs : List Char) :
    afterComment? (c :: cs) =
      if c = '*' ∧ cs.head? = some ')' then some cs.tail else afterComment? cs := by
  split_ifs with h
  · obtain ⟨rfl, hhead⟩ := h
    obtain ⟨tail, rfl⟩ := List.head?_eq_some_iff.mp hhead
    rw [afterComment?]
    rfl
  · rw [afterComment?]
    rintro tail rfl rfl
    exact h ⟨rfl, rfl⟩

open Text (unifyLineEnds)

theorem unifyLineEnds_cons (c : Char) (cs : List Char) :
    unifyLineEnds (c :: cs) =
      if c = '\r' then if cs.head? = some '\n' then unifyLineEnds cs else '\n' :: unifyLineEnds cs
      else c :: unifyLineEnds cs := by
  split_ifs with hc hcs
  · obtain ⟨tail, rfl⟩ := List.head?_eq_some_iff.mp hcs
    rw [hc, unifyLineEnds, Text.unifyLineEnds_of_ne (by decide)]
  · rw [unifyLineEnds.eq_3, if_pos hc]
    rintro tail - rfl
    exact hcs rfl
  · exact Text.unifyLineEnds_of_ne hc cs

theorem StringBody.unifyLineEnds {body : List Char} {t : Text} (h : StringBody body t) :
    ∃ t', StringBody (unifyLineEnds body) t' := by
  induction h with
  | nil => exact ⟨[], .nil⟩
  | @raw c cs t hquote hslash _ ih =>
      obtain ⟨t', ih⟩ := ih
      rw [unifyLineEnds_cons]
      split_ifs
      · exact ⟨t', ih⟩
      · exact ⟨_, .raw (by decide) (by decide) ih⟩
      · exact ⟨_, .raw hquote hslash ih⟩
  | @short c meaning cs t hc _ ih =>
      obtain ⟨t', ih⟩ := ih
      have hplain : (shortEscapes.all fun p => p.1 != '\r') = true := by decide
      have hne : c ≠ '\r' := by simpa using List.all_eq_true.mp hplain _ hc
      rw [Text.unifyLineEnds_of_ne (by decide), Text.unifyLineEnds_of_ne hne]
      exact ⟨_, .short hc ih⟩
  | @numbered a b c d w x y z cs t ha hb hc hd _ ih =>
      obtain ⟨t', ih⟩ := ih
      have hplain : (hexDigits.all fun p => p.1 != '\r') = true := by decide
      have hne : ∀ {c n}, (c, n) ∈ hexDigits → c ≠ '\r' := fun hmem => by
        simpa using List.all_eq_true.mp hplain _ hmem
      rw [Text.unifyLineEnds_of_ne (by decide), Text.unifyLineEnds_of_ne (by decide),
        Text.unifyLineEnds_of_ne (hne ha), Text.unifyLineEnds_of_ne (hne hb),
        Text.unifyLineEnds_of_ne (hne hc), Text.unifyLineEnds_of_ne (hne hd)]
      exact ⟨_, .numbered ha hb hc hd ih⟩

theorem head?_unifyLineEnds (cs : List Char) :
    (unifyLineEnds cs).head? = cs.head?.map fun c => if c = '\r' then '\n' else c := by
  induction cs with
  | nil => rfl
  | cons c cs ih =>
      rw [unifyLineEnds_cons]
      split_ifs with hc hcs
      · rw [ih, hcs, hc]
        rfl
      · rw [hc]
        rfl
      · simp [hc]

theorem dropWhile_unifyLineEnds (cs : List Char) :
    (unifyLineEnds cs).dropWhile (fun c => !Trivia.isLineEnd c) =
      unifyLineEnds (cs.dropWhile fun c => !Trivia.isLineEnd c) := by
  induction cs with
  | nil => rfl
  | cons c cs ih =>
      by_cases hline : Trivia.isLineEnd c = true
      · have hhead : (unifyLineEnds (c :: cs)).head? = some '\n' := by
          rw [head?_unifyLineEnds]
          rcases (isLineEnd_iff c).mp hline with rfl | rfl <;> rfl
        obtain ⟨tail, htail⟩ := List.head?_eq_some_iff.mp hhead
        rw [List.dropWhile_cons_of_neg (by simp [hline]), htail,
          List.dropWhile_cons_of_neg (by decide)]
      · have hc : c ≠ '\r' := by
          rintro rfl
          exact hline rfl
        rw [Text.unifyLineEnds_of_ne hc, List.dropWhile_cons_of_pos (by simp [hline]),
          List.dropWhile_cons_of_pos (by simp [hline]), ih]

theorem afterComment?_unifyLineEnds (cs : List Char) :
    afterComment? (unifyLineEnds cs) = (afterComment? cs).map unifyLineEnds := by
  induction cs with
  | nil => rfl
  | cons c cs ih =>
      rw [unifyLineEnds_cons]
      split_ifs with hc hcs
      · rw [ih, afterComment?_cons, if_neg (by simp [hc])]
      · rw [afterComment?_cons, if_neg (by simp), ih, afterComment?_cons, if_neg (by simp [hc])]
      · have hclose : (unifyLineEnds cs).head? = some ')' ↔ cs.head? = some ')' := by
          rw [head?_unifyLineEnds]
          cases cs with
          | nil => simp
          | cons d cs =>
              by_cases hd : d = '\r'
              · simp [hd]
              · simp [hd]
        rw [afterComment?_cons, afterComment?_cons, ih]
        simp only [hclose]
        split_ifs with hstop
        · obtain ⟨tail, rfl⟩ := List.head?_eq_some_iff.mp hstop.2
          rw [Text.unifyLineEnds_of_ne (by decide)]
          rfl
        · rfl

theorem return_notMem_symbol {text : String} (h : text ∈ symbols) : '\r' ∉ text.toList := by
  have hall : (symbols.all fun text => !text.toList.elem '\r') = true := by decide
  simpa using List.all_eq_true.mp hall text h

theorem Piece.unifyLineEnds (h : Piece cs rest) :
    Moves (unifyLineEnds cs) (unifyLineEnds rest) := by
  cases h with
  | trivia h =>
      cases h with
      | blank hc =>
          rw [unifyLineEnds_cons]
          split_ifs
          · exact .refl
          · exact .single (.trivia (.blank (by decide)))
          · exact .single (.trivia (.blank hc))
      | lineComment =>
          rw [Text.unifyLineEnds_of_ne (by decide), Text.unifyLineEnds_of_ne (by decide),
            ← dropWhile_unifyLineEnds]
          exact .single (.trivia .lineComment)
      | blockComment hcs =>
          rw [Text.unifyLineEnds_of_ne (by decide), Text.unifyLineEnds_of_ne (by decide)]
          exact .single (.trivia (.blockComment (by rw [afterComment?_unifyLineEnds, hcs]; rfl)))
  | @token token _ h =>
      rcases Highlight.isWordChar_of_token h with hword | ⟨text, htext, rfl⟩ | ⟨body, t, hbody, rfl⟩
      · have hreturn : '\r' ∉ token := fun hmem => absurd (hword _ hmem) (by decide)
        rw [Text.unifyLineEnds_append_left hreturn]
        exact .single (.token h)
      · rw [Text.unifyLineEnds_append_left (return_notMem_symbol htext)]
        exact .single (.token h)
      · obtain ⟨t', hbody⟩ := hbody.unifyLineEnds
        rw [List.cons_append, List.append_assoc, Text.unifyLineEnds_of_ne (by decide),
          Text.unifyLineEnds_append_right _ (by simp), List.singleton_append,
          Text.unifyLineEnds_of_ne (by decide)]
        have hpiece : Piece _ (Text.unifyLineEnds rest) := .token (.quoted hbody)
        rw [List.cons_append, List.append_assoc] at hpiece
        exact .single hpiece

theorem Moves.unifyLineEnds (h : Moves cs rest) :
    Moves (unifyLineEnds cs) (unifyLineEnds rest) := by
  induction h with
  | refl => exact .refl
  | tail _ hpiece ih => exact ih.trans hpiece.unifyLineEnds

theorem dropWhile_append_lineFeed (cs : List Char) :
    (cs ++ ['\n']).dropWhile (fun c => !Trivia.isLineEnd c) =
      cs.dropWhile (fun c => !Trivia.isLineEnd c) ++ ['\n'] := by
  rw [List.dropWhile_append]
  split_ifs with hempty
  · rw [List.isEmpty_iff.mp hempty]
    rfl
  · rfl

theorem afterComment?_append_lineFeed (cs : List Char) :
    afterComment? (cs ++ ['\n']) = (afterComment? cs).map (· ++ ['\n']) := by
  induction cs with
  | nil => rfl
  | cons c cs ih =>
      rw [List.cons_append, afterComment?_cons, afterComment?_cons, ih]
      cases cs with
      | nil => simp
      | cons d cs =>
          rw [List.cons_append, List.head?_cons, List.head?_cons]
          split_ifs <;> rfl

theorem Piece.append_lineFeed (h : Piece cs rest) : Piece (cs ++ ['\n']) (rest ++ ['\n']) := by
  cases h with
  | trivia h =>
      refine .trivia ?_
      cases h with
      | blank hc => exact .blank hc
      | lineComment =>
          rw [← dropWhile_append_lineFeed]
          exact .lineComment
      | @blockComment cs _ hcs =>
          have happend := afterComment?_append_lineFeed cs
          rw [hcs] at happend
          exact .blockComment happend
  | token h =>
      rw [List.append_assoc]
      exact .token h

theorem Moves.append_lineFeed (h : Moves cs []) : Moves (cs ++ ['\n']) [] := by
  induction h using Relation.ReflTransGen.head_induction_on with
  | refl => exact .single (.trivia (.blank (by decide)))
  | head hpiece _ ih => exact .head hpiece.append_lineFeed ih

theorem lineFeed_notMem_getLast?_token {token : List Char} (h : IsToken token) :
    token.getLast? ≠ some '\n' := by
  rcases Highlight.isWordChar_of_token h with hword | ⟨text, htext, rfl⟩ | ⟨body, t, -, rfl⟩
  · exact fun hlast => absurd (hword _ (List.mem_of_getLast? hlast)) (by decide)
  · have hall : (symbols.all fun text => text.toList.getLast? != some '\n') = true := by decide
    simpa using List.all_eq_true.mp hall text htext
  · rw [← List.cons_append, List.getLast?_concat]
    decide

-- The first piece of a text that ends with a line feed is this line feed, or leaves it.
theorem Piece.of_append_lineFeed (h : Piece (cs ++ ['\n']) rest) :
    cs = [] ∧ rest = [] ∨ ∃ mid, rest = mid ++ ['\n'] ∧ Piece cs mid := by
  generalize htext : cs ++ ['\n'] = text at h
  cases h with
  | trivia h =>
      cases h with
      | blank hc =>
          cases cs with
          | nil =>
              cases htext
              exact .inl ⟨rfl, rfl⟩
          | cons c cs =>
              cases htext
              exact .inr ⟨cs, rfl, .trivia (.blank hc)⟩
      | @lineComment text =>
          obtain ⟨cs, rfl, rfl⟩ : ∃ tail, cs = '/' :: '/' :: tail ∧ text = tail ++ ['\n'] := by
            match cs, htext with
            | _ :: _ :: tail, rfl => exact ⟨tail, rfl, rfl⟩
          exact .inr ⟨_, dropWhile_append_lineFeed cs, .trivia .lineComment⟩
      | @blockComment text _ hcs =>
          obtain ⟨cs, rfl, rfl⟩ : ∃ tail, cs = '(' :: '*' :: tail ∧ text = tail ++ ['\n'] := by
            match cs, htext with
            | _ :: _ :: tail, rfl => exact ⟨tail, rfl, rfl⟩
          rw [afterComment?_append_lineFeed] at hcs
          obtain ⟨mid, hmid, rfl⟩ := Option.map_eq_some_iff.mp hcs
          exact .inr ⟨mid, rfl, .trivia (.blockComment hmid)⟩
  | @token token _ h =>
      rcases List.eq_nil_or_concat rest with rfl | ⟨mid, c, rfl⟩
      · rw [List.append_nil] at htext
        exact absurd (htext ▸ List.getLast?_concat) (lineFeed_notMem_getLast?_token h)
      · rw [List.concat_eq_append, ← List.append_assoc] at htext
        obtain ⟨rfl, hc⟩ := List.append_inj' htext rfl
        cases hc
        exact .inr ⟨mid, List.concat_eq_append, .token h⟩

theorem Moves.of_append_lineFeed (h : Moves (cs ++ ['\n']) []) : Moves cs [] := by
  generalize htext : cs ++ ['\n'] = text at h
  induction h using Relation.ReflTransGen.head_induction_on generalizing cs with
  | refl => simp at htext
  | head hpiece _ ih =>
      subst htext
      rcases hpiece.of_append_lineFeed with ⟨rfl, -⟩ | ⟨mid, rfl, hfirst⟩
      · exact .refl
      · exact .head hfirst (ih rfl)

theorem Moves.of_cons_lineFeed (h : Moves ('\n' :: cs) []) : Moves cs [] := by
  generalize htext : '\n' :: cs = text at h
  rcases Relation.ReflTransGen.cases_head h with rfl | ⟨mid, hpiece, hmid⟩
  · cases htext
  cases hpiece with
  | trivia htrivia =>
      cases htrivia <;> cases htext
      exact hmid
  | token htoken =>
      obtain ⟨c, tail, rfl, hline⟩ := htoken.exists_cons
      cases htext
      cases hline

namespace Highlight

theorem moves_stripLineFeeds (h : Moves cs []) : Moves (stripLineFeeds cs) [] := by
  have hfront : Moves (cs.dropWhile (· == '\n')) [] := by
    induction cs with
    | nil => exact h
    | cons c cs ih =>
        by_cases hc : c = '\n'
        · subst hc
          exact ih h.of_cons_lineFeed
        · rwa [List.dropWhile_cons_of_neg (by simpa using hc)]
  rw [stripLineFeeds]
  generalize cs.dropWhile (· == '\n') = text at hfront
  induction text using List.reverseRecOn with
  | nil => exact hfront
  | append_singleton text c ih =>
      rw [List.reverse_concat]
      by_cases hc : c = '\n'
      · subst hc
        exact ih hfront.of_append_lineFeed
      · rwa [List.dropWhile_cons_of_neg (by simpa using hc), List.reverse_cons,
          List.reverse_reverse]

-- The text that is cut into tokens is as regular as the source.
theorem moves_prepare (h : Moves cs []) : Moves (prepare cs) [] := by
  have hmark : dropMark cs = cs := by
    rw [dropMark.eq_def]
    split
    next => exact absurd (head_of_moves h) (by decide)
    next => rfl
  rw [prepare, hmark]
  exact (moves_stripLineFeeds h.unifyLineEnds).append_lineFeed

theorem return_notMem_prepare (cs : List Char) : '\r' ∉ prepare cs := by
  intro hmem
  rcases List.mem_append.mp hmem with hmem | hmem
  · have hstrip := List.mem_reverse.mp hmem
    have hfront := List.mem_reverse.mp ((List.dropWhile_sublist _).mem hstrip)
    exact Text.return_notMem_unifyLineEnds _ ((List.dropWhile_sublist _).mem hfront)
  · simp at hmem

end Highlight

end CardLore
