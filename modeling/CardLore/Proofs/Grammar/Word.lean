import CardLore.Proofs.Grammar.Reply

namespace CardLore

-- The short escapes: the character behind the backslash, and what it stands for.
def shortEscapes : List (Char × Char) :=
  [('"', '"'), ('\\', '\\'), ('/', '/'), ('b', '\x08'), ('f', '\x0c'), ('n', '\n'), ('r', '\r'),
    ('t', '\t')]

-- The hexadecimal digits, in either letter case, with their values.
def hexDigits : List (Char × Nat) :=
  "0123456789abcdefABCDEF".toList.zip (List.range 16 ++ [10, 11, 12, 13, 14, 15])

-- What stands between the quotes of a string, and the text that it writes.
inductive StringBody : List Char → Text → Prop
  | nil : StringBody [] []
  | raw {c : Char} {cs : List Char} {t : Text} (hquote : c ≠ '"') (hslash : c ≠ '\\')
      (h : StringBody cs t) : StringBody (c :: cs) (.scalar c :: t)
  | short {c meaning : Char} {cs : List Char} {t : Text} (hc : (c, meaning) ∈ shortEscapes)
      (h : StringBody cs t) : StringBody ('\\' :: c :: cs) (.scalar meaning :: t)
  | numbered {a b c d : Char} {w x y z : Nat} {cs : List Char} {t : Text} (ha : (a, w) ∈ hexDigits)
      (hb : (b, x) ∈ hexDigits) (hc : (c, y) ∈ hexDigits) (hd : (d, z) ∈ hexDigits)
      (h : StringBody cs t) :
      StringBody ('\\' :: 'u' :: a :: b :: c :: d :: cs)
        (CodePoint.ofNat (4096 * w + 256 * x + 16 * y + z) :: t)

theorem shortEscape?_eq_some_iff (c meaning : Char) :
    shortEscape? c = some meaning ↔ (c, meaning) ∈ shortEscapes := by
  constructor
  · intro h
    unfold shortEscape? at h
    split at h <;> cases h <;> decide
  · intro h
    simp only [shortEscapes, List.mem_cons, Prod.mk.injEq, List.not_mem_nil, or_false] at h
    rcases h with ⟨rfl, rfl⟩ | ⟨rfl, rfl⟩ | ⟨rfl, rfl⟩ | ⟨rfl, rfl⟩ | ⟨rfl, rfl⟩ | ⟨rfl, rfl⟩ |
      ⟨rfl, rfl⟩ | ⟨rfl, rfl⟩ <;> rfl

-- A character from `first` on is given by its distance to it.
theorem exists_ofNat_of_le {first c last : Char} (hfirst : first ≤ c) (hlast : c ≤ last) :
    ∃ k < last.toNat - first.toNat + 1, c.toNat - first.toNat = k ∧
      c = Char.ofNat (first.toNat + k) := by
  have hlow : first.toNat ≤ c.toNat := UInt32.le_iff_toNat_le.mp hfirst
  have hhigh : c.toNat ≤ last.toNat := UInt32.le_iff_toNat_le.mp hlast
  refine ⟨c.toNat - first.toNat, by omega, rfl, ?_⟩
  rw [Nat.add_sub_cancel' hlow, Char.ofNat_toNat]

theorem hexValue?_eq_some_iff (c : Char) (n : Nat) :
    hexValue? c = some n ↔ (c, n) ∈ hexDigits := by
  constructor
  · have hdecimal : ∀ k < 10, (Char.ofNat ('0'.toNat + k), k) ∈ hexDigits := by decide
    have hlower : ∀ k < 6, (Char.ofNat ('a'.toNat + k), k + 10) ∈ hexDigits := by decide
    have hupper : ∀ k < 6, (Char.ofNat ('A'.toNat + k), k + 10) ∈ hexDigits := by decide
    intro h
    rw [hexValue?] at h
    split at h
    next hc =>
      obtain ⟨k, hk, hvalue, hc⟩ := exists_ofNat_of_le hc.1 hc.2
      rw [← Option.some.inj h, hvalue, hc]
      exact hdecimal k hk
    next =>
      split at h
      next hc =>
        obtain ⟨k, hk, hvalue, hc⟩ := exists_ofNat_of_le hc.1 hc.2
        rw [← Option.some.inj h, hvalue, hc]
        exact hlower k hk
      next =>
        split at h
        next hc =>
          obtain ⟨k, hk, hvalue, hc⟩ := exists_ofNat_of_le hc.1 hc.2
          rw [← Option.some.inj h, hvalue, hc]
          exact hupper k hk
        next => cases h
  · have hall : ∀ d ∈ hexDigits, hexValue? d.1 = some d.2 := by decide
    exact hall (c, n)

theorem numberedPoint?_eq_some_iff (a b c d : Char) (point : CodePoint) :
    numberedPoint? a b c d = some point ↔ ∃ w x y z, (a, w) ∈ hexDigits ∧ (b, x) ∈ hexDigits ∧
      (c, y) ∈ hexDigits ∧ (d, z) ∈ hexDigits ∧
      point = CodePoint.ofNat (4096 * w + 256 * x + 16 * y + z) := by
  have hplaces : ∀ w x y z : Nat,
      ((w * 16 + x) * 16 + y) * 16 + z = 4096 * w + 256 * x + 16 * y + z := by omega
  simp only [numberedPoint?, Option.bind_eq_bind, Option.bind_eq_some_iff, Option.pure_def,
    Option.some.injEq, hexValue?_eq_some_iff, hplaces]
  constructor
  · rintro ⟨w, ha, x, hb, y, hc, z, hd, rfl⟩
    exact ⟨w, x, y, z, ha, hb, hc, hd, rfl⟩
  · rintro ⟨w, x, y, z, ha, hb, hc, hd, rfl⟩
    exact ⟨w, ha, x, hb, y, hc, z, hd, rfl⟩

theorem cons_eq_closed {point : CodePoint} {k n : Nat} {r : StringScan} {t : Text}
    (h : r.cons point k = .closed t n) :
    ∃ t' n', r = .closed t' n' ∧ t = point :: t' ∧ n = k + n' := by
  cases r with
  | closed t' n' =>
      cases h
      exact ⟨t', n', rfl, rfl, rfl⟩
  | unclosed => cases h
  | badEscape => cases h

-- The scan of a string ends at the quote behind its body.
theorem scanString_body {body : List Char} {t : Text} (h : StringBody body t) (after : List Char) :
    scanString (body ++ '"' :: after) = .closed t (body.length + 1) := by
  induction h with
  | nil => rfl
  | @raw c cs t hquote hslash _ ih =>
      rw [List.cons_append, scanString, ih, StringScan.cons, List.length_cons, Nat.add_comm]
      · exact hquote
      · exact fun _ _ _ _ _ h => absurd h hslash
      · exact fun _ _ h => absurd h hslash
      · exact fun h => absurd h hslash
  | @short c meaning cs t hc _ ih =>
      have hnot : c ≠ 'u' := by
        rintro rfl
        cases (shortEscape?_eq_some_iff _ _).mpr hc
      rw [List.cons_append, List.cons_append, scanString, (shortEscape?_eq_some_iff _ _).mpr hc, ih]
      · exact congrArg (StringScan.closed _) (Nat.add_comm 2 (cs.length + 1))
      · exact fun _ _ _ _ _ h => absurd h hnot
  | @numbered a b c d w x y z cs t ha hb hc hd _ ih =>
      have hpoint := (numberedPoint?_eq_some_iff a b c d _).mpr ⟨w, x, y, z, ha, hb, hc, hd, rfl⟩
      simp only [List.cons_append]
      rw [scanString, hpoint, ih]
      exact congrArg (StringScan.closed _) (Nat.add_comm 6 (cs.length + 1))

theorem exists_body_of_scanString {cs : List Char} {t : Text} {n : Nat}
    (h : scanString cs = .closed t n) :
    ∃ body after, StringBody body t ∧ cs = body ++ '"' :: after ∧ n = body.length + 1 := by
  fun_induction scanString cs generalizing t n with
  | case1 | case4 | case6 | case7 => cases h
  | case2 after =>
      cases h
      exact ⟨[], after, .nil, rfl, rfl⟩
  | case3 a b c d rest point hpoint ih =>
      obtain ⟨t', n', hrest, rfl, rfl⟩ := cons_eq_closed h
      obtain ⟨body, after, hbody, rfl, rfl⟩ := ih hrest
      obtain ⟨w, x, y, z, ha, hb, hc, hd, rfl⟩ := (numberedPoint?_eq_some_iff a b c d point).mp hpoint
      exact ⟨_, after, .numbered ha hb hc hd hbody, rfl, Nat.add_comm _ _⟩
  | case5 c rest _ meaning hmeaning ih =>
      obtain ⟨t', n', hrest, rfl, rfl⟩ := cons_eq_closed h
      obtain ⟨body, after, hbody, rfl, rfl⟩ := ih hrest
      have hc := (shortEscape?_eq_some_iff c meaning).mp hmeaning
      exact ⟨_, after, .short hc hbody, rfl, Nat.add_comm _ _⟩
  | case8 c rest hquote _ hescape hlast ih =>
      obtain ⟨t', n', hrest, rfl, rfl⟩ := cons_eq_closed h
      obtain ⟨body, after, hbody, rfl, rfl⟩ := ih hrest
      refine ⟨_, after, .raw hquote ?_ hbody, rfl, Nat.add_comm _ _⟩
      rintro rfl
      obtain ⟨d, ds, hds⟩ := List.exists_cons_of_ne_nil
        (List.append_ne_nil_of_right_ne_nil body (List.cons_ne_nil '"' after))
      exact hescape d ds rfl hds

section

variable {ctx : Context} {s : State}

theorem takes_quoted {body after : List Char} (hrest : s.rest = '"' :: (body ++ '"' :: after)) :
    s.Takes ('"' :: (body ++ ['"'])) (s.advance (1 + (body.length + 1))) := by
  have hread : s.rest = ('"' :: (body ++ ['"'])) ++ after := by simp [hrest]
  have hlength : 1 + (body.length + 1) = ('"' :: (body ++ ['"'])).length := by simp [Nat.add_comm]
  rw [hlength]
  exact .advance hread

theorem string_sound (hctx : ctx.newlines = true) :
    (Parser.string ctx s).Sat
      (fun t u => ∃ lead body, IsTrivia lead ∧ StringBody body t ∧
        s.Takes (lead ++ '"' :: (body ++ ['"'])) u)
      True (fun _ => False) := by
  rw [Parser.string, Parser.tokenStart, Parser.bind_assoc]
  refine sat_skipTrivia hctx (fun crossed lead u hskips _ => ?_) fun _ => ⟨trivial, ?_⟩
  · rw [Parser.position_bind, Parser.ahead_bind]
    generalize hrest : u.rest = cs
    split
    next inside =>
      cases hscan : scanString inside with
      | closed t length =>
          obtain ⟨body, after, hbody, rfl, rfl⟩ := exists_body_of_scanString hscan
          exact ⟨lead, body, hskips.trivia, hbody, hskips.takes.trans (takes_quoted hrest)⟩
      | unclosed => trivial
      | badEscape offset => trivial
    next => trivial
  · intro crossed u hend
    rw [Parser.position_bind, Parser.ahead_bind, hend]
    trivial

theorem string_complete (hctx : ctx.newlines = true) {lead body after : List Char} {t : Text}
    (hlead : IsTrivia lead) (hbody : StringBody body t)
    (hrest : s.rest = lead ++ '"' :: (body ++ '"' :: after)) :
    (Parser.string ctx s).Sat (fun t' u => t' = t ∧ s.Takes (lead ++ '"' :: (body ++ ['"'])) u)
      False (fun _ => False) := by
  rw [Parser.string, Parser.tokenStart, Parser.bind_assoc]
  refine sat_skipTrivia_solid hctx hlead (by decide : IsSolid '"') hrest fun crossed u htakes hu => ?_
  rw [Parser.position_bind, Parser.ahead_bind, hu]
  simp only [scanString_body hbody after]
  exact ⟨rfl, htakes.trans (takes_quoted hu)⟩

end

-- The words that are literals.
inductive WordText : List Char → Literal → Prop
  | null : WordText ['n', 'u', 'l', 'l'] .null
  | «true» : WordText ['t', 'r', 'u', 'e'] (.bool true)
  | «false» : WordText ['f', 'a', 'l', 's', 'e'] (.bool false)

section

variable {ctx : Context} {s : State}

theorem literalWord_sound :
    (Parser.literalWord ctx s).Sat
      (fun v t => ∃ body, WordText body v ∧ s.Takes body t ∧ continuesKey t.rest = false)
      True (fun _ => False) := by
  rw [Parser.literalWord, Parser.ahead_bind]
  generalize hfind : Parser.literalWords.find? _ = found
  cases found with
  | none => trivial
  | some entry =>
      obtain ⟨word, value⟩ := entry
      have hword : WordText word.toList value := by
        have hmem := List.mem_of_find?_eq_some hfind
        simp only [Parser.literalWords, List.mem_cons, Prod.mk.injEq, List.not_mem_nil,
          or_false] at hmem
        rcases hmem with ⟨rfl, rfl⟩ | ⟨rfl, rfl⟩ | ⟨rfl, rfl⟩
        · exact .null
        · exact .true
        · exact .false
      have hstarts := List.find?_some hfind
      obtain ⟨hfront, hends⟩ := Bool.and_eq_true_iff.mp hstarts
      obtain ⟨after, hafter⟩ := List.isPrefixOf_iff_prefix.mp hfront
      have htakes := State.Takes.advance hafter.symm
      rw [String.length_toList] at htakes
      have hends : continuesKey (s.rest.drop word.length) = false := by simpa using hends
      exact ⟨word.toList, hword, htakes, hends⟩

theorem literalWord_complete {body after : List Char} {v : Literal} (hbody : WordText body v)
    (hrest : s.rest = body ++ after) (hafter : continuesKey after = false) :
    (Parser.literalWord ctx s).Sat (fun v' t => v' = v ∧ s.Takes body t) False
      (fun _ => False) := by
  have hfind : Parser.literalWords.find? (fun entry => Parser.startsWord s.rest entry.1) =
      some (String.ofList body, v) := by
    rw [hrest]
    cases hbody <;> simp [Parser.literalWords, Parser.startsWord] <;> exact hafter
  have htakes := State.Takes.advance hrest
  rw [Parser.literalWord, Parser.ahead_bind]
  simp only [hfind, String.length_ofList]
  exact ⟨rfl, htakes⟩

end

-- An identifier with the text that follows it: all key characters there are, up to an arrow.
structure KeyText (after cs : List Char) : Prop where
  nonempty : cs ≠ []
  keys : ∀ c ∈ cs, isKeyChar c = true
  noArrow : ∀ tail, tail <:+ cs → tail ≠ [] → startsArrow (tail ++ after) = false
  ends : continuesKey after = true → startsArrow after = true

-- The name of a member, quoted or bare, with the text that follows it.
inductive NameText (after : List Char) : List Char → Text → Prop
  | quoted {body : List Char} {t : Text} (h : StringBody body t) :
      NameText after ('"' :: (body ++ ['"'])) t
  | bare {cs : List Char} (h : KeyText after cs) : NameText after cs (Text.ofChars cs)

theorem startsArrow_cons (c : Char) (cs : List Char) :
    startsArrow (c :: cs) = (c == '-' && cs.head? == some '>') := by
  unfold startsArrow
  split
  next heq =>
    obtain ⟨rfl, rfl⟩ := List.cons.inj heq
    rfl
  next hnot =>
    rw [eq_comm, Bool.and_eq_false_iff, beq_eq_false_iff_ne, beq_eq_false_iff_ne]
    by_contra harrow
    obtain ⟨hdash, hhead⟩ := not_or.mp harrow
    obtain ⟨tail, htail⟩ := List.head?_eq_some_iff.mp (not_not.mp hhead)
    exact hnot tail (by rw [not_not.mp hdash, htail])

-- An identifier that no key character follows depends on the next character only.
theorem KeyText.congr {after after' cs : List Char} (h : KeyText after cs)
    (hafter : continuesKey after = false) (hhead : after'.head? = after.head?) :
    KeyText after' cs := by
  have hafter' : continuesKey after' = false := by
    cases after' with
    | nil => rfl
    | cons c cs' =>
        cases after with
        | nil => cases hhead
        | cons d ds =>
            obtain rfl : c = d := Option.some.inj hhead
            exact hafter
  refine ⟨h.nonempty, h.keys, fun tail htail hne => ?_, fun hgoes => ?_⟩
  · have harrow := h.noArrow tail htail hne
    obtain ⟨c, cs', rfl⟩ := List.exists_cons_of_ne_nil hne
    rw [List.cons_append, startsArrow_cons, List.head?_append] at harrow ⊢
    rwa [hhead]
  · rw [hafter'] at hgoes
    cases hgoes

theorem NameText.congr {after after' cs : List Char} {name : Text} (h : NameText after cs name)
    (hafter : continuesKey after = false) (hhead : after'.head? = after.head?) :
    NameText after' cs name := by
  cases h with
  | quoted h => exact .quoted h
  | bare h => exact .bare (h.congr hafter hhead)

-- Behind a name stand trivia and a colon, and what follows those does not matter.
theorem NameText.colon {gap cs : List Char} {name : Text} (hgap : IsTrivia gap)
    (rest : List Char) :
    NameText (gap ++ ':' :: rest) cs name ↔ NameText (gap ++ [':']) cs name := by
  have hhead : (gap ++ ':' :: rest).head? = (gap ++ [':']).head? := by
    cases gap <;> rfl
  have hends : ∀ more, continuesKey (gap ++ ':' :: more) = false :=
    fun more => continuesKey_trivia hgap rfl
  exact ⟨fun h => h.congr (hends rest) hhead.symm, fun h => h.congr (hends []) hhead⟩

theorem isSolid_of_isKeyChar {c : Char} (h : isKeyChar c = true) : IsSolid c := by
  intro hmem
  have hall : ([' ', '\t', '\r', '\n', '/', '('].all fun c => !isKeyChar c) = true := by decide
  have hnot := List.all_eq_true.mp hall c hmem
  rw [h] at hnot
  cases hnot

theorem keyChars_eq_nil {after : List Char}
    (h : continuesKey after = true → startsArrow after = true) : keyChars after = [] := by
  cases after with
  | nil => rfl
  | cons c cs =>
      rw [keyChars, if_neg]
      intro hgoes
      obtain ⟨hc, harrow⟩ := Bool.and_eq_true_iff.mp hgoes
      rw [h hc] at harrow
      cases harrow

theorem KeyText.keyChars_eq {after cs : List Char} (h : KeyText after cs) :
    keyChars (cs ++ after) = cs := by
  obtain ⟨-, hkeys, harrow, hends⟩ := h
  induction cs with
  | nil => exact keyChars_eq_nil hends
  | cons c cs ih =>
      have hnot := harrow (c :: cs) (List.suffix_refl _) (List.cons_ne_nil c cs)
      have hrest := ih (fun d hd => hkeys d (List.mem_cons_of_mem c hd))
        fun tail htail => harrow tail (htail.trans (List.suffix_cons c cs))
      rw [List.cons_append] at hnot ⊢
      rw [keyChars, hkeys c List.mem_cons_self, hnot, hrest]
      rfl

-- The identifier at the front of a text, if there is one.
theorem exists_keyText {cs : List Char} (h : keyChars cs ≠ []) :
    ∃ after, cs = keyChars cs ++ after ∧ KeyText after (keyChars cs) := by
  have hall : ∃ after, cs = keyChars cs ++ after ∧
      (∀ tail, tail <:+ keyChars cs → tail ≠ [] → startsArrow (tail ++ after) = false) ∧
      (continuesKey after = true → startsArrow after = true) := by
    clear h
    induction cs with
    | nil =>
        refine ⟨[], rfl, ?_, fun h => absurd h Bool.false_ne_true⟩
        intro tail htail hne
        exact absurd (List.suffix_nil.mp htail) hne
    | cons c cs ih =>
        by_cases hc : isKeyChar c && !startsArrow (c :: cs)
        · obtain ⟨after, hcs, harrow, hends⟩ := ih
          have hkey : keyChars (c :: cs) = c :: keyChars cs := by rw [keyChars, if_pos hc]
          rw [hkey]
          refine ⟨after, by rw [List.cons_append, ← hcs], ?_, hends⟩
          intro tail htail hne
          rcases List.suffix_cons_iff.mp htail with rfl | htail
          · rw [List.cons_append, ← hcs]
            exact Bool.not_eq_true' _ |>.mp (Bool.and_eq_true_iff.mp hc).2
          · exact harrow tail htail hne
        · have hkey : keyChars (c :: cs) = [] := by rw [keyChars, if_neg hc]
          rw [hkey]
          refine ⟨c :: cs, rfl, ?_, ?_⟩
          · intro tail htail hne
            exact absurd (List.suffix_nil.mp htail) hne
          · intro hgoes
            change isKeyChar c = true at hgoes
            simpa [hgoes] using hc
  obtain ⟨after, hcs, harrow, hends⟩ := hall
  exact ⟨after, hcs, h, fun c hc => isKeyChar_of_mem_keyChars hc, harrow, hends⟩

section

variable {ctx : Context} {s : State}

theorem key_sound (hctx : ctx.newlines = true) :
    (Parser.key ctx s).Sat
      (fun k t => ∃ lead cs, IsTrivia lead ∧ KeyText t.rest cs ∧ s.Takes (lead ++ cs) t ∧
        k = Key.ofChars cs)
      True (fun _ => False) := by
  refine sat_skipTrivia hctx (fun crossed lead u hskips _ => ?_) fun _ => ⟨trivial, ?_⟩
  · rw [Parser.ahead_bind]
    by_cases hempty : (keyChars u.rest).isEmpty = true
    · simp only [hempty, if_true]
      trivial
    · simp only [hempty, Bool.false_eq_true, if_false]
      obtain ⟨after, hrest, hkey⟩ := exists_keyText (by simpa using hempty)
      have htakes := State.Takes.advance hrest
      refine ⟨lead, keyChars u.rest, hskips.trivia, ?_, hskips.takes.trans htakes, rfl⟩
      rw [htakes.rest_eq hrest]
      exact hkey
  · intro crossed u hend
    rw [Parser.ahead_bind, hend]
    trivial

theorem key_complete (hctx : ctx.newlines = true) {lead cs after : List Char}
    (hlead : IsTrivia lead) (hkey : KeyText after cs) (hrest : s.rest = lead ++ (cs ++ after)) :
    (Parser.key ctx s).Sat (fun k t => k = Key.ofChars cs ∧ s.Takes (lead ++ cs) t) False
      (fun _ => False) := by
  obtain ⟨c, tail, hcs⟩ := List.exists_cons_of_ne_nil hkey.nonempty
  have hc : IsSolid c := isSolid_of_isKeyChar (hkey.keys c (by rw [hcs]; exact List.mem_cons_self))
  have hfront : s.rest = lead ++ c :: (tail ++ after) := by rw [hrest, hcs, List.cons_append]
  refine sat_skipTrivia_solid hctx hlead hc hfront fun crossed u htakes hu => ?_
  have hu : u.rest = cs ++ after := htakes.rest_eq hrest
  have hempty : cs.isEmpty = false := by simpa using hkey.nonempty
  rw [Parser.ahead_bind, hu, hkey.keyChars_eq]
  simp only [hempty, Bool.false_eq_true, if_false]
  exact ⟨rfl, htakes.trans (.advance hu)⟩

theorem memberName_sound (hctx : ctx.newlines = true) :
    (Parser.memberName ctx s).Sat
      (fun name t => ∃ lead cs, IsTrivia lead ∧ NameText t.rest cs name ∧ s.Takes (lead ++ cs) t)
      True (fun _ => False) := by
  refine sat_skipTrivia hctx (fun crossed lead u hskips _ => ?_) fun _ => ⟨trivial, ?_⟩
  · rw [Parser.ahead_bind]
    generalize hrest : u.rest = cs
    split
    next =>
      refine (string_sound hctx).mono ?_ id fun _ h => h
      rintro t v ⟨lead', body, hlead', hbody, htakes⟩
      refine ⟨lead ++ lead', _, hskips.trivia.append hlead', .quoted hbody, ?_⟩
      rw [List.append_assoc]
      exact hskips.takes.trans htakes
    next =>
      refine sat_bind (key_sound hctx) ?_
      rintro k v ⟨lead', cs, hlead', hkey, htakes, rfl⟩
      refine sat_pure ⟨lead ++ lead', cs, hskips.trivia.append hlead', .bare hkey, ?_⟩
      rw [List.append_assoc]
      exact hskips.takes.trans htakes
  · intro crossed u hend
    rw [Parser.ahead_bind, hend]
    refine sat_bind (key_sound hctx) ?_
    rintro k v ⟨lead', cs, _, hkey, htakes, _⟩
    have hnil : lead' ++ cs ++ v.rest = [] := htakes.1.symm.trans hend
    exact absurd (by simp_all) hkey.nonempty

theorem memberName_complete (hctx : ctx.newlines = true) {lead cs after : List Char} {name : Text}
    (hlead : IsTrivia lead) (hname : NameText after cs name)
    (hrest : s.rest = lead ++ (cs ++ after)) :
    (Parser.memberName ctx s).Sat (fun name' t => name' = name ∧ s.Takes (lead ++ cs) t) False
      (fun _ => False) := by
  cases hname with
  | @quoted body _ hbody =>
      have hfront : s.rest = lead ++ '"' :: (body ++ '"' :: after) := by simp [hrest]
      refine sat_skipTrivia_solid hctx hlead (by decide : IsSolid '"') hfront ?_
      intro crossed u htakes hu
      rw [Parser.ahead_bind, hu]
      refine (string_complete hctx .nil hbody hu).mono ?_ id fun _ h => h
      rintro t v ⟨rfl, hstring⟩
      exact ⟨rfl, htakes.trans hstring⟩
  | bare hkey =>
      obtain ⟨c, tail, rfl⟩ := List.exists_cons_of_ne_nil hkey.nonempty
      have hc := hkey.keys c List.mem_cons_self
      refine sat_skipTrivia_solid hctx hlead (isSolid_of_isKeyChar hc) hrest ?_
      intro crossed u htakes hu
      have hquote : c ≠ '"' := by
        rintro rfl
        cases hc
      rw [Parser.ahead_bind]
      generalize hcs : u.rest = cs
      split
      next => exact absurd (List.cons.inj (hu.symm.trans hcs)).1 hquote
      next =>
        refine sat_bind (key_complete hctx .nil hkey hu) ?_
        rintro k v ⟨rfl, hkeys⟩
        exact sat_pure ⟨rfl, htakes.trans hkeys⟩

end

end CardLore
