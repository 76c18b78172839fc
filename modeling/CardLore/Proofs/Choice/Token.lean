import CardLore.Proofs.Choice.Basic
import CardLore.Proofs.Conduct.Token

namespace CardLore

section

variable {α : Type} {newlines : Bool} {x y z m : Spot}

-- Behind trivia, there is no more of it.
theorem skip_of_scan {pos last : Nat} {crossed crossed' : Bool} {cs rest : List Char}
    (h : Trivia.scan newlines .open pos crossed cs = .stopped last rest crossed') :
    Trivia.skip newlines last rest = .stopped last rest false := by
  obtain ⟨pieces, hrun, hclosed, -⟩ := Trivia.exists_run_of_stopped h
  exact Trivia.scan_of_endsAt hrun.ends hclosed last false

theorem SkipsTo.again (h : SkipsTo newlines x y) : SkipsTo newlines y y := by
  obtain ⟨crossed, h⟩ := h
  exact ⟨false, skip_of_scan h⟩

-- The text behind trivia has `P`.
def Front (newlines : Bool) (P : List Char → Prop) (x : Spot) : Prop :=
  ∃ m, SkipsTo newlines x m ∧ P m.2

variable {P Q : List Char → Prop}

theorem Front.imp (h : Front newlines P x) (hPQ : ∀ cs, P cs → Q cs) : Front newlines Q x := by
  obtain ⟨m, hm, hP⟩ := h
  exact ⟨m, hm, hPQ _ hP⟩

theorem Front.clash (h : Front newlines P x) (hPQ : ∀ cs, P cs → ¬ Q cs) :
    ¬ Front newlines Q x := by
  obtain ⟨m, hm, hP⟩ := h
  rintro ⟨m', hm', hQ⟩
  rw [hm'.unique hm] at hQ
  exact hPQ _ hP hQ

theorem Front.of_skips (hskips : SkipsTo newlines x m) (h : Front newlines P m) :
    Front newlines P x := by
  obtain ⟨m', hm', hP⟩ := h
  rw [hm'.unique hskips.again] at hP
  exact ⟨m, hskips, hP⟩

def Spot.advance (m : Spot) (n : Nat) : Spot :=
  (m.1 + n, m.2.drop n)

-- From `x` to `y`, behind trivia, stands a token: the text there has `P`, which tells its length.
def Takes (newlines : Bool) (P : List Char → Prop) (length : List Char → Nat) (x y : Spot) : Prop :=
  ∃ m, SkipsTo newlines x m ∧ P m.2 ∧ y = m.advance (length m.2)

theorem Takes.front {length : List Char → Nat} (h : Takes newlines P length x y) :
    Front newlines P x := by
  obtain ⟨m, hm, hP, -⟩ := h
  exact ⟨m, hm, hP⟩

theorem Takes.of_skips {length : List Char → Nat} (hskips : SkipsTo newlines x m)
    (h : Takes newlines P length m y) : Takes newlines P length x y := by
  obtain ⟨m', hm', hP⟩ := h
  rw [hm'.unique hskips.again] at hP
  exact ⟨m, hskips, hP⟩

theorem Takes.unique {length length' : List Char → Nat}
    (hlength : ∀ cs, P cs → Q cs → length cs = length' cs) (h : Takes newlines P length x y)
    (h' : Takes newlines Q length' x z) : y = z := by
  obtain ⟨m, hm, hP, rfl⟩ := h
  obtain ⟨m', hm', hQ, rfl⟩ := h'
  obtain rfl := hm'.unique hm
  rw [hlength _ hP hQ]

def TakesWord (newlines : Bool) (w : String) : Spot → Spot → Prop :=
  Takes newlines (MatchesWord w) fun _ => w.length

def StartsKey (cs : List Char) : Prop :=
  keyChars cs ≠ []

def TakesKey (newlines : Bool) : Spot → Spot → Prop :=
  Takes newlines StartsKey fun cs => (keyChars cs).length

def TakesMark (newlines : Bool) (text : String) : Spot → Spot → Prop :=
  Takes newlines (text.toList <+: ·) fun _ => text.length

-- Digits are a number unless a key character follows them.
def StartsNumber (cs : List Char) : Prop :=
  cs.takeWhile Char.isDigit ≠ [] ∧
    (continuesKey (cs.dropWhile Char.isDigit) = true →
      startsArrow (cs.dropWhile Char.isDigit) = true)

def TakesNumber (newlines : Bool) : Spot → Spot → Prop :=
  Takes newlines StartsNumber fun cs => (cs.takeWhile Char.isDigit).length

-- A number, and perhaps a percent sign right behind it.
def TakesChance (newlines : Bool) (x z : Spot) : Prop :=
  ∃ y, TakesNumber newlines x y ∧ (z = y ∨ y.2.head? = some '%')

-- The statement is over here.
def IsOver (x : Spot) : Prop :=
  Front false (fun cs => Parser.endsStatement cs = true) x

end

namespace Expects

variable {α β : Type} {newlines : Bool} {p : Parser α} {R : Spot → Spot → Prop} {F : Spot → Prop}

theorem skipTriviaWith (blanks : Bool) :
    Expects newlines (Parser.skipTriviaWith blanks) (SkipsTo blanks) fun _ => False := by
  intro ctx s _
  rw [Parser.skipTriviaWith_eq]
  cases hskip : Trivia.skip blanks s.pos s.rest with
  | stopped pos rest crossed => exact ⟨crossed, hskip⟩
  | unclosed => trivial

theorem skipTrivia : Expects newlines Parser.skipTrivia (SkipsTo newlines) fun _ => False := by
  rintro ctx s rfl
  exact skipTriviaWith ctx.newlines ctx s rfl

theorem tokenStart : Expects newlines Parser.tokenStart (SkipsTo newlines) fun _ => False := by
  have hposition : ∀ _ : Bool, Expects newlines Parser.position (fun x y => y = x) fun _ => False :=
    fun _ _ _ _ => rfl
  refine (skipTrivia.next hposition).mono ?_ fun _ h => h
  rintro x y ⟨m, hm, rfl⟩
  exact hm

-- The same, wherever the given text is left.
def At (newlines : Bool) (cs : List Char) (p : Parser α) (R : Spot → Spot → Prop)
    (F : Spot → Prop) : Prop :=
  ∀ ctx s, ctx.newlines = newlines → s.rest = cs →
    (p ctx s).Sat (fun _ t => R s.spot t.spot) True (fun _ => F s.spot)

theorem ahead {f : List Char → Parser α} (h : ∀ cs, At newlines cs (f cs) R F) :
    Expects newlines (Parser.ahead >>= f) R F :=
  fun ctx s hctx => h s.rest ctx s hctx rfl

theorem at_fail {cs : List Char} (expected : String) :
    At newlines cs (Parser.fail expected : Parser α) R F :=
  fun _ _ _ _ => trivial

theorem at_failAt {cs : List Char} (pos : Nat) (expected : String) :
    At newlines cs (Parser.failAt pos expected : Parser α) R F :=
  fun _ _ _ _ => trivial

-- The characters that are read tell where the parser gets.
theorem at_advance {cs : List Char} {n : Nat} {v : α}
    (h : ∀ pos, R (pos, cs) (Spot.advance (pos, cs) n)) :
    At newlines cs (do Parser.advance n; return v) R F := by
  rintro ctx s _ rfl
  exact h s.pos

theorem at_advance_unit {cs : List Char} {n : Nat}
    (h : ∀ pos, R (pos, cs) (Spot.advance (pos, cs) n)) : At newlines cs (Parser.advance n) R F := by
  rintro ctx s _ rfl
  exact h s.pos

theorem keyword (w : String) :
    Expects newlines (Parser.keyword w) (TakesWord newlines w) fun _ => False := by
  refine skipTrivia.next (S := fun x y => MatchesWord w x.2 ∧ y = x.advance w.length)
    fun _ => ahead fun cs => ?_
  change At newlines cs (if MatchesWord w cs then Parser.advance w.length
      else Parser.fail s!"'{w}'" : Parser Unit) _ _
  split
  next hmatches => exact at_advance_unit fun _ => ⟨hmatches, rfl⟩
  next => exact at_fail _

theorem symbol (text : String) :
    Expects newlines (Parser.symbol text) (TakesMark newlines text) fun _ => False := by
  refine skipTrivia.next (S := fun x y => text.toList <+: x.2 ∧ y = x.advance text.length)
    fun _ => ahead fun cs => ?_
  split
  next hfront => exact at_advance_unit fun _ => ⟨List.isPrefixOf_iff_prefix.mp hfront, rfl⟩
  next => exact at_fail _

theorem key : Expects newlines Parser.key (TakesKey newlines) fun _ => False := by
  refine skipTrivia.next (S := fun x y => StartsKey x.2 ∧ y = x.advance (keyChars x.2).length)
    fun _ => ahead fun cs => ?_
  dsimp only
  split
  next => exact at_fail _
  next hempty => exact at_advance fun _ => ⟨fun h => hempty (List.isEmpty_iff.mpr h), rfl⟩

theorem unsigned : Expects newlines Parser.unsigned (TakesNumber newlines) fun _ => False := by
  refine skipTrivia.next (S := fun x y => StartsNumber x.2 ∧
    y = x.advance (x.2.takeWhile Char.isDigit).length) fun _ => ahead fun cs => ?_
  dsimp only
  split
  next => exact at_fail _
  next hdigits =>
    split
    next => exact at_fail _
    next =>
      obtain ⟨hne, hends⟩ := not_or.mp hdigits
      refine at_advance fun _ => ⟨⟨fun h => hne (List.isEmpty_iff.mpr h), fun hgoes => ?_⟩, rfl⟩
      simpa [hgoes] using hends

theorem string :
    Expects newlines Parser.string (fun x _ => Front newlines (fun cs => cs.head? = some '"') x)
      fun _ => False := by
  refine tokenStart.next (S := fun x _ => x.2.head? = some '"') fun start => ahead fun cs => ?_
  split
  next inside =>
    split
    next => exact at_advance fun _ => rfl
    next => exact at_failAt _ _
    next => exact at_failAt _ _
  next => exact at_fail _

theorem percentSign {k : Unit → Parser α}
    (h : Expects newlines (k ()) (fun x y => y = x) fun _ => True) :
    Expects newlines
      (Parser.ahead >>= fun cs => match cs with
        | '%' :: _ => Parser.advance 1 >>= k
        | _ => k ()) (fun x y => y = x ∨ x.2.head? = some '%') fun _ => True := by
  refine ahead fun cs => ?_
  split
  next rest =>
    intro ctx s hctx hrest
    have hsign : s.spot.2.head? = some '%' := by
      change s.rest.head? = _
      rw [hrest]
      rfl
    exact (Commits.any _ ctx s hctx).mono (fun _ _ _ => .inr hsign) id fun _ _ => trivial
  next => exact fun ctx s hctx _ => (h ctx s hctx).mono (fun _ _ => .inl) id fun _ h => h

theorem percentage :
    Expects newlines Parser.percentage (TakesChance newlines) fun _ => True := by
  refine (tokenStart.bind (S := TakesChance newlines) (G := fun _ => True) fun start =>
    (unsigned.bind fun n => percentSign ?_).mono (fun _ _ h => h) fun _ _ => trivial).mono ?_
    fun _ _ => trivial
  · cases Probability.ofInt? n with
    | some p => exact fun _ _ _ => rfl
    | none => exact fun _ _ _ => trivial
  · -- the digits stand where the token starts
    rintro x z ⟨m, hm, y, hnumber, hz⟩
    exact ⟨y, Takes.of_skips hm hnumber, hz⟩

theorem located (hp : Expects newlines p R F) :
    Expects newlines (Parser.located p) (fun x y => ∃ m, SkipsTo newlines x m ∧ R m y)
      fun x => ∃ m, SkipsTo newlines x m ∧ F m := by
  have hvalue : ∀ start, Expects newlines (do
      let value ← p
      return (⟨value, ← Parser.spanFrom start⟩ : Located α)) R F := by
    intro start
    have hspan : ∀ v : α, Expects newlines (Parser.spanFrom start >>= fun span =>
        Pure.pure (⟨v, span⟩ : Located α)) (fun x y => y = x) fun _ => False := fun _ _ _ _ => rfl
    refine (hp.bind hspan).mono ?_ ?_
    · rintro x y ⟨m, hm, rfl⟩
      exact hm
    · rintro x (h | ⟨y, -, h⟩)
      · exact h
      · exact h.elim
  refine (tokenStart.bind hvalue).mono (fun _ _ h => h) ?_
  rintro x (h | h)
  · exact h.elim
  · exact h

theorem terminated (hp : Expects newlines p R F) :
    Expects newlines (Parser.terminated p) (fun x _ => ∃ y, R x y ∧ IsOver y) F := by
  have hend : ∀ v : α, Expects newlines (do
      let _ ← Parser.skipTriviaWith false
      if Parser.endsStatement (← Parser.ahead) then return v else Parser.fail "end of statement")
      (fun x _ => IsOver x) fun _ => False := by
    intro v
    have hahead : ∀ _ : Bool, Expects newlines (do
        if Parser.endsStatement (← Parser.ahead) then return v
        else Parser.fail "end of statement")
        (fun x _ => Parser.endsStatement x.2 = true) fun _ => False := by
      intro _ ctx s _
      rw [Parser.ahead_bind]
      by_cases hends : Parser.endsStatement s.rest = true
      · rw [if_pos hends]
        exact hends
      · rw [if_neg hends]
        trivial
    exact (skipTriviaWith false).next hahead
  refine (hp.bind hend).mono (fun _ _ h => h) ?_
  rintro x (h | ⟨y, -, h⟩)
  · exact h
  · exact h.elim

end Expects

-- What an alternative may start with.
inductive Head where
  | word (w : String)
  | mark (c : Char)
deriving DecidableEq

def Head.Matches : Head → List Char → Prop
  | word w, cs => MatchesWord w cs
  | mark c, cs => cs.head? = some c

-- A keyword of the language, or a mark before a slot or a card.
def Head.Valid : Head → Prop
  | word w => w ∈ keywords
  | mark c => c ∈ ['!', '?']

instance : DecidablePred Head.Valid := fun h => by
  cases h <;> exact inferInstanceAs (Decidable (_ ∈ _))

theorem Lowers.unique {c d e : Char} (h : Lowers c d) (h' : Lowers c e) : d = e := by
  rcases h with ⟨hc, rfl⟩ | ⟨rfl, rfl⟩ <;> rcases h' with ⟨hc', rfl⟩ | ⟨hc', rfl⟩
  · rfl
  · rw [hc'] at hc
    exact absurd hc (by decide)
  · exact absurd hc' (by decide)
  · rfl

theorem matchesWord_unique_of_le {v w : String} (hv : v ∈ keywords) (hw : w ∈ keywords)
    {cs : List Char} (hlength : v.length ≤ w.length) (h : MatchesWord v cs) (h' : MatchesWord w cs) :
    v = w := by
  have hlowers := spells_of_matchesWord hv h
  have hlowers' := List.forall₂_take v.length (spells_of_matchesWord hw h')
  rw [List.take_take, Nat.min_eq_left hlength] at hlowers'
  have hunique : Relator.RightUnique Lowers := fun _ _ _ h h' => h.unique h'
  have hprefix : v.toList = w.toList.take v.length :=
    List.right_unique_forall₂' hunique hlowers hlowers'
  have hkeywords : ∀ v ∈ keywords, ∀ w ∈ keywords, v.toList = w.toList.take v.length → v = w := by
    decide +kernel
  exact hkeywords v hv w hw hprefix

-- No keyword is the beginning of another one.
theorem matchesWord_unique {v w : String} (hv : v ∈ keywords) (hw : w ∈ keywords) {cs : List Char}
    (h : MatchesWord v cs) (h' : MatchesWord w cs) : v = w := by
  rcases Nat.le_total v.length w.length with hle | hle
  · exact matchesWord_unique_of_le hv hw hle h h'
  · exact (matchesWord_unique_of_le hw hv hle h' h).symm

theorem not_mark_of_matchesWord {w : String} (hw : w ∈ keywords) {c : Char} (hc : c ∈ ['!', '?'])
    {cs : List Char} (h : MatchesWord w cs) : cs.head? ≠ some c := by
  intro hhead
  obtain ⟨rest, rfl⟩ := List.head?_eq_some_iff.mp hhead
  have hnonempty : ∀ w ∈ keywords, w.length ≠ 0 := by decide
  have hfirst : c ∈ (c :: rest).take w.length := by
    rw [List.take_cons (Nat.pos_of_ne_zero (hnonempty w hw))]
    exact List.mem_cons_self
  obtain ⟨d, hd, hlowers⟩ := (spells_of_matchesWord hw h).exists_lowers c hfirst
  have hlower := isLower_of_mem_keyword hw hd
  have hmarks : (['!', '?'].all fun c => !c.toLower.isLower && c != '\u212A') = true := by decide
  obtain ⟨hnot, hne⟩ := Bool.and_eq_true_iff.mp (List.all_eq_true.mp hmarks c hc)
  rcases hlowers with ⟨-, rfl⟩ | ⟨rfl, -⟩
  · rw [hlower] at hnot
    cases hnot
  · cases hne

theorem Head.unique {h h' : Head} (hvalid : h.Valid) (hvalid' : h'.Valid) {cs : List Char}
    (hcs : h.Matches cs) (hcs' : h'.Matches cs) : h = h' := by
  cases h with
  | word w =>
      cases h' with
      | word w' => rw [matchesWord_unique hvalid hvalid' hcs hcs']
      | mark c' => exact absurd hcs' (not_mark_of_matchesWord hvalid hvalid' hcs)
  | mark c =>
      cases h' with
      | word w' => exact absurd hcs (not_mark_of_matchesWord hvalid' hvalid hcs')
      | mark c' =>
          obtain rfl : c = c' := Option.some.inj (hcs.symm.trans hcs')
          rfl

-- One of the heads stands here.
def Among (heads : List Head) (cs : List Char) : Prop :=
  ∃ h ∈ heads, h.Matches cs

theorem Among.clash {heads heads' : List Head} (hvalid : ∀ h ∈ heads ++ heads', h.Valid)
    (hdisjoint : heads.Disjoint heads') {cs : List Char} (hcs : Among heads cs) :
    ¬ Among heads' cs := by
  obtain ⟨h, hh, hcs⟩ := hcs
  rintro ⟨h', hh', hcs'⟩
  obtain ⟨hvalid, hvalid'⟩ := List.forall_mem_append.mp hvalid
  rw [Head.unique (hvalid h hh) (hvalid' h' hh') hcs hcs'] at hh
  exact hdisjoint hh hh'

theorem isAlpha_of_lowers {c d : Char} (h : Lowers c d) (hd : d.isLower = true) (hk : d ≠ 'k') :
    c.isAlpha = true := by
  rcases h with ⟨-, rfl⟩ | ⟨-, rfl⟩
  · rw [Char.isAlpha, Bool.or_eq_true]
    by_cases hupper : c.isUpper = true
    · exact .inl hupper
    · rw [Char.toLower_eq_of_not_isUpper hupper] at hd
      exact .inr hd
  · exact absurd rfl hk

-- Key characters without a dash are a name up to where no more of it follows.
theorem keyChars_dashless {front after : List Char}
    (hfront : ∀ c ∈ front, isKeyChar c = true ∧ c ≠ '-')
    (hends : continuesKey after = true → startsArrow after = true) :
    keyChars (front ++ after) = front := by
  induction front with
  | nil => exact keyChars_eq_nil hends
  | cons c front ih =>
      obtain ⟨⟨hc, hdash⟩, hfront⟩ := List.forall_mem_cons.mp hfront
      have harrow : startsArrow (c :: (front ++ after)) = false := by
        rw [startsArrow_cons, beq_eq_false_iff_ne.mpr hdash, Bool.false_and]
      rw [List.cons_append, keyChars, hc, harrow, ih hfront]
      rfl

-- Unless it has the letter k, a keyword is read as a name up to the same place.
theorem keyChars_of_matchesWord {w : String} (hw : w ∈ keywords) (hk : 'k' ∉ w.toList)
    {cs : List Char} (h : MatchesWord w cs) : keyChars cs = cs.take w.length := by
  have hfront : ∀ c ∈ cs.take w.length, isKeyChar c = true ∧ c ≠ '-' := by
    intro c hc
    obtain ⟨d, hd, hlowers⟩ := (spells_of_matchesWord hw h).exists_lowers c hc
    have halpha : c.isAlpha = true :=
      isAlpha_of_lowers hlowers (isLower_of_mem_keyword hw hd) fun heq => hk (heq ▸ hd)
    refine ⟨isKeyChar_of_isAlpha halpha, ?_⟩
    rintro rfl
    cases halpha
  have hends : continuesKey (cs.drop w.length) = false := by
    simpa using h.2
  have hname := keyChars_dashless hfront fun hgoes =>
    absurd (hends.symm.trans hgoes) Bool.false_ne_true
  rwa [List.take_append_drop] at hname

theorem keyChars_of_startsNumber {cs : List Char} (h : StartsNumber cs) :
    keyChars cs = cs.takeWhile Char.isDigit := by
  have hfront : ∀ c ∈ cs.takeWhile Char.isDigit, isKeyChar c = true ∧ c ≠ '-' := by
    intro c hc
    have hdigit := List.mem_takeWhile_imp hc
    refine ⟨isKeyChar_of_isDigit hdigit, ?_⟩
    rintro rfl
    cases hdigit
  have hname := keyChars_dashless hfront h.2
  rwa [List.takeWhile_append_dropWhile] at hname

section

variable {newlines : Bool} {v w : String} {x y z m : Spot} {A B : Spot → Prop}

-- So a keyword that is taken for a name ends where the name does.
theorem TakesWord.unique_key (hw : w ∈ keywords) (hk : 'k' ∉ w.toList)
    (hword : TakesWord newlines w x y) (hkey : TakesKey newlines x z) : y = z := by
  refine Takes.unique (fun cs hcs _ => ?_) hword hkey
  rw [keyChars_of_matchesWord hw hk hcs, (spells_of_matchesWord hw hcs).length_eq,
    String.length_toList]

theorem TakesNumber.unique_key (hnumber : TakesNumber newlines x y) (hkey : TakesKey newlines x z) :
    y = z := by
  refine Takes.unique (fun cs hcs _ => ?_) hnumber hkey
  rw [keyChars_of_startsNumber hcs]

-- A keyword, or a name, with what is found behind it.
def WordThen (newlines : Bool) (w : String) (A : Spot → Prop) (x : Spot) : Prop :=
  ∃ y, TakesWord newlines w x y ∧ A y

def KeyThen (newlines : Bool) (A : Spot → Prop) (x : Spot) : Prop :=
  ∃ y, TakesKey newlines x y ∧ A y

theorem WordThen.of_skips (hskips : SkipsTo newlines x m) (h : WordThen newlines w A m) :
    WordThen newlines w A x := by
  obtain ⟨y, hword, hA⟩ := h
  exact ⟨y, Takes.of_skips hskips hword, hA⟩

theorem KeyThen.of_skips (hskips : SkipsTo newlines x m) (h : KeyThen newlines A m) :
    KeyThen newlines A x := by
  obtain ⟨y, hkey, hA⟩ := h
  exact ⟨y, Takes.of_skips hskips hkey, hA⟩

theorem WordThen.clash_word (hv : v ∈ keywords) (hw : w ∈ keywords) (hne : v ≠ w)
    (h : WordThen newlines v A x) : ¬ WordThen newlines w B x := by
  obtain ⟨y, hword, -⟩ := h
  rintro ⟨z, hword', -⟩
  exact (Takes.front hword).clash (fun _ h h' => hne (matchesWord_unique hv hw h h'))
    (Takes.front hword')

theorem WordThen.clash_key (hw : w ∈ keywords) (hk : 'k' ∉ w.toList) (hAB : ∀ y, A y → ¬ B y)
    (h : WordThen newlines w A x) : ¬ KeyThen newlines B x := by
  obtain ⟨y, hword, hA⟩ := h
  rintro ⟨z, hkey, hB⟩
  rw [← hword.unique_key hw hk hkey] at hB
  exact hAB y hA hB

theorem KeyThen.clash (hAB : ∀ y, A y → ¬ B y) (h : KeyThen newlines A x) :
    ¬ KeyThen newlines B x := by
  obtain ⟨y, hkey, hA⟩ := h
  rintro ⟨z, hkey', hB⟩
  rw [← Takes.unique (fun _ _ _ => rfl) hkey hkey'] at hB
  exact hAB y hA hB

end

theorem head?_of_isPrefix {c : Char} {text cs : List Char} (h : c :: text <+: cs) :
    cs.head? = some c := by
  obtain ⟨rest, rfl⟩ := h
  rfl

theorem not_startsKey_of_head {c : Char} {cs : List Char} (hc : isKeyChar c = false)
    (h : cs.head? = some c) : ¬ StartsKey cs := by
  obtain ⟨rest, rfl⟩ := List.head?_eq_some_iff.mp h
  refine not_not.mpr (keyChars_eq_nil fun hgoes => ?_)
  exact absurd (hc.symm.trans hgoes) Bool.false_ne_true

theorem not_startsKey_of_arrow {cs : List Char} (h : "->".toList <+: cs) : ¬ StartsKey cs := by
  obtain ⟨rest, rfl⟩ := h
  exact not_not.mpr (keyChars_eq_nil fun _ => rfl)

theorem not_endsStatement {c : Char} {cs : List Char} (hc : c ∉ ['\r', '\n', '}'])
    (h : cs.head? = some c) : ¬ Parser.endsStatement cs = true := by
  obtain ⟨rest, rfl⟩ := List.head?_eq_some_iff.mp h
  simpa [Parser.endsStatement, Trivia.isLineEnd, and_assoc] using hc

theorem not_startsKey_of_endsStatement {cs : List Char} (h : Parser.endsStatement cs = true) :
    ¬ StartsKey cs := by
  cases cs with
  | nil => exact not_not.mpr rfl
  | cons c cs =>
      have hends : c ∈ ['\r', '\n', '}'] := by
        by_contra hc
        exact not_endsStatement hc rfl h
      have hall : (['\r', '\n', '}'].all fun c => !isKeyChar c) = true := by decide
      exact not_startsKey_of_head (by simpa using List.all_eq_true.mp hall c hends) rfl

theorem skipsTo_of_isSolid {newlines : Bool} {c : Char} (hc : IsSolid c) {x : Spot}
    (h : x.2.head? = some c) : SkipsTo newlines x x := by
  obtain ⟨pos, cs⟩ := x
  obtain ⟨rest, rfl⟩ := List.head?_eq_some_iff.mp h
  exact ⟨false, scan_solid hc rest newlines pos false⟩

-- A number up to the end of the statement, with or without a percent sign, is no name before a
-- colon.
theorem TakesChance.not_keyThen {x z : Spot} (hchance : TakesChance false x z) (hover : IsOver z) :
    ¬ KeyThen false (Front false (":".toList <+: ·)) x := by
  obtain ⟨y, hnumber, hz⟩ := hchance
  rintro ⟨y', hkey, hcolon⟩
  rw [← hnumber.unique_key hkey] at hcolon
  rcases hz with rfl | hpercent
  · refine hcolon.clash (fun cs hcs => ?_) hover
    exact not_endsStatement (by decide) (head?_of_isPrefix hcs)
  · have hstays : SkipsTo false y y := skipsTo_of_isSolid (by decide) hpercent
    obtain ⟨m, hm, hcs⟩ := hcolon
    rw [hm.unique hstays] at hcs
    cases hpercent.symm.trans (head?_of_isPrefix hcs)

end CardLore
