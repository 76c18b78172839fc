import CardLore.Proofs.Conduct.Token

namespace CardLore

-- A text that is one token, without trivia or brackets, and its value.
structure IsValueToken (body : List Char) (v : Literal) : Prop where
  token : IsToken body
  plain : ∀ c ∈ body, IsPlain c
  inert : ∀ c ∈ body, IsInert c
  value : v.WellFormed

theorem NumberText.isValueToken {body : List Char} {v : Literal} (h : NumberText body v) :
    IsValueToken body v := by
  obtain ⟨n, ⟨hsign, hwhole, hpoint, hmark⟩, hvalue⟩ := (numberText_iff body v).mp h
  refine ⟨.word ?_ h.chars, h.plain, fun c hc => ?_, Numeral.value?_wellFormed hwhole.2 hvalue⟩
  · simp [hwhole.1]
  · rcases h.chars c hc with hkey | rfl
    · exact isInert_of_isKeyChar hkey
    · decide

theorem WordText.isValueToken {body : List Char} {v : Literal} (h : WordText body v) :
    IsValueToken body v := by
  have htoken : ∀ {body : List Char}, body ≠ [] → (body.all isKeyChar) = Bool.true → IsToken body :=
    fun hne hall => .word hne fun c hc => .inl (List.all_eq_true.mp hall c hc)
  cases h with
  | null => exact ⟨htoken nofun rfl, isPlain_of_all rfl, isInert_of_all rfl, .null⟩
  | true => exact ⟨htoken nofun rfl, isPlain_of_all rfl, isInert_of_all rfl, .bool _⟩
  | false => exact ⟨htoken nofun rfl, isPlain_of_all rfl, isInert_of_all rfl, .bool _⟩

-- A parser that takes a text exactly where one stands, up to where no key goes on.
structure ReadsText (p : Parser Literal) (text : List Char → Literal → Prop) (ctx : Context)
    (s : State) : Prop where
  sound : (p ctx s).Sat
    (fun v t => ∃ body, text body v ∧ s.Takes body t ∧ continuesKey t.rest = false) True
    fun _ => False
  complete : ∀ {body after : List Char} {v : Literal}, text body v → s.rest = body ++ after →
    continuesKey after = false →
    (p ctx s).Sat (fun v' t => v' = v ∧ s.Takes body t) False fun _ => False

namespace ReadsText

variable {p : Parser Literal} {text : List Char → Literal → Prop} {ctx ctx' : Context}
  {s s' : State}

theorem ne_fault (h : ReadsText p text ctx s) (cause : Fault) (furthest : Furthest) :
    p ctx s ≠ .fault cause furthest := by
  intro hfault
  have hsound := h.sound
  rw [hfault] at hsound
  exact hsound

theorem exists_body {v : Literal} {t : State} (h : ReadsText p text ctx s)
    (hok : p ctx s = .ok v t) :
    ∃ body, text body v ∧ s.Takes body t ∧ continuesKey t.rest = false := by
  have hsound := h.sound
  rw [hok] at hsound
  exact hsound

theorem exists_ok {body after : List Char} {v : Literal} (h : ReadsText p text ctx s)
    (hbody : text body v) (hrest : s.rest = body ++ after) (hends : continuesKey after = false) :
    ∃ t, p ctx s = .ok v t ∧ s.Takes body t := by
  have hcomplete := h.complete hbody hrest hends
  cases hreply : p ctx s with
  | ok v' t =>
      rw [hreply] at hcomplete
      obtain ⟨rfl, htakes⟩ := hcomplete
      exact ⟨t, rfl, htakes⟩
  | mismatch | fault =>
      rw [hreply] at hcomplete
      exact hcomplete.elim

end ReadsText

namespace Tandem

variable {α : Type} {w : Settings} {depth pos : Nat} {e : Reach} {a cs : List Char}
  {p : Parser Literal}

-- What is taken from one text is taken from the other one.
theorem ofReadsText {text : List Char → Literal → Prop}
    (hreads : ∀ ctx s, s.rest = cs ∨ s.rest = stripComments cs → ReadsText p text ctx s)
    (htext : ∀ body v, text body v → IsValueToken body v)
    (hquiet : ∀ ctx s v t, p ctx s = .ok v t → t.furthest = s.furthest)
    (hmissed : ∀ ctx s pos' expected furthest, p ctx s = .mismatch pos' expected furthest →
      Missed s furthest) :
    Tandem (.here pos cs) w depth .closed a a p p Literal.WellFormed Eq where
  fares ctx s s' _ hmeets hs := by
    obtain ⟨rfl, rfl⟩ := hs
    have hleft := hreads ctx s (.inl rfl)
    have hright := hreads ctx s' (.inl hmeets.2)
    cases hreply : p ctx s with
    | ok v t =>
        obtain ⟨body, hbody, htakes, hends⟩ := hleft.exists_body hreply
        obtain ⟨t', hreply', htakes'⟩ :=
          hright.exists_ok hbody (hmeets.2.trans htakes.1) hends
        have hvalue := htext body v hbody
        have hlength := htakes.length_eq
        rw [hreply']
        refine .ok hvalue.value ⟨⟨⟨body, hvalue.token, htakes.1 ▸ .refl⟩, ?_, ?_⟩, ?_⟩ ⟨?_, ?_⟩
        · rw [htakes.2, hlength, Nat.add_assoc]
        · rw [hquiet ctx s v t hreply]
          exact .refl
        · intro pending
          rw [htakes.1]
          exact scans_inert hvalue.inert _ _
        · rw [htakes'.2, htakes.2, hmeets.1]
        · exact htakes'.rest_eq (hmeets.2.trans htakes.1)
    | mismatch pos expected furthest =>
        have hmiss := hmissed ctx s pos expected furthest hreply
        cases hreply' : p ctx s' with
        | ok v t' =>
            obtain ⟨body, hbody, htakes, hends⟩ := hright.exists_body hreply'
            obtain ⟨t, hok, -⟩ := hleft.exists_ok hbody (hmeets.2.symm.trans htakes.1) hends
            cases hreply.symm.trans hok
        | mismatch => exact .mismatch hmiss
        | fault cause furthest => exact absurd hreply' (hright.ne_fault cause furthest)
    | fault cause furthest => exact absurd hreply (hleft.ne_fault cause furthest)
  follows ctx ctx' s t _ hs _ hrest := by
    obtain ⟨rfl, rfl⟩ := hs
    have hleft := hreads ctx s (.inl rfl)
    have hright := hreads ctx' t (.inr hrest)
    cases hreply : p ctx s with
    | ok v s' =>
        obtain ⟨body, hbody, htakes, hends⟩ := hleft.exists_body hreply
        have hvalue := htext body v hbody
        have hds : t.rest = body ++ stripComments s'.rest := by
          rw [hrest, htakes.1, stripComments_append hvalue.plain]
        obtain ⟨t', hreply', htakes'⟩ :=
          hright.exists_ok hbody hds ((continuesKey_stripComments s'.rest).trans hends)
        have hlength := htakes.length_eq
        have hlength' := htakes'.length_eq
        have hpos : 0 < body.length := by
          obtain ⟨_, _, rfl, -⟩ := hvalue.token.exists_cons
          exact Nat.succ_pos _
        rw [hreply']
        refine .ok rfl ⟨htakes'.rest_eq hds, ?_, ?_⟩
        · change s'.rest.length + 1 ≤ _
          omega
        · change t'.rest.length + 1 ≤ _
          omega
    | mismatch =>
        cases hreply' : p ctx' t with
        | ok v t' =>
            obtain ⟨body, hbody, htakes, hends⟩ := hright.exists_body hreply'
            obtain ⟨rest, hs, htail⟩ := exists_rest_of_stripComments (htext body v hbody).plain
              (hrest.symm.trans htakes.1)
            rw [htail, continuesKey_stripComments] at hends
            obtain ⟨s', hok, -⟩ := hleft.exists_ok hbody hs hends
            cases hreply.symm.trans hok
        | mismatch => exact .mismatch
        | fault cause furthest => exact absurd hreply' (hright.ne_fault cause furthest)
    | fault cause furthest => exact absurd hreply (hleft.ne_fault cause furthest)

theorem literalWord :
    Tandem (.here pos cs) w depth .closed a a Parser.literalWord Parser.literalWord
      Literal.WellFormed Eq := by
  refine ofReadsText (fun _ _ _ => ⟨literalWord_sound, literalWord_complete⟩)
    (fun _ _ => WordText.isValueToken) ?_ ?_
  · intro ctx s v t hok
    rw [Parser.literalWord, Parser.ahead_bind] at hok
    generalize Parser.literalWords.find? _ = found at hok
    cases found <;> cases hok
    rfl
  · intro ctx s pos expected furthest hmismatch
    rw [Parser.literalWord, Parser.ahead_bind] at hmismatch
    generalize Parser.literalWords.find? _ = found at hmismatch
    cases found <;> cases hmismatch
    exact missed_record s _

theorem number (hstart : Parser.startsNumber cs = true) :
    Tandem (.here pos cs) w depth .closed a a Parser.number Parser.number Literal.WellFormed
      Eq := by
  refine ofReadsText (fun ctx s hs => ⟨number_sound ?_, number_complete⟩)
    (fun _ _ => NumberText.isValueToken) ?_ ?_
  · rcases hs with hs | hs
    · rw [hs, hstart]
    · rw [hs, startsNumber_stripComments, hstart]
  · intro ctx s v t hok
    rw [Parser.number, Parser.position_bind, Parser.ahead_bind] at hok
    generalize Numeral.scan s.rest = scanned at hok
    dsimp only at hok
    split at hok
    · cases hok
    · generalize scanned.1.value? = value at hok
      cases value <;> cases hok
      rfl
  · intro ctx s pos expected furthest hmismatch
    rw [Parser.number, Parser.position_bind, Parser.ahead_bind] at hmismatch
    generalize Numeral.scan s.rest = scanned at hmismatch
    dsimp only at hmismatch
    split at hmismatch
    · cases hmismatch
      exact missed_record s _
    · generalize scanned.1.value? = value at hmismatch
      cases value <;> cases hmismatch
      exact missed_record s _

theorem memberName : Behaves w depth .closed a a Parser.memberName fun _ => True := by
  refine ofTrivia (e := .closed) fun _ pos cs _ => ahead ?_
  split
  next => exact string.narrow
  next hno =>
    split
    next hstrip =>
      obtain ⟨rest, rfl⟩ := exists_head hstrip (by decide)
      exact absurd rfl (hno rest)
    next => exact (key.keep fun _ _ => value trivial).narrow

theorem member {value value' : Parser Literal}
    (h : Tandem .any w depth .closed a a value value' Literal.WellFormed Eq)
    (seen : List (Text × Literal)) :
    Tandem .any w depth .closed a a (Parser.member value seen) (Parser.member value' seen)
      (fun m => WellFormedMembers seen → WellFormedMembers (seen ++ [m])) Eq := by
  refine ofTokenStart (e := .closed) fun start _ start' _ => narrow ?_
  refine memberName.next fun name _ => ?_
  refine ite (fun _ => refuseFrom rfl start start') fun hfresh => ?_
  refine (symbol (by decide)).next fun _ _ => h.keep fun v hv => Tandem.value fun hseen => ?_
  refine ⟨nodup_map_concat hseen.nodup fun hmem => hfresh ?_, forall_mem_concat hseen.value hv⟩
  obtain ⟨m, hm, heq⟩ := List.mem_map.mp hmem
  exact List.any_eq_true.mpr ⟨m, hm, decide_eq_true heq⟩

-- What is too deep for one reading is too deep for another one in which less may nest.
theorem tooDeep {P : α → Prop} {R : α → α → Prop} :
    Tandem .any w 0 e [] [] (Parser.stop .tooDeep) (Parser.stop .tooDeep) P R where
  fares _ s _ _ _ _ := .fault fun pending => ⟨pending, s.rest, .refl, by rw [Nat.zero_add]⟩
  follows _ _ _ _ _ _ _ _ := .fault

-- What may nest is known for every depth if it is known inside of one more bracket. If less is left
-- of one depth than of the other, less may nest there.
theorem nested (run : Nat → Parser α) (bound : Nat → Nat) {P : α → Prop} {R : α → α → Prop}
    (hzero : Tandem .any w (bound 0) e [] [] (run 0) (run 0) P R)
    (hnext : ∀ m n, Tandem .any w (bound m) e [] [] (run m) (run n) P R →
      Tandem .any w (bound (m + 1)) e [] [] (run (m + 1)) (run (n + 1)) P R)
    (hdeep : run 0 = Parser.stop .tooDeep) {m n : Nat} (hle : n ≤ m)
    (htighter : n < m → w.Tighter) : Tandem .any w (bound m) e [] [] (run m) (run n) P R := by
  induction m generalizing n with
  | zero =>
      obtain rfl := Nat.le_zero.mp hle
      exact hzero
  | succ m ih =>
      cases n with
      | zero =>
          have hsame := hnext m m (ih (Nat.le_refl m) fun h => absurd h (Nat.lt_irrefl m))
          rw [hdeep]
          exact ⟨hsame.fares, fun _ _ _ _ _ _ _ _ => .beyond (htighter (Nat.succ_pos m))⟩
      | succ n =>
          exact hnext m n (ih (Nat.le_of_succ_le_succ hle) fun h => htighter (Nat.succ_lt_succ h))

-- Inside of an array or an object one more bracket is open.
theorem items {m : Nat} {p q : Parser Literal}
    (h : Tandem .any w m .closed [] [] p q Literal.WellFormed Eq) :
    Tandem .any w (m + 1) .closed [']'] [] (Parser.delimited p "]") (Parser.delimited q "]")
      (fun vs => ∀ v ∈ vs, v.WellFormed) Eq :=
  (delimited (symbol_close (c := '[') (by decide) rfl (by decide)) (h.frame [']'])).ofForall₂

theorem members {m : Nat} {p q : Parser Literal}
    (h : Tandem .any w m .closed [] [] p q Literal.WellFormed Eq) :
    Tandem .any w (m + 1) .closed ['}'] [] (Parser.delimitedWith (Parser.member p) "\x7d")
      (Parser.delimitedWith (Parser.member q) "\x7d") WellFormedMembers Eq := by
  refine (delimitedWith (e := .closed) (symbol_close (c := '{') (by decide) rfl (by decide))
    ⟨List.nodup_nil, nofun⟩ fun seen seen' hseen hsame => ?_).ofForall₂
  rw [List.forall₂_eq_eq_eq] at hsame
  exact hsame ▸ (member (h.frame ['}']) seen).imp fun _ hm => hm hseen

theorem literalWithin_succ {m n : Nat}
    (h : Tandem .any w m .closed [] [] (Parser.literalWithin m) (Parser.literalWithin n)
      Literal.WellFormed Eq) :
    Tandem .any w (m + 1) .closed [] [] (Parser.literalWithin (m + 1))
      (Parser.literalWithin (n + 1)) Literal.WellFormed Eq := by
  refine withNewlines true (ofTrivia (e := .closed) fun _ pos cs _ => ahead ?_)
  split
  next => exact (string.keep fun text _ => value (.string text)).narrow
  next =>
    rw [stripComments_plain (by decide)]
    exact ((symbol_open (by decide) rfl (by decide)).next fun _ _ =>
      h.items.keep fun _ hitems => value (.array hitems)).narrow
  next =>
    rw [stripComments_plain (by decide)]
    exact ((symbol_open (by decide) rfl (by decide)).next fun _ _ =>
      h.members.keep fun _ hmembers => value (.object hmembers.nodup hmembers.value)).narrow
  next hno₁ hno₂ hno₃ =>
    have hplain : Tandem (.here pos cs) w (m + 1) .closed [] []
        (if Parser.startsNumber cs then Parser.number else Parser.literalWord)
        (if Parser.startsNumber (stripComments cs) then Parser.number else Parser.literalWord)
        Literal.WellFormed Eq := by
      rw [startsNumber_stripComments]
      exact ite number fun _ => literalWord
    generalize (if Parser.startsNumber cs then Parser.number else Parser.literalWord) = left
      at hplain ⊢
    split
    next hstrip =>
      obtain ⟨rest, rfl⟩ := exists_head hstrip (by decide)
      exact absurd rfl (hno₁ rest)
    next hstrip =>
      obtain ⟨rest, rfl⟩ := exists_head hstrip (by decide)
      exact absurd rfl (hno₂ rest)
    next hstrip =>
      obtain ⟨rest, rfl⟩ := exists_head hstrip (by decide)
      exact absurd rfl (hno₃ rest)
    next => exact hplain

theorem literalWithin {m n : Nat} (hle : n ≤ m) (htighter : n < m → w.Tighter) :
    Tandem .any w m .closed [] [] (Parser.literalWithin m) (Parser.literalWithin n)
      Literal.WellFormed Eq :=
  nested Parser.literalWithin id tooDeep (fun _ _ => literalWithin_succ) rfl hle htighter

theorem literalWithin_same (m : Nat) :
    Behaves w m .closed [] [] (Parser.literalWithin m) Literal.WellFormed :=
  literalWithin (Nat.le_refl m) fun h => absurd h (Nat.lt_irrefl m)

-- Values may nest as deep as the setting says, whatever is open around them.
theorem literal : Behaves w w.left.limit .closed a a Parser.literal Literal.WellFormed where
  fares ctx s s' hw hmeets hs := by
    have hlimit : ctx.limit = w.left.limit := congrArg Setting.limit hw
    rw [Parser.literal, Parser.literal, hlimit]
    exact (((literalWithin w.le id).frame a).shallower (Nat.le_add_right _ _)).fares hw hmeets hs
  follows ctx ctx' s t hctx hs ht hrest := by
    have hlimit : ctx.limit = w.left.limit := congrArg Setting.limit hctx.left
    have hlimit' : ctx'.limit = w.right.limit := congrArg Setting.limit hctx.right
    rw [Parser.literal, Parser.literal, hlimit, hlimit']
    exact (literalWithin w.le id).follows hctx hs ht hrest

end Tandem

theorem Tracks.literalWithin (depth : Nat) : Tracks .closed (Parser.literalWithin depth) :=
  .ofWithin fun _ => .literalWithin_same depth

theorem Tracks.member (depth : Nat) (seen : List (Text × Literal)) :
    Tracks .closed (Parser.member (Parser.literalWithin depth) seen) :=
  .ofWithin fun _ => (Tandem.literalWithin_same depth).member seen

end CardLore
