import CardLore.Proofs.Grammar.Sound

namespace CardLore

section

variable {α : Type} {item : List α → Parser α} {close : String} {c : Char} {ctx : Context}
  {E : List Char → α → Prop} {I : List α → Prop} {P : List α → State → Prop} {M : Prop}
  {F : Fault → Prop}

-- An element with trivia and a separating character behind it is read, unless it nests too deep.
def ReadsElements (E : List Char → α → Prop) (I : List α → Prop) (item : List α → Parser α)
    (ctx : Context) : Prop :=
  ∀ seen elem v gap d after s, I (seen ++ [v]) → E elem v → IsTrivia gap → isKeyChar d = false →
    s.rest = elem ++ (gap ++ d :: after) →
    (item seen ctx s).Sat (fun v' t => v' = v ∧ s.Takes elem t) False (· = .tooDeep)

-- A list is read up to any element. What follows then follows for the whole list.
theorem delimitedFrom_reaches (hclose : close.toList = [c]) (hc : IsSolid c) (hcomma : ',' ≠ c)
    (hctx : ctx.newlines = true) (hitem : ReadsElements E I item ctx)
    (hI : ∀ vs v, I (vs ++ [v]) → I vs) (hF : F .tooDeep) {before : List Char} {seen : List α}
    (h : Listed E before seen) (hseen : I seen) {after : List Char} {start : State} {bound : Nat}
    (hrest : start.rest = before ++ after) (hbound : start.rest.length < bound)
    (hnext : ∀ s bound', start.Takes before s → s.rest.length < bound' →
      (Parser.delimitedFrom item close bound' seen ctx s).Sat P M F) :
    (Parser.delimitedFrom item close bound [] ctx start).Sat P M F := by
  induction h generalizing after with
  | nil => exact hnext start bound (.of_eq rfl rfl) hbound
  | @concat before elem gap seen v h helem hgap ih =>
      have hsplit : start.rest = before ++ (elem ++ (gap ++ ',' :: after)) := by simp [hrest]
      refine ih (hI seen v hseen) hsplit ?_
      intro s bound' htakes hbound'
      have hs := htakes.rest_eq hsplit
      cases bound' with
      | zero => exact absurd hbound' (Nat.not_lt_zero _)
      | succ bound' =>
          refine sat_bind_of (hitem seen elem v gap ',' after s hseen helem hgap rfl hs) False.elim
            (fun cause hcause => hcause ▸ hF) ?_
          rintro v t ⟨rfl, helem'⟩
          have ht := helem'.rest_eq hs
          refine sat_bind_of (trySymbol_absent hclose hc hctx ?_) False.elim (fun _ h => h.elim) ?_
          · rw [ht]
            exact not_shows hgap (by decide) hc hcomma
          · rintro _ u ⟨rfl, hsame⟩
            have hu : u.rest = gap ++ ',' :: after := hsame.rest_eq ht
            refine sat_bind_of (symbol_shown (c := ',') rfl (by decide) hctx hgap hu) False.elim
              (fun _ h => h.elim) fun _ w hsymbol => ?_
            have hread := (helem'.trans hsame).trans hsymbol
            refine hnext w bound' ?_ ?_
            · simpa only [List.append_assoc, List.append_nil] using htakes.trans hread
            · have hlength := hread.length_eq
              simp only [List.length_append, List.length_singleton] at hlength
              omega

-- The list does not close before its first element.
theorem not_shows_listed (hE : ∀ elem v after, E elem v → ¬ Shows c (elem ++ after))
    {before after : List Char} {seen : List α} (h : Listed E before seen)
    (hopen : before = [] → ¬ Shows c after) : ¬ Shows c (before ++ after) := by
  induction h generalizing after with
  | nil => exact hopen rfl
  | @concat before elem gap seen v _ helem _ ih =>
      have hfirst : ¬ Shows c (before ++ (elem ++ (gap ++ ',' :: after))) :=
        ih fun _ => hE elem v _ helem
      simpa using hfirst

theorem delimitedWith_reaches (hclose : close.toList = [c]) (hc : IsSolid c) (hcomma : ',' ≠ c)
    (hitem : ReadsElements E I item { ctx with newlines := true })
    (hI : ∀ vs v, I (vs ++ [v]) → I vs) (hE : ∀ elem v after, E elem v → ¬ Shows c (elem ++ after))
    (hF : F .tooDeep) {before : List Char} {seen : List α} (h : Listed E before seen)
    (hseen : I seen) {after : List Char} {start : State} (hrest : start.rest = before ++ after)
    (hopen : before = [] → ¬ Shows c after)
    (hnext : ∀ s bound, start.Takes before s →
      (Parser.delimitedFrom item close (bound + 1) seen { ctx with newlines := true } s).Sat P M F) :
    (Parser.delimitedWith item close ctx start).Sat P M F := by
  have habsent : ¬ Shows c start.rest := hrest ▸ not_shows_listed hE h hopen
  refine sat_bind_of (trySymbol_absent hclose hc rfl habsent) False.elim (fun _ h => h.elim) ?_
  rintro _ t ⟨rfl, hsame⟩
  have ht : t.rest = before ++ after := hsame.rest_eq hrest
  refine delimitedFrom_reaches hclose hc hcomma rfl hitem hI hF h hseen ht (Nat.lt_succ_self _) ?_
  intro s bound htakes hbound
  cases bound with
  | zero => exact absurd hbound (Nat.not_lt_zero _)
  | succ bound => exact hnext s bound (hsame.trans htakes)

theorem delimitedWith_complete (hclose : close.toList = [c]) (hc : IsSolid c) (hcomma : ',' ≠ c)
    (hkey : isKeyChar c = false) (hitem : ReadsElements E I item { ctx with newlines := true })
    (hI : ∀ vs v, I (vs ++ [v]) → I vs) (hE : ∀ elem v after, E elem v → ¬ Shows c (elem ++ after))
    {inside after : List Char} {vs : List α} {start : State} (h : Bracketed E inside vs)
    (hvs : I vs) (hrest : start.rest = inside ++ c :: after) :
    (Parser.delimitedWith item close ctx start).Sat
      (fun vs' t => vs' = vs ∧ start.Takes (inside ++ [c]) t) False (· = .tooDeep) := by
  cases h with
  | empty hgap =>
      refine sat_bind_of (trySymbol_shown hclose hc rfl hgap hrest) False.elim
        (fun _ h => h.elim) ?_
      rintro _ t ⟨rfl, htakes⟩
      exact sat_pure ⟨rfl, htakes⟩
  | @elements before elem gap seen v h helem hgap =>
      have hsplit : start.rest = before ++ (elem ++ (gap ++ c :: after)) := by simp [hrest]
      refine delimitedWith_reaches (F := (· = .tooDeep)) hclose hc hcomma hitem hI hE rfl h
        (hI seen v hvs) hsplit (fun _ => hE elem v _ helem) ?_
      intro s bound htakes
      have hs := htakes.rest_eq hsplit
      refine sat_bind (hitem seen elem v gap c after s hvs helem hgap hkey hs) ?_
      rintro v t ⟨rfl, helem'⟩
      refine sat_bind_of (trySymbol_shown hclose hc rfl hgap (helem'.rest_eq hs)) id
        (fun _ h => h.elim) ?_
      rintro _ u ⟨rfl, hsymbol⟩
      refine sat_pure ⟨rfl, ?_⟩
      simpa only [List.append_assoc] using htakes.trans (helem'.trans hsymbol)

end

-- The parser finds every literal, every repeated name and all nesting that is too deep.
structure IsComplete (depth : Nat) (value : Parser Literal) : Prop where
  accepts {ctx : Context} {s : State} {lead body after : List Char} {v : Literal}
    (hlead : IsTrivia lead) (hbody : Derives body v) (hends : EndsBefore v after)
    (hrest : s.rest = lead ++ (body ++ after)) :
    (value ctx s).Sat (fun v' t => v' = v ∧ s.Takes (lead ++ body) t) False (· = .tooDeep)
  refuses {ctx : Context} {s : State} {front cs after : List Char} {name : Text}
    (h : Repeats front cs name after) (hrest : s.rest = front ++ (cs ++ after)) :
    (value ctx s).Sat (fun _ _ => False) False fun cause => cause = .tooDeep ∨
      cause = .refused ⟨.repeatedMember name, ctx.index.span ctx.file (s.pos + front.length)
        (s.pos + front.length + cs.length)⟩
  stops {ctx : Context} {s : State} (h : NestsTo depth s.rest) :
    (value ctx s).Sat (fun _ _ => False) False (· = .tooDeep)

theorem endsBefore_of_not_key (v : Literal) {after : List Char} (h : continuesKey after = false) :
    EndsBefore v after := by
  cases v <;> first | exact h | trivial

-- The text starts with a character that opens no string, no array and no object.
def StartsPlain (body : List Char) : Prop :=
  ∃ c tail, body = c :: tail ∧ IsSolid c ∧ c ∉ ['"', '[', '{']

theorem WordText.startsPlain {body : List Char} {v : Literal} (h : WordText body v) :
    StartsPlain body := by
  cases h <;> exact ⟨_, _, rfl, by decide, by decide⟩

theorem NumberText.startsPlain {body : List Char} {v : Literal} (h : NumberText body v) :
    StartsPlain body := by
  obtain ⟨c, tail, rfl, hc⟩ := h.head
  refine ⟨c, tail, rfl, ?_⟩
  rcases hc with hc | rfl | rfl
  · refine ⟨isSolid_of_isKeyChar (isKeyChar_of_isDigit hc), ?_⟩
    simp only [List.mem_cons, List.not_mem_nil, or_false]
    rintro (rfl | rfl | rfl) <;> cases hc
  · decide
  · decide

theorem not_startsNumber_word {body after : List Char} {v : Literal} (h : WordText body v) :
    ¬ Parser.startsNumber (body ++ after) = true := by
  cases h <;> simp [Parser.startsNumber, Parser.leadingSign?]

theorem not_shows_item (elem : List Char) (v : Literal) (after : List Char)
    (h : ItemText Derives elem v) : ¬ Shows ']' (elem ++ after) := by
  obtain ⟨hlead, hbody⟩ := h
  obtain ⟨c, tail, rfl, hc, hne⟩ := hbody.head
  rw [List.append_assoc]
  exact not_shows hlead hc (by decide) hne

theorem not_shows_name {lead cs after rest : List Char} {name : Text} (hlead : IsTrivia lead)
    (hname : NameText after cs name) : ¬ Shows '}' (lead ++ (cs ++ rest)) := by
  obtain ⟨c, tail, rfl, hc, hne⟩ := hname.head
  exact not_shows hlead hc (by decide) hne

theorem not_shows_member (elem : List Char) (m : Text × Literal) (after : List Char)
    (h : MemberText Derives elem m) : ¬ Shows '}' (elem ++ after) := by
  obtain ⟨hlead, hname, -, -⟩ := h
  rw [List.append_assoc, List.append_assoc]
  exact not_shows_name hlead hname

theorem nodup_of_concat (members : List (Text × Literal)) (m : Text × Literal)
    (h : ((members ++ [m]).map (·.1)).Nodup) : (members.map (·.1)).Nodup :=
  h.sublist ((List.sublist_append_left members [m]).map _)

theorem not_any_of_nodup {seen : List (Text × Literal)} {name : Text} {v : Literal}
    (h : ((seen ++ [(name, v)]).map (·.1)).Nodup) : ¬ seen.any (·.1 = name) = true := by
  rw [List.map_append, List.map_singleton, List.nodup_append] at h
  exact fun hseen => h.2.2 name (any_name_iff.mp hseen) name List.mem_cons_self rfl

-- A parser that never gives a value leaves nothing for what follows it.
theorem sat_bind_never {α β : Type} {p : Parser α} {f : α → Parser β} {ctx : Context} {s : State}
    {M : Prop} {F : Fault → Prop} {Q : β → State → Prop}
    (hp : (p ctx s).Sat (fun _ _ => False) M F) : ((p >>= f) ctx s).Sat Q M F :=
  sat_bind hp fun _ _ h => h.elim

section

variable {depth : Nat} {value : Parser Literal} {ctx : Context}

theorem readsElements_item (hvalue : IsComplete depth value) :
    ReadsElements (ItemText Derives) (fun _ => True) (fun _ => value) ctx := by
  rintro seen _ v gap d after s - ⟨hlead, hbody⟩ hgap hd hrest
  have hends : continuesKey (gap ++ d :: after) = false := continuesKey_trivia hgap hd
  refine hvalue.accepts hlead hbody (endsBefore_of_not_key v hends) ?_
  rw [hrest, List.append_assoc]

-- A name of a member is read, and what follows it is then decided by whether it is new.
theorem member_named {Q : Text × Literal → State → Prop} {M : Prop} {F : Fault → Prop}
    (hctx : ctx.newlines = true) {seen : List (Text × Literal)} {lead cs after : List Char}
    {name : Text} {s : State} (hlead : IsTrivia lead) (hname : NameText after cs name)
    (hrest : s.rest = lead ++ (cs ++ after))
    (hnext : ∀ t, s.Takes (lead ++ cs) t →
      ((if seen.any (·.1 = name) then
          Parser.refuseFrom (.repeatedMember name) (s.pos + lead.length)
        else do
          Parser.symbol ":"
          return (name, ← value) : Parser (Text × Literal)) ctx t).Sat Q M F) :
    (Parser.member value seen ctx s).Sat Q M F := by
  obtain ⟨c, tail, hcs, hc, -⟩ := hname.head
  have hfront : s.rest = lead ++ c :: (tail ++ after) := by rw [hrest, hcs, List.cons_append]
  rw [Parser.member, Parser.tokenStart, Parser.bind_assoc]
  refine sat_skipTrivia_solid hctx hlead hc hfront fun crossed t htakes _ => ?_
  have ht : t.rest = cs ++ after := htakes.rest_eq hrest
  rw [Parser.position_bind]
  refine sat_bind_of (memberName_complete hctx .nil hname ht) False.elim (fun _ h => h.elim) ?_
  rintro _ u ⟨rfl, hnamed⟩
  rw [htakes.2]
  exact hnext u (htakes.trans hnamed)

-- Behind a new name and a colon, the value is looked for.
theorem member_reaches {Q : Text × Literal → State → Prop} {M : Prop} {F : Fault → Prop}
    (hctx : ctx.newlines = true) {seen : List (Text × Literal)} {lead cs colon after : List Char}
    {name : Text} {s : State} (hlead : IsTrivia lead) (hname : NameText (colon ++ [':']) cs name)
    (hcolon : IsTrivia colon) (hfresh : ¬ seen.any (·.1 = name) = true)
    (hrest : s.rest = lead ++ (cs ++ (colon ++ ':' :: after)))
    (hnext : ∀ t, s.Takes (lead ++ (cs ++ (colon ++ [':']))) t →
      (value ctx t).Sat (fun v u => Q (name, v) u) M F) :
    (Parser.member value seen ctx s).Sat Q M F := by
  refine member_named hctx hlead ((NameText.colon hcolon after).mpr hname) hrest fun t htakes => ?_
  rw [if_neg hfresh]
  have ht : t.rest = colon ++ ':' :: after := by
    refine htakes.rest_eq ?_
    rw [hrest, List.append_assoc]
  refine sat_bind_of (symbol_shown (c := ':') rfl (by decide) hctx hcolon ht) False.elim
    (fun _ h => h.elim) fun _ u hsymbol => ?_
  refine sat_bind (hnext u ?_) fun v w h => sat_pure h
  simpa only [List.append_assoc] using htakes.trans hsymbol

theorem readsElements_member (hvalue : IsComplete depth value) (hctx : ctx.newlines = true) :
    ReadsElements (MemberText Derives) (fun ms => (ms.map (·.1)).Nodup) (Parser.member value)
      ctx := by
  rintro seen _ _ gap d after s hnames ⟨hlead, hname, hcolon, ⟨hlead', hbody⟩⟩ hgap hd hrest
  rename_i lead cs colon name v lead' body
  have hends : continuesKey (gap ++ d :: after) = false := continuesKey_trivia hgap hd
  have hs : s.rest = lead ++ (cs ++ (colon ++ ':' :: (lead' ++ (body ++ (gap ++ d :: after))))) := by
    simp [hrest]
  refine member_reaches hctx hlead hname hcolon (not_any_of_nodup hnames) hs fun t htakes => ?_
  have ht : t.rest = lead' ++ (body ++ (gap ++ d :: after)) := htakes.rest_eq (by simp [hs])
  refine (hvalue.accepts hlead' hbody (endsBefore_of_not_key v hends) ht).mono ?_ id fun _ h => h
  rintro _ u ⟨rfl, hvalued⟩
  refine ⟨rfl, ?_⟩
  simpa only [List.append_assoc, List.singleton_append] using htakes.trans hvalued

end

section

variable {depth : Nat} {ctx : Context} {s : State} {P : Literal → State → Prop} {M : Prop}
  {F : Fault → Prop} {lead after : List Char}

theorem literalWithin_array (hlead : IsTrivia lead) (hrest : s.rest = lead ++ '[' :: after)
    (h : ∀ t, s.Takes (lead ++ ['[']) t →
      (Parser.delimitedWith (fun _ => Parser.literalWithin depth) "]"
        { ctx with newlines := true } t).Sat (fun items u => P (.array items) u) M F) :
    (Parser.literalWithin (depth + 1) ctx s).Sat P M F := by
  have hctx : ({ ctx with newlines := true } : Context).newlines = true := rfl
  refine sat_skipTrivia_solid hctx hlead (by decide : IsSolid '[') hrest fun _ t htakes ht => ?_
  rw [Parser.ahead_bind, ht]
  refine sat_bind_of (symbol_shown (c := '[') rfl (by decide) rfl .nil ht) False.elim
    (fun _ h => h.elim) fun _ u hopen => ?_
  exact sat_bind (h u (htakes.trans hopen)) fun items w h => sat_pure h

theorem literalWithin_object (hlead : IsTrivia lead) (hrest : s.rest = lead ++ '{' :: after)
    (h : ∀ t, s.Takes (lead ++ ['{']) t →
      (Parser.delimitedWith (Parser.member (Parser.literalWithin depth)) "\x7d"
        { ctx with newlines := true } t).Sat (fun members u => P (.object members) u) M F) :
    (Parser.literalWithin (depth + 1) ctx s).Sat P M F := by
  have hctx : ({ ctx with newlines := true } : Context).newlines = true := rfl
  refine sat_skipTrivia_solid hctx hlead (by decide : IsSolid '{') hrest fun _ t htakes ht => ?_
  rw [Parser.ahead_bind, ht]
  refine sat_bind_of (symbol_shown (c := '{') rfl (by decide) rfl .nil ht) False.elim
    (fun _ h => h.elim) fun _ u hopen => ?_
  exact sat_bind (h u (htakes.trans hopen)) fun members w h => sat_pure h

-- What starts with no quote and no bracket is a number or a word.
theorem literalWithin_plain {body : List Char} (hlead : IsTrivia lead) (hbody : StartsPlain body)
    (hrest : s.rest = lead ++ (body ++ after))
    (h : ∀ t, s.Takes lead t → t.rest = body ++ after →
      ((if Parser.startsNumber (body ++ after) then Parser.number else Parser.literalWord :
        Parser Literal) { ctx with newlines := true } t).Sat P M F) :
    (Parser.literalWithin (depth + 1) ctx s).Sat P M F := by
  have hctx : ({ ctx with newlines := true } : Context).newlines = true := rfl
  obtain ⟨c, tail, hcs, hc, hplain⟩ := hbody
  have hs : s.rest = lead ++ c :: (tail ++ after) := by rw [hrest, hcs, List.cons_append]
  refine sat_skipTrivia_solid hctx hlead hc hs fun _ t htakes ht => ?_
  have hall : t.rest = body ++ after := htakes.rest_eq hrest
  rw [Parser.ahead_bind]
  generalize hfront : t.rest = front at ht
  split
  next => exact absurd (List.cons.inj ht).1.symm fun h => hplain (by simp [h])
  next => exact absurd (List.cons.inj ht).1.symm fun h => hplain (by simp [h])
  next => exact absurd (List.cons.inj ht).1.symm fun h => hplain (by simp [h])
  next =>
    rw [← hfront, hall]
    exact h t htakes hall

-- A literal inside of a literal is reached, and if it fails for good then so does the whole.
theorem literalWithin_enters (ih : IsComplete depth (Parser.literalWithin depth))
    {inner : List Char} (henters : Enters lead inner) (hrest : s.rest = lead ++ inner)
    (hF : F .tooDeep)
    (hinner : ∀ t, s.Takes lead t →
      (Parser.literalWithin depth { ctx with newlines := true } t).Sat (fun _ _ => False) False F) :
    (Parser.literalWithin (depth + 1) ctx s).Sat (fun _ _ => False) False F := by
  cases henters with
  | @item lead before _ seen hlead hbefore hopen =>
      have hs : s.rest = lead ++ '[' :: (before ++ inner) := by simp [hrest]
      refine literalWithin_array hlead hs fun t htakes => ?_
      have ht : t.rest = before ++ inner := htakes.rest_eq (by simp [hs])
      refine delimitedWith_reaches (c := ']') rfl (by decide) (by decide) (readsElements_item ih)
        (fun _ _ _ => trivial) not_shows_item hF hbefore trivial ht hopen fun u bound hbefore' => ?_
      refine sat_bind_never (hinner u ?_)
      simpa only [List.append_assoc, List.singleton_append] using htakes.trans hbefore'
  | @value lead before gap cs colon _ seen name hlead hbefore hnames hgap hname hfresh hcolon =>
      have hs : s.rest =
          lead ++ '{' :: (before ++ (gap ++ (cs ++ (colon ++ ':' :: inner)))) := by simp [hrest]
      refine literalWithin_object hlead hs fun t htakes => ?_
      have ht : t.rest = before ++ (gap ++ (cs ++ (colon ++ ':' :: inner))) :=
        htakes.rest_eq (by simp [hs])
      refine delimitedWith_reaches (c := '}') rfl (by decide) (by decide)
        (readsElements_member ih rfl) nodup_of_concat not_shows_member hF hbefore hnames ht
        (fun _ => not_shows_name hgap hname) fun u bound hbefore' => ?_
      have hnew : ¬ seen.any (·.1 = name) = true := fun h => hfresh (any_name_iff.mp h)
      refine sat_bind_never (member_reaches rfl hgap hname hcolon hnew (hbefore'.rest_eq ht) ?_)
      intro w hvalue
      refine hinner w ?_
      simpa only [List.append_assoc, List.nil_append, List.cons_append] using
        htakes.trans (hbefore'.trans hvalue)

theorem literalWithin_accepts (ih : IsComplete depth (Parser.literalWithin depth))
    {body : List Char} {v : Literal} (hlead : IsTrivia lead) (hbody : Derives body v)
    (hends : EndsBefore v after) (hrest : s.rest = lead ++ (body ++ after)) :
    (Parser.literalWithin (depth + 1) ctx s).Sat (fun v' t => v' = v ∧ s.Takes (lead ++ body) t)
      False (· = .tooDeep) := by
  have hctx : ({ ctx with newlines := true } : Context).newlines = true := rfl
  cases hbody with
  | word h =>
      have hnext : continuesKey after = false := (endsBefore_of_word h).mp hends
      refine literalWithin_plain hlead h.startsPlain hrest fun t htakes ht => ?_
      rw [if_neg (not_startsNumber_word h)]
      refine (literalWord_complete h ht hnext).mono ?_ id fun _ h => h.elim
      rintro _ u ⟨rfl, hword⟩
      exact ⟨rfl, htakes.trans hword⟩
  | number h =>
      have hnext : continuesKey after = false := (endsBefore_of_number h).mp hends
      obtain ⟨n, hn, -⟩ := (numberText_iff body v).mp h
      refine literalWithin_plain hlead h.startsPlain hrest fun t htakes ht => ?_
      rw [if_pos (startsNumber_numeral hn)]
      refine (number_complete h ht hnext).mono ?_ id fun _ h => h.elim
      rintro _ u ⟨rfl, hnumber⟩
      exact ⟨rfl, htakes.trans hnumber⟩
  | @string body text h =>
      have hs : s.rest = lead ++ '"' :: (body ++ '"' :: after) := by simp [hrest]
      refine sat_skipTrivia_solid hctx hlead (by decide : IsSolid '"') hs fun _ t htakes ht => ?_
      rw [Parser.ahead_bind, ht]
      refine sat_bind_of (string_complete rfl .nil h ht) id (fun _ h => h.elim) ?_
      rintro _ u ⟨rfl, hquoted⟩
      exact sat_pure ⟨rfl, htakes.trans hquoted⟩
  | @array inside items h =>
      have hs : s.rest = lead ++ '[' :: (inside ++ ']' :: after) := by simp [hrest]
      refine literalWithin_array hlead hs fun t htakes => ?_
      have ht : t.rest = inside ++ ']' :: after := htakes.rest_eq (by simp [hs])
      refine (delimitedWith_complete (c := ']') rfl (by decide) (by decide) rfl
        (readsElements_item ih) (fun _ _ _ => trivial) not_shows_item h trivial ht).mono ?_ id
        fun _ h => h
      rintro _ u ⟨rfl, hclose⟩
      refine ⟨rfl, ?_⟩
      simpa only [List.append_assoc, List.singleton_append] using htakes.trans hclose
  | @object inside members h hnames =>
      have hs : s.rest = lead ++ '{' :: (inside ++ '}' :: after) := by simp [hrest]
      refine literalWithin_object hlead hs fun t htakes => ?_
      have ht : t.rest = inside ++ '}' :: after := htakes.rest_eq (by simp [hs])
      refine (delimitedWith_complete (c := '}') rfl (by decide) (by decide) rfl
        (readsElements_member ih rfl) nodup_of_concat not_shows_member h hnames ht).mono ?_ id
        fun _ h => h
      rintro _ u ⟨rfl, hclose⟩
      refine ⟨rfl, ?_⟩
      simpa only [List.append_assoc, List.singleton_append] using htakes.trans hclose

end

theorem literalWithin_complete (depth : Nat) : IsComplete depth (Parser.literalWithin depth) := by
  induction depth with
  | zero => exact ⟨fun _ _ _ _ => rfl, fun _ _ => .inl rfl, fun _ => rfl⟩
  | succ depth ih =>
      refine ⟨literalWithin_accepts ih, ?_, ?_⟩
      · intro ctx s front cs after name h hrest
        cases h with
        | @here lead before gap _ _ seen _ hlead hbefore hnames hgap hname hseen =>
            have hs : s.rest = lead ++ '{' :: (before ++ (gap ++ (cs ++ after))) := by simp [hrest]
            refine literalWithin_object hlead hs fun t htakes => ?_
            have ht : t.rest = before ++ (gap ++ (cs ++ after)) := htakes.rest_eq (by simp [hs])
            refine delimitedWith_reaches (c := '}') rfl (by decide) (by decide)
              (readsElements_member ih rfl) nodup_of_concat not_shows_member (.inl rfl) hbefore
              hnames ht (fun _ => not_shows_name hgap hname) fun u bound hbefore' => ?_
            refine sat_bind_never (member_named rfl hgap hname (hbefore'.rest_eq ht) ?_)
            intro w hnamed
            rw [if_pos (any_name_iff.mpr hseen)]
            have hu : u.pos = s.pos + (lead.length + 1 + before.length) := by
              rw [hbefore'.2, htakes.2, List.length_append, Nat.add_assoc]
              rfl
            have hfront : (lead ++ '{' :: (before ++ gap)).length =
                lead.length + 1 + before.length + gap.length := by
              simp
              omega
            refine .inr ?_
            change Fault.refused ⟨_, ctx.index.span ctx.file (u.pos + gap.length) w.pos⟩ = _
            rw [hnamed.2, hu, hfront, List.length_append]
            simp only [Nat.add_assoc]
        | @inside lead front _ _ _ henters h =>
            have hs : s.rest = lead ++ (front ++ (cs ++ after)) := by simp [hrest]
            refine literalWithin_enters ih henters hs (.inl rfl) fun t htakes => ?_
            rw [List.length_append, ← Nat.add_assoc, ← htakes.2]
            exact ih.refuses h (htakes.rest_eq hs)
      · rintro ctx s ⟨lead, inner, hrest, henters, hdeep⟩
        refine literalWithin_enters ih henters hrest rfl fun t htakes => ih.stops ?_
        rwa [htakes.rest_eq hrest]

end CardLore
