import CardLore.Proofs.Comments.Strip
import CardLore.Proofs.Course.Basic
import Mathlib.Data.List.Forall2

namespace CardLore

-- Every place that the refusal points to is in the file.
def Refusal.IsIn (file : String) (r : Refusal) : Prop :=
  ∀ label ∈ r.diagnostic.labels, label.span.file = file

theorem Refusal.isIn_of_span {file : String} {offence : Offence} {span : Span}
    (hspan : span.file = file) (hearlier : offence.earlier? = none) :
    (⟨offence, span⟩ : Refusal).IsIn file := by
  intro label hlabel
  rw [Refusal.diagnostic, hearlier] at hlabel
  cases List.mem_singleton.mp hlabel
  exact hspan

-- If the result is a refusal, it is one in the file.
def RefusesIn {α : Type} (file : String) (result : Except Refusal α) : Prop :=
  ∀ r, result = .error r → r.IsIn file

-- The fault is a refusal in the file; or, from a place where the brackets `front` have to be
-- closed, one comes to a place where `depth` brackets are open.
def FaultIn (file : String) (depth : Nat) (front cs : List Char) : Fault → Prop
  | .refused r => r.IsIn file
  | .tooDeep => ∀ pending, ∃ pending' rest, Scans (front ++ pending) cs pending' rest ∧
      depth + pending.length ≤ pending'.length

-- Two states at one place of the text.
def State.Meets (s t : State) : Prop :=
  t.pos = s.pos ∧ t.rest = s.rest

-- From `s` one gets to `t`, and the brackets to be closed go from `front` to `back`.
structure Gets (e : Reach) (front back : List Char) (s t : State) : Prop extends Course e s t where
  scans : ∀ pending, Scans (front ++ pending) s.rest (back ++ pending) t.rest

-- The furthest mismatch was noted on the way, and none of what is left in `s` was read before it.
structure Missed (s : State) (furthest : Furthest) : Prop where
  noted : Furthest.Noted (s.pos + s.rest.length) s.furthest furthest
  reaches : furthest.Reaches s.pos

section

variable {file : String} {depth : Nat} {first second third : List Char} {e e' e'' : Reach}
  {s t u : State} {furthest : Furthest} {cause : Fault}

theorem State.Meets.refl (s : State) : s.Meets s :=
  ⟨rfl, rfl⟩

theorem Gets.refl (s : State) : Gets .held first first s s :=
  ⟨.refl s, fun _ => .refl⟩

theorem Gets.trans (h : Gets e first second s t) (h' : Gets e' second third t u) :
    Gets (e.andThen e') first third s u :=
  ⟨h.toCourse.trans h'.toCourse, fun pending => (h.scans pending).trans (h'.scans pending)⟩

theorem Gets.mono (h : Gets e first second s t) (hle : e.Le e') : Gets e' first second s t :=
  ⟨⟨hle.holds h.reach, h.position, h.noted⟩, h.scans⟩

-- A mismatch where a parser was started.
theorem missed_record (s : State) (expected : String) :
    Missed s (s.furthest.record s.pos expected) :=
  ⟨s.furthest.noted_record expected (Nat.le_add_right _ _),
    s.furthest.reaches_record s.pos expected⟩

-- What is missed later on is missed from an earlier place as well.
theorem Missed.after (h : Missed t furthest) (hcourse : Course e s t) : Missed s furthest := by
  obtain ⟨pos, hpos, hle⟩ := h.reaches
  exact ⟨hcourse.noted.trans (hcourse.position ▸ h.noted), pos, hpos, hcourse.pos_le.trans hle⟩

-- After a mismatch one is where one was, with the mismatch noted.
theorem Gets.back (h : Gets e first second { s with furthest } t) (hmissed : Missed s furthest) :
    Gets e first second s t :=
  ⟨⟨h.reach, h.position, hmissed.noted.trans h.noted⟩, h.scans⟩

-- What a later part finds too deep lies behind the part before it.
theorem FaultIn.after (h : FaultIn file depth second t.rest cause)
    (hgets : Gets e first second s t) : FaultIn file depth first s.rest cause := by
  cases cause with
  | refused r => exact h
  | tooDeep =>
      intro pending
      obtain ⟨pending', rest, hscans, hdeep⟩ := h pending
      exact ⟨pending', rest, (hgets.scans pending).trans hscans, hdeep⟩

end

-- What is left of both texts goes from `cs` and `ds` to `cs'` and `ds'`, by at least `gain`
-- characters each.
structure Advances (gain : Nat) (cs ds cs' ds' : List Char) : Prop where
  stripped : ds' = stripComments cs'
  left : cs'.length + gain ≤ cs.length
  right : ds'.length + gain ≤ ds.length

namespace Advances

variable {m n : Nat} {cs ds cs' ds' cs'' ds'' : List Char}

theorem refl (h : ds = stripComments cs) : Advances 0 cs ds cs ds :=
  ⟨h, Nat.le_refl _, Nat.le_refl _⟩

theorem trans (h : Advances m cs ds cs' ds') (h' : Advances n cs' ds' cs'' ds'') :
    Advances (m + n) cs ds cs'' ds'' := by
  obtain ⟨-, hleft, hright⟩ := h
  obtain ⟨hstripped, hleft', hright'⟩ := h'
  exact ⟨hstripped, by omega, by omega⟩

theorem weaken (h : Advances m cs ds cs' ds') (hle : n ≤ m) : Advances n cs ds cs' ds' := by
  obtain ⟨hstripped, hleft, hright⟩ := h
  exact ⟨hstripped, by omega, by omega⟩

end Advances

-- Two settings, of which the second one lets nothing nest deeper than the first one does.
structure Settings where
  left : Setting
  right : Setting
  le : right.limit ≤ left.limit

namespace Settings

-- The second setting lets less nest than the first one.
def Tighter (w : Settings) : Prop :=
  w.right.limit < w.left.limit

-- One setting twice.
def twice (w : Setting) : Settings :=
  ⟨w, w, Nat.le_refl _⟩

-- Two readings in the two settings, which treat line ends alike.
structure Aligned (w : Settings) (ctx ctx' : Context) : Prop where
  left : ctx.toSetting = w.left
  right : ctx'.toSetting = w.right
  newlines : ctx'.newlines = ctx.newlines

end Settings

section

variable {α : Type}

-- What a parser that was started in `s` replies, and what it replies from another state at this
-- place: the same values, which have `P`, and the same faults.
inductive Fares (w : Setting) (depth : Nat) (e : Reach) (front back : List Char) (P : α → Prop)
    (s : State) : Reply α → Reply α → Prop
  | ok {v : α} {t t' : State} (hv : P v) (hgets : Gets e front back s t) (hmeets : t.Meets t') :
      Fares w depth e front back P s (.ok v t) (.ok v t')
  | mismatch {pos pos' : Nat} {expected expected' : String} {furthest furthest' : Furthest}
      (hmissed : Missed s furthest) :
      Fares w depth e front back P s (.mismatch pos expected furthest)
        (.mismatch pos' expected' furthest')
  | fault {cause : Fault} {furthest furthest' : Furthest}
      (hfault : FaultIn w.file depth front s.rest cause) :
      Fares w depth e front back P s (.fault cause furthest) (.fault cause furthest')

-- What two parsers reply where `cs` and `ds` are left: related values, and nothing but a mismatch
-- or a fault where the other one does. Where less may nest, more may be too deep.
inductive Follows (tighter : Prop) (gain : Nat) (R : α → α → Prop) (cs ds : List Char) :
    Reply α → Reply α → Prop
  | ok {v x : α} {s t : State} (hR : R v x) (hadvances : Advances gain cs ds s.rest t.rest) :
      Follows tighter gain R cs ds (.ok v s) (.ok x t)
  | mismatch {pos pos' : Nat} {expected expected' : String} {furthest furthest' : Furthest} :
      Follows tighter gain R cs ds (.mismatch pos expected furthest)
        (.mismatch pos' expected' furthest')
  | fault {cause cause' : Fault} {furthest furthest' : Furthest} :
      Follows tighter gain R cs ds (.fault cause furthest) (.fault cause' furthest')
  | beyond {r : Reply α} {furthest : Furthest} (h : tighter) :
      Follows tighter gain R cs ds r (.fault .tooDeep furthest)

variable {w : Setting} {depth m n : Nat} {e e' e'' : Reach} {a b c : List Char} {P : α → Prop}
  {R : α → α → Prop} {tighter : Prop} {s t : State} {cs ds cs' ds' : List Char}
  {furthest : Furthest} {r r' : Reply α}

theorem Fares.mono {depth' : Nat} {P' : α → Prop} (h : Fares w depth e a b P s r r')
    (hP : ∀ v, P v → P' v) (hle : e.Le e')
    (hfault : ∀ cause, FaultIn w.file depth a s.rest cause →
      FaultIn w.file depth' a s.rest cause) : Fares w depth' e' a b P' s r r' := by
  cases h with
  | ok hv hgets hmeets => exact .ok (hP _ hv) (hgets.mono hle) hmeets
  | mismatch hmissed => exact .mismatch hmissed
  | fault h => exact .fault (hfault _ h)

-- More may be known of a value by how it was read.
theorem Fares.imp {P' : α → Prop} (h : Fares w depth e a b P s r r')
    (hP : ∀ v t, r = .ok v t → P v → P' v) : Fares w depth e a b P' s r r' := by
  cases h with
  | ok hv hgets hmeets => exact .ok (hP _ _ rfl hv) hgets hmeets
  | mismatch hmissed => exact .mismatch hmissed
  | fault hfault => exact .fault hfault

-- The same, as it is seen from an earlier state.
theorem Fares.after (h : Fares w depth e' b c P t r r') (hgets : Gets e a b s t)
    (hreach : ∀ rest, e'.Holds t.rest rest → e''.Holds s.rest rest) :
    Fares w depth e'' a c P s r r' := by
  cases h with
  | ok hv hgets' hmeets =>
      have hboth := hgets.trans hgets'
      exact .ok hv ⟨⟨hreach _ hgets'.reach, hboth.position, hboth.noted⟩, hboth.scans⟩ hmeets
  | mismatch hmissed => exact .mismatch (hmissed.after hgets.toCourse)
  | fault h => exact .fault (h.after hgets)

theorem Fares.back (h : Fares w depth e a b P { s with furthest } r r')
    (hmissed : Missed s furthest) : Fares w depth e a b P s r r' := by
  cases h with
  | ok hv hgets hmeets => exact .ok hv (hgets.back hmissed) hmeets
  | mismatch hmore => exact .mismatch ⟨hmissed.noted.trans hmore.noted, hmore.reaches⟩
  | fault h => exact .fault h

theorem Follows.mono {R' : α → α → Prop} (h : Follows tighter m R cs ds r r')
    (hR : ∀ v x, R v x → R' v x) (hle : n ≤ m) : Follows tighter n R' cs ds r r' := by
  cases h with
  | ok h hadvances => exact .ok (hR _ _ h) (hadvances.weaken hle)
  | mismatch => exact .mismatch
  | fault => exact .fault
  | beyond h => exact .beyond h

theorem Follows.after (h : Follows tighter n R cs' ds' r r')
    (hadvances : Advances m cs ds cs' ds') : Follows tighter (m + n) R cs ds r r' := by
  cases h with
  | ok hR hmore => exact .ok hR (hadvances.trans hmore)
  | mismatch => exact .mismatch
  | fault => exact .fault
  | beyond h => exact .beyond h

end

-- Where a parser may be started, by the offset and what is left of the text, and where the other
-- one may be.
structure Start where
  left : Nat → List Char → Prop
  right : List Char → Prop

namespace Start

def any : Start :=
  ⟨fun _ _ => True, fun _ => True⟩

-- At an offset, with the given text left.
def here (pos : Nat) (cs : List Char) : Start :=
  ⟨fun pos' cs' => pos' = pos ∧ cs' = cs, fun _ => True⟩

-- With less left than the bounds of two loops.
def below (m n : Nat) : Start :=
  ⟨fun _ cs => cs.length < m, fun ds => ds.length < n⟩

-- From one start, characters are read up to the other one.
structure LeadsTo (c : Start) (gain : Nat) (c' : Start) : Prop where
  left : ∀ {pos pos' cs rest}, c.left pos cs → rest.length + gain ≤ cs.length → c'.left pos' rest
  right : ∀ {ds rest}, c.right ds → rest.length + gain ≤ ds.length → c'.right rest

theorem LeadsTo.any (c : Start) (gain : Nat) : c.LeadsTo gain .any :=
  ⟨fun _ _ => trivial, fun _ _ => trivial⟩

theorem LeadsTo.stay (m n gain : Nat) : (below m n).LeadsTo gain (below m n) :=
  ⟨fun h hle => Nat.lt_of_le_of_lt (Nat.le_of_add_right_le hle) h,
    fun h hle => Nat.lt_of_le_of_lt (Nat.le_of_add_right_le hle) h⟩

theorem LeadsTo.below (m n : Nat) : (below (m + 1) (n + 1)).LeadsTo 1 (below m n) :=
  ⟨fun h hle => Nat.lt_of_lt_of_le hle (Nat.le_of_lt_succ h),
    fun h hle => Nat.lt_of_lt_of_le hle (Nat.le_of_lt_succ h)⟩

end Start

-- What there is to know of a parser, wherever it may be started: which values it gives, where it
-- gets to and with which brackets left to close, what it notes and where its faults lie. It does
-- not matter what was noted before; and the other parser gives values that are related to these
-- where the text has blanks for comments.
structure Tandem {α : Type} (c : Start) (w : Settings) (depth : Nat) (e : Reach)
    (front back : List Char) (p q : Parser α) (P : α → Prop) (R : α → α → Prop) : Prop where
  fares : ∀ ⦃ctx : Context⦄ ⦃s s' : State⦄, ctx.toSetting = w.left → s.Meets s' →
    c.left s.pos s.rest → Fares w.left depth e front back P s (p ctx s) (p ctx s')
  follows : ∀ ⦃ctx ctx' : Context⦄ ⦃s t : State⦄, w.Aligned ctx ctx' → c.left s.pos s.rest →
    c.right t.rest → t.rest = stripComments s.rest →
    Follows w.Tighter e.gain R s.rest t.rest (p ctx s) (q ctx' t)

-- The same of one parser that gives equal values for both texts.
abbrev Behaves {α : Type} (w : Settings) (depth : Nat) (e : Reach) (front back : List Char)
    (p : Parser α) (P : α → Prop) : Prop :=
  Tandem .any w depth e front back p p P Eq

instance refl_forall₂ {α : Type} {R : α → α → Prop} [Std.Refl R] : Std.Refl (List.Forall₂ R) :=
  ⟨List.forall₂_refl⟩

instance refl_optionRel {α : Type} {R : α → α → Prop} [Std.Refl R] : Std.Refl (Option.Rel R) :=
  ⟨fun o => by
    cases o with
    | none => exact .none
    | some v => exact .some (Std.Refl.refl v)⟩

namespace Tandem

variable {α β : Type} {c c' : Start} {w : Settings} {depth m n : Nat} {e k l : Reach}
  {a b d : List Char} {p q : Parser α} {f g : α → Parser β} {P P' : α → Prop} {Q : β → Prop}
  {R R' : α → α → Prop} {S : β → β → Prop}

theorem mono (h : Tandem c w depth e a b p q P R) (hP : ∀ v, P v → P' v)
    (hR : ∀ v x, R v x → R' v x) (hle : e.Le k) : Tandem c w depth k a b p q P' R' where
  fares _ _ _ hw hmeets hs := (h.fares hw hmeets hs).mono hP hle fun _ hfault => hfault
  follows _ _ _ _ hctx hs ht hrest := (h.follows hctx hs ht hrest).mono hR hle.gain

theorem imp (h : Tandem c w depth e a b p q P R) (hP : ∀ v, P v → P' v) :
    Tandem c w depth e a b p q P' R :=
  h.mono hP (fun _ _ h => h) (.refl e)

theorem reach (h : Tandem c w depth e a b p q P R) (hle : e.Le k) :
    Tandem c w depth k a b p q P R :=
  h.mono (fun _ h => h) (fun _ _ h => h) hle

theorem any (h : Tandem c w depth e a b p q P R) : Tandem c w depth .any a b p q P R :=
  h.reach (.any e)

theorem held (h : Tandem c w depth .closed a b p q P R) : Tandem c w depth .held a b p q P R :=
  h.reach .held

theorem closed {O : List Char → Prop} (h : Tandem c w depth (.opens O) a b p q P R) :
    Tandem c w depth .closed a b p q P R :=
  h.reach (.closed O)

theorem ofForall₂ {p q : Parser (List α)} {P : List α → Prop}
    (h : Tandem c w depth e a b p q P (List.Forall₂ Eq)) : Tandem c w depth e a b p q P Eq := by
  rw [List.forall₂_eq_eq_eq] at h
  exact h

theorem ofOptionRel {p q : Parser (Option α)} {P : Option α → Prop}
    (h : Tandem c w depth e a b p q P (Option.Rel Eq)) : Tandem c w depth e a b p q P Eq := by
  refine h.mono (fun _ h => h) ?_ (.refl e)
  rintro _ _ (⟨rfl⟩ | _) <;> rfl

-- Wherever a parser may be started, it may be started at one place.
theorem narrow (h : Tandem .any w depth e a b p q P R) : Tandem c w depth e a b p q P R where
  fares _ _ _ hw hmeets _ := h.fares hw hmeets trivial
  follows _ _ _ _ hctx _ _ hrest := h.follows hctx trivial trivial hrest

theorem ofStart (h : ∀ pos cs, c.left pos cs → Tandem (.here pos cs) w depth e a b p q P R) :
    Tandem c w depth e a b p q P R where
  fares _ s _ hw hmeets hs := (h s.pos s.rest hs).fares hw hmeets ⟨rfl, rfl⟩
  follows _ _ s _ hctx hs _ hrest :=
    (h s.pos s.rest hs).follows hctx ⟨rfl, rfl⟩ trivial hrest

-- Less deep nesting is reached on the way.
theorem shallower (h : Tandem c w m e a b p q P R) (hle : depth ≤ m) :
    Tandem c w depth e a b p q P R where
  fares _ _ _ hw hmeets hs := by
    refine (h.fares hw hmeets hs).mono (fun _ h => h) (.refl e) fun cause hfault => ?_
    cases cause with
    | refused r => exact hfault
    | tooDeep =>
        intro pending
        obtain ⟨pending', rest, hscans, hdeep⟩ := hfault pending
        exact ⟨pending', rest, hscans, by omega⟩
  follows := h.follows

-- Brackets that are open around a parser count for the nesting inside of it.
theorem frame (h : Tandem c w depth e a b p q P R) (d : List Char) :
    Tandem c w (depth + d.length) e (a ++ d) (b ++ d) p q P R where
  fares ctx s s' hw hmeets hs := by
    have hreply := h.fares hw hmeets hs
    generalize p ctx s = r at hreply
    generalize p ctx s' = r' at hreply
    cases hreply with
    | ok hv hgets hmeets =>
        refine .ok hv ⟨hgets.toCourse, fun pending => ?_⟩ hmeets
        rw [List.append_assoc, List.append_assoc]
        exact hgets.scans (d ++ pending)
    | mismatch hmissed => exact .mismatch hmissed
    | @fault cause _ _ hfault =>
        refine .fault ?_
        cases cause with
        | refused r => exact hfault
        | tooDeep =>
            intro pending
            obtain ⟨pending', rest, hscans, hdeep⟩ := hfault (d ++ pending)
            rw [← List.append_assoc] at hscans
            rw [List.length_append] at hdeep
            exact ⟨pending', rest, hscans, by omega⟩
  follows := h.follows

theorem pure {v x : α} (hv : P v) (hR : R v x) :
    Tandem c w depth .held a a (Pure.pure v) (Pure.pure x) P R where
  fares _ s _ _ hmeets _ := .ok hv (.refl s) hmeets
  follows _ _ _ _ _ _ _ hrest := .ok hR (.refl hrest)

-- The same value, of which all is known.
theorem value {v : α} (hv : P v) :
    Tandem c w depth .held a a (Pure.pure v) (Pure.pure v) P Eq :=
  pure hv rfl

-- One parser and then, from where it gets to, another one.
theorem bindTo [Std.Refl R] (hp : Tandem c w depth e a b p q P R) (hto : c.LeadsTo e.gain c')
    (hf : ∀ v x, P v → R v x → Tandem c' w depth k b d (f v) (g x) Q S) :
    Tandem c w depth (e.andThen k) a d (p >>= f) (q >>= g) Q S where
  fares ctx s s' hw hmeets hs := by
    have hreply := hp.fares hw hmeets hs
    change Fares _ _ _ _ _ _ s (Parser.bind p f ctx s) (Parser.bind p f ctx s')
    rw [Parser.bind, Parser.bind]
    generalize p ctx s = r at hreply
    generalize p ctx s' = r' at hreply
    cases hreply with
    | ok hv hgets hmeets =>
        have hnext := (hf _ _ hv (Std.Refl.refl _)).fares hw hmeets (hto.left hs hgets.reach.gain)
        exact hnext.after hgets fun _ => hgets.reach.trans
    | mismatch hmissed => exact .mismatch hmissed
    | fault hfault => exact .fault hfault
  follows ctx ctx' s t hctx hs ht hrest := by
    have hleft := hp.fares hctx.left (.refl s) hs
    have hreply := hp.follows hctx hs ht hrest
    change Follows _ _ _ _ _ (Parser.bind p f ctx s) (Parser.bind q g ctx' t)
    rw [Parser.bind, Parser.bind]
    generalize p ctx s = r at hleft hreply
    generalize q ctx' t = r' at hreply
    cases hreply with
    | ok hR hadvances =>
        cases hleft with
        | ok hv hgets =>
            have hnext := (hf _ _ hv hR).follows hctx (hto.left hs hgets.reach.gain)
              (hto.right ht hadvances.right) hadvances.stripped
            exact (hnext.after hadvances).mono (fun _ _ h => h) Reach.gain_andThen
    | mismatch => exact .mismatch
    | fault => exact .fault
    | beyond h => exact .beyond h

theorem bind [Std.Refl R] (hp : Tandem c w depth e a b p q P R)
    (hf : ∀ v x, P v → R v x → Tandem .any w depth k b d (f v) (g x) Q S) :
    Tandem c w depth (e.andThen k) a d (p >>= f) (q >>= g) Q S :=
  hp.bindTo (.any c _) hf

-- What is read ends as the second part does.
theorem next_bind [Std.Refl R] (hp : Tandem c w depth e a b p q P R)
    (hf : ∀ v x, P v → R v x → Tandem .any w depth .closed b d (f v) (g x) Q S) :
    Tandem c w depth .closed a d (p >>= f) (q >>= g) Q S :=
  (hp.bind hf).reach (.andThen_closed e)

-- If the second part may read nothing, what is read ends as the first one does.
theorem keep_bind [Std.Refl R] (hp : Tandem c w depth e a b p q P R)
    (hf : ∀ v x, P v → R v x → Tandem .any w depth .held b d (f v) (g x) Q S) :
    Tandem c w depth e a d (p >>= f) (q >>= g) Q S :=
  hp.bind hf

-- The same where both give one value.
theorem next (hp : Tandem c w depth e a b p q P Eq)
    (hf : ∀ v, P v → Tandem .any w depth .closed b d (f v) (g v) Q S) :
    Tandem c w depth .closed a d (p >>= f) (q >>= g) Q S := by
  refine hp.next_bind ?_
  rintro v _ hv rfl
  exact hf v hv

theorem keep (hp : Tandem c w depth e a b p q P Eq)
    (hf : ∀ v, P v → Tandem .any w depth .held b d (f v) (g v) Q S) :
    Tandem c w depth e a d (p >>= f) (q >>= g) Q S := by
  refine hp.keep_bind ?_
  rintro v _ hv rfl
  exact hf v hv

theorem any_next (hp : Tandem c w depth e a b p q P Eq)
    (hf : ∀ v, P v → Tandem .any w depth .any b d (f v) (g v) Q S) :
    Tandem c w depth .any a d (p >>= f) (q >>= g) Q S := by
  refine hp.bind (k := .any) ?_
  rintro v _ hv rfl
  exact hf v hv

-- It starts as the first part does.
theorem opens_next {O : List Char → Prop} (hp : Tandem c w depth (.opens O) a b p q P Eq)
    (hf : ∀ v, P v → Tandem .any w depth .closed b d (f v) (g v) Q S) :
    Tandem c w depth (.opens O) a d (p >>= f) (q >>= g) Q S := by
  refine hp.bind (k := .closed) ?_
  rintro v _ hv rfl
  exact hf v hv

theorem fail (expected : String) :
    Tandem c w depth e a b (Parser.fail expected) (Parser.fail expected) P R where
  fares _ s _ _ _ _ := .mismatch (missed_record s expected)
  follows _ _ _ _ _ _ _ _ := .mismatch

theorem refuseBetween {offence : Offence} (h : offence.earlier? = none) (offence' : Offence)
    (start stop start' stop' : Nat) :
    Tandem c w depth e a b (Parser.refuseBetween offence start stop)
      (Parser.refuseBetween offence' start' stop') P R where
  fares _ _ _ hw _ _ := .fault (Refusal.isIn_of_span (congrArg Setting.file hw) h)
  follows _ _ _ _ _ _ _ _ := .fault

theorem refuseFrom {offence : Offence} (h : offence.earlier? = none) (start start' : Nat) :
    Tandem c w depth e a b (Parser.refuseFrom offence start) (Parser.refuseFrom offence start')
      P R where
  fares ctx s s' hw hmeets hs := by
    have hpos : Parser.refuseFrom offence start ctx s' =
        (Parser.refuseBetween offence start s.pos : Parser α) ctx s' := by
      rw [← hmeets.1]
      rfl
    rw [hpos]
    exact (refuseBetween (R := R) h offence start s.pos start' s.pos).fares hw hmeets hs
  follows _ _ _ _ _ _ _ _ := .fault

theorem ite {φ : Prop} [Decidable φ] {p' q' : Parser α}
    (hp : φ → Tandem c w depth e a b p q P R) (hq : ¬ φ → Tandem c w depth e a b p' q' P R) :
    Tandem c w depth e a b (if φ then p else p') (if φ then q else q') P R := by
  by_cases hφ : φ
  · rw [if_pos hφ, if_pos hφ]
    exact hp hφ
  · rw [if_neg hφ, if_neg hφ]
    exact hq hφ

theorem withNewlines (newlines : Bool) (h : Tandem c w depth e a b p q P R) :
    Tandem c w depth e a b (Parser.withNewlines newlines p) (Parser.withNewlines newlines q)
      P R where
  fares _ _ _ hw hmeets hs := h.fares hw hmeets hs
  follows _ _ _ _ hctx hs ht hrest := h.follows ⟨hctx.left, hctx.right, rfl⟩ hs ht hrest

-- The places that both texts are read from need not be the same.
theorem spanFrom {f g : Span → Parser β} (start start' : Nat)
    (h : ∀ span span', span.file = w.left.file →
      Tandem c w depth e a b (f span) (g span') Q S) :
    Tandem c w depth e a b (Parser.spanFrom start >>= f) (Parser.spanFrom start' >>= g) Q S where
  fares ctx s s' hw hmeets hs := by
    have hpos : (Parser.spanFrom start >>= f) ctx s' =
        f (ctx.index.span ctx.file start s.pos) ctx s' := by
      rw [← hmeets.1]
      rfl
    rw [hpos]
    exact (h _ (.ofFile "") (congrArg Setting.file hw)).fares hw hmeets hs
  follows _ _ _ _ hctx hs ht hrest :=
    (h _ _ (congrArg Setting.file hctx.left)).follows hctx hs ht hrest

-- Where an attempt gives nothing, the mismatch is known.
theorem attempt_bindKnown [Std.Refl R] {f g : Option α → Parser β} {T : β → Prop}
    (hp : Tandem c w depth e a b p q P R) (hto : c.LeadsTo e.gain c')
    (hle : (e.andThen k).Le l)
    (hsome : ∀ v x, P v → R v x → Tandem c' w depth k b d (f (some v)) (g (some x)) Q S)
    (hnone : Tandem c w depth l a d (f none) (g none) T S)
    (hknown : ∀ {ctx s pos expected furthest v t}, p ctx s = .mismatch pos expected furthest →
      f none ctx { s with furthest } = .ok v t → T v → Q v) :
    Tandem c w depth l a d (Parser.attempt p >>= f) (Parser.attempt q >>= g) Q S where
  fares ctx s s' hw hmeets hs := by
    have hreply := hp.fares hw hmeets hs
    change Fares _ _ _ _ _ _ s (Parser.bind _ f ctx s) (Parser.bind _ f ctx s')
    rw [Parser.bind, Parser.bind, Parser.attempt, Parser.attempt]
    generalize hleft : p ctx s = r at hreply
    generalize p ctx s' = r' at hreply
    cases hreply with
    | ok hv hgets hmeets =>
        have hnext := (hsome _ _ hv (Std.Refl.refl _)).fares hw hmeets
          (hto.left hs hgets.reach.gain)
        exact hnext.after hgets fun _ h => hle.holds (hgets.reach.trans h)
    | @mismatch _ _ _ _ furthest furthest' hmissed =>
        have hmeets' : State.Meets { s with furthest } { s' with furthest := furthest' } := hmeets
        have hnext := (hnone.fares hw hmeets' hs).imp fun _ _ => hknown hleft
        exact hnext.back hmissed
    | fault hfault => exact .fault hfault
  follows ctx ctx' s t hctx hs ht hrest := by
    have hleft := hp.fares hctx.left (.refl s) hs
    have hreply := hp.follows hctx hs ht hrest
    change Follows _ _ _ _ _ (Parser.bind _ f ctx s) (Parser.bind _ g ctx' t)
    rw [Parser.bind, Parser.bind, Parser.attempt, Parser.attempt]
    generalize p ctx s = r at hleft hreply
    generalize q ctx' t = r' at hreply
    cases hreply with
    | ok hR hadvances =>
        cases hleft with
        | ok hv hgets =>
            have hnext := (hsome _ _ hv hR).follows hctx (hto.left hs hgets.reach.gain)
              (hto.right ht hadvances.right) hadvances.stripped
            exact (hnext.after hadvances).mono (fun _ _ h => h) (hle.gain.trans Reach.gain_andThen)
    | @mismatch _ _ _ _ furthest furthest' =>
        exact @hnone.follows ctx ctx' { s with furthest } { t with furthest := furthest' } hctx hs
          ht hrest
    | fault => exact .fault
    | beyond h => exact .beyond h

theorem attempt_bindTo [Std.Refl R] {f g : Option α → Parser β}
    (hp : Tandem c w depth e a b p q P R) (hto : c.LeadsTo e.gain c')
    (hle : (e.andThen k).Le l)
    (hsome : ∀ v x, P v → R v x → Tandem c' w depth k b d (f (some v)) (g (some x)) Q S)
    (hnone : Tandem c w depth l a d (f none) (g none) Q S) :
    Tandem c w depth l a d (Parser.attempt p >>= f) (Parser.attempt q >>= g) Q S :=
  hp.attempt_bindKnown hto hle hsome hnone fun _ _ h => h

-- What follows an attempt that succeeds may read nothing.
theorem attempt_bind {f g : Option α → Parser β} (hp : Tandem c w depth e a b p q P Eq)
    (hsome : ∀ v, P v → Tandem .any w depth .held b d (f (some v)) (g (some v)) Q S)
    (hnone : Tandem c w depth e a d (f none) (g none) Q S) :
    Tandem c w depth e a d (Parser.attempt p >>= f) (Parser.attempt q >>= g) Q S := by
  refine hp.attempt_bindTo (k := .held) (.any c _) (.refl e) ?_ hnone
  rintro v _ hv rfl
  exact hsome v hv

theorem bind_pure_eq (p : Parser α) : p >>= Pure.pure = p := by
  funext ctx s
  change Parser.bind p Parser.pure ctx s = _
  rw [Parser.bind]
  cases p ctx s <;> rfl

theorem attempt (h : Tandem c w depth .closed a a p q P Eq) :
    Tandem c w depth .held a a (Parser.attempt p) (Parser.attempt q) (fun o => ∀ v ∈ o, P v)
      Eq := by
  have hbind : Tandem c w depth .held a a (Parser.attempt p >>= Pure.pure)
      (Parser.attempt q >>= Pure.pure) (fun o => ∀ v ∈ o, P v) Eq := by
    refine h.held.attempt_bind (fun v hv => value ?_) (value nofun)
    rintro x ⟨⟩
    exact hv
  rwa [bind_pure_eq, bind_pure_eq] at hbind

-- What follows an attempt that only tells whether it succeeded.
theorem found_bindTo [Std.Refl R] {f g : Bool → Parser β} (hp : Tandem c w depth e a b p q P R)
    (hto : c.LeadsTo e.gain c') (hle : (e.andThen k).Le l)
    (htrue : Tandem c' w depth k b d (f true) (g true) Q S)
    (hfalse : Tandem c w depth l a d (f false) (g false) Q S) :
    Tandem c w depth l a d ((do return (← Parser.attempt p).isSome : Parser Bool) >>= f)
      ((do return (← Parser.attempt q).isSome : Parser Bool) >>= g) Q S := by
  rw [Parser.bind_assoc, Parser.bind_assoc]
  exact hp.attempt_bindTo hto hle (fun _ _ _ _ => htrue) hfalse

theorem found_bind {f g : Bool → Parser β} (hp : Tandem c w depth e a b p q P Eq)
    (htrue : Tandem .any w depth .held b d (f true) (g true) Q S)
    (hfalse : Tandem c w depth e a d (f false) (g false) Q S) :
    Tandem c w depth e a d ((do return (← Parser.attempt p).isSome : Parser Bool) >>= f)
      ((do return (← Parser.attempt q).isSome : Parser Bool) >>= g) Q S :=
  hp.found_bindTo (k := .held) (.any c _) (.refl e) htrue hfalse

-- Alternatives are tried in the same order in both texts.
theorem choice {others : List (Parser α)} (hp : Tandem c w depth e a b p q P R)
    (hothers : ∀ o ∈ others, Tandem c w depth e a b o o P R) :
    Tandem c w depth e a b (Parser.choice p others) (Parser.choice q others) P R := by
  induction others generalizing p q with
  | nil => exact hp
  | cons o others ih =>
      obtain ⟨ho, hothers⟩ := List.forall_mem_cons.mp hothers
      have hnext := ih ho hothers
      constructor
      · intro ctx s s' hw hmeets hs
        have hreply := hp.fares hw hmeets hs
        rw [Parser.choice]
        beta_reduce
        generalize p ctx s = r at hreply
        generalize p ctx s' = r' at hreply
        cases hreply with
        | ok hv hgets hmeets => exact .ok hv hgets hmeets
        | @mismatch _ _ _ _ furthest furthest' hmissed =>
            have hmeets' : State.Meets { s with furthest } { s' with furthest := furthest' } :=
              hmeets
            exact (hnext.fares hw hmeets' hs).back hmissed
        | fault hfault => exact .fault hfault
      · intro ctx ctx' s t hctx hs ht hrest
        have hreply := hp.follows hctx hs ht hrest
        rw [Parser.choice, Parser.choice]
        beta_reduce
        generalize p ctx s = r at hreply
        generalize q ctx' t = r' at hreply
        cases hreply with
        | ok hR hadvances => exact .ok hR hadvances
        | @mismatch _ _ _ _ furthest furthest' =>
            exact @hnext.follows ctx ctx' { s with furthest } { t with furthest := furthest' } hctx
              hs ht hrest
        | fault => exact .fault
        | beyond h => exact .beyond h

theorem lookahead (h : Tandem c w depth e a b p q P R) :
    Tandem c w depth .held a a (Parser.lookahead p) (Parser.lookahead q) P R where
  fares ctx s s' hw hmeets hs := by
    have hreply := h.fares hw hmeets hs
    rw [Parser.lookahead, Parser.lookahead]
    generalize p ctx s = r at hreply
    generalize p ctx s' = r' at hreply
    cases hreply with
    | ok hv hgets => exact .ok hv ⟨⟨.inl rfl, rfl, hgets.noted⟩, fun _ => .refl⟩ hmeets
    | mismatch hmissed => exact .mismatch hmissed
    | fault hfault => exact .fault hfault
  follows ctx ctx' s t hctx hs ht hrest := by
    have hreply := h.follows hctx hs ht hrest
    rw [Parser.lookahead, Parser.lookahead]
    generalize p ctx s = r at hreply
    generalize q ctx' t = r' at hreply
    cases hreply with
    | ok hR => exact .ok hR (.refl hrest)
    | mismatch => exact .mismatch
    | fault => exact .fault
    | beyond h => exact .beyond h

-- A loop that takes a character from both texts before it goes round again reaches neither bound.
theorem loop {ι : Type} {I : ι → ι → Prop} (run run' : Nat → ι → Parser α)
    (hstep : ∀ m n, (∀ i j, I i j → Tandem (.below m n) w depth e a b (run m i) (run' n j) P R) →
      ∀ i j, I i j →
        Tandem (.below (m + 1) (n + 1)) w depth e a b (run (m + 1) i) (run' (n + 1) j) P R)
    {i j : ι} (hi : I i j) :
    Tandem .any w depth e a b (fun ctx s => run (s.rest.length + 1) i ctx s)
      (fun ctx s => run' (s.rest.length + 1) j ctx s) P R := by
  have hloop : ∀ m n i j, I i j →
      Tandem (.below m n) w depth e a b (run m i) (run' n j) P R := by
    intro m
    induction m with
    | zero =>
        exact fun _ _ _ _ => ⟨fun _ _ _ _ _ hs => absurd hs (Nat.not_lt_zero _),
          fun _ _ _ _ _ hs => absurd hs (Nat.not_lt_zero _)⟩
    | succ m ih =>
        intro n i j hi
        cases n with
        | zero => exact ⟨(hstep m 0 (ih 0) i j hi).fares,
            fun _ _ _ _ _ _ ht => absurd ht (Nat.not_lt_zero _)⟩
        | succ n => exact hstep m n (ih n) i j hi
  refine ⟨fun ctx s s' hw hmeets _ => ?_, fun ctx ctx' s t hctx _ _ hrest => ?_⟩
  · rw [hmeets.2]
    exact (hloop _ 0 i j hi).fares hw hmeets (Nat.lt_succ_self _)
  · exact (hloop _ _ i j hi).follows hctx (Nat.lt_succ_self _) (Nat.lt_succ_self _) hrest

theorem many [Std.Refl R] (h : Tandem .any w depth .closed a a p q P R) :
    Tandem .any w depth .held a a (Parser.many p) (Parser.many q) (fun vs => ∀ v ∈ vs, P v)
      (List.Forall₂ R) := by
  refine loop (fun bound (_ : Unit) => Parser.manyUpTo p bound)
    (fun bound _ => Parser.manyUpTo q bound) (I := fun _ _ => True) (i := ()) (j := ()) ?_ trivial
  intro m n ih _ _ _
  refine h.narrow.attempt_bindTo (k := .held) (.below m n) .held (fun v x hv hR => ?_)
    (pure nofun .nil)
  refine (ih () () trivial).keep_bind fun vs xs hvs hRs => ?_
  exact pure (List.forall_mem_cons.mpr ⟨hv, hvs⟩) (.cons hR hRs)

-- What a parser gives in one setting.
theorem of_ok {ctx : Context} {s t : State} {v : α} (h : Tandem .any w depth e a b p q P R)
    (hctx : ctx.toSetting = w.left) (hok : p ctx s = .ok v t) : P v ∧ Gets e a b s t := by
  have hreply := h.fares hctx (.refl s) trivial
  rw [hok] at hreply
  cases hreply with
  | ok hv hgets => exact ⟨hv, hgets⟩

theorem value_of_ok {ctx : Context} {s t : State} {v : α}
    (h : Tandem .any (.twice ctx.toSetting) ctx.limit e [] [] p q P R) (hok : p ctx s = .ok v t) :
    P v :=
  (h.of_ok rfl hok).1

end Tandem

-- Wherever the parser is started, what it reads takes such a course.
def Tracks {α : Type} (e : Reach) (p : Parser α) : Prop :=
  ∀ ⦃ctx : Context⦄ ⦃s t : State⦄ ⦃v : α⦄, p ctx s = .ok v t → Course e s t

theorem Tracks.ofWithin {α : Type} {e : Reach} {a b : List Char} {p q : Parser α}
    {n : Settings → Nat} {P : Settings → α → Prop} {R : α → α → Prop}
    (h : ∀ w, Tandem .any w (n w) e a b p q (P w) R) : Tracks e p :=
  fun ctx _ _ _ hok => ((h (.twice ctx.toSetting)).of_ok rfl hok).2.toCourse

theorem Tracks.of {α : Type} {e : Reach} {p q : Parser α} {P : Settings → α → Prop}
    {R : α → α → Prop} (h : ∀ w, Tandem .any w w.left.limit e [] [] p q (P w) R) : Tracks e p :=
  .ofWithin h

end CardLore
