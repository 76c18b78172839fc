import CardLore.Proofs.Course.Text

namespace CardLore

namespace Furthest

-- On the way from one record to the other, mismatches at offsets up to `limit` were noted.
def Noted (limit : Nat) : Furthest → Furthest → Prop :=
  Relation.ReflTransGen fun f g => ∃ pos expected, pos ≤ limit ∧ g = f.record pos expected

-- The furthest mismatch lies at an offset or behind it.
def Reaches (f : Furthest) (pos : Nat) : Prop :=
  ∃ furthest, f.pos = some furthest ∧ pos ≤ furthest

theorem reaches_record (f : Furthest) (pos : Nat) (expected : String) :
    (f.record pos expected).Reaches pos := by
  rw [record]
  cases hpos : f.pos with
  | none => exact ⟨pos, rfl, Nat.le_refl pos⟩
  | some furthest =>
      dsimp only
      split_ifs with hlt hsame
      · exact ⟨pos, rfl, Nat.le_refl pos⟩
      · exact ⟨furthest, rfl, by omega⟩
      · exact ⟨furthest, hpos, by omega⟩

theorem noted_record (f : Furthest) {pos limit : Nat} (expected : String) (h : pos ≤ limit) :
    Noted limit f (f.record pos expected) :=
  Relation.ReflTransGen.single ⟨pos, expected, h, rfl⟩

end Furthest

-- What is known of what a parser reads: nothing; that it is something; that it ends with a token,
-- if it is anything; that it is something and ends with a token; and, besides, what the first token
-- is.
inductive Reach where
  | any
  | past
  | held
  | closed
  | opens (P : List Char → Prop)

namespace Reach

def Holds : Reach → List Char → List Char → Prop
  | any, cs, rest => Moves cs rest
  | past, cs, rest => Moves cs rest ∧ rest.length < cs.length
  | held, cs, rest => cs = rest ∨ Closes cs rest
  | closed, cs, rest => Closes cs rest
  | opens P, cs, rest => Opens P cs rest

-- How many characters are read at least.
def gain : Reach → Nat
  | any | held => 0
  | past | closed | opens _ => 1

-- One part after another.
def andThen (e : Reach) : Reach → Reach
  | any => any
  | past => past
  | held => e
  | closed | opens _ => match e with
    | opens P => opens P
    | _ => closed

-- Trivia, and then what is known.
def behindTrivia : Reach → Reach
  | held => any
  | e => e

variable {e e' e'' : Reach} {cs mid rest : List Char}

theorem Holds.moves (h : e.Holds cs rest) : Moves cs rest := by
  cases e with
  | any => exact h
  | past => exact h.1
  | held =>
      rcases h with rfl | h
      · exact .refl
      · exact h.moves
  | closed => exact Closes.moves h
  | opens P => exact (Opens.closes h).moves

theorem Holds.gain (h : e.Holds cs rest) : rest.length + e.gain ≤ cs.length := by
  cases e with
  | any | held => exact h.moves.suffix.length_le
  | past => exact h.2
  | closed => exact Closes.length_lt h
  | opens P => exact (Opens.closes h).length_lt

theorem Holds.closes (h : e.Holds cs mid) (h' : Closes mid rest) :
    (e.andThen closed).Holds cs rest := by
  cases e with
  | any | past | held | closed => exact h.moves.closes h'
  | opens P => exact Opens.trans h h'

theorem Holds.trans (h : e.Holds cs mid) (h' : e'.Holds mid rest) :
    (e.andThen e').Holds cs rest := by
  cases e' with
  | any => exact h.moves.trans h'
  | past => exact ⟨h.moves.trans h'.1, h'.2.trans_le h.moves.suffix.length_le⟩
  | held =>
      rcases h' with rfl | h'
      · exact h
      · cases e with
        | any => exact h.moves.trans h'.moves
        | past => exact ⟨h.1.trans h'.moves, h'.length_lt.trans h.2⟩
        | held => exact .inr (h.moves.closes h')
        | closed | opens P => exact h.closes h'
  | closed => exact h.closes h'
  | opens P => exact h.closes (Opens.closes h')

theorem Holds.behindTrivia (h : Skips cs mid) (h' : e.Holds mid rest) :
    e.behindTrivia.Holds cs rest := by
  cases e with
  | any | held => exact h.moves.trans h'.moves
  | past => exact ⟨h.moves.trans h'.1, h'.2.trans_le h.moves.suffix.length_le⟩
  | closed => exact h.moves.closes h'
  | opens P => exact h.opens h'

theorem gain_andThen : (e.andThen e').gain ≤ e.gain + e'.gain := by
  cases e' with
  | any => exact Nat.zero_le _
  | past => exact Nat.le_add_left _ _
  | held => exact Nat.le_refl _
  | closed | opens _ => cases e <;> exact Nat.le_add_left _ _

theorem gain_behindTrivia : e.behindTrivia.gain = e.gain := by
  cases e <;> rfl

-- No more is known of what is read than was known before.
structure Le (e e' : Reach) : Prop where
  holds : ∀ {cs rest}, e.Holds cs rest → e'.Holds cs rest
  gain : e'.gain ≤ e.gain

namespace Le

theorem refl (e : Reach) : e.Le e :=
  ⟨id, Nat.le_refl _⟩

theorem any (e : Reach) : e.Le .any :=
  ⟨Holds.moves, Nat.zero_le _⟩

theorem held : closed.Le .held :=
  ⟨Or.inr, Nat.zero_le _⟩

theorem closed (P : List Char → Prop) : (opens P).Le .closed :=
  ⟨Opens.closes, Nat.le_refl _⟩

theorem opens {P Q : List Char → Prop} (h : ∀ token, P token → Q token) :
    (Reach.opens P).Le (.opens Q) :=
  ⟨fun hopens => Opens.mono hopens h, Nat.le_refl _⟩

-- What is read ends as its second part does.
theorem andThen_closed (e : Reach) : (e.andThen .closed).Le .closed := by
  cases e with
  | any | past | held | closed => exact refl _
  | opens P => exact closed P

end Le

end Reach

-- From one state a parser gets to the other.
structure Course (e : Reach) (s t : State) : Prop where
  reach : e.Holds s.rest t.rest
  position : t.pos + t.rest.length = s.pos + s.rest.length
  noted : Furthest.Noted (s.pos + s.rest.length) s.furthest t.furthest

namespace Course

variable {e e' : Reach} {s t u : State}

theorem refl (s : State) : Course .held s s :=
  ⟨.inl rfl, rfl, .refl⟩

theorem trans (h : Course e s t) (h' : Course e' t u) : Course (e.andThen e') s u :=
  ⟨h.reach.trans h'.reach, h'.position.trans h.position, h.noted.trans (h.position ▸ h'.noted)⟩

theorem pos_le (h : Course e s t) : s.pos ≤ t.pos := by
  have hlength := h.reach.moves.suffix.length_le
  have hposition := h.position
  omega

end Course

end CardLore
