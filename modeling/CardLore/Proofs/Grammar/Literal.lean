import CardLore.Proofs.Grammar.Number
import CardLore.Proofs.Grammar.Word

namespace CardLore

section

variable {α : Type}

-- Elements with a comma behind each of them.
inductive Listed (E : List Char → α → Prop) : List Char → List α → Prop
  | nil : Listed E [] []
  | concat {before elem gap : List Char} {seen : List α} {v : α} (h : Listed E before seen)
      (helem : E elem v) (hgap : IsTrivia gap) :
      Listed E (before ++ (elem ++ (gap ++ [',']))) (seen ++ [v])

-- What stands between brackets: nothing but trivia, or elements with commas between them.
inductive Bracketed (E : List Char → α → Prop) : List Char → List α → Prop
  | empty {gap : List Char} (hgap : IsTrivia gap) : Bracketed E gap []
  | elements {before elem gap : List Char} {seen : List α} {v : α} (h : Listed E before seen)
      (helem : E elem v) (hgap : IsTrivia gap) :
      Bracketed E (before ++ (elem ++ gap)) (seen ++ [v])

end

-- A value with trivia before it.
inductive ItemText (D : List Char → Literal → Prop) : List Char → Literal → Prop
  | mk {lead body : List Char} {v : Literal} (hlead : IsTrivia lead) (h : D body v) :
      ItemText D (lead ++ body) v

-- A member of an object: a name, a colon and a value, each with trivia before it.
inductive MemberText (D : List Char → Literal → Prop) : List Char → Text × Literal → Prop
  | mk {lead cs gap item : List Char} {name : Text} {v : Literal} (hlead : IsTrivia lead)
      (hname : NameText (gap ++ [':']) cs name) (hgap : IsTrivia gap) (hvalue : ItemText D item v) :
      MemberText D (lead ++ (cs ++ (gap ++ ':' :: item))) (name, v)

-- The text is a literal of the given value.
inductive Derives : List Char → Literal → Prop
  | word {body : List Char} {v : Literal} (h : WordText body v) : Derives body v
  | number {body : List Char} {v : Literal} (h : NumberText body v) : Derives body v
  | string {body : List Char} {t : Text} (h : StringBody body t) :
      Derives ('"' :: (body ++ ['"'])) (.string t)
  | array {inside : List Char} {items : List Literal}
      (h : Bracketed (ItemText Derives) inside items) :
      Derives ('[' :: (inside ++ [']'])) (.array items)
  | object {inside : List Char} {members : List (Text × Literal)}
      (h : Bracketed (MemberText Derives) inside members) (hnames : (members.map (·.1)).Nodup) :
      Derives ('{' :: (inside ++ ['}'])) (.object members)

-- What must not follow a literal: a key character behind a word or a number.
def EndsBefore : Literal → List Char → Prop
  | .null, after | .bool _, after | .int _, after | .float _, after => continuesKey after = false
  | .string _, _ | .array _, _ | .object _, _ => True

-- In a literal that starts with `lead`, another one is looked for in `inner`: as an item, behind
-- complete items, unless the array closes at once; or as the value of a member, behind complete
-- members and a name that none of them has.
inductive Enters : List Char → List Char → Prop
  | item {lead before inner : List Char} {seen : List Literal} (hlead : IsTrivia lead)
      (hbefore : Listed (ItemText Derives) before seen) (hopen : before = [] → ¬ Shows ']' inner) :
      Enters (lead ++ '[' :: before) inner
  | value {lead before gap cs colon inner : List Char} {seen : List (Text × Literal)} {name : Text}
      (hlead : IsTrivia lead) (hbefore : Listed (MemberText Derives) before seen)
      (hnames : (seen.map (·.1)).Nodup) (hgap : IsTrivia gap)
      (hname : NameText (colon ++ [':']) cs name) (hfresh : name ∉ seen.map (·.1))
      (hcolon : IsTrivia colon) :
      Enters (lead ++ '{' :: (before ++ (gap ++ (cs ++ (colon ++ [':']))))) inner

-- Literals are looked for in each other `n` times.
def NestsTo : Nat → List Char → Prop
  | 0, _ => True
  | n + 1, text => ∃ lead inner, text = lead ++ inner ∧ Enters lead inner ∧ NestsTo n inner

-- Behind `front`, the text `cs` with `after` behind it writes a name that a member before it has,
-- in the same object. Everything before it is complete.
inductive Repeats : List Char → List Char → Text → List Char → Prop
  | here {lead before gap cs after : List Char} {seen : List (Text × Literal)} {name : Text}
      (hlead : IsTrivia lead) (hbefore : Listed (MemberText Derives) before seen)
      (hnames : (seen.map (·.1)).Nodup) (hgap : IsTrivia gap) (hname : NameText after cs name)
      (hseen : name ∈ seen.map (·.1)) : Repeats (lead ++ '{' :: (before ++ gap)) cs name after
  | inside {lead front cs after : List Char} {name : Text}
      (henters : Enters lead (front ++ (cs ++ after))) (h : Repeats front cs name after) :
      Repeats (lead ++ front) cs name after

theorem NumberText.head {body : List Char} {v : Literal} (h : NumberText body v) :
    ∃ c tail, body = c :: tail ∧ (c.isDigit = true ∨ c = '+' ∨ c = '-') := by
  obtain ⟨n, ⟨hsign, hwhole, -, -⟩, -⟩ := (numberText_iff body v).mp h
  obtain ⟨c, tail, rfl, hc⟩ := hwhole.exists_cons
  cases hsign with
  | none => exact ⟨c, _, rfl, .inl hc⟩
  | plus => exact ⟨'+', _, rfl, .inr (.inl rfl)⟩
  | minus => exact ⟨'-', _, rfl, .inr (.inr rfl)⟩

theorem Derives.head {body : List Char} {v : Literal} (h : Derives body v) :
    ∃ c tail, body = c :: tail ∧ IsSolid c ∧ c ≠ ']' := by
  cases h with
  | word h => cases h <;> exact ⟨_, _, rfl, by decide, by decide⟩
  | number h =>
      obtain ⟨c, tail, rfl, hc⟩ := h.head
      refine ⟨c, tail, rfl, ?_⟩
      rcases hc with hc | rfl | rfl
      · refine ⟨isSolid_of_isKeyChar (isKeyChar_of_isDigit hc), ?_⟩
        rintro rfl
        cases hc
      · decide
      · decide
  | string => exact ⟨_, _, rfl, by decide, by decide⟩
  | array => exact ⟨_, _, rfl, by decide, by decide⟩
  | object => exact ⟨_, _, rfl, by decide, by decide⟩

theorem NameText.head {after cs : List Char} {name : Text} (h : NameText after cs name) :
    ∃ c tail, cs = c :: tail ∧ IsSolid c ∧ c ≠ '}' := by
  cases h with
  | quoted => exact ⟨_, _, rfl, by decide, by decide⟩
  | bare h =>
      obtain ⟨c, tail, rfl⟩ := List.exists_cons_of_ne_nil h.nonempty
      have hc := h.keys c List.mem_cons_self
      refine ⟨c, tail, rfl, isSolid_of_isKeyChar hc, ?_⟩
      rintro rfl
      cases hc

end CardLore
