import CardLore.Construction.Draft

namespace CardLore.Ending

-- A member of a body: its lower-case name, its name as written, and its value.
structure Member where
  lowered : Text
  name : Text
  value : Literal

-- The members of a body, of which no two have one lower-case name.
def collect (members : List (Text × Literal)) (span : Span) : Except Refusal (List Member) :=
  members.foldlM
    (fun seen (name, value) =>
      let lowered := Text.lower name
      if seen.any (·.lowered = lowered) then .error ⟨.collidingMember name, span⟩
      else .ok (seen ++ [⟨lowered, name, value⟩]))
    []

-- The text of a member, if there is one of that name.
def textOf? (members : List Member) (name : String) (span : Span) :
    Except Refusal (Option Text) :=
  match members.find? (·.lowered = Text.ofString name) with
  | none => .ok none
  | some ⟨_, _, .string t⟩ => .ok (some t)
  | some ⟨_, _, value⟩ => .error ⟨.memberNotString name value, span⟩

-- The member of an enumeration that a word of the body names, or `default` if it has none.
def memberOf {α : Type} (members : List Member) (name : String) (e : Enumeration α) (default : α)
    (span : Span) : Except Refusal α := do
  match ← textOf? members name span with
  | none => return default
  | some word => match e.find? word with
    | some member => return member
    | none => .error ⟨.outsideEnumeration word name e.words, span⟩

-- The names that an ending knows.
def knownNames : List Text := ["image", "flavour", "anim", "achievementid"]

def build (id : Key) (label description : Text) (body : Literal) (span : Span) :
    Except Refusal Ending := do
  match body with
  | .object content =>
    let members ← collect content span
    let image ← textOf? members "image" span
    match image with
    | none => .error ⟨.imageMissing, span⟩
    | some image =>
      let music ← memberOf members "flavour" EndingMusic.enumeration .grand span
      let animation ← memberOf members "anim" EndingAnimation.enumeration .dramaticLight span
      let achievement ← textOf? members "achievementid" span
      let others := members.filter (·.lowered ∉ knownNames)
      return { id, label, description, image, music, animation
               achievement := achievement.getD noAchievement
               others := others.map fun m => (⟨m.name⟩, m.value) }
  | _ => .error ⟨.bodyNotObject body, span⟩

end CardLore.Ending
