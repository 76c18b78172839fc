import CardLore.Component.Basic
import CardLore.Text.Lower

namespace CardLore

-- The members of a type with the lower-case words that name them, in order.
structure Enumeration (α : Type) where
  members : List (String × α)

namespace Enumeration

variable {α : Type}

def words (e : Enumeration α) : List String :=
  e.members.map (·.1)

def find? (e : Enumeration α) (word : Text) : Option α :=
  let lowered := Text.lower word
  (e.members.find? (fun entry => Text.ofString entry.1 = lowered)).map (·.2)

-- The word for a member.
def wordFor [BEq α] (e : Enumeration α) (member : α) : String :=
  match e.members.find? (·.2 == member) with
  | some (word, _) => word
  | none => ""

end Enumeration

def WarmupStyle.enumeration : Enumeration WarmupStyle :=
  ⟨[("none", .none), ("grand", .grand), ("melancholy", .melancholy), ("pale", .pale),
    ("vile", .vile), ("important", .important)]⟩

def EndingMusic.enumeration : Enumeration EndingMusic :=
  ⟨[("grand", .grand), ("melancholy", .melancholy), ("vile", .vile)]⟩

def EndingAnimation.enumeration : Enumeration EndingAnimation :=
  ⟨[("dramaticlight", .dramaticLight), ("dramaticlightcool", .dramaticLightCool),
    ("dramaticlightevil", .dramaticLightEvil)]⟩

def RequirementKind.enumeration : Enumeration RequirementKind :=
  ⟨[("basic", .basic), ("table", .table), ("extant", .extant)]⟩

def FilterKind.enumeration : Enumeration FilterKind :=
  ⟨[("accept", .accept), ("forbid", .forbid)]⟩

def BranchKind.enumeration : Enumeration BranchKind :=
  ⟨[("link", .link), ("goto", .goto)]⟩

end CardLore
