import CardLore.Proofs.Compilation.Conclusion
import CardLore.Proofs.Course.Layout
import CardLore.Proofs.Source.Position

namespace CardLore

namespace Furthest

variable {limit pos : Nat} {f g : Furthest}

-- A record within a text. Something was expected there, and nothing is listed twice.
def IsRecord (limit : Nat) (f : Furthest) : Prop :=
  ∀ furthest, f.pos = some furthest → furthest ≤ limit ∧ f.expected ≠ [] ∧ f.expected.Nodup

theorem IsRecord.record (h : f.IsRecord limit) (hpos : pos ≤ limit) (expected : String) :
    (f.record pos expected).IsRecord limit := by
  have hfresh : (⟨some pos, [expected]⟩ : Furthest).IsRecord limit := by
    rintro _ ⟨⟩
    exact ⟨hpos, List.cons_ne_nil _ _, List.nodup_singleton _⟩
  rw [Furthest.record]
  cases hfurthest : f.pos with
  | none => exact hfresh
  | some furthest =>
      dsimp only
      split_ifs with hlt hmore
      · exact hfresh
      · rintro _ ⟨⟩
        obtain ⟨hle, -, hnodup⟩ := h furthest hfurthest
        refine ⟨hle, List.concat_ne_nil _ _, ?_⟩
        rw [← List.concat_eq_append]
        exact hnodup.concat hmore.2
      · exact h

end Furthest

section

variable {α : Type} {ctx : Context} {s t : State} {pos last : Nat} {rest : List Char}
  {crossed : Bool} {expected : String} {furthest : Furthest}

end

section

variable {file : String} {source : List Char} {limit : Nat}
  {found : List Attribute × List Declaration} {s : State}

end

-- The span of one character.
def Position.span (file : String) (p : Position) : Span :=
  ⟨file, p.line, p.col, p.line, p.col⟩

section

variable {file : String} {source : List Char} {a b : Nat}

end

namespace Parser

variable {ctx : Context} {s t : State} {found : List Attribute × List Declaration} {l : Leftover}

end Parser

end CardLore
