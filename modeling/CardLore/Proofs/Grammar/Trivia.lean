import CardLore.Proofs.Parsed.Token
import CardLore.Proofs.Trivia.Run

namespace CardLore

-- Blanks, line ends and closed comments. The line end behind a line comment belongs to it.
inductive IsTrivia : List Char → Prop
  | nil : IsTrivia []
  | blank {c : Char} {cs : List Char} (hc : c ∈ [' ', '\t', '\r', '\n']) (h : IsTrivia cs) :
      IsTrivia (c :: cs)
  | lineComment {inside : List Char} {c : Char} {cs : List Char}
      (hinside : ∀ d ∈ inside, d ≠ '\r' ∧ d ≠ '\n') (hc : c = '\r' ∨ c = '\n')
      (h : IsTrivia cs) : IsTrivia ('/' :: '/' :: (inside ++ c :: cs))
  | blockComment {inside cs : List Char} (hinside : ¬ ['*', ')'] <:+: inside ++ ['*'])
      (h : IsTrivia cs) : IsTrivia ('(' :: '*' :: (inside ++ '*' :: ')' :: cs))

-- A character that starts no trivia, whatever follows it.
def IsSolid (c : Char) : Prop :=
  c ∉ [' ', '\t', '\r', '\n', '/', '(']

instance (c : Char) : Decidable (IsSolid c) :=
  inferInstanceAs (Decidable (c ∉ [' ', '\t', '\r', '\n', '/', '(']))

theorem IsTrivia.append {cs ds : List Char} (hcs : IsTrivia cs) (hds : IsTrivia ds) :
    IsTrivia (cs ++ ds) := by
  induction hcs with
  | nil => exact hds
  | blank hc _ ih => exact .blank hc ih
  | lineComment hinside hc _ ih =>
      rw [List.cons_append, List.cons_append, List.append_assoc]
      exact .lineComment hinside hc ih
  | blockComment hinside _ ih =>
      rw [List.cons_append, List.cons_append, List.append_assoc]
      exact .blockComment hinside ih

-- No key character follows, since none starts trivia.
theorem continuesKey_trivia {gap after : List Char} (hgap : IsTrivia gap) {c : Char}
    (hc : isKeyChar c = false) : continuesKey (gap ++ c :: after) = false := by
  cases hgap with
  | nil => exact hc
  | @blank d ds hd _ =>
      change isKeyChar d = false
      simp only [List.mem_cons, List.not_mem_nil, or_false] at hd
      rcases hd with rfl | rfl | rfl | rfl <;> rfl
  | lineComment => rfl
  | blockComment => rfl

theorem scan_solid {c : Char} (hc : IsSolid c) (cs : List Char) (newlines : Bool) (pos : Nat)
    (crossed : Bool) :
    Trivia.scan newlines .open pos crossed (c :: cs) = .stopped pos (c :: cs) crossed := by
  simp only [IsSolid, List.mem_cons, List.not_mem_nil, or_false, not_or] at hc
  obtain ⟨hspace, htab, hreturn, hfeed, hslash, hopen⟩ := hc
  refine scan_stop cs ?_ ?_ hslash (fun h => absurd h hopen) newlines pos crossed
  · simp [Trivia.isLineEnd, hreturn, hfeed]
  · simp [Trivia.isSpace, hspace, htab]

-- Trivia is a run where line ends are blanks. The line end behind a line comment is a piece of its
-- own there.
theorem IsTrivia.exists_isRun {lead : List Char} (h : IsTrivia lead) (rest : List Char) :
    ∃ pieces, pieces.flatten = lead ∧ Trivia.IsRun true pieces rest := by
  induction h with
  | nil => exact ⟨[], rfl, .nil⟩
  | @blank c cs hc _ ih =>
      obtain ⟨pieces, rfl, hrun⟩ := ih
      refine ⟨[c] :: pieces, rfl, .cons ?_ hrun⟩
      simp only [List.mem_cons, List.not_mem_nil, or_false, ← or_assoc] at hc
      rw [or_assoc] at hc
      exact hc.elim .blank (.lineEnd rfl)
  | @lineComment inside c cs hinside hc _ ih =>
      obtain ⟨pieces, rfl, hrun⟩ := ih
      refine ⟨('/' :: '/' :: inside) :: [c] :: pieces, rfl, .cons (.lineComment hinside ?_)
        (.cons (.lineEnd rfl hc) hrun)⟩
      rintro d ⟨⟩
      exact hc
  | @blockComment inside cs hinside _ ih =>
      obtain ⟨pieces, rfl, hrun⟩ := ih
      exact ⟨('(' :: '*' :: (inside ++ ['*', ')'])) :: pieces, by simp,
        .cons (.blockComment hinside) hrun⟩

-- The scan passes over trivia.
theorem scan_trivia {lead : List Char} (h : IsTrivia lead) (pos : Nat) (crossed : Bool)
    (cs : List Char) : ∃ crossed', Trivia.scan true .open pos crossed (lead ++ cs) =
      Trivia.scan true .open (pos + lead.length) crossed' cs := by
  obtain ⟨pieces, rfl, hrun⟩ := h.exists_isRun cs
  exact ⟨_, Trivia.scan_run hrun pos crossed⟩

-- A run is trivia if it ends before the text does: the line of its last comment is then ended too.
theorem Trivia.IsRun.isTrivia {pieces : List (List Char)} {rest : List Char}
    (h : IsRun true pieces rest) (hend : EndsAt true rest) (hrest : rest ≠ []) :
    IsTrivia pieces.flatten := by
  induction h with
  | nil => exact .nil
  | @cons piece rest pieces hpiece hrun ih =>
      have htail := ih hend hrest
      rw [List.flatten_cons]
      cases hpiece with
      | blank hc => exact .blank (by rcases hc with rfl | rfl <;> decide) htail
      | lineEnd _ hc => exact .blank (by rcases hc with rfl | rfl <;> decide) htail
      | blockComment hinside => simpa using htail.blockComment hinside
      | lineComment hinside hafter =>
          generalize hflatten : pieces.flatten = tail at htail hafter
          cases htail with
          | nil =>
              obtain ⟨c, rest, rfl⟩ := List.exists_cons_of_ne_nil hrest
              exact absurd (hafter c rfl) hend.not_lineEnd
          | @blank c tail _ htail => exact .lineComment hinside (hafter c rfl) htail
          | lineComment => exact absurd (hafter '/' rfl) (by decide)
          | blockComment => exact absurd (hafter '(' rfl) (by decide)

-- What the scan passes over is trivia, if it stops before the end of the text.
theorem exists_trivia_of_scan {pos last : Nat} {crossed crossed' : Bool} {cs rest : List Char}
    (h : Trivia.scan true .open pos crossed cs = .stopped last rest crossed') (hrest : rest ≠ []) :
    ∃ lead, IsTrivia lead ∧ cs = lead ++ rest := by
  obtain ⟨pieces, hrun, -, -⟩ := Trivia.exists_run_of_stopped h
  exact ⟨pieces.flatten, hrun.run.isTrivia hrun.ends hrest, hrun.text⟩

-- The same trivia stands in front of a solid character however it is found.
theorem IsTrivia.unique {lead lead' cs cs' : List Char} {c d : Char} (h : IsTrivia lead)
    (h' : IsTrivia lead') (hc : IsSolid c) (hd : IsSolid d)
    (heq : lead ++ c :: cs = lead' ++ d :: cs') : lead = lead' ∧ c :: cs = d :: cs' := by
  obtain ⟨crossed, hscan⟩ := scan_trivia h 0 false (c :: cs)
  obtain ⟨crossed', hscan'⟩ := scan_trivia h' 0 false (d :: cs')
  rw [scan_solid hc] at hscan
  rw [← heq, hscan, scan_solid hd] at hscan'
  obtain ⟨-, hrest, -⟩ := Trivia.Scan.stopped.inj hscan'
  rw [hrest] at heq
  exact ⟨List.append_cancel_right heq, hrest⟩

end CardLore
