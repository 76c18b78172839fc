import CardLore.Proofs.Compilation.Conclusion
import CardLore.Proofs.Course.Layout
import CardLore.Proofs.Source.Position

namespace CardLore

namespace Span

def first (span : Span) : Position :=
  ⟨span.startLine, span.startCol⟩

def last (span : Span) : Position :=
  ⟨span.endLine, span.endCol⟩

-- Both ends lie between the ends of the other span.
def Inside (inner outer : Span) : Prop :=
  outer.first < inner.first ∧ inner.last < outer.last

end Span

-- The declaration stands in the list, or in a namespace of it at any depth.
inductive Declaration.Within (d : Declaration) : List Declaration → Prop
  | here {ds : List Declaration} (h : d ∈ ds) : d.Within ds
  | inside {ds : List Declaration} {e : Declaration} (he : e ∈ ds) (h : d.Within e.body) :
      d.Within ds

section

variable {ctx : Context} {offset : Nat} {text behind : List Char} {ds : List Declaration}
  {d e : Declaration}

-- The text of a declaration, with that of its body inside of it.
structure Declaration.StandsIn (ctx : Context) (start : Nat) (head inside tail after : List Char)
    (d : Declaration) : Prop where
  stands : d.Stands ctx start (head ++ inside ++ tail) after
  sides : d.body ≠ [] → head ≠ [] ∧ tail ≠ []
  body : LaidOut ctx (start + head.length) inside (tail ++ after) d.body

theorem LaidOut.exists_standsIn (h : LaidOut ctx offset text behind ds) (hd : d ∈ ds) :
    ∃ before head inside tail after, text = before ++ (head ++ inside ++ tail) ++ after ∧
      d.StandsIn ctx (offset + before.length) head inside tail (after ++ behind) := by
  induction h with
  | nil => cases hd
  | @cons offset gap head inside tail more behind e ds hgap hstands hbody hsides hmore _ ih =>
      rcases List.mem_cons.mp hd with rfl | hd
      · exact ⟨gap, head, inside, tail, more, rfl, hstands, hsides, hbody⟩
      · obtain ⟨before, head', inside', tail', after, rfl, hstandsIn⟩ := ih hd
        refine ⟨gap ++ (head ++ inside ++ tail) ++ before, head', inside', tail', after, by simp,
          ?_⟩
        rwa [List.length_append, List.length_append, ← Nat.add_assoc, ← Nat.add_assoc]

theorem LaidOut.exists_standsIn_within (h : LaidOut ctx offset text behind ds)
    (hd : d.Within ds) :
    ∃ before head inside tail after, text = before ++ (head ++ inside ++ tail) ++ after ∧
      d.StandsIn ctx (offset + before.length) head inside tail (after ++ behind) := by
  induction hd generalizing offset text behind with
  | here hd => exact h.exists_standsIn hd
  | inside he _ ih =>
      obtain ⟨before, head, inside, tail, after, rfl, he⟩ := h.exists_standsIn he
      obtain ⟨before', head', inside', tail', after', rfl, hd⟩ := ih he.body
      refine ⟨before ++ head ++ before', head', inside', tail', after' ++ tail ++ after, by simp,
        ?_⟩
      rwa [List.length_append, List.length_append, List.append_assoc, List.append_assoc,
        ← Nat.add_assoc, ← Nat.add_assoc]

theorem Declaration.Within.ne_nil (h : d.Within ds) : ds ≠ [] := by
  cases h with
  | here h => exact List.ne_nil_of_mem h
  | inside he _ => exact List.ne_nil_of_mem he

end

section

variable {file : String} {source own text behind after : List Char} {limit start offset : Nat}
  {d e : Declaration} {ds : List Declaration}

theorem Declaration.Stands.length_pos {ctx : Context} (h : d.Stands ctx start own after) :
    0 < own.length := by
  obtain ⟨first, -, hrun⟩ := h.run
  obtain ⟨c, cs, rfl, -⟩ := hrun.exists_cons
  exact Nat.succ_pos _

-- The ends of a span are the first and the last of its offsets.
theorem Declaration.Stands.ends (h : d.Stands (.ofSource file source limit) start own after) :
    d.span.first = (LineIndex.ofChars source).position start ∧
      d.span.last = (LineIndex.ofChars source).position (start + (own.length - 1)) := by
  have hpos := h.length_pos
  have hmax : max start (start + own.length - 1) = start + (own.length - 1) := by omega
  rw [h.span, LineIndex.span, hmax]
  exact ⟨rfl, rfl⟩

theorem Declaration.Stands.span_behind {before : List Char}
    (h : d.Stands (.ofSource file (before ++ own ++ after) limit) before.length own after) :
    d.span.file = file ∧ d.span.first = .behind before ∧
      d.span.last = .behind (before ++ own.dropLast) := by
  obtain ⟨hfirst, hlast⟩ := h.ends
  have hne : own ≠ [] := List.ne_nil_of_length_pos h.length_pos
  have hsplit : before ++ own ++ after =
      before ++ own.dropLast ++ ([own.getLast hne] ++ after) := by
    nth_rewrite 1 [← List.dropLast_append_getLast hne]
    simp
  have hlength : before.length + (own.length - 1) = (before ++ own.dropLast).length := by
    rw [List.length_append, List.length_dropLast]
  refine ⟨by rw [h.span]; rfl, ?_, ?_⟩
  · rw [hfirst, List.append_assoc, LineIndex.position_append]
  · rw [hlast, hlength, hsplit, LineIndex.position_append]

-- A body lies between the two sides of its namespace.
theorem LaidOut.inside (h : LaidOut (.ofSource file source limit) offset text behind ds)
    (hbound : offset + text.length ≤ source.length) (he : e.Within ds) (hd : d.Within e.body) :
    d.span.Inside e.span := by
  obtain ⟨before, head, inside, tail, after, rfl, he⟩ := h.exists_standsIn_within he
  obtain ⟨hhead, htail⟩ := he.sides hd.ne_nil
  obtain ⟨before', head', inside', tail', after', rfl, hd⟩ := he.body.exists_standsIn_within hd
  have hhead := List.length_pos_of_ne_nil hhead
  have htail := List.length_pos_of_ne_nil htail
  have hown := hd.stands.length_pos
  obtain ⟨hfirst, hlast⟩ := he.stands.ends
  obtain ⟨hfirst', hlast'⟩ := hd.stands.ends
  simp only [List.length_append] at hbound hown hlast hlast'
  rw [Span.Inside, hfirst, hlast, hfirst', hlast']
  exact ⟨LineIndex.position_lt (by omega) (by omega), LineIndex.position_lt (by omega) (by omega)⟩

theorem LaidOut.isChain (h : LaidOut (.ofSource file source limit) offset text behind ds)
    (hbound : offset + text.length ≤ source.length) :
    ds.IsChain fun d e => d.span.last < e.span.first := by
  induction h with
  | nil => exact .nil
  | @cons offset gap head inside tail more behind d ds hgap hstands hbody hsides hmore _ ih =>
      simp only [List.length_append] at hbound
      have hchain := ih (by simp only [List.length_append]; omega)
      cases ds with
      | nil => exact .singleton d
      | cons e ds =>
          refine .cons_cons ?_ hchain
          obtain ⟨before, head', inside', tail', after, rfl, he⟩ :=
            hmore.exists_standsIn List.mem_cons_self
          have hown := hstands.length_pos
          rw [hstands.ends.2, he.stands.ends.1]
          simp only [List.length_append] at hbound hown ⊢
          exact LineIndex.position_lt (by omega) (by omega)

end

section

variable {file : String} {source : List Char} {limit : Nat} {tree : FileTree}

theorem accepted_laidOut {found : List Attribute × List Declaration} {s : State}
    (h : Parser.accepted (.ofSource file source limit) (.ofSource source) = .ok found s) :
    ∃ front text, source = front ++ text ++ s.rest ∧ (front = [] ∨ RunsTo front []) ∧
      LaidOut (.ofSource file source limit) front.length text s.rest found.2 := by
  obtain ⟨attributes, next, hattributes, h⟩ := bind_eq_ok_iff.mp h
  obtain ⟨declarations, last, hdeclarations, h⟩ := bind_eq_ok_iff.mp h
  cases h
  have hitem := Tracks.declarationWithin limit
  have hcourse := Tracks.of (fun _ => Tandem.fileAttribute.many) hattributes
  obtain ⟨front, hrest, hpos⟩ := hcourse.exists_takes
  obtain ⟨text, ⟨hrest', -⟩, hlaid⟩ :=
    (laysOut_declarationWithin rfl limit).many (readsMany_of_many hitem hdeclarations)
  have hfront : next.pos = front.length := hpos.trans (Nat.zero_add _)
  refine ⟨front, text, ?_, ?_, hfront ▸ hlaid⟩
  · rw [List.append_assoc, ← hrest']
    exact hrest
  · rcases hcourse.reach with hnone | hcloses
    · exact .inl (List.append_cancel_right (hrest.symm.trans hnone))
    · obtain ⟨gap, first, run, hgap, hrun, hcs⟩ := hcloses.runsTo
      rw [hrest, ← List.append_assoc] at hcs
      refine .inr ⟨gap, first, run, hgap, hrun, ?_⟩
      rw [List.append_cancel_right hcs, List.append_nil]

-- A file with a tree holds its attributes, its declarations with trivia between them, and trivia at
-- its end. Each declaration, be it inside of a namespace, is placed from the first to the last
-- character of the text that it was read from: a run of tokens, of which the first one is the mark
-- of its first attribute or its first keyword. What is inside of a namespace is strictly inside of
-- its span, and in every list each declaration ends before the next one starts.
theorem spans_nest_in_source_order
    (h : ParsedFile.ofSource file source limit = .ok ⟨file, .ok tree⟩) :
    (∃ front text behind, source = front ++ text ++ behind ∧ (front = [] ∨ RunsTo front []) ∧
      LaidOut (.ofSource file source limit) front.length text behind tree.declarations ∧
      Skips behind []) ∧
    (∀ d : Declaration, d.Within tree.declarations → ∃ before own after first,
      source = before ++ own ++ after ∧
      d.ReadFrom (.ofSource file source limit) before.length own after ∧
      ¬ StartsTrivia (own ++ after) ∧ d.OpensWith first ∧ TokenRun first own ∧
      d.span.file = file ∧ d.span.first = .behind before ∧
      d.span.last = .behind (before ++ own.dropLast)) ∧
    (∀ d e : Declaration, e.Within tree.declarations → d.Within e.body →
      d.span.Inside e.span) ∧
    tree.declarations.IsChain (fun d e => d.span.last < e.span.first) ∧
    ∀ e : Declaration, e.Within tree.declarations →
      e.body.IsChain fun d e => d.span.last < e.span.first := by
  obtain ⟨-, s, pos, crossed, haccepted, hskip⟩ := ofSource_eq_tree_iff.mp h
  obtain ⟨front, text, hsource, hfront, hlaid⟩ := accepted_laidOut haccepted
  have hbound : front.length + text.length ≤ source.length := by
    rw [hsource, List.length_append, List.length_append]
    omega
  refine ⟨⟨front, text, s.rest, hsource, hfront, hlaid, skips_of_scan hskip⟩, fun d hd => ?_,
    fun d e he hd => hlaid.inside hbound he hd, hlaid.isChain hbound, fun e he => ?_⟩
  · obtain ⟨before, head, inside, tail, after, rfl, hd⟩ := hlaid.exists_standsIn_within hd
    obtain ⟨first, hfirst, hrun⟩ := hd.stands.run
    have hsplit : source = front ++ before ++ (head ++ inside ++ tail) ++ (after ++ s.rest) := by
      rw [hsource]
      simp
    have hstands := hd.stands
    rw [← List.length_append] at hstands
    refine ⟨front ++ before, _, after ++ s.rest, first, hsplit, hstands.read, hstands.idle, hfirst,
      hrun, ?_⟩
    rw [hsplit] at hstands
    exact hstands.span_behind
  · obtain ⟨before, head, inside, tail, after, rfl, he⟩ := hlaid.exists_standsIn_within he
    refine he.body.isChain ?_
    simp only [List.length_append] at hbound
    omega

end

-- What a view of the tree shows, where reading the source is a matter of computation.
theorem exists_tree_of_view {β : Type} (file : String) (source : List Char) (view : FileTree → β)
    (shown : β)
    (h : (ParsedFile.ofSource file source).toOption.bind (fun f => f.tree?.map view) = some shown) :
    ∃ tree, ParsedFile.ofSource file source = .ok ⟨file, .ok tree⟩ ∧ view tree = shown := by
  rw [ParsedFile.ofSource] at h ⊢
  split at h
  next tree last hfile => exact ⟨tree, rfl, Option.some.inj h⟩
  all_goals cases h

-- The first declaration starts behind a comment and ends before one, and the second starts at its
-- attribute.
def nestedFile : List Char :=
  ("#![v]\nnamespace n \x7b // a card\n  card c \"C\" \x7b \x7d (* \x7d *)\n" ++
    "  #[k] hidden aspect a \"\" \"\" \x7b \x7d \x7d\n").toList

theorem spans_nest_in_source_order_nested :
    ∃ tree, ParsedFile.ofSource "n.crucible" nestedFile = .ok ⟨"n.crucible", .ok tree⟩ ∧
      (tree.declarations.flatMap (·.body)).map Declaration.span =
        [⟨"n.crucible", 3, 3, 3, 16⟩, ⟨"n.crucible", 4, 3, 4, 32⟩] ∧
      ∀ d e : Declaration, e.Within tree.declarations → d.Within e.body →
        d.span.Inside e.span := by
  obtain ⟨tree, htree, hspans⟩ := exists_tree_of_view "n.crucible" nestedFile
    (fun tree => (tree.declarations.flatMap (·.body)).map Declaration.span)
    [⟨"n.crucible", 3, 3, 3, 16⟩, ⟨"n.crucible", 4, 3, 4, 32⟩] (by decide +kernel)
  exact ⟨tree, htree, hspans, (spans_nest_in_source_order htree).2.2.1⟩

end CardLore
