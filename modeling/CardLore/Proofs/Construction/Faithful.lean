import CardLore.Proofs.Construction.FirstOffence
import Mathlib.Data.List.Induction

namespace CardLore

section

variable {α : Type} {objection? : List (Located α) → Located α → Option Objection}
  {items : List (Located α)}

theorem objection_eq_none (hclean : ¬ Offensive objection? items) {before after : List (Located α)}
    {s : Located α} (hitems : items = before ++ s :: after) : objection? before s = none :=
  not_not.mp fun h => hclean ⟨before, s, after, hitems, h⟩

theorem exists_objection_eq_none (hclean : ¬ Offensive objection? items) {s : Located α}
    (hs : s ∈ items) : ∃ before, objection? before s = none := by
  obtain ⟨before, after, hitems⟩ := List.append_of_mem hs
  exact ⟨before, objection_eq_none hclean hitems⟩

-- Items of a sort that may appear once.
theorem countP_le_one (sort : α → Bool)
    (hsort : ∀ before s, sort s.value = true → firstPlace sort before ≠ none →
      objection? before s ≠ none)
    (hclean : ¬ Offensive objection? items) : items.countP (fun s => sort s.value) ≤ 1 := by
  induction items using List.reverseRecOn with
  | nil => exact Nat.zero_le _
  | append_singleton items s ih =>
      rw [offensive_concat_iff, not_or, not_not] at hclean
      rw [List.countP_append, List.countP_singleton]
      by_cases hs : sort s.value = true
      · have hnone := not_not.mp (mt (hsort items s hs) (not_not.mpr hclean.2))
        rw [firstPlace, Option.map_eq_none_iff, List.find?_eq_none] at hnone
        exact Nat.le_of_eq (by rw [List.countP_eq_zero.mpr hnone, if_pos hs])
      · rw [if_neg hs]
        exact ih hclean.1

end

section

variable {β : Type} {objection? : List Statement → Statement → Option Objection}
  {ss : List Statement}

theorem length_said_le_one {form : Clause → Option β}
    (hform : ∀ before s, (form s.value).isSome →
      firstPlace (fun c => (form c).isSome) before ≠ none → objection? before s ≠ none)
    (hclean : ¬ Offensive objection? ss) : (said form ss).length ≤ 1 := by
  have hcount := countP_le_one (fun c => (form c).isSome) hform hclean
  rwa [said, List.length_filterMap_eq_countP]

theorem length_said_le_one_of_repetition {form : Clause → Option β} (code : String)
    (hform : ∀ before s, (form s.value).isSome →
      objection? before s = repetitionObjection? code (fun c => (form c).isSome) before)
    (hclean : ¬ Offensive objection? ss) : (said form ss).length ≤ 1 := by
  refine length_said_le_one (fun before s hs hfirst => ?_) hclean
  rwa [hform before s hs, repetitionObjection?, ne_eq, Option.map_eq_none_iff]

-- Statements of a form each key of which may appear once.
theorem nodup_map_said {γ : Type} {form : Clause → Option β} {f : β → γ}
    (hform : ∀ before s b, form s.value = some b → f b ∈ (said form before).map f →
      objection? before s ≠ none)
    (hclean : ¬ Offensive objection? ss) : ((said form ss).map f).Nodup := by
  induction ss using List.reverseRecOn with
  | nil => exact List.nodup_nil
  | append_singleton ss s ih =>
      rw [offensive_concat_iff, not_or, not_not] at hclean
      rw [said_concat]
      cases hs : form s.value with
      | none =>
          rw [Option.toList_none, List.append_nil]
          exact ih hclean.1
      | some b => exact nodup_map_concat (ih hclean.1) fun hb => hform ss s b hs hb hclean.2

theorem nodup_said_of_duplicate {form : Clause → Option β} {key : β → Key}
    (hform : ∀ before s b, form s.value = some b →
      objection? before s = duplicateObjection? ((said form before).map key) (key b))
    (hclean : ¬ Offensive objection? ss) : ((said form ss).map key).Nodup := by
  refine nodup_map_said (fun before s b hs hmem => ?_) hclean
  rw [hform before s b hs, duplicateObjection?, if_pos hmem]
  exact Option.some_ne_none _

-- A key is set at most once, and then to a value that converts.
def SetOnce {γ : Type} (convert : Literal → Option γ) (ss : List Statement) (key : Key) : Prop :=
  match said (Clause.valueFor? key) ss with
  | [] => True
  | [value] => (convert value).isSome
  | _ => False

theorem Clause.valueFor?_eq_some_iff {key : Key} {value : Literal} {c : Clause} :
    c.valueFor? key = some value ↔ c = .set key value := by
  cases c with
  | set k v => simp
  | _ => simp

theorem firstPlace_ne_none_iff {sort : Clause → Bool} {before : List Statement} :
    firstPlace sort before ≠ none ↔ ∃ s ∈ before, sort s.value = true := by
  rw [firstPlace, ne_eq, Option.map_eq_none_iff, List.find?_eq_none]
  simp

-- A key that was set before cannot be set again.
theorem assignmentObjection_ne_none {types : List (String × FieldType)} {before : List Statement}
    {key : Key} (h : key ∈ (said Clause.assignment? before).map (·.1)) (value : Literal) :
    assignmentObjection? types before key value ≠ none := by
  obtain ⟨e, he, rfl⟩ := List.mem_map.mp h
  obtain ⟨s, hs, hset⟩ := List.mem_filterMap.mp he
  have hfirst : firstPlace (fun c => c.assignment?.map (·.1) = some e.1) before ≠ none := by
    refine firstPlace_ne_none_iff.mpr ⟨s, hs, decide_eq_true ?_⟩
    rw [hset]
    rfl
  obtain ⟨first, hfirst⟩ := Option.ne_none_iff_exists'.mp hfirst
  rw [assignmentObjection?, hfirst]
  split <;> exact Option.some_ne_none _

theorem objection_of_assignmentObjection {types : List (String × FieldType)}
    {before : List Statement} {key : Key} {value : Literal} {t : String × FieldType}
    (htype : types.find? (fun t => (t.1 : Key) = key) = some t)
    (h : assignmentObjection? types before key value = none) : t.2.objection? value = none := by
  rw [assignmentObjection?, htype] at h
  split at h
  · cases h
  split at h
  · cases h
  · exact h

-- The kind objects to an assignment for what is wrong with its key or its value.
def Assigns (objection? : List Statement → Statement → Option Objection)
    (types : List (String × FieldType)) : Prop :=
  ∀ before key value span,
    objection? before ⟨.set key value, span⟩ = assignmentObjection? types before key value

variable {types : List (String × FieldType)}

theorem Assigns.nodup_keys (h : Assigns objection? types) (hclean : ¬ Offensive objection? ss) :
    ((said Clause.assignment? ss).map (·.1)).Nodup := by
  refine nodup_map_said (fun before s e hs hmem => ?_) hclean
  obtain ⟨c, span⟩ := s
  cases c with
  | set key value =>
      cases hs
      rw [h]
      exact assignmentObjection_ne_none hmem value
  | _ => cases hs

theorem Assigns.setOnce (h : Assigns objection? types) (hclean : ¬ Offensive objection? ss)
    {γ : Type} {read : Literal → Except Misfit γ} {convert : Literal → Option γ} {type : FieldType}
    (hconvert : Converts read convert type) {name : String}
    (htype : types.find? (fun t => (t.1 : Key) = (name : Key)) = some (name, type)) :
    SetOnce convert ss name := by
  have hvalue : ∀ value ∈ said (Clause.valueFor? name) ss, (convert value).isSome := by
    intro value hmem
    obtain ⟨⟨c, span⟩, hs, hform⟩ := List.mem_filterMap.mp hmem
    cases Clause.valueFor?_eq_some_iff.mp hform
    obtain ⟨before, hnone⟩ := exists_objection_eq_none hclean hs
    rw [h] at hnone
    have hread := hconvert value
    rw [objection_of_assignmentObjection htype hnone] at hread
    obtain ⟨x, -, hx⟩ := hread
    rw [hx]
    rfl
  have hlength : (said (Clause.valueFor? name) ss).length ≤ 1 := by
    refine length_said_le_one (fun before s hs hfirst => ?_) hclean
    obtain ⟨c, span⟩ := s
    obtain ⟨value, hvalue⟩ := Option.isSome_iff_exists.mp hs
    cases Clause.valueFor?_eq_some_iff.mp hvalue
    obtain ⟨⟨c, place⟩, hearlier, hset⟩ := firstPlace_ne_none_iff.mp hfirst
    obtain ⟨old, hold⟩ := Option.isSome_iff_exists.mp hset
    cases Clause.valueFor?_eq_some_iff.mp hold
    rw [h]
    refine assignmentObjection_ne_none (List.mem_map.mpr ⟨(name, old), ?_, rfl⟩) value
    exact List.mem_filterMap.mpr ⟨_, hearlier, rfl⟩
  rw [SetOnce]
  match hsaid : said (Clause.valueFor? name) ss with
  | [] => trivial
  | [value] => exact hvalue value (hsaid ▸ List.mem_singleton_self value)
  | _ :: _ :: _ =>
      rw [hsaid] at hlength
      simp at hlength

end

namespace Aspect

-- The record is the described one, and nothing that was said is missing in it.
structure Faithful (signature : Aspect) (ss : List Statement) (r : Aspect) : Prop where
  record : r = described signature ss
  forms : ∀ s ∈ ss, s.value.assignment?.isSome ∨ s.value.induction?.isSome ∨
    s.value.xtrigger?.isSome
  keys : ((said Clause.assignment? ss).map (·.1)).Nodup
  texts : ∀ key ∈ ["icon", "verbicon"], SetOnce Literal.text? ss key
  induction : (said Clause.induction? ss).length ≤ 1

theorem assigns : Assigns objection? fieldTypes :=
  fun _ _ _ _ => rfl

theorem faithful_described (signature : Aspect) {ss : List Statement}
    (hclean : ¬ Offensive objection? ss) : Faithful signature ss (described signature ss) where
  record := rfl
  forms := by
    rintro ⟨c, span⟩ hs
    obtain ⟨before, hnone⟩ := exists_objection_eq_none hclean hs
    cases c <;> simp_all [objection?]
  keys := assigns.nodup_keys hclean
  texts := by
    simp only [List.forall_mem_cons]
    exact ⟨assigns.setOnce hclean converts_text rfl, assigns.setOnce hclean converts_text rfl,
      List.forall_mem_nil _⟩
  induction := by
    refine length_said_le_one_of_repetition "E205" (fun before s hs => ?_) hclean
    obtain ⟨c, span⟩ := s
    cases c with
    | induce recipe chance => rfl
    | _ => cases hs

end Aspect

namespace Verb

structure Faithful (signature : Verb) (ss : List Statement) (r : Verb) : Prop where
  record : r = described signature ss
  forms : ∀ s ∈ ss, s.value.assignment?.isSome
  keys : ((said Clause.assignment? ss).map (·.1)).Nodup

theorem assigns : Assigns objection? [] :=
  fun _ _ _ _ => rfl

theorem faithful_described (signature : Verb) {ss : List Statement}
    (hclean : ¬ Offensive objection? ss) : Faithful signature ss (described signature ss) where
  record := rfl
  forms := by
    rintro ⟨c, span⟩ hs
    obtain ⟨before, hnone⟩ := exists_objection_eq_none hclean hs
    cases c <;> simp_all [objection?]
  keys := assigns.nodup_keys hclean

end Verb

namespace Deck

structure Faithful (signature : Deck) (entries : List (Located DeckEntry)) (r : Deck) : Prop where
  record : r = described signature entries
  default : entries.countP (·.value.isDefault) ≤ 1

theorem faithful_described (signature : Deck) {entries : List (Located DeckEntry)}
    (hclean : ¬ Offensive objection? entries) :
    Faithful signature entries (described signature entries) where
  record := rfl
  default := by
    refine countP_le_one (·.isDefault) (fun before e he hfirst => ?_) hclean
    rwa [objection?, if_pos he, repetitionObjection?, ne_eq, Option.map_eq_none_iff]

end Deck

theorem lookup_map_self {α β : Type} [BEq α] [LawfulBEq α] [DecidableEq α] (xs : List α) (f : α → β)
    (x : α) : (xs.map fun y => (y, f y)).lookup x = if x ∈ xs then some (f x) else none := by
  induction xs with
  | nil => rfl
  | cons y xs ih =>
      by_cases hx : x = y
      · simp [hx]
      · simp [List.lookup_cons, beq_eq_false_iff_ne.mpr hx, hx, ih]

theorem lookup_grouped (slots : List (Key × Slot)) (verb : Key) :
    ((grouped slots).lookup verb).getD [] = (slots.filter (·.1 = verb)).map (·.2) := by
  rw [grouped, lookup_map_self]
  split
  · rfl
  · rename_i hverb
    rw [List.mem_eraseDups] at hverb
    have hnone : slots.filter (·.1 = verb) = [] := by
      rw [List.filter_eq_nil_iff]
      intro e he heq
      exact hverb (List.mem_map.mpr ⟨e, he, of_decide_eq_true heq⟩)
    rw [hnone]
    rfl

namespace Card

structure Faithful (signature : Card) (aspects : List (Located (Key × Int))) (ss : List Statement)
    (r : Card) : Prop where
  record : r = described signature aspects ss
  forms : ∀ s ∈ ss, s.value.assignment?.isSome ∨ s.value.induction?.isSome ∨
    s.value.uniqueness?.isSome ∨ s.value.verbSlot?.isSome ∨ s.value.xtrigger?.isSome
  aspects : (aspects.map (·.value.1)).Nodup
  keys : ((said Clause.assignment? ss).map (·.1)).Nodup
  texts : ∀ key ∈ ["icon", "verbicon"], SetOnce Literal.text? ss key
  flags : SetOnce Literal.flag? ss "resaturate"
  induction : (said Clause.induction? ss).length ≤ 1
  uniqueness : (said Clause.uniqueness? ss).length ≤ 1
  verbs : r.slots.map (·.1) = ((said Clause.verbSlot? ss).map (·.1)).eraseDups
  slots : ∀ verb, (r.slots.lookup verb).getD [] =
    ((said Clause.verbSlot? ss).filter (·.1 = verb)).map (·.2)

theorem assigns : Assigns objection? fieldTypes :=
  fun _ _ _ _ => rfl

theorem nodup_aspects {aspects : List (Located (Key × Int))}
    (hclean : ¬ Offensive aspectObjection? aspects) : (aspects.map (·.value.1)).Nodup := by
  induction aspects using List.reverseRecOn with
  | nil => exact List.nodup_nil
  | append_singleton aspects a ih =>
      rw [offensive_concat_iff, not_or, not_not] at hclean
      refine nodup_map_concat (ih hclean.1) fun hmem => ?_
      have hnone := hclean.2
      rw [aspectObjection?, duplicateObjection?, if_pos hmem] at hnone
      cases hnone

theorem faithful_described (signature : Card) {aspects : List (Located (Key × Int))}
    {ss : List Statement} (haspects : ¬ Offensive aspectObjection? aspects)
    (hclean : ¬ Offensive objection? ss) :
    Faithful signature aspects ss (described signature aspects ss) where
  record := rfl
  forms := by
    rintro ⟨c, span⟩ hs
    obtain ⟨before, hnone⟩ := exists_objection_eq_none hclean hs
    cases c with
    | slot verb slot => cases verb <;> simp_all [objection?]
    | _ => simp_all [objection?]
  aspects := nodup_aspects haspects
  keys := assigns.nodup_keys hclean
  texts := by
    simp only [List.forall_mem_cons]
    exact ⟨assigns.setOnce hclean converts_text rfl, assigns.setOnce hclean converts_text rfl,
      List.forall_mem_nil _⟩
  flags := assigns.setOnce hclean converts_flag rfl
  induction := by
    refine length_said_le_one_of_repetition "E205" (fun before s hs => ?_) hclean
    obtain ⟨c, span⟩ := s
    cases c with
    | induce recipe chance => rfl
    | _ => cases hs
  uniqueness := by
    refine length_said_le_one_of_repetition "E204" (fun before s hs => ?_) hclean
    obtain ⟨c, span⟩ := s
    cases c with
    | unique group => rfl
    | _ => cases hs
  verbs := map_fst_grouped _
  slots := lookup_grouped _

end Card

namespace Recipe

structure Faithful (signature : Recipe) (ss : List Statement) (r : Recipe) : Prop where
  record : r = described signature ss
  forms : ∀ s ∈ ss, s.value.assignment?.isSome ∨ s.value.requirement?.isSome ∨
    (∃ word ∈ ["effect", "aspect", "purge", "draw", "halt", "delete"],
      (s.value.entryOf? word).isSome) ∨
    s.value.mutation?.isSome ∨ (s.value.target? "ending").isSome ∨ s.value.ownSlot?.isSome ∨
    s.value.branch?.isSome
  keys : ((said Clause.assignment? ss).map (·.1)).Nodup
  counts : ∀ key ∈ ["warmup", "maxexecutions"], SetOnce Literal.count? ss key
  flags : ∀ key ∈ ["craftable", "hintonly"], SetOnce Literal.flag? ss key
  texts : ∀ key ∈ ["burn", "portal"], SetOnce Literal.text? ss key
  style : SetOnce (Literal.member? WarmupStyle.enumeration) ss "style"
  quantities : ∀ word ∈ ["effect", "aspect", "purge", "draw", "halt", "delete"],
    ((said (Clause.entryOf? word) ss).map (·.1)).Nodup
  ending : (said (Clause.target? "ending") ss).length ≤ 1
  slot : (said Clause.ownSlot? ss).length ≤ 1

theorem assigns : Assigns objection? fieldTypes :=
  fun _ _ _ _ => rfl

theorem faithful_described (signature : Recipe) {ss : List Statement}
    (hclean : ¬ Offensive objection? ss) : Faithful signature ss (described signature ss) where
  record := rfl
  forms := by
    rintro ⟨c, span⟩ hs
    obtain ⟨before, hnone⟩ := exists_objection_eq_none hclean hs
    cases c with
    | slot verb slot => cases verb <;> simp_all [objection?]
    | quantity word element amount =>
        by_cases hword : word ∈ ["effect", "aspect", "purge", "draw", "halt", "delete"]
        · exact .inr (.inr (.inl ⟨word, hword, by simp⟩))
        · cases (if_neg hword).symm.trans hnone
    | reference word target =>
        by_cases hword : word = "ending"
        · simp [hword]
        · rw [objection?_reference before hword] at hnone
          cases hnone
    | _ => simp_all [objection?]
  keys := assigns.nodup_keys hclean
  counts := by
    simp only [List.forall_mem_cons]
    exact ⟨assigns.setOnce hclean converts_count rfl, assigns.setOnce hclean converts_count rfl,
      List.forall_mem_nil _⟩
  flags := by
    simp only [List.forall_mem_cons]
    exact ⟨assigns.setOnce hclean converts_flag rfl, assigns.setOnce hclean converts_flag rfl,
      List.forall_mem_nil _⟩
  texts := by
    simp only [List.forall_mem_cons]
    exact ⟨assigns.setOnce hclean converts_text rfl, assigns.setOnce hclean converts_text rfl,
      List.forall_mem_nil _⟩
  style := assigns.setOnce hclean (converts_word WarmupStyle.enumeration) rfl
  quantities := by
    intro word hword
    refine nodup_said_of_duplicate (fun before s e hs => ?_) hclean
    obtain ⟨c, span⟩ := s
    cases c with
    | quantity w element amount =>
        obtain ⟨rfl, rfl⟩ : w = word ∧ (element, amount) = e := by simpa using hs
        exact if_pos hword
    | _ => cases hs
  ending := by
    refine length_said_le_one_of_repetition "E205" (fun before s hs => ?_) hclean
    obtain ⟨c, span⟩ := s
    cases c with
    | reference word target =>
        obtain rfl : word = "ending" := by simpa using hs
        rfl
    | _ => cases hs
  slot := by
    refine length_said_le_one_of_repetition "E205" (fun before s hs => ?_) hclean
    obtain ⟨c, span⟩ := s
    cases c with
    | slot verb slot =>
        cases verb with
        | none => rfl
        | some verb => cases hs
    | _ => cases hs

end Recipe

namespace Legacy

structure Faithful (signature : Legacy) (ss : List Statement) (r : Legacy) : Prop where
  record : r = described signature ss
  forms : ∀ s ∈ ss, s.value.assignment?.isSome ∨
    (∃ word ∈ ["verb", "ending", "status", "exclude"], (s.value.target? word).isSome) ∨
    s.value.startingCard?.isSome
  keys : ((said Clause.assignment? ss).map (·.1)).Nodup
  texts : SetOnce Literal.text? ss "image"
  flags : ∀ key ∈ ["newstart", "availablewithoutendingmatch"], SetOnce Literal.flag? ss key
  single : ∀ word ∈ ["verb", "ending"], (said (Clause.target? word) ss).length ≤ 1
  distinct : ∀ word ∈ ["status", "exclude"], (said (Clause.target? word) ss).Nodup
  cards : ((said Clause.startingCard? ss).map (·.1)).Nodup

theorem assigns : Assigns objection? fieldTypes :=
  fun _ _ _ _ => rfl

theorem nodup_status {ss : List Statement} (hclean : ¬ Offensive objection? ss) :
    (said (Clause.target? "status") ss).Nodup := by
  rw [← List.map_id (said _ ss)]
  refine nodup_map_said (fun before s target hs hmem => ?_) hclean
  obtain ⟨c, span⟩ := s
  cases c with
  | reference word t =>
      obtain ⟨rfl, rfl⟩ : word = "status" ∧ t = target := by simpa using hs
      rw [List.map_id, id_eq] at hmem
      have hobjection : objection? before ⟨.reference "status" t, span⟩ =
          (duplicateObjection? (said (Clause.target? "status") before) t).or _ := rfl
      rw [hobjection, duplicateObjection?, if_pos hmem]
      exact Option.some_ne_none _
  | _ => cases hs

theorem nodup_excluded {ss : List Statement} (hclean : ¬ Offensive objection? ss) :
    (said (Clause.target? "exclude") ss).Nodup := by
  rw [← List.map_id (said _ ss)]
  refine nodup_said_of_duplicate (fun before s target hs => ?_) hclean
  obtain ⟨c, span⟩ := s
  cases c with
  | reference word t =>
      obtain ⟨rfl, rfl⟩ : word = "exclude" ∧ t = target := by simpa using hs
      rw [List.map_id]
      rfl
  | _ => cases hs

theorem faithful_described (signature : Legacy) {ss : List Statement}
    (hclean : ¬ Offensive objection? ss) : Faithful signature ss (described signature ss) where
  record := rfl
  forms := by
    rintro ⟨c, span⟩ hs
    obtain ⟨before, hnone⟩ := exists_objection_eq_none hclean hs
    cases c with
    | reference word target =>
        by_cases hword : word ∈ ["verb", "ending", "status", "exclude"]
        · exact .inr (.inl ⟨word, hword, by simp⟩)
        · rw [objection?_reference before hword] at hnone
          cases hnone
    | _ => simp_all [objection?]
  keys := assigns.nodup_keys hclean
  texts := assigns.setOnce hclean converts_text rfl
  flags := by
    simp only [List.forall_mem_cons]
    exact ⟨assigns.setOnce hclean converts_flag rfl, assigns.setOnce hclean converts_flag rfl,
      List.forall_mem_nil _⟩
  single := by
    intro word hword
    refine length_said_le_one_of_repetition "E205" (fun before s hs => ?_) hclean
    obtain ⟨c, span⟩ := s
    cases c with
    | reference w target =>
        obtain rfl : w = word := by simpa using hs
        simp only [List.mem_cons, List.not_mem_nil, or_false] at hword
        rcases hword with rfl | rfl <;> rfl
    | _ => cases hs
  distinct := by
    simp only [List.forall_mem_cons]
    exact ⟨nodup_status hclean, nodup_excluded hclean, List.forall_mem_nil _⟩
  cards := by
    refine nodup_said_of_duplicate (fun before s e hs => ?_) hclean
    obtain ⟨c, span⟩ := s
    cases c with
    | startingCard card amount =>
        cases hs
        rfl
    | _ => cases hs

end Legacy

-- A construction that succeeds takes up every statement, and holds nothing that its signature and
-- its statements do not say.
theorem build_loses_and_invents_nothing :
    (∀ id label description hidden decaysTo ss r,
      Aspect.build { id, label, description, hidden, decaysTo } ss = .ok r →
      Aspect.Faithful { id, label, description, hidden, decaysTo } ss r) ∧
    (∀ id label description hidden decaysTo lifetime aspects ss r,
      Card.build { id, label, description, hidden, decaysTo, lifetime } aspects ss = .ok r →
      Card.Faithful { id, label, description, hidden, decaysTo, lifetime } aspects ss r) ∧
    (∀ id label description slot ss r,
      Verb.build { id, label, description, slot } ss = .ok r →
      Verb.Faithful { id, label, description, slot } ss r) ∧
    (∀ id verb label description endDescription ss r,
      Recipe.build { id, verb, label, description, endDescription } ss = .ok r →
      Recipe.Faithful { id, verb, label, description, endDescription } ss r) ∧
    (∀ id label description startDescription ss r,
      Legacy.build { id, label, description, startDescription } ss = .ok r →
      Legacy.Faithful { id, label, description, startDescription } ss r) ∧
    ∀ id label description entries r,
      Deck.build { id, label, description } entries = .ok r →
      Deck.Faithful { id, label, description } entries r := by
  refine ⟨?aspect, ?card, ?verb, ?recipe, ?legacy, ?deck⟩
  case aspect =>
    intro id label description hidden decaysTo ss r hr
    obtain ⟨hclean, rfl⟩ := (Aspect.build_settles _ rfl ss).clean_of_ok hr
    exact Aspect.faithful_described _ hclean
  case card =>
    intro id label description hidden decaysTo lifetime aspects ss r hr
    rcases Card.build_settles { id, label, description, hidden, decaysTo, lifetime } rfl aspects ss
      with ⟨-, refusal, hrefusal, -⟩ | ⟨haspects, hsettles⟩
    · cases hrefusal.symm.trans hr
    · obtain ⟨hclean, rfl⟩ := hsettles.clean_of_ok hr
      exact Card.faithful_described _ haspects hclean
  case verb =>
    intro id label description slot ss r hr
    obtain ⟨hclean, rfl⟩ := (Verb.build_settles _ rfl ss).clean_of_ok hr
    exact Verb.faithful_described _ hclean
  case recipe =>
    intro id verb label description endDescription ss r hr
    obtain ⟨hclean, rfl⟩ := (Recipe.build_settles _ rfl ss).clean_of_ok hr
    exact Recipe.faithful_described _ hclean
  case legacy =>
    intro id label description startDescription ss r hr
    obtain ⟨hclean, rfl⟩ := (Legacy.build_settles _ rfl ss).clean_of_ok hr
    exact Legacy.faithful_described _ hclean
  case deck =>
    intro id label description entries r hr
    obtain ⟨hclean, rfl⟩ := (Deck.build_settles _ rfl entries).clean_of_ok hr
    exact Deck.faithful_described _ hclean

-- A card with slots under two verbs that come in turns, and two keys of which one is known.
def lampBody : List Statement :=
  [⟨.slot (some "study") { (default : Slot) with id := "first" }, lineSpan 1⟩,
    ⟨.slot (some "work") { (default : Slot) with id := "second" }, lineSpan 2⟩,
    ⟨.set "resaturate" (.bool true), lineSpan 3⟩,
    ⟨.slot (some "study") { (default : Slot) with id := "third" }, lineSpan 4⟩,
    ⟨.set "weight" (.int 3), lineSpan 5⟩]

theorem build_loses_and_invents_nothing_lamp :
    let aspects := [⟨("light", 2), lineSpan 0⟩]
    ∃ r, Card.build { id := "lamp", label := "Lamp" } aspects lampBody = .ok r ∧
      Card.Faithful { id := "lamp", label := "Lamp" } aspects lampBody r ∧
      r.resaturate = true ∧ r.others = [(("weight" : Key), .int 3)] ∧
      r.slots.map (fun e => (e.1, e.2.map (·.id))) =
        [(("study" : Key), [("first" : Key), "third"]), ("work", ["second"])] := by
  obtain ⟨-, hcard, -⟩ := build_loses_and_invents_nothing
  exact ⟨_, rfl, hcard _ _ _ _ _ _ _ _ _ rfl, rfl, rfl, rfl⟩

end CardLore
