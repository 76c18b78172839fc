import CardLore.Construction.Aspect
import CardLore.Construction.Card
import CardLore.Construction.Deck
import CardLore.Construction.Legacy
import CardLore.Construction.Recipe
import CardLore.Construction.Verb
import CardLore.Proofs.Construction.Invariant

namespace CardLore

namespace Clause

@[simp] def assignment? : Clause → Option (Key × Literal)
  | set key value => some (key, value)
  | _ => none

-- The value that the clause gives to one key.
@[simp] def valueFor? (key : Key) : Clause → Option Literal
  | set k value => if k = key then some value else none
  | _ => none

@[simp] def induction? : Clause → Option Induction
  | induce recipe chance => some ⟨recipe, chance⟩
  | _ => none

@[simp] def xtrigger? : Clause → Option Xtrigger
  | xtrigger x => some x
  | _ => none

-- The group that a `unique` names, or that it names none.
@[simp] def uniqueness? : Clause → Option (Option Key)
  | unique group => some group
  | _ => none

@[simp] def verbSlot? : Clause → Option (Key × Slot)
  | slot (some verb) s => some (verb, s)
  | _ => none

@[simp] def ownSlot? : Clause → Option Slot
  | slot none s => some s
  | _ => none

@[simp] def requirement? : Clause → Option Requirement
  | require r => some r
  | _ => none

-- The entry of the quantity that a word names.
@[simp] def entryOf? (word : String) : Clause → Option (Key × Amount)
  | quantity w element amount => if w = word then some (element, amount) else none
  | _ => none

@[simp] def mutation? : Clause → Option Mutation
  | mutate m => some m
  | _ => none

-- What the clause names behind one word.
@[simp] def target? (word : String) : Clause → Option Key
  | reference w target => if w = word then some target else none
  | _ => none

@[simp] def startingCard? : Clause → Option (Key × Int)
  | startingCard card amount => some (card, amount)
  | _ => none

@[simp] def branch? : Clause → Option Branch
  | branch b => some b
  | _ => none

end Clause

-- All that statements of one form say, in source order.
def said {α : Type} (form : Clause → Option α) (statements : List Statement) : List α :=
  statements.filterMap fun s => form s.value

@[simp] theorem said_concat {α : Type} (form : Clause → Option α) (statements : List Statement)
    (s : Statement) :
    said form (statements ++ [s]) = said form statements ++ (form s.value).toList := by
  rw [said, List.filterMap_append, ← said]
  cases h : form s.value <;> simp [h]

namespace Literal

def text? : Literal → Option Text
  | string t => some t
  | _ => none

def flag? : Literal → Option Bool
  | bool b => some b
  | _ => none

def count? : Literal → Option Int
  | int n => if 0 ≤ n then some n else none
  | _ => none

def member? {α : Type} (e : Enumeration α) : Literal → Option α
  | string word => e.find? word
  | _ => none

end Literal

-- The converted value of the statement that sets a key.
def assigned? {α : Type} (convert : Literal → Option α) (key : Key) (statements : List Statement) :
    Option α :=
  (said (Clause.valueFor? key) statements).head?.bind convert

-- The assignments to keys that are not among the known ones.
def unknownAssignments (known : List String) (statements : List Statement) : Others :=
  (said Clause.assignment? statements).filter fun e => (e.1 ∉ known.map fun name => (name : Key))

section

variable {α : Type} (convert : Literal → Option α) (ss : List Statement) (span : Span)

-- Only an assignment to the key matters.
theorem assigned?_concat {c : Clause} {key : Key} (h : c.valueFor? key = none) :
    assigned? convert key (ss ++ [⟨c, span⟩]) = assigned? convert key ss := by
  rw [assigned?, said_concat, h, Option.toList_none, List.append_nil, assigned?]

theorem assigned?_set_ne {key other : Key} (h : other ≠ key) (value : Literal) :
    assigned? convert key (ss ++ [⟨.set other value, span⟩]) = assigned? convert key ss :=
  assigned?_concat convert ss span (if_neg h)

-- The first assignment to a key is the one that counts.
theorem assigned?_set {key : Key} (hfresh : said (Clause.valueFor? key) ss = []) (value : Literal)
    (other : Key) :
    assigned? convert other (ss ++ [⟨.set key value, span⟩]) =
      if key = other then convert value else assigned? convert other ss := by
  by_cases h : key = other
  · subst h
    simp [assigned?, hfresh]
  · rw [if_neg h, assigned?_set_ne convert ss span h]

theorem unknownAssignments_set (known : List String) (key : Key) (value : Literal) :
    unknownAssignments known (ss ++ [⟨.set key value, span⟩]) = unknownAssignments known ss ++
      (if key ∈ known.map fun name => (name : Key) then [] else [(key, value)]) := by
  rw [unknownAssignments, said_concat, List.filter_append, unknownAssignments]
  congr 1
  by_cases h : key ∈ known.map fun name => (name : Key)
  · rw [if_pos h]
    simpa [Clause.assignment?] using h
  · rw [if_neg h]
    simpa [Clause.assignment?] using h

end

-- The slots of each verb in their order, the verbs in the order of their first slots.
def grouped (slots : List (Key × Slot)) : List (Key × List Slot) :=
  (slots.map (·.1)).eraseDups.map fun verb =>
    (verb, (slots.filter (·.1 = verb)).map (·.2))

theorem Card.addSlot_of_not_mem {slots : List (Key × List Slot)} {verb : Key}
    (h : verb ∉ slots.map (·.1)) (slot : Slot) :
    addSlot slots verb slot = slots ++ [(verb, [slot])] := by
  induction slots with
  | nil => rfl
  | cons e slots ih =>
      obtain ⟨hne, hslots⟩ := not_or.mp (mt List.mem_cons.mpr h)
      rw [addSlot, if_neg (Ne.symm hne), ih hslots, List.cons_append]

theorem Card.addSlot_of_mem {slots : List (Key × List Slot)} {verb : Key}
    (hnodup : (slots.map (·.1)).Nodup) (h : verb ∈ slots.map (·.1)) (slot : Slot) :
    addSlot slots verb slot =
      slots.map fun e => if e.1 = verb then (e.1, e.2 ++ [slot]) else e := by
  induction slots with
  | nil => cases h
  | cons e slots ih =>
      obtain ⟨v, own⟩ := e
      obtain ⟨hfresh, hnodup⟩ := List.nodup_cons.mp hnodup
      by_cases hv : v = verb
      · subst hv
        have hrest : (slots.map fun e => if e.1 = v then (e.1, e.2 ++ [slot]) else e) = slots := by
          refine (List.map_congr_left fun e he => if_neg ?_).trans (List.map_id' _)
          rintro rfl
          exact hfresh (List.mem_map.mpr ⟨e, he, rfl⟩)
        rw [addSlot, if_pos rfl, List.map_cons, if_pos rfl, hrest]
      · have hmem : verb ∈ slots.map (·.1) := (List.mem_cons.mp h).resolve_left (Ne.symm hv)
        rw [addSlot, if_neg hv, ih hnodup hmem, List.map_cons, if_neg hv]

theorem map_fst_grouped (slots : List (Key × Slot)) :
    (grouped slots).map (·.1) = (slots.map (·.1)).eraseDups := by
  rw [grouped, List.map_map]
  exact List.map_id' _

-- One more slot goes under its verb, behind the ones that are there.
theorem grouped_concat (slots : List (Key × Slot)) (verb : Key) (slot : Slot) :
    grouped (slots ++ [(verb, slot)]) = Card.addSlot (grouped slots) verb slot := by
  have hown : ∀ v, ((slots ++ [(verb, slot)]).filter (·.1 = v)).map (·.2) =
      (slots.filter (·.1 = v)).map (·.2) ++ if verb = v then [slot] else [] := by
    intro v
    by_cases hv : verb = v <;> simp [List.filter_append, hv]
  have hverbs : ((slots ++ [(verb, slot)]).map (·.1)).eraseDups =
      (slots.map (·.1)).eraseDups ++ if verb ∈ slots.map (·.1) then [] else [verb] := by
    rw [List.map_append, List.eraseDups_append, List.map_singleton, List.removeAll,
      List.filter_cons]
    by_cases hmem : verb ∈ slots.map (·.1)
    · rw [if_pos hmem, List.elem_eq_true_of_mem hmem]
      rfl
    · rw [if_neg hmem, Bool.eq_false_iff.mpr (mt List.mem_of_elem_eq_true hmem)]
      rfl
  by_cases hmem : verb ∈ slots.map (·.1)
  · rw [Card.addSlot_of_mem (by rw [map_fst_grouped]; exact nodup_eraseDups _)
      (by rw [map_fst_grouped]; exact List.mem_eraseDups.mpr hmem), grouped, hverbs, if_pos hmem,
      List.append_nil, grouped, List.map_map]
    refine List.map_congr_left fun v _ => ?_
    rw [hown, Function.comp_apply]
    by_cases hv : verb = v
    · subst hv
      rw [if_pos rfl, if_pos rfl]
    · rw [if_neg hv, if_neg (Ne.symm hv), List.append_nil]
  · rw [Card.addSlot_of_not_mem (by rw [map_fst_grouped, List.mem_eraseDups]; exact hmem), grouped,
      hverbs, if_neg hmem, List.map_append, grouped]
    congr 1
    · refine List.map_congr_left fun v hv => ?_
      have hne : verb ≠ v := by
        rintro rfl
        exact hmem (List.mem_eraseDups.mp hv)
      rw [hown, if_neg hne, List.append_nil]
    · have hnone : slots.filter (·.1 = verb) = [] := by
        rw [List.filter_eq_nil_iff]
        intro e he heq
        exact hmem (List.mem_map.mpr ⟨e, he, of_decide_eq_true heq⟩)
      rw [List.map_singleton, hown, hnone, if_pos rfl]
      rfl

def Aspect.described (signature : Aspect) (ss : List Statement) : Aspect :=
  { id := signature.id
    label := signature.label
    description := signature.description
    hidden := signature.hidden
    decaysTo := signature.decaysTo
    icon := assigned? Literal.text? "icon" ss
    verbicon := assigned? Literal.text? "verbicon" ss
    induces := (said Clause.induction? ss).head?
    xtriggers := said Clause.xtrigger? ss
    others := unknownAssignments ["icon", "verbicon"] ss }

def Card.described (signature : Card) (aspects : List (Located (Key × Int))) (ss : List Statement) :
    Card :=
  { id := signature.id
    label := signature.label
    description := signature.description
    hidden := signature.hidden
    decaysTo := signature.decaysTo
    lifetime := signature.lifetime
    aspects := aspects.map (·.value)
    icon := assigned? Literal.text? "icon" ss
    verbicon := assigned? Literal.text? "verbicon" ss
    resaturate := (assigned? Literal.flag? "resaturate" ss).getD false
    induces := (said Clause.induction? ss).head?
    unique := (said Clause.uniqueness? ss).contains none
    uniquenessGroup := (said Clause.uniqueness? ss).head?.join
    slots := grouped (said Clause.verbSlot? ss)
    xtriggers := said Clause.xtrigger? ss
    others := unknownAssignments ["icon", "verbicon", "resaturate"] ss }

def Deck.described (signature : Deck) (entries : List (Located DeckEntry)) : Deck :=
  { id := signature.id
    label := signature.label
    description := signature.description
    cards := entries.map fun e => (e.value.card, e.value.description)
    default := (entries.find? (·.value.isDefault)).map (·.value.card)
    isPortalDeck := entries.any (·.value.description.isSome) }

def Verb.described (signature : Verb) (ss : List Statement) : Verb :=
  { id := signature.id
    label := signature.label
    description := signature.description
    slot := signature.slot
    others := said Clause.assignment? ss }

def Recipe.described (signature : Recipe) (ss : List Statement) : Recipe :=
  { id := signature.id
    verb := signature.verb
    label := signature.label
    description := signature.description
    endDescription := signature.endDescription
    warmup := (assigned? Literal.count? "warmup" ss).getD 0
    maxExecutions := (assigned? Literal.count? "maxexecutions" ss).getD 0
    craftable := (assigned? Literal.flag? "craftable" ss).getD false
    hintOnly := (assigned? Literal.flag? "hintonly" ss).getD false
    burn := assigned? Literal.text? "burn" ss
    portal := assigned? Literal.text? "portal" ss
    style := (assigned? (Literal.member? WarmupStyle.enumeration) "style" ss).getD .none
    requirements := said Clause.requirement? ss
    effects := said (Clause.entryOf? "effect") ss
    aspects := said (Clause.entryOf? "aspect") ss
    purge := said (Clause.entryOf? "purge") ss
    draws := said (Clause.entryOf? "draw") ss
    halt := said (Clause.entryOf? "halt") ss
    delete := said (Clause.entryOf? "delete") ss
    mutations := said Clause.mutation? ss
    ending := (said (Clause.target? "ending") ss).head?
    slot := (said Clause.ownSlot? ss).head?
    branches := said Clause.branch? ss
    others := unknownAssignments
      ["warmup", "maxexecutions", "craftable", "hintonly", "burn", "portal", "style"] ss }

def Legacy.described (signature : Legacy) (ss : List Statement) : Legacy :=
  { id := signature.id
    label := signature.label
    description := signature.description
    startDescription := signature.startDescription
    image := (assigned? Literal.text? "image" ss).getD []
    newStart := (assigned? Literal.flag? "newstart" ss).getD false
    availableWithoutEndingMatch :=
      (assigned? Literal.flag? "availablewithoutendingmatch" ss).getD true
    startingVerb := (said (Clause.target? "verb") ss).head?
    fromEnding := (said (Clause.target? "ending") ss).head?
    statusBarElements := said (Clause.target? "status") ss
    excludeAfterLegacies := said (Clause.target? "exclude") ss
    startingCards := said Clause.startingCard? ss
    others := unknownAssignments ["image", "newstart", "availablewithoutendingmatch"] ss }

end CardLore
