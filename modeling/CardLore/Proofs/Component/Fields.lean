import CardLore.Component.Inherit

namespace CardLore

-- A field of a record, or several that are inherited together.
structure Field (R : Type) where
  Value : Type
  get : R → Value
  default : Value

-- The first value that is not the default, or the default if there is none.
inductive FirstSet {α : Type} (default : α) : List α → α → Prop
  | none : FirstSet default [] default
  | here {v : α} {vs : List α} (h : v ≠ default) : FirstSet default (v :: vs) v
  | later {v w : α} {vs : List α} (h : v = default) (hw : FirstSet default vs w) :
      FirstSet default (v :: vs) w

theorem FirstSet.singleton {α : Type} (default v : α) : FirstSet default [v] v := by
  by_cases h : v = default
  · subst h
    exact .later rfl .none
  · exact .here h

theorem FirstSet.unique {α : Type} {default : α} {vs : List α} {v w : α}
    (hv : FirstSet default vs v) (hw : FirstSet default vs w) : v = w := by
  induction hv with
  | none =>
      cases hw
      rfl
  | here hv =>
      cases hw with
      | here _ => rfl
      | later h _ => exact absurd h hv
  | later hv _ ih =>
      cases hw with
      | here h => exact absurd hv h
      | later _ hw => exact ih hw

-- The field goes from parents to children as `inherit` should have it.
structure Field.Inherited {R : Type} (f : Field R) (inherit : R → R → R) : Prop where
  unset : ∀ child parent, f.get child = f.default → f.get (inherit child parent) = f.get parent
  set : ∀ child parent, f.get child ≠ f.default → f.get (inherit child parent) = f.get child

namespace Field.Inherited

variable {R : Type} {inherit : R → R → R}

theorem of_get {α : Type} {default : α} {get : R → α}
    (hunset : ∀ c p, get c = default → get (inherit c p) = get p)
    (hset : ∀ c p, get c ≠ default → get (inherit c p) = get c) :
    Inherited ⟨α, get, default⟩ inherit :=
  ⟨hunset, hset⟩

theorem entries {α : Type} {get : R → List α}
    (h : ∀ c p, get (inherit c p) = inheritEntries (get c) (get p) := by intros; rfl) :
    Inherited ⟨List α, get, []⟩ inherit := by
  refine of_get (fun c p hc => ?_) (fun c p hc => ?_)
  · simp [h, inheritEntries, hc]
  · simp [h, inheritEntries, hc]

theorem option {α : Type} {get : R → Option α}
    (h : ∀ c p, get (inherit c p) = (get c).or (get p) := by intros; rfl) :
    Inherited ⟨Option α, get, none⟩ inherit := by
  refine of_get (fun c p hc => ?_) (fun c p hc => ?_)
  · simp [h, hc]
  · obtain ⟨v, hv⟩ := Option.ne_none_iff_exists'.mp hc
    simp [h, hv]

theorem flag {get : R → Bool}
    (h : ∀ c p, get (inherit c p) = (get c || get p) := by intros; rfl) :
    Inherited ⟨Bool, get, false⟩ inherit := by
  refine of_get (fun c p hc => ?_) (fun c p hc => ?_)
  · simp [h, hc]
  · simp [h, hc]

theorem permission {get : R → Bool}
    (h : ∀ c p, get (inherit c p) = (get c && get p) := by intros; rfl) :
    Inherited ⟨Bool, get, true⟩ inherit := by
  refine of_get (fun c p hc => ?_) (fun c p hc => ?_)
  · simp [h, hc]
  · simp [h, hc]

theorem value {α : Type} [DecidableEq α] {default : α} {get : R → α}
    (h : ∀ c p, get (inherit c p) = inheritValue default (get c) (get p) := by intros; rfl) :
    Inherited ⟨α, get, default⟩ inherit := by
  refine of_get (fun c p hc => ?_) (fun c p hc => ?_)
  · simp [h, inheritValue, hc]
  · simp [h, inheritValue, hc]

theorem key {get : R → Key}
    (h : ∀ c p, get (inherit c p) = inheritKey (get c) (get p) := by intros; rfl) :
    Inherited ⟨Key, get, .empty⟩ inherit := by
  have hempty : ∀ k : Key, k.isEmpty ↔ k = .empty := by
    rintro ⟨text⟩
    simp [Key.isEmpty, Key.empty]
  refine of_get (fun c p hc => ?_) (fun c p hc => ?_)
  · rw [h, inheritKey, if_pos ((hempty _).mpr hc)]
  · rw [h, inheritKey, if_neg fun he => hc ((hempty _).mp he)]

end Field.Inherited

namespace Aspect

def inheritedFields : List (Field Aspect) :=
  [⟨Text, label, []⟩, ⟨Text, description, []⟩, ⟨_, icon, none⟩, ⟨_, verbicon, none⟩,
    ⟨_, induces, none⟩, ⟨_, decaysTo, none⟩, ⟨_, hidden, false⟩, ⟨_, xtriggers, []⟩,
    ⟨Others, others, []⟩]

theorem inherited_fields : ∀ f ∈ inheritedFields, f.Inherited inherit := by
  simp only [inheritedFields, List.forall_mem_cons, List.not_mem_nil]
  exact ⟨.entries, .entries, .option, .option, .option, .option, .flag, .entries, .entries, nofun⟩

theorem eq_of_fields {r s : Aspect} (hid : r.id = s.id) (h : ∀ f ∈ inheritedFields, f.get r = f.get s) :
    r = s := by
  cases r
  cases s
  simp_all [inheritedFields]

end Aspect

namespace Card

-- Both ways of being unique are one field.
def uniqueness (r : Card) : Bool × Option Key := (r.unique, r.uniquenessGroup)

def inheritedFields : List (Field Card) :=
  [⟨Text, label, []⟩, ⟨Text, description, []⟩, ⟨_, icon, none⟩, ⟨_, verbicon, none⟩,
    ⟨_, induces, none⟩, ⟨_, decaysTo, none⟩, ⟨_, hidden, false⟩, ⟨_, aspects, []⟩,
    ⟨_, lifetime, none⟩, ⟨_, resaturate, false⟩, ⟨_, uniqueness, (false, none)⟩, ⟨_, slots, []⟩,
    ⟨_, xtriggers, []⟩, ⟨Others, others, []⟩]

theorem isOpen_iff (r : Card) : r.isOpen = true ↔ r.uniqueness = (false, none) := by
  simp [isOpen, uniqueness]

theorem inherited_uniqueness :
    Field.Inherited ⟨_, uniqueness, (false, none)⟩ inherit := by
  refine .of_get (fun c p hc => ?_) (fun c p hc => ?_)
  · simp [uniqueness, inherit, (isOpen_iff c).mpr hc]
  · have hopen : ¬ c.isOpen = true := fun h => hc ((isOpen_iff c).mp h)
    simp [uniqueness, inherit, hopen]

theorem inherited_fields : ∀ f ∈ inheritedFields, f.Inherited inherit := by
  simp only [inheritedFields, List.forall_mem_cons, List.not_mem_nil]
  exact ⟨.entries, .entries, .option, .option, .option, .option, .flag, .entries, .option, .flag,
    inherited_uniqueness, .entries, .entries, .entries, nofun⟩

theorem eq_of_fields {r s : Card} (hid : r.id = s.id) (h : ∀ f ∈ inheritedFields, f.get r = f.get s) :
    r = s := by
  cases r
  cases s
  simp_all [inheritedFields, uniqueness]

end Card

namespace Deck

def inheritedFields : List (Field Deck) :=
  [⟨Text, label, []⟩, ⟨Text, description, []⟩, ⟨_, default, none⟩, ⟨_, cards, []⟩,
    ⟨_, isPortalDeck, false⟩]

theorem inherited_fields : ∀ f ∈ inheritedFields, f.Inherited inherit := by
  simp only [inheritedFields, List.forall_mem_cons, List.not_mem_nil]
  exact ⟨.entries, .entries, .option, .entries, .flag, nofun⟩

theorem eq_of_fields {r s : Deck} (hid : r.id = s.id) (h : ∀ f ∈ inheritedFields, f.get r = f.get s) :
    r = s := by
  cases r
  cases s
  simp_all [inheritedFields]

end Deck

namespace Verb

def inheritedFields : List (Field Verb) :=
  [⟨Text, label, []⟩, ⟨Text, description, []⟩, ⟨_, slot, none⟩, ⟨Others, others, []⟩]

theorem inherited_fields : ∀ f ∈ inheritedFields, f.Inherited inherit := by
  simp only [inheritedFields, List.forall_mem_cons, List.not_mem_nil]
  exact ⟨.entries, .entries, .option, .entries, nofun⟩

theorem eq_of_fields {r s : Verb} (hid : r.id = s.id) (h : ∀ f ∈ inheritedFields, f.get r = f.get s) :
    r = s := by
  cases r
  cases s
  simp_all [inheritedFields]

end Verb

namespace Recipe

def inheritedFields : List (Field Recipe) :=
  [⟨_, verb, .empty⟩, ⟨Text, label, []⟩, ⟨Text, description, []⟩, ⟨Text, endDescription, []⟩,
    ⟨_, burn, none⟩, ⟨_, portal, none⟩, ⟨_, requirements, []⟩, ⟨_, maxExecutions, 0⟩,
    ⟨_, warmup, 0⟩, ⟨_, craftable, false⟩, ⟨_, hintOnly, false⟩, ⟨_, slot, none⟩, ⟨_, effects, []⟩,
    ⟨_, purge, []⟩, ⟨_, aspects, []⟩, ⟨_, draws, []⟩, ⟨_, mutations, []⟩, ⟨_, halt, []⟩,
    ⟨_, delete, []⟩, ⟨_, ending, none⟩, ⟨_, style, .none⟩, ⟨_, branches, []⟩, ⟨Others, others, []⟩]

theorem inherited_fields : ∀ f ∈ inheritedFields, f.Inherited inherit := by
  simp only [inheritedFields, List.forall_mem_cons, List.not_mem_nil]
  exact ⟨.key, .entries, .entries, .entries, .option, .option, .entries, .value, .value, .flag,
    .flag, .option, .entries, .entries, .entries, .entries, .entries, .entries, .entries, .option,
    .value, .entries, .entries, nofun⟩

theorem eq_of_fields {r s : Recipe} (hid : r.id = s.id) (h : ∀ f ∈ inheritedFields, f.get r = f.get s) :
    r = s := by
  cases r
  cases s
  simp_all [inheritedFields]

end Recipe

namespace Legacy

def inheritedFields : List (Field Legacy) :=
  [⟨Text, label, []⟩, ⟨Text, description, []⟩, ⟨Text, startDescription, []⟩, ⟨Text, image, []⟩,
    ⟨_, startingVerb, none⟩, ⟨_, startingCards, []⟩, ⟨_, statusBarElements, []⟩,
    ⟨_, excludeAfterLegacies, []⟩, ⟨_, newStart, false⟩, ⟨_, fromEnding, none⟩,
    ⟨_, availableWithoutEndingMatch, true⟩, ⟨Others, others, []⟩]

theorem inherited_fields : ∀ f ∈ inheritedFields, f.Inherited inherit := by
  simp only [inheritedFields, List.forall_mem_cons, List.not_mem_nil]
  exact ⟨.entries, .entries, .entries, .entries, .option, .entries, .entries, .entries, .flag,
    .option, .permission, .entries, nofun⟩

theorem eq_of_fields {r s : Legacy} (hid : r.id = s.id) (h : ∀ f ∈ inheritedFields, f.get r = f.get s) :
    r = s := by
  cases r
  cases s
  simp_all [inheritedFields]

end Legacy

namespace Ending

def inheritedFields : List (Field Ending) :=
  [⟨Text, label, []⟩, ⟨Text, description, []⟩, ⟨Text, image, []⟩, ⟨_, music, .grand⟩,
    ⟨_, animation, .dramaticLight⟩, ⟨Text, achievement, noAchievement⟩, ⟨Others, others, []⟩]

theorem inherited_fields : ∀ f ∈ inheritedFields, f.Inherited inherit := by
  simp only [inheritedFields, List.forall_mem_cons, List.not_mem_nil]
  exact ⟨.entries, .entries, .entries, .value, .value, .value, .entries, nofun⟩

theorem eq_of_fields {r s : Ending} (hid : r.id = s.id) (h : ∀ f ∈ inheritedFields, f.get r = f.get s) :
    r = s := by
  cases r
  cases s
  simp_all [inheritedFields]

end Ending

end CardLore
