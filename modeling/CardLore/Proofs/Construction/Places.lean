import CardLore.Construction.Aspect
import CardLore.Construction.Card
import CardLore.Construction.Deck
import CardLore.Construction.Ending
import CardLore.Construction.Legacy
import CardLore.Construction.Recipe
import CardLore.Construction.Verb
import CardLore.Proofs.Construction.Draft
import CardLore.Proofs.Construction.Invariant

namespace CardLore

section

variable {α β ε σ : Type}

-- Both results are refusals, or both are values and related.
inductive SameResult (P : α → α → Prop) : Except ε α → Except ε α → Prop
  | ok {v w : α} (h : P v w) : SameResult P (.ok v) (.ok w)
  | error {e e' : ε} : SameResult P (.error e) (.error e')

theorem SameResult.bind {P : α → α → Prop} {Q : β → β → Prop} {r r' : Except ε α}
    {f g : α → Except ε β} (h : SameResult P r r')
    (hf : ∀ v w, P v w → SameResult Q (f v) (g w)) : SameResult Q (r >>= f) (r' >>= g) := by
  cases h with
  | ok h => exact hf _ _ h
  | error => exact .error

-- The same where both give one value.
theorem SameResult.next {Q : β → β → Prop} {r r' : Except ε α} {f g : α → Except ε β}
    (h : SameResult Eq r r') (hf : ∀ v, SameResult Q (f v) (g v)) :
    SameResult Q (r >>= f) (r' >>= g) := by
  refine h.bind ?_
  rintro v _ rfl
  exact hf v

theorem SameResult.foldlM {step step' : σ → α → Except ε σ} {I : σ → σ → Prop}
    {E : α → α → Prop}
    (hstep : ∀ a a' x x', I a a' → E x x' → SameResult I (step a x) (step' a' x'))
    {xs xs' : List α} (hxs : List.Forall₂ E xs xs') {a a' : σ} (ha : I a a') :
    SameResult I (xs.foldlM step a) (xs'.foldlM step' a') := by
  induction hxs generalizing a a' with
  | nil => exact .ok ha
  | cons hx _ ih =>
      rw [List.foldlM_cons, List.foldlM_cons]
      exact (hstep _ _ _ _ ha hx).bind fun _ _ hmid => ih hmid

end

-- The same is said, be it at another place.
def Located.Agrees {α : Type} (l l' : Located α) : Prop :=
  l.value = l'.value

-- The drafts agree, places apart.
structure Draft.Agrees {R : Type} (d d' : Draft R) : Prop where
  record : d.record = d'.record
  assigned : d.assigned.map (·.1) = d'.assigned.map (·.1)
  used : d.used.map (·.1) = d'.used.map (·.1)

theorem lookup_eq_none_iff_of_map_fst {α β : Type} [BEq α] [LawfulBEq α] {es es' : List (α × β)}
    (h : es.map (·.1) = es'.map (·.1)) (k : α) : es.lookup k = none ↔ es'.lookup k = none := by
  constructor <;> intro hnone <;> have hmem := not_mem_of_lookup_eq_none hnone
  · exact lookup_eq_none_of_not_mem (h ▸ hmem)
  · exact lookup_eq_none_of_not_mem (h ▸ hmem)

theorem map_fst_concat {α β : Type} {es es' : List (α × β)} (h : es.map (·.1) = es'.map (·.1))
    (k : α) (v v' : β) : (es ++ [(k, v)]).map (·.1) = (es' ++ [(k, v')]).map (·.1) := by
  rw [List.map_append, List.map_append, h]
  rfl

namespace Draft.Agrees

variable {R : Type} {d d' : Draft R}

theorem ofRecord (r : R) : (Draft.ofRecord r).Agrees (.ofRecord r) :=
  ⟨rfl, rfl, rfl⟩

theorem modify (h : d.Agrees d') (f : R → R) : (d.modify f).Agrees (d'.modify f) :=
  ⟨congrArg f h.record, h.assigned, h.used⟩

theorem use (h : d.Agrees d') (name : String) (span span' : Span) :
    Draft.Agrees { d with used := d.used ++ [(name, span)] }
      { d' with used := d'.used ++ [(name, span')] } :=
  ⟨h.record, h.assigned, map_fst_concat h.used name span span'⟩

theorem reserve (h : d.Agrees d') (kind : Kind) (name : String) (span span' : Span) :
    SameResult Draft.Agrees (d.reserve kind name span) (d'.reserve kind name span') := by
  have hlookup := lookup_eq_none_iff_of_map_fst h.used name
  rw [Draft.reserve, Draft.reserve]
  cases hd : d.used.lookup name with
  | none =>
      rw [hlookup.mp hd]
      exact .ok (h.use name span span')
  | some first =>
      cases hd' : d'.used.lookup name with
      | none => exact absurd (hlookup.mpr hd') (hd ▸ Option.some_ne_none first)
      | some => exact .error

theorem assign (h : d.Agrees d') (fields : Fields R) (key : Key) (value : Literal)
    (span span' : Span) :
    SameResult Draft.Agrees (d.assign fields key value span)
      (d'.assign fields key value span') := by
  have hlookup := lookup_eq_none_iff_of_map_fst h.assigned key
  rw [Draft.assign, Draft.assign]
  by_cases hkey : key ∈ signatureKeys
  · rw [if_pos hkey, if_pos hkey]
    exact .error
  · rw [if_neg hkey, if_neg hkey]
    cases hd : d.assigned.lookup key with
    | none =>
        rw [hlookup.mp hd]
        have hnoted : Draft.Agrees { d with assigned := d.assigned ++ [(key, span)] }
            { d' with assigned := d'.assigned ++ [(key, span')] } :=
          ⟨h.record, map_fst_concat h.assigned key span span', h.used⟩
        dsimp only
        cases fields.known.find? (fun entry => Text.ofString entry.1 = key.text) with
        | none => exact .ok (hnoted.modify _)
        | some entry =>
            dsimp only
            cases entry.2 value with
            | ok update => exact .ok (hnoted.modify update)
            | error => exact .error
    | some first =>
        cases hd' : d'.assigned.lookup key with
        | none => exact absurd (hlookup.mpr hd') (hd ▸ Option.some_ne_none first)
        | some => exact .error

-- Statements that agree one by one build one record.
theorem body {add : Draft R → Statement → Except Refusal (Draft R)}
    (hadd : ∀ d d' s s', d.Agrees d' → s.Agrees s' → SameResult Draft.Agrees (add d s) (add d' s'))
    {statements statements' : List Statement}
    (hstatements : List.Forall₂ Located.Agrees statements statements') (signature : R) :
    SameResult Eq
      (do return (← statements.foldlM add (.ofRecord signature)).record : Except Refusal R)
      (do return (← statements'.foldlM add (.ofRecord signature)).record) :=
  (SameResult.foldlM hadd hstatements (.ofRecord signature)).bind fun _ _ h => .ok h.record

end Draft.Agrees

theorem addKeyed_agrees {α : Type} (entries : List (Key × α)) (what : String) (key : Key)
    (value : α) (span span' : Span) :
    SameResult Eq (addKeyed entries what key value span)
      (addKeyed entries what key value span') := by
  rw [addKeyed, addKeyed]
  split
  · exact .error
  · exact .ok rfl

theorem Aspect.build_agrees {ss ss' : List Statement} (h : List.Forall₂ Located.Agrees ss ss')
    (signature : Aspect) : SameResult Eq (build signature ss) (build signature ss') := by
  refine Draft.Agrees.body ?_ h signature
  rintro d d' ⟨c, span⟩ ⟨_, span'⟩ hd ⟨⟩
  cases c with
  | set key value => exact hd.assign fields key value span span'
  | induce recipe chance =>
      exact (hd.reserve .aspect "induce" span span').bind fun _ _ he => .ok (he.modify _)
  | xtrigger x => exact .ok (hd.modify _)
  | _ => exact .error

namespace Card

theorem reserveUnique_agrees {d d' : Draft Card} (h : d.Agrees d') (own other : String)
    (twice : Span → Offence) (span span' : Span) :
    SameResult Draft.Agrees (reserveUnique d own other twice span)
      (reserveUnique d' own other twice span') := by
  have hown := lookup_eq_none_iff_of_map_fst h.used own
  have hother := lookup_eq_none_iff_of_map_fst h.used other
  rw [reserveUnique, reserveUnique]
  split
  next first hfirst =>
    rw [hfirst] at hown
    split
    · exact .error
    · exact .error
    next hnone _ => exact absurd (hown.mpr hnone) (Option.some_ne_none first)
  next first hnone hfirst =>
    rw [hown.mp hnone]
    rw [hfirst] at hother
    split
    next heq => cases heq
    · exact .error
    next hnone' => exact absurd (hother.mpr hnone') (Option.some_ne_none first)
  next hnone hnone' =>
    rw [hown.mp hnone, hother.mp hnone']
    exact .ok (h.use own span span')

theorem addAspect_agrees {aspects : List (Key × Int)} {e e' : Located (Key × Int)}
    (h : e.Agrees e') : SameResult Eq (addAspect aspects e) (addAspect aspects e') := by
  obtain ⟨entry, span⟩ := e
  obtain ⟨_, span'⟩ := e'
  cases h
  rw [addAspect, addAspect]
  split
  · exact .error
  · exact .ok rfl

theorem build_agrees {aspects aspects' : List (Located (Key × Int))}
    (haspects : List.Forall₂ Located.Agrees aspects aspects') {ss ss' : List Statement}
    (h : List.Forall₂ Located.Agrees ss ss') (signature : Card) :
    SameResult Eq (build signature aspects ss) (build signature aspects' ss') := by
  have hfold : SameResult Eq (aspects.foldlM addAspect []) (aspects'.foldlM addAspect []) := by
    refine SameResult.foldlM ?_ haspects rfl
    rintro as _ e e' rfl he
    exact addAspect_agrees he
  refine hfold.next fun aspects => Draft.Agrees.body ?_ h _
  rintro d d' ⟨c, span⟩ ⟨_, span'⟩ hd ⟨⟩
  cases c with
  | set key value => exact hd.assign fields key value span span'
  | induce recipe chance =>
      exact (hd.reserve .card "induce" span span').bind fun _ _ he => .ok (he.modify _)
  | unique group =>
      cases group with
      | none =>
          exact (reserveUnique_agrees hd "unique" "group" .uniqueTwice span span').bind
            fun _ _ he => .ok (he.modify _)
      | some group =>
          exact (reserveUnique_agrees hd "group" "unique" .groupTwice span span').bind
            fun _ _ he => .ok (he.modify _)
  | slot verb slot =>
      cases verb with
      | none => exact .error
      | some verb => exact .ok (hd.modify _)
  | xtrigger x => exact .ok (hd.modify _)
  | _ => exact .error

end Card

theorem Deck.build_agrees {es es' : List (Located DeckEntry)}
    (h : List.Forall₂ Located.Agrees es es') (signature : Deck) :
    SameResult Eq (build signature es) (build signature es') := by
  have hfold : SameResult (fun p p' : Progress => p.deck = p'.deck ∧
        p.defaultAt.isSome = p'.defaultAt.isSome)
      (es.foldlM addEntry ⟨signature, none⟩) (es'.foldlM addEntry ⟨signature, none⟩) := by
    refine SameResult.foldlM ?_ h ⟨rfl, rfl⟩
    rintro ⟨deck, first⟩ ⟨_, first'⟩ ⟨entry, span⟩ ⟨_, span'⟩ ⟨rfl, hfirst⟩ ⟨⟩
    rw [addEntry, addEntry]
    dsimp only at hfirst ⊢
    cases entry.isDefault with
    | false => exact .ok ⟨rfl, hfirst⟩
    | true =>
        cases first <;> cases first'
        · exact .ok ⟨rfl, rfl⟩
        · cases hfirst
        · cases hfirst
        · exact .error
  exact hfold.bind fun _ _ hp => .ok hp.1

theorem Verb.build_agrees {ss ss' : List Statement} (h : List.Forall₂ Located.Agrees ss ss')
    (signature : Verb) : SameResult Eq (build signature ss) (build signature ss') := by
  refine Draft.Agrees.body ?_ h signature
  rintro d d' ⟨c, span⟩ ⟨_, span'⟩ hd ⟨⟩
  cases c with
  | set key value => exact hd.assign fields key value span span'
  | _ => exact .error

theorem Expulsion.build_agrees {es es' : List (Located (Key × Int))}
    (h : List.Forall₂ Located.Agrees es es') : SameResult Eq (build es) (build es') := by
  refine (SameResult.foldlM ?_ h rfl).next fun elements => .ok rfl
  rintro elements _ ⟨entry, span⟩ ⟨_, span'⟩ rfl ⟨⟩
  exact addKeyed_agrees elements _ entry.1 entry.2 span span'

namespace Recipe

theorem addStatement_reference (d : Draft Recipe) {word : String} (h : word ≠ "ending")
    (target : Key) (span : Span) :
    addStatement d ⟨.reference word target, span⟩ = .error ⟨.notAllowed .recipe, span⟩ := by
  rw [addStatement]
  split <;> simp_all

theorem build_agrees {ss ss' : List Statement} (h : List.Forall₂ Located.Agrees ss ss')
    (signature : Recipe) : SameResult Eq (build signature ss) (build signature ss') := by
  refine Draft.Agrees.body ?_ h signature
  rintro d d' ⟨c, span⟩ ⟨_, span'⟩ hd ⟨⟩
  cases c with
  | set key value => exact hd.assign fields key value span span'
  | require requirement => exact .ok (hd.modify _)
  | quantity word element amount =>
      rw [addStatement, addStatement, ← hd.record]
      dsimp only
      cases Quantity.ofKeyword? word with
      | none => exact .error
      | some q => exact (addKeyed_agrees _ _ _ _ span span').next fun _ => .ok (hd.modify _)
  | mutate mutation => exact .ok (hd.modify _)
  | reference word target =>
      by_cases hword : word = "ending"
      · subst hword
        exact (hd.reserve .recipe "ending" span span').bind fun _ _ he => .ok (he.modify _)
      · rw [addStatement_reference d hword, addStatement_reference d' hword]
        exact .error
  | slot verb slot =>
      cases verb with
      | none => exact (hd.reserve .recipe "slot" span span').bind fun _ _ he => .ok (he.modify _)
      | some verb => exact .error
  | branch branch => exact .ok (hd.modify _)
  | _ => exact .error

end Recipe

namespace Legacy

theorem addStatement_reference (d : Draft Legacy) {word : String}
    (h : word ∉ ["verb", "ending", "status", "exclude"]) (target : Key) (span : Span) :
    addStatement d ⟨.reference word target, span⟩ = .error ⟨.notAllowed .legacy, span⟩ := by
  rw [addStatement]
  split <;> simp_all

theorem addStatus_agrees (elements : List Key) (target : Key) (span span' : Span) :
    SameResult Eq (addStatus elements target span) (addStatus elements target span') := by
  rw [addStatus, addStatus]
  split
  · exact .error
  · split
    · exact .error
    · exact .ok rfl

theorem addExcluded_agrees (excluded : List Key) (target : Key) (span span' : Span) :
    SameResult Eq (addExcluded excluded target span) (addExcluded excluded target span') := by
  rw [addExcluded, addExcluded]
  split
  · exact .error
  · exact .ok rfl

theorem build_agrees {ss ss' : List Statement} (h : List.Forall₂ Located.Agrees ss ss')
    (signature : Legacy) : SameResult Eq (build signature ss) (build signature ss') := by
  refine Draft.Agrees.body ?_ h signature
  rintro d d' ⟨c, span⟩ ⟨_, span'⟩ hd ⟨⟩
  cases c with
  | set key value => exact hd.assign fields key value span span'
  | reference word target =>
      by_cases hword : word ∈ ["verb", "ending", "status", "exclude"]
      · simp only [List.mem_cons, List.not_mem_nil, or_false] at hword
        rcases hword with rfl | rfl | rfl | rfl
        · exact (hd.reserve .legacy "verb" span span').bind fun _ _ he => .ok (he.modify _)
        · exact (hd.reserve .legacy "ending" span span').bind fun _ _ he => .ok (he.modify _)
        · rw [addStatement, addStatement, ← hd.record]
          exact (addStatus_agrees _ target span span').next fun _ => .ok (hd.modify _)
        · rw [addStatement, addStatement, ← hd.record]
          exact (addExcluded_agrees _ target span span').next fun _ => .ok (hd.modify _)
      · rw [addStatement_reference d hword, addStatement_reference d' hword]
        exact .error
  | startingCard card amount =>
      rw [addStatement, addStatement, ← hd.record]
      exact (addKeyed_agrees _ _ card amount span span').next fun _ => .ok (hd.modify _)
  | _ => exact .error

end Legacy

namespace Ending

theorem collect_agrees (content : List (Text × Literal)) (span span' : Span) :
    SameResult Eq (collect content span) (collect content span') := by
  refine SameResult.foldlM (E := Eq) ?_ (List.forall₂_refl content) rfl
  rintro seen _ ⟨name, value⟩ _ rfl rfl
  dsimp only
  split
  · exact .error
  · exact .ok rfl

theorem textOf?_agrees (members : List Member) (name : String) (span span' : Span) :
    SameResult Eq (textOf? members name span) (textOf? members name span') := by
  rw [textOf?, textOf?]
  cases members.find? (·.lowered = Text.ofString name) with
  | none => exact .ok rfl
  | some member =>
      obtain ⟨lowered, written, value⟩ := member
      cases value with
      | string t => exact .ok rfl
      | _ => exact .error

theorem memberOf_agrees {α : Type} (members : List Member) (name : String) (e : Enumeration α)
    (default : α) (span span' : Span) :
    SameResult Eq (memberOf members name e default span)
      (memberOf members name e default span') := by
  refine (textOf?_agrees members name span span').next fun word => ?_
  cases word with
  | none => exact .ok rfl
  | some word =>
      dsimp only
      cases e.find? word with
      | none => exact .error
      | some member => exact .ok rfl

theorem build_agrees (id : Key) (label description : Text) (body : Literal) (span span' : Span) :
    SameResult Eq (build id label description body span)
      (build id label description body span') := by
  cases body with
  | object content =>
      refine (collect_agrees content span span').next fun members => ?_
      refine (textOf?_agrees members "image" span span').next fun image => ?_
      cases image with
      | none => exact .error
      | some image =>
          refine (memberOf_agrees members _ _ _ span span').next fun music => ?_
          refine (memberOf_agrees members _ _ _ span span').next fun animation => ?_
          exact (textOf?_agrees members _ span span').next fun achievement => .ok rfl
  | _ => exact .error

end Ending

end CardLore
