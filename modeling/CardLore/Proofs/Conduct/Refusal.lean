import CardLore.Proofs.Conduct.Basic
import CardLore.Proofs.Construction.FirstOffence

namespace CardLore

section

variable {α β σ R : Type} {file : String}

namespace RefusesIn

theorem ok (v : α) : RefusesIn file (.ok v) := by
  rintro r ⟨⟩

theorem error {offence : Offence} {span : Span} (hspan : span.file = file)
    (hearlier : offence.earlier? = none) :
    RefusesIn file (.error ⟨offence, span⟩ : Except Refusal α) := by
  rintro r ⟨⟩
  exact Refusal.isIn_of_span hspan hearlier

theorem bind {x : Except Refusal α} {f : α → Except Refusal β} (hx : RefusesIn file x)
    (hf : ∀ v, RefusesIn file (f v)) : RefusesIn file (x >>= f) := by
  cases x with
  | ok v => exact hf v
  | error r =>
      rintro _ ⟨⟩
      exact hx r rfl

theorem foldlM {add : σ → α → Except Refusal σ} {items : List α}
    (h : ∀ d, ∀ x ∈ items, RefusesIn file (add d x)) (start : σ) :
    RefusesIn file (items.foldlM add start) := by
  induction items generalizing start with
  | nil => exact ok start
  | cons x items ih =>
      rw [List.foldlM_cons]
      refine bind (h start x List.mem_cons_self) (ih fun d y hy => ?_)
      exact h d y (List.mem_cons_of_mem x hy)

end RefusesIn

-- The earlier place of an objection is that of one of the items.
def PointsInto (before : List (Located α)) (objection : Option Objection) : Prop :=
  ∀ o, objection = some o → ∀ place, o.earlier = some place → ∃ t ∈ before, t.span = place

namespace PointsInto

variable {before : List (Located α)}

theorem none : PointsInto before Option.none := by
  rintro o ⟨⟩

theorem alone (code : String) : PointsInto before (some ⟨code, Option.none⟩) := by
  rintro o ⟨⟩ place ⟨⟩

theorem at_firstPlace {sort : α → Bool} {first : Span} (h : firstPlace sort before = some first)
    (code : String) : PointsInto before (some ⟨code, some first⟩) := by
  rintro o ⟨⟩ place ⟨⟩
  obtain ⟨t, ht, rfl⟩ := Option.map_eq_some_iff.mp h
  exact ⟨t, List.mem_of_find?_eq_some ht, rfl⟩

theorem repetition (code : String) (sort : α → Bool) :
    PointsInto before (repetitionObjection? code sort before) := by
  rw [repetitionObjection?]
  cases hfirst : firstPlace sort before with
  | none => exact none
  | some first => exact at_firstPlace hfirst code

theorem duplicate (earlier : List Key) (key : Key) :
    PointsInto before (duplicateObjection? earlier key) := by
  rw [duplicateObjection?]
  split
  · exact alone _
  · exact none

theorem or {first second : Option Objection} (hfirst : PointsInto before first)
    (hsecond : PointsInto before second) : PointsInto before (first.or second) := by
  cases first with
  | none => exact hsecond
  | some o => exact hfirst

theorem ite {φ : Prop} [Decidable φ] {first second : Option Objection}
    (hfirst : PointsInto before first) (hsecond : PointsInto before second) :
    PointsInto before (if φ then first else second) := by
  split
  · exact hfirst
  · exact hsecond

theorem fieldType (type : FieldType) (value : Literal) :
    PointsInto before (type.objection? value) := by
  rw [FieldType.objection?.eq_def]
  split
  · exact none
  · exact none
  · exact ite none (alone _)
  · exact ite none (alone _)
  · exact alone _

end PointsInto

theorem PointsInto.assignment (types : List (String × FieldType)) (before : List Statement)
    (key : Key) (value : Literal) :
    PointsInto before (assignmentObjection? types before key value) := by
  rw [assignmentObjection?]
  refine ite (alone _) ?_
  cases hfirst : firstPlace (fun c => c.assignment?.map (·.1) = some key) before with
  | some first => exact at_firstPlace hfirst _
  | none =>
      cases types.find? fun t => (t.1 : Key) = key with
      | some entry => exact fieldType entry.2 value
      | none => exact none

theorem Refusal.Blames.isIn {objection? : List (Located α) → Located α → Option Objection}
    {items : List (Located α)} {r : Refusal} (h : r.Blames objection? items)
    (hpoints : ∀ before s, PointsInto before (objection? before s))
    (hitems : ∀ s ∈ items, s.span.file = file) : r.IsIn file := by
  obtain ⟨before, s, after, o, rfl, -, hobjection, hreports⟩ := h
  obtain ⟨hbefore, hs⟩ := List.forall_mem_append.mp hitems
  intro label hlabel
  rw [hreports.labels] at hlabel
  rcases List.mem_cons.mp hlabel with rfl | hlabel
  · exact hs s List.mem_cons_self
  · rw [Option.mem_toList] at hlabel
    obtain ⟨place, hplace, rfl⟩ := Option.map_eq_some_iff.mp hlabel
    obtain ⟨t, ht, rfl⟩ := hpoints before s o hobjection place hplace
    exact hbefore t ht

theorem Settles.refusesIn {objection? : List (Located α) → Located α → Option Objection}
    {items : List (Located α)} {result : Except Refusal R} {record : R}
    (h : Settles objection? items result record)
    (hpoints : ∀ before s, PointsInto before (objection? before s))
    (hitems : ∀ s ∈ items, s.span.file = file) : RefusesIn file result := by
  rcases h with ⟨-, rfl⟩ | ⟨-, r, rfl, hblames⟩
  · exact .ok record
  · rintro _ ⟨⟩
    exact hblames.isIn hpoints hitems

end

section

variable {file : String} {ss : List Statement}

theorem Aspect.build_refusesIn (signature : Aspect) (h : signature = described signature [])
    (hss : ∀ s ∈ ss, s.span.file = file) : RefusesIn file (build signature ss) := by
  refine (build_settles signature h ss).refusesIn (fun before s => ?_) hss
  rw [objection?]
  split
  · exact .assignment _ _ _ _
  · exact .repetition _ _
  · exact .none
  · exact .alone _

theorem Card.build_refusesIn (signature : Card) (h : signature = described signature [] [])
    {aspects : List (Located (Key × Int))} (haspects : ∀ e ∈ aspects, e.span.file = file)
    (hss : ∀ s ∈ ss, s.span.file = file) : RefusesIn file (build signature aspects ss) := by
  rcases build_settles signature h aspects ss with ⟨-, r, hr, hblames⟩ | ⟨-, hsettles⟩
  · rw [hr]
    rintro _ ⟨⟩
    exact hblames.isIn (fun before s => .duplicate _ _) haspects
  · refine hsettles.refusesIn (fun before s => ?_) hss
    rw [objection?]
    split
    · exact .assignment _ _ _ _
    · exact .repetition _ _
    · exact .repetition _ _
    · exact .none
    · exact .none
    · exact .alone _

theorem Deck.build_refusesIn (signature : Deck) (h : signature = described signature [])
    {entries : List (Located DeckEntry)} (hentries : ∀ e ∈ entries, e.span.file = file) :
    RefusesIn file (build signature entries) := by
  refine (build_settles signature h entries).refusesIn (fun before e => ?_) hentries
  rw [objection?]
  exact .ite (.repetition _ _) .none

theorem Verb.build_refusesIn (signature : Verb) (h : signature = described signature [])
    (hss : ∀ s ∈ ss, s.span.file = file) : RefusesIn file (build signature ss) := by
  refine (build_settles signature h ss).refusesIn (fun before s => ?_) hss
  rw [objection?]
  split
  · exact .assignment _ _ _ _
  · exact .alone _

theorem Recipe.build_refusesIn (signature : Recipe) (h : signature = described signature [])
    (hss : ∀ s ∈ ss, s.span.file = file) : RefusesIn file (build signature ss) := by
  refine (build_settles signature h ss).refusesIn (fun before s => ?_) hss
  rw [objection?.eq_def]
  split
  · exact .assignment _ _ _ _
  · exact .none
  · exact .ite (.duplicate _ _) (.alone _)
  · exact .none
  · exact .repetition _ _
  · exact .repetition _ _
  · exact .none
  · exact .alone _

theorem Legacy.build_refusesIn (signature : Legacy) (h : signature = described signature [])
    (hss : ∀ s ∈ ss, s.span.file = file) : RefusesIn file (build signature ss) := by
  refine (build_settles signature h ss).refusesIn (fun before s => ?_) hss
  rw [objection?.eq_def]
  split
  · exact .assignment _ _ _ _
  · exact .repetition _ _
  · exact .repetition _ _
  · exact .or (.duplicate _ _) (.ite (.alone _) .none)
  · exact .duplicate _ _
  · exact .duplicate _ _
  · exact .alone _

theorem Expulsion.build_refusesIn {entries : List (Located (Key × Int))}
    (hentries : ∀ e ∈ entries, e.span.file = file) : RefusesIn file (build entries) := by
  refine .bind (.foldlM (fun elements e he => ?_) []) fun elements => .ok _
  rw [addKeyed]
  split
  · exact .error (hentries e he) rfl
  · exact .ok _

end

namespace Ending

variable {file : String} {span : Span}

theorem collect_refusesIn (hspan : span.file = file) (content : List (Text × Literal)) :
    RefusesIn file (collect content span) := by
  refine .foldlM (fun seen entry _ => ?_) []
  dsimp only
  split
  · exact .error hspan rfl
  · exact .ok _

theorem textOf?_refusesIn (hspan : span.file = file) (members : List Member) (name : String) :
    RefusesIn file (textOf? members name span) := by
  rw [textOf?]
  split
  · exact .ok _
  · exact .ok _
  · exact .error hspan rfl

theorem memberOf_refusesIn {α : Type} (hspan : span.file = file) (members : List Member)
    (name : String) (e : Enumeration α) (default : α) :
    RefusesIn file (memberOf members name e default span) := by
  refine (textOf?_refusesIn hspan members name).bind fun word => ?_
  split
  · exact .ok _
  · split
    · exact .ok _
    · exact .error hspan rfl

theorem build_refusesIn (hspan : span.file = file) (id : Key) (label description : Text)
    (body : Literal) : RefusesIn file (build id label description body span) := by
  rw [build.eq_def]
  split
  · refine (collect_refusesIn hspan _).bind fun members => ?_
    refine (textOf?_refusesIn hspan members _).bind fun image => ?_
    split
    · exact .error hspan rfl
    · exact (memberOf_refusesIn hspan members _ _ _).bind fun _ =>
        (memberOf_refusesIn hspan members _ _ _).bind fun _ =>
          (textOf?_refusesIn hspan members _).bind fun _ => .ok _
  · exact .error hspan rfl

end Ending

end CardLore
