import CardLore.Proofs.Construction.Component
import CardLore.Proofs.Construction.FirstOffence
import Mathlib.Data.List.Induction

namespace CardLore

-- The word, in lower case, is one of the enumeration and names the value.
def Enumeration.Names {α : Type} (e : Enumeration α) (word : Text) (value : α) : Prop :=
  ∃ entry ∈ e.members, Text.ofString entry.1 = Text.lower word ∧ entry.2 = value

theorem Enumeration.names_of_find? {α : Type} {e : Enumeration α} {word : Text} {value : α}
    (h : e.find? word = some value) : e.Names word value := by
  obtain ⟨entry, hentry, rfl⟩ := Option.map_eq_some_iff.mp h
  exact ⟨entry, List.mem_of_find?_eq_some hentry, by simpa using List.find?_some hentry, rfl⟩

theorem Enumeration.Names.mem_words {α : Type} {e : Enumeration α} {word : Text} {value : α}
    (h : e.Names word value) : Text.lower word ∈ e.words.map Text.ofString := by
  obtain ⟨entry, hentry, hword, rfl⟩ := h
  rw [← hword]
  exact List.mem_map_of_mem (List.mem_map_of_mem hentry)

theorem Enumeration.Names.unique {α : Type} {e : Enumeration α}
    (hdistinct : (e.members.map fun entry => Text.ofString entry.1).Nodup) {word : Text} {v w : α}
    (hv : e.Names word v) (hw : e.Names word w) : v = w := by
  obtain ⟨entry, hentry, hword, rfl⟩ := hv
  obtain ⟨entry', hentry', hword', rfl⟩ := hw
  rw [List.inj_on_of_nodup_map hdistinct hentry hentry' (hword.trans hword'.symm)]

namespace Ending

-- Only an object has members.
def membersOf : Literal → List (Text × Literal)
  | .object content => content
  | _ => []

-- A member of the body goes by the name in some letter case, and has the value.
def HasMember (body : Literal) (name : String) (value : Literal) : Prop :=
  ∃ written, (written, value) ∈ membersOf body ∧ Text.lower written = Text.ofString name

-- The value that the text under a name stands for, or the default if nothing is there.
def Gives {α : Type} (body : Literal) (name : String) (means : Text → α → Prop)
    (default value : α) : Prop :=
  (∃ t, HasMember body name (.string t) ∧ means t value) ∨
    (∀ v, ¬ HasMember body name v) ∧ value = default

-- The text under a name, if there is one.
def Finds (body : Literal) (name : String) (found : Option Text) : Prop :=
  (∃ t, found = some t ∧ HasMember body name (.string t)) ∨
    found = none ∧ ∀ v, ¬ HasMember body name v

structure DescribedBy (r : Ending) (body : Literal) : Prop where
  image : HasMember body "image" (.string r.image)
  music : Gives body "flavour" EndingMusic.enumeration.Names .grand r.music
  animation : Gives body "anim" EndingAnimation.enumeration.Names .dramaticLight r.animation
  achievement : Gives body "achievementid" (· = ·) "XXX" r.achievement
  others : r.others = ((membersOf body).filter fun m =>
    Text.lower m.1 ∉ (["image", "flavour", "anim", "achievementid"] : List Text)).map
      fun m => (⟨m.1⟩, m.2)

inductive Check where
  | object
  | distinct
  | text (name : String)
  | present (name : String)
  | word (name : String) (allowed : List String)

namespace Check

def Passes (body : Literal) : Check → Prop
  | object => ∃ content, body = .object content
  | distinct => ((membersOf body).map fun m => Text.lower m.1).Nodup
  | text name => ∀ value, HasMember body name value → ∃ t, value = .string t
  | present name => ∃ value, HasMember body name value
  | word name allowed => ∀ t, HasMember body name (.string t) →
      Text.lower t ∈ allowed.map Text.ofString

def code : Check → String
  | object => "E202"
  | distinct => "E200"
  | text _ => "E202"
  | present _ => "E208"
  | word .. => "E207"

end Check

-- All checks, in the order in which they are made.
def checks : List Check :=
  [.object, .distinct, .text "image", .present "image", .text "flavour",
    .word "flavour" ["grand", "melancholy", "vile"], .text "anim",
    .word "anim" ["dramaticlight", "dramaticlightcool", "dramaticlightevil"], .text "achievementid"]

-- The first of some checks that the body does not pass.
def FirstFailing (body : Literal) (cs : List Check) (c : Check) : Prop :=
  ∃ before after, cs = before ++ c :: after ∧ (∀ b ∈ before, b.Passes body) ∧ ¬ c.Passes body

-- The refusal reports a failed check at the body, and points to nothing else.
structure Reports (span : Span) (r : Refusal) (c : Check) : Prop where
  code : r.diagnostic.code = c.code
  labels : r.diagnostic.labels = [.primary span]

-- A part of the construction that makes the checks `cs`. What it gives has the property `P`.
inductive Makes {α : Type} (body : Literal) (span : Span) (cs : List Check) (P : α → Prop) :
    Except Refusal α → Prop
  | ok {value : α} (hpasses : ∀ c ∈ cs, c.Passes body) (h : P value) :
      Makes body span cs P (.ok value)
  | error {r : Refusal} {c : Check} (hfirst : FirstFailing body cs c)
      (hreports : Reports span r c) : Makes body span cs P (.error r)

namespace Makes

variable {α β : Type} {body : Literal} {span : Span} {cs cs' : List Check} {P : α → Prop}
  {Q : β → Prop} {x : Except Refusal α} {f : α → Except Refusal β}

-- Checks that are known to pass come before the ones that are made.
theorem passed (hpasses : ∀ c ∈ cs, c.Passes body) (h : Makes body span cs' P x) :
    Makes body span (cs ++ cs') P x := by
  cases h with
  | ok hpasses' hv => exact .ok (List.forall_mem_append.mpr ⟨hpasses, hpasses'⟩) hv
  | error hfirst hreports =>
      obtain ⟨before, after, rfl, hbefore, hfails⟩ := hfirst
      refine .error ⟨cs ++ before, after, (List.append_assoc _ _ _).symm, ?_, hfails⟩ hreports
      exact List.forall_mem_append.mpr ⟨hpasses, hbefore⟩

theorem bind (hx : Makes body span cs P x) (hf : ∀ v, P v → Makes body span cs' Q (f v)) :
    Makes body span (cs ++ cs') Q (x >>= f) := by
  cases hx with
  | ok hpasses hv => exact (hf _ hv).passed hpasses
  | error hfirst hreports =>
      obtain ⟨before, after, rfl, hbefore, hfails⟩ := hfirst
      exact .error ⟨before, after ++ cs', List.append_assoc _ _ _, hbefore, hfails⟩ hreports

theorem single {c : Check} {v : α} (hc : c.Passes body) (hv : P v) :
    Makes body span [c] P (.ok v) :=
  .ok (List.forall_mem_singleton.mpr hc) hv

-- An offence at the body that has no earlier statement to point to.
theorem refused {c : Check} (hc : ¬ c.Passes body) {offence : Offence}
    (hcode : offence.code = c.code) (hearlier : offence.earlier? = none) (cs : List Check) :
    Makes body span (c :: cs) P (.error ⟨offence, span⟩) := by
  refine .error ⟨[], cs, rfl, nofun, hc⟩ ⟨hcode, ?_⟩
  rw [Refusal.diagnostic, hearlier]
  rfl

end Makes

section

variable {content : List (Text × Literal)} {span : Span}

theorem collect_eq_error (h : ¬ (content.map fun m => Text.lower m.1).Nodup) (span : Span) :
    ∃ name, collect content span = .error ⟨.collidingMember name, span⟩ := by
  induction content using List.reverseRecOn with
  | nil => exact absurd List.nodup_nil h
  | append_singleton front m ih =>
      have hlast : collect (front ++ [m]) span = collect front span >>= fun seen =>
          if seen.any (·.lowered = Text.lower m.1) then .error ⟨.collidingMember m.1, span⟩
          else .ok (seen ++ [toMember m]) := by
        rw [collect, List.foldlM_append]
        simp only [List.foldlM_cons, List.foldlM_nil, bind_pure]
        rfl
      rw [hlast]
      by_cases hfront : (front.map fun m => Text.lower m.1).Nodup
      · have hseen : Text.lower m.1 ∈ front.map fun m => Text.lower m.1 := by
          by_contra hfresh
          exact h (nodup_map_concat hfront hfresh)
        obtain ⟨m', hm', hsame⟩ := List.mem_map.mp hseen
        have hany : (front.map toMember).any (·.lowered = Text.lower m.1) = true :=
          List.any_eq_true.mpr ⟨toMember m', List.mem_map_of_mem hm', decide_eq_true hsame⟩
        refine ⟨m.1, ?_⟩
        rw [collect_nodup hfront]
        exact if_pos hany
      · obtain ⟨name, hname⟩ := ih hfront
        rw [hname]
        exact ⟨name, rfl⟩

theorem collect_makes (content : List (Text × Literal)) (span : Span) :
    Makes (.object content) span [.distinct]
      (fun members => members = content.map toMember ∧
        (content.map fun m => Text.lower m.1).Nodup) (collect content span) := by
  by_cases h : (content.map fun m => Text.lower m.1).Nodup
  · rw [collect_nodup h]
    exact .single h ⟨rfl, h⟩
  · have hfails : ¬ Check.Passes (.object content) .distinct := h
    obtain ⟨name, hname⟩ := collect_eq_error h span
    rw [hname]
    exact .refused hfails rfl rfl []

variable (hdistinct : (content.map fun m => Text.lower m.1).Nodup)

include hdistinct

theorem HasMember.unique {name : String} {v w : Literal}
    (hv : HasMember (.object content) name v) (hw : HasMember (.object content) name w) : v = w := by
  obtain ⟨written, hmem, hname⟩ := hv
  obtain ⟨written', hmem', hname'⟩ := hw
  have hsame := List.inj_on_of_nodup_map hdistinct hmem hmem' (hname.trans hname'.symm)
  exact congrArg Prod.snd hsame

theorem textOf?_makes (name : String) :
    Makes (.object content) span [.text name] (Finds (.object content) name)
      (textOf? (content.map toMember) name span) := by
  rw [textOf?]
  cases hfind : (content.map toMember).find? (·.lowered = Text.ofString name) with
  | none =>
      have habsent : ∀ v, ¬ HasMember (.object content) name v := by
        rintro v ⟨written, hmem, hname⟩
        have := List.find?_eq_none.mp hfind _ (List.mem_map_of_mem hmem)
        exact this (decide_eq_true hname)
      exact .single (fun v hv => absurd hv (habsent v)) (.inr ⟨rfl, habsent⟩)
  | some member =>
      obtain ⟨lowered, written, value⟩ := member
      have hname := List.find?_some (p := fun m : Member => m.lowered = Text.ofString name) hfind
      have hmember : HasMember (.object content) name value := by
        obtain ⟨m, hm, heq⟩ := List.mem_map.mp (List.mem_of_find?_eq_some hfind)
        obtain ⟨rfl, rfl, rfl⟩ := Member.mk.inj heq
        exact ⟨m.1, hm, of_decide_eq_true hname⟩
      cases value with
      | string t =>
          exact .single (fun v hv => ⟨t, hv.unique hdistinct hmember⟩) (.inl ⟨t, rfl, hmember⟩)
      | _ =>
          refine .refused (fun hpasses => ?_) rfl rfl []
          obtain ⟨t, ht⟩ := hpasses _ hmember
          cases ht

theorem memberOf_makes {α : Type} (name : String) (e : Enumeration α) (default : α) :
    Makes (.object content) span [.text name, .word name e.words]
      (Gives (.object content) name e.Names default)
      (memberOf (content.map toMember) name e default span) := by
  refine (textOf?_makes hdistinct name).bind fun found hfound => ?_
  rcases hfound with ⟨t, rfl, hmember⟩ | ⟨rfl, habsent⟩
  · dsimp only
    cases hfind : e.find? t with
    | some value =>
        have hnames := Enumeration.names_of_find? hfind
        refine .single (fun t' ht' => ?_) (.inl ⟨t, hmember, hnames⟩)
        obtain rfl : t' = t := Literal.string.inj (ht'.unique hdistinct hmember)
        exact hnames.mem_words
    | none =>
        refine .refused (fun hpasses => ?_) rfl rfl []
        exact (e.find?_eq_none_iff t).mp hfind (hpasses t hmember)
  · exact .single (fun t ht => absurd ht (habsent _)) (.inr ⟨habsent, rfl⟩)

theorem Gives.unique {α : Type} {name : String} {means : Text → α → Prop} {default v w : α}
    (hmeans : ∀ t v w, means t v → means t w → v = w)
    (hv : Gives (.object content) name means default v)
    (hw : Gives (.object content) name means default w) : v = w := by
  rcases hv with ⟨t, ht, hv⟩ | ⟨habsent, rfl⟩
  · rcases hw with ⟨t', ht', hw⟩ | ⟨habsent, _⟩
    · obtain rfl := Literal.string.inj (ht.unique hdistinct ht')
      exact hmeans t v w hv hw
    · exact absurd ht (habsent _)
  · rcases hw with ⟨t, ht, _⟩ | ⟨_, rfl⟩
    · exact absurd ht (habsent _)
    · rfl

-- A body describes one ending for each identity.
theorem DescribedBy.unique {r s : Ending} (hr : r.DescribedBy (.object content))
    (hs : s.DescribedBy (.object content)) (hid : r.id = s.id) (hlabel : r.label = s.label)
    (hdescription : r.description = s.description) : r = s := by
  have himage := Literal.string.inj (hr.image.unique hdistinct hs.image)
  have hmusic := hr.music.unique hdistinct (fun _ _ _ h => h.unique (by decide)) hs.music
  have hanimation := hr.animation.unique hdistinct (fun _ _ _ h => h.unique (by decide))
    hs.animation
  have hachievement := hr.achievement.unique hdistinct (fun _ _ _ h h' => h.symm.trans h')
    hs.achievement
  have hothers := hr.others.trans hs.others.symm
  cases r
  cases s
  congr

end

-- What is left of the members beside the known names is kept as it was written.
theorem others_toMember (content : List (Text × Literal)) :
    ((content.map toMember).filter (·.lowered ∉ knownNames)).map
        (fun m => ((⟨m.name⟩, m.value) : Key × Literal)) =
      (content.filter fun m => Text.lower m.1 ∉ knownNames).map fun m => (⟨m.1⟩, m.2) := by
  rw [List.filter_map, List.map_map]
  rfl

theorem build_makes (id : Key) (label description : Text) (body : Literal) (span : Span) :
    Makes body span checks
      (fun r => r.id = id ∧ r.label = label ∧ r.description = description ∧ r.DescribedBy body)
      (build id label description body span) := by
  cases body with
  | object content =>
      have hobject : Check.Passes (.object content) .object := ⟨content, rfl⟩
      refine .passed (List.forall_mem_singleton.mpr hobject) ?_
      refine (collect_makes content span).bind fun members hmembers => ?_
      obtain ⟨rfl, hdistinct⟩ := hmembers
      refine (textOf?_makes hdistinct "image").bind fun image himage => ?_
      rcases himage with ⟨image, rfl, himage⟩ | ⟨rfl, habsent⟩
      · have hpresent : Check.Passes (.object content) (.present "image") := ⟨_, himage⟩
        refine .passed (List.forall_mem_singleton.mpr hpresent) ?_
        refine (memberOf_makes hdistinct "flavour" EndingMusic.enumeration .grand).bind
          fun music hmusic => ?_
        refine (memberOf_makes hdistinct "anim" EndingAnimation.enumeration .dramaticLight).bind
          fun animation hanimation => ?_
        refine (textOf?_makes hdistinct "achievementid").bind fun found hfound => ?_
        refine .ok nofun ⟨rfl, rfl, rfl, himage, hmusic, hanimation, ?_, others_toMember content⟩
        rcases hfound with ⟨t, rfl, ht⟩ | ⟨rfl, habsent⟩
        · exact .inl ⟨t, ht, rfl⟩
        · exact .inr ⟨habsent, rfl⟩
      · have hmissing : ¬ Check.Passes (.object content) (.present "image") := by
          rintro ⟨v, hv⟩
          exact habsent v hv
        exact .refused hmissing rfl rfl _
  | _ => exact .refused (c := .object) (by rintro ⟨_, ⟨⟩⟩) rfl rfl _

theorem FirstFailing.not_all {body : Literal} {cs : List Check} {c : Check}
    (h : FirstFailing body cs c) : ¬ ∀ b ∈ cs, b.Passes body := by
  obtain ⟨before, after, rfl, -, hfails⟩ := h
  exact fun hall => hfails (hall c (List.mem_append_right before List.mem_cons_self))

-- An ending is built exactly if its body passes every check, and it is then the one that the body
-- describes. A body that does not pass is refused for the first check that fails.
theorem ending_reads_body_exactly (id : Key) (label description : Text) (body : Literal)
    (span : Span) :
    ((∃ r, build id label description body span = .ok r) ↔ ∀ c ∈ checks, c.Passes body) ∧
      (∀ r, build id label description body span = .ok r ↔
        (∀ c ∈ checks, c.Passes body) ∧
          r.id = id ∧ r.label = label ∧ r.description = description ∧ r.DescribedBy body) ∧
      ∀ refusal, build id label description body span = .error refusal →
        ∃ c, FirstFailing body checks c ∧ Reports span refusal c := by
  have hmakes := build_makes id label description body span
  cases hbuilt : build id label description body span with
  | ok built =>
      rw [hbuilt] at hmakes
      cases hmakes with
      | ok hpasses hdescribed =>
          refine ⟨⟨fun _ => hpasses, fun _ => ⟨built, rfl⟩⟩, fun r => ⟨?_, ?_⟩, nofun⟩
          · rintro ⟨⟩
            exact ⟨hpasses, hdescribed⟩
          · rintro ⟨-, hid, hlabel, hdescription, hr⟩
            obtain ⟨hid', hlabel', hdescription', hbuilt⟩ := hdescribed
            obtain ⟨content, rfl⟩ := hpasses .object (by simp [checks])
            have hdistinct := hpasses .distinct (by simp [checks])
            exact congrArg Except.ok (hbuilt.unique hdistinct hr (hid'.trans hid.symm)
              (hlabel'.trans hlabel.symm) (hdescription'.trans hdescription.symm))
  | error refusal =>
      rw [hbuilt] at hmakes
      cases hmakes with
      | error hfirst hreports =>
          refine ⟨⟨nofun, fun hall => absurd hall hfirst.not_all⟩, fun r => ⟨nofun, ?_⟩, ?_⟩
          · exact fun ⟨hall, _⟩ => absurd hall hfirst.not_all
          · rintro _ ⟨⟩
            exact ⟨_, hfirst, hreports⟩

-- Letter case is ignored where the body names something, and kept in what it leaves over.
def shoutedBody : Literal :=
  .object [("Note", .null), ("IMAGE", .string "Dawn"), ("Flavour", .string "VILE")]

def shoutedEnding : Ending where
  id := "fin"
  label := "Fin"
  description := "The end."
  image := "Dawn"
  music := .vile
  animation := .dramaticLight
  achievement := "XXX"
  others := [("Note", .null)]

theorem ending_reads_body_exactly_letter_case :
    build "fin" "Fin" "The end." shoutedBody default = .ok shoutedEnding ∧
      (∀ c ∈ checks, c.Passes shoutedBody) ∧ shoutedEnding.DescribedBy shoutedBody ∧
      ∃ c, FirstFailing (.object []) checks c ∧ c.code = "E208" := by
  have hread := ending_reads_body_exactly "fin" "Fin" "The end." shoutedBody default
  have hempty := ending_reads_body_exactly "fin" "Fin" "The end." (.object []) default
  obtain ⟨hpasses, -, -, -, hdescribed⟩ := (hread.2.1 shoutedEnding).mp rfl
  obtain ⟨c, hfirst, hreports⟩ := hempty.2.2 _ rfl
  exact ⟨rfl, hpasses, hdescribed, c, hfirst, hreports.code.symm⟩

end Ending

end CardLore
