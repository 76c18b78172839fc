import CardLore.Proofs.Grammar.Reply
import CardLore.Proofs.Reading.Literal
import Mathlib.Data.Nat.Digits.Defs

namespace CardLore

-- The number that decimal digits write, the most significant one first.
def digitsValue (digits : List Char) : Nat :=
  Nat.ofDigits 10 (digits.reverse.map fun c => c.toNat - '0'.toNat)

def IsDigits (cs : List Char) : Prop :=
  cs ≠ [] ∧ ∀ c ∈ cs, c.isDigit = true

-- A sign, or none, and whether it is negative.
inductive IsSign : List Char → Bool → Prop
  | none : IsSign [] false
  | plus : IsSign ['+'] false
  | minus : IsSign ['-'] true

-- A point with digits behind it, or nothing.
inductive IsFraction : List Char → Option (List Char) → Prop
  | none : IsFraction [] none
  | point {digits : List Char} (h : IsDigits digits) : IsFraction ('.' :: digits) (some digits)

-- An exponent with its mark and sign, or nothing.
inductive IsExponent : List Char → Option Int → Prop
  | none : IsExponent [] none
  | mark {c : Char} {sign digits : List Char} {negative : Bool} (hc : c = 'e' ∨ c = 'E')
      (hsign : IsSign sign negative) (h : IsDigits digits) :
      IsExponent (c :: (sign ++ digits))
        (some (if negative then -(digitsValue digits : Int) else digitsValue digits))

-- A number and its value. An integer has at most 4300 digits; a number with a fraction or an
-- exponent is the floating-point number nearest to its decimal value.
inductive NumberText : List Char → Literal → Prop
  | int {sign digits : List Char} {negative : Bool} (hsign : IsSign sign negative)
      (hdigits : IsDigits digits) (hlength : digits.length ≤ 4300) :
      NumberText (sign ++ digits)
        (.int (if negative then -(digitsValue digits : Int) else digitsValue digits))
  | float {sign whole point mark : List Char} {negative : Bool} {fraction : Option (List Char)}
      {exponent : Option Int} (hsign : IsSign sign negative) (hwhole : IsDigits whole)
      (hpoint : IsFraction point fraction) (hmark : IsExponent mark exponent)
      (hparts : fraction ≠ none ∨ exponent ≠ none) :
      NumberText (sign ++ (whole ++ (point ++ mark)))
        (.float (
          let size := Decimal.nearest (digitsValue (whole ++ fraction.getD []))
            (exponent.getD 0 - (fraction.getD []).length)
          if negative then -size else size))

theorem decimalValue_eq (digits : List Char) : decimalValue digits = digitsValue digits := by
  induction digits using List.reverseRecOn with
  | nil => rfl
  | append_singleton digits c ih =>
      rw [decimalValue, List.foldl_append, digitsValue, List.reverse_append, List.reverse_singleton,
        List.singleton_append, List.map_cons, Nat.ofDigits_cons]
      change 10 * decimalValue digits + _ = _
      rw [ih, digitsValue, Nat.add_comm]

-- The parts of a number, with the text that writes them.
inductive NumeralText : List Char → Numeral → Prop
  | mk {sign whole point mark : List Char} {negative : Bool} {fraction : Option (List Char)}
      {exponent : Option Int} (hsign : IsSign sign negative) (hwhole : IsDigits whole)
      (hpoint : IsFraction point fraction) (hmark : IsExponent mark exponent) :
      NumeralText (sign ++ (whole ++ (point ++ mark))) ⟨negative, whole, fraction, exponent⟩

theorem numberText_iff (body : List Char) (v : Literal) :
    NumberText body v ↔ ∃ n, NumeralText body n ∧ n.value? = some v := by
  have hinteger : ∀ negative digits, digits.length ≤ 4300 →
      (⟨negative, digits, none, none⟩ : Numeral).value? =
        some (.int (if negative then -(digitsValue digits : Int) else digitsValue digits)) := by
    intro negative digits hlength
    have hshort : ¬ maxIntegerDigits < digits.length := Nat.not_lt.mpr hlength
    change (if maxIntegerDigits < digits.length then none else _).map Literal.int = _
    rw [if_neg hshort, decimalValue_eq]
    rfl
  have hfloat : ∀ n : Numeral, n.fraction ≠ none ∨ n.exponent ≠ none →
      n.value? = some (.float n.float) := by
    intro n hparts
    have hno : n.isInteger = false := by
      rw [Numeral.isInteger, Bool.and_eq_false_iff, Option.isNone_eq_false_iff,
        Option.isNone_eq_false_iff, Option.isSome_iff_ne_none, Option.isSome_iff_ne_none]
      exact hparts
    rw [Numeral.value?, hno, if_neg Bool.false_ne_true]
  constructor
  · intro h
    cases h with
    | @int sign digits negative hsign hdigits hlength =>
        refine ⟨⟨negative, digits, none, none⟩, ?_, hinteger negative digits hlength⟩
        simpa using NumeralText.mk hsign hdigits .none .none
    | float hsign hwhole hpoint hmark hparts =>
        refine ⟨_, .mk hsign hwhole hpoint hmark, ?_⟩
        rw [hfloat _ hparts, Numeral.float, decimalValue_eq]
  · rintro ⟨_,
      @⟨sign, whole, point, mark, negative, fraction, exponent, hsign, hwhole, hpoint, hmark⟩,
      hvalue⟩
    by_cases hparts : fraction ≠ none ∨ exponent ≠ none
    · rw [hfloat _ hparts, Numeral.float, decimalValue_eq] at hvalue
      cases hvalue
      exact .float hsign hwhole hpoint hmark hparts
    · obtain ⟨hno, hnone⟩ := not_or.mp hparts
      obtain rfl := not_not.mp hno
      obtain rfl := not_not.mp hnone
      cases hpoint
      cases hmark
      by_cases hlength : whole.length ≤ 4300
      · rw [hinteger negative whole hlength] at hvalue
        cases hvalue
        rw [List.append_nil, List.append_nil]
        exact .int hsign hwhole hlength
      · have hlong : maxIntegerDigits < whole.length := Nat.not_le.mp hlength
        change (if maxIntegerDigits < whole.length then none else _).map Literal.int = _ at hvalue
        rw [if_pos hlong] at hvalue
        cases hvalue

theorem IsSign.chars {sign : List Char} {negative : Bool} (h : IsSign sign negative) :
    ∀ c ∈ sign, isKeyChar c = true ∨ c = '+' := by
  cases h with
  | none => exact List.forall_mem_nil _
  | plus => exact List.forall_mem_singleton.mpr (.inr rfl)
  | minus => exact List.forall_mem_singleton.mpr (.inl rfl)

theorem IsDigits.chars {digits : List Char} (h : IsDigits digits) :
    ∀ c ∈ digits, isKeyChar c = true ∨ c = '+' :=
  fun c hc => .inl (isKeyChar_of_isDigit (h.2 c hc))

-- But for plus signs, a number is written with key characters.
theorem NumberText.chars {body : List Char} {v : Literal} (h : NumberText body v) :
    ∀ c ∈ body, isKeyChar c = true ∨ c = '+' := by
  obtain ⟨n, ⟨hsign, hwhole, hpoint, hmark⟩, -⟩ := (numberText_iff body v).mp h
  simp only [List.forall_mem_append]
  refine ⟨hsign.chars, hwhole.chars, ?_, ?_⟩
  · cases hpoint with
    | none => exact List.forall_mem_nil _
    | point hdigits => exact List.forall_mem_cons.mpr ⟨by decide, hdigits.chars⟩
  · cases hmark with
    | none => exact List.forall_mem_nil _
    | mark hc hsign hdigits =>
        refine List.forall_mem_cons.mpr
          ⟨?_, List.forall_mem_append.mpr ⟨hsign.chars, hdigits.chars⟩⟩
        rcases hc with rfl | rfl <;> decide

theorem IsDigits.exists_cons {cs : List Char} (h : IsDigits cs) :
    ∃ c tail, cs = c :: tail ∧ c.isDigit = true := by
  obtain ⟨c, tail, rfl⟩ := List.exists_cons_of_ne_nil h.1
  exact ⟨c, tail, rfl, h.2 c List.mem_cons_self⟩

-- Digits end where no digit follows.
theorem takeWhile_isDigit {digits after : List Char} (hdigits : ∀ c ∈ digits, c.isDigit = true)
    (hafter : ∀ c ∈ after.head?, c.isDigit = false) :
    (digits ++ after).takeWhile Char.isDigit = digits := by
  rw [List.takeWhile_append_of_pos hdigits]
  cases after with
  | nil => rw [List.takeWhile_nil, List.append_nil]
  | cons c after =>
      have hc := hafter c rfl
      rw [List.takeWhile_cons_of_neg (by simp [hc]), List.append_nil]

theorem scanSign_digits {sign digits : List Char} {negative : Bool} (h : IsSign sign negative)
    (hdigits : IsDigits digits) (after : List Char) :
    Numeral.scanSign (sign ++ (digits ++ after)) = (negative, sign.length) := by
  obtain ⟨c, tail, rfl, hc⟩ := hdigits.exists_cons
  cases h with
  | none => exact scanSign_digit hc (tail ++ after)
  | plus => rfl
  | minus => rfl

theorem exists_sign (cs : List Char) : ∃ sign after negative, IsSign sign negative ∧
    cs = sign ++ after ∧ Numeral.scanSign cs = (negative, sign.length) := by
  unfold Numeral.scanSign
  split
  · exact ⟨_, _, true, .minus, rfl, rfl⟩
  · exact ⟨_, _, false, .plus, rfl, rfl⟩
  · exact ⟨[], cs, false, .none, rfl, rfl⟩

-- The length of a fraction with its point.
def fractionLength : Option (List Char) → Nat
  | some digits => 1 + digits.length
  | none => 0

theorem scanFraction?_text {point after : List Char} {fraction : Option (List Char)}
    (h : IsFraction point fraction)
    (hafter : ∀ c ∈ after.head?, c.isDigit = false ∧ c ≠ '.') :
    Numeral.scanFraction? (point ++ after) = fraction ∧ fractionLength fraction = point.length := by
  cases h with
  | none =>
      refine ⟨?_, rfl⟩
      rw [List.nil_append]
      unfold Numeral.scanFraction?
      split
      · exact absurd rfl (hafter '.' rfl).2
      · rfl
  | @point digits hdigits =>
      refine ⟨?_, Nat.add_comm _ _⟩
      have htake := takeWhile_isDigit hdigits.2 fun c hc => (hafter c hc).1
      change (if ((digits ++ after).takeWhile Char.isDigit).isEmpty then none
        else some ((digits ++ after).takeWhile Char.isDigit)) = _
      rw [htake, if_neg (by simpa using hdigits.1)]

theorem exists_fraction (cs : List Char) :
    ∃ point after, IsFraction point (Numeral.scanFraction? cs) ∧
    cs = point ++ after ∧ fractionLength (Numeral.scanFraction? cs) = point.length := by
  unfold Numeral.scanFraction?
  split
  next rest =>
    by_cases hempty : (rest.takeWhile Char.isDigit).isEmpty = true
    · rw [if_pos hempty]
      exact ⟨[], _, .none, rfl, rfl⟩
    · rw [if_neg hempty]
      refine ⟨'.' :: rest.takeWhile Char.isDigit, rest.dropWhile Char.isDigit, .point ⟨?_, ?_⟩, ?_,
        Nat.add_comm _ _⟩
      · simpa using hempty
      · exact fun c hc => List.mem_takeWhile_imp hc
      · rw [List.cons_append, List.takeWhile_append_dropWhile]
  next => exact ⟨[], cs, .none, rfl, rfl⟩

theorem scanExponent?_text {mark after : List Char} {exponent : Option Int}
    (h : IsExponent mark exponent) (hafter : continuesKey after = false) :
    Numeral.scanExponent? (mark ++ after) = exponent.map (·, mark.length) := by
  cases h with
  | none =>
      cases after with
      | nil => rfl
      | cons c after =>
          have hmark : ¬ (c = 'e' ∨ c = 'E') := by
            rintro (rfl | rfl) <;> cases hafter
          simp [Numeral.scanExponent?, hmark]
  | @mark c sign digits negative hc hsign hdigits =>
      have hscan := scanSign_digits hsign hdigits after
      have htake := (takeWhile_digits hdigits.2 hafter).1
      have hsome : (!digits.isEmpty) = true := by simpa using hdigits.1
      simp only [List.cons_append, List.append_assoc, Numeral.scanExponent?, hscan, List.drop_left,
        htake, hc, hsome, and_self, if_true, decimalValue_eq, Option.map_some, List.length_cons,
        List.length_append]
      rw [Nat.add_assoc, Nat.add_comm 1]

theorem exists_exponent (cs : List Char) : ∃ mark after,
    IsExponent mark ((Numeral.scanExponent? cs).map (·.1)) ∧ cs = mark ++ after ∧
      ((Numeral.scanExponent? cs).map (·.2)).getD 0 = mark.length := by
  cases cs with
  | nil => exact ⟨[], [], .none, rfl, rfl⟩
  | cons c rest =>
      obtain ⟨sign, after, negative, hsign, rfl, hscan⟩ := exists_sign rest
      simp only [Numeral.scanExponent?, hscan, List.drop_left]
      split
      next hmark =>
        obtain ⟨hc, hsome⟩ := hmark
        have hdigits : IsDigits (after.takeWhile Char.isDigit) :=
          ⟨by simpa using hsome, fun d hd => List.mem_takeWhile_imp hd⟩
        refine ⟨c :: (sign ++ after.takeWhile Char.isDigit), after.dropWhile Char.isDigit, ?_, ?_, ?_⟩
        · rw [decimalValue_eq]
          exact .mark hc hsign hdigits
        · rw [List.cons_append, List.append_assoc, List.takeWhile_append_dropWhile]
        · change 1 + sign.length + (after.takeWhile Char.isDigit).length = _
          rw [List.length_cons, List.length_append, Nat.add_assoc, Nat.add_comm 1]
      next => exact ⟨[], _, .none, rfl, rfl⟩

theorem head_exponent {mark after : List Char} {exponent : Option Int}
    (h : IsExponent mark exponent) (hafter : continuesKey after = false) :
    ∀ c ∈ (mark ++ after).head?, c.isDigit = false ∧ c ≠ '.' := by
  intro c hc
  cases h with
  | none =>
      cases after with
      | nil => cases hc
      | cons d after =>
          cases hc
          constructor
          · rw [Bool.eq_false_iff]
            intro hdigit
            rw [continuesKey, isKeyChar_of_isDigit hdigit] at hafter
            cases hafter
          · rintro rfl
            cases hafter
  | mark hmark =>
      cases hc
      rcases hmark with rfl | rfl <;> decide

theorem head_fraction {point after : List Char} {fraction : Option (List Char)}
    (h : IsFraction point fraction) (hafter : ∀ c ∈ after.head?, c.isDigit = false ∧ c ≠ '.') :
    ∀ c ∈ (point ++ after).head?, c.isDigit = false := by
  intro c hc
  cases h with
  | none => exact (hafter c hc).1
  | point =>
      cases hc
      rfl

-- The scan, with the lengths of its parts taken from what it found.
theorem scan_eq {cs sign after : List Char} {negative : Bool}
    (hsign : Numeral.scanSign cs = (negative, sign.length)) (hcs : cs = sign ++ after) :
    Numeral.scan cs =
      let whole := after.takeWhile Char.isDigit
      let fraction := Numeral.scanFraction? (after.drop whole.length)
      let exponent := Numeral.scanExponent?
        ((after.drop whole.length).drop (fractionLength fraction))
      (⟨negative, whole, fraction, exponent.map (·.1)⟩,
        sign.length + whole.length + fractionLength fraction + (exponent.map (·.2)).getD 0) := by
  subst hcs
  simp only [Numeral.scan, hsign, List.drop_left]
  generalize Numeral.scanFraction? _ = fraction
  cases fraction with
  | none =>
      simp only [fractionLength]
      cases Numeral.scanExponent? _ <;> rfl
  | some digits =>
      simp only [fractionLength]
      cases Numeral.scanExponent? _ <;> rfl

-- A number is scanned up to its end, if no key character follows it.
theorem scan_numeral {body after : List Char} {n : Numeral} (h : NumeralText body n)
    (hafter : continuesKey after = false) : Numeral.scan (body ++ after) = (n, body.length) := by
  obtain @⟨sign, whole, point, mark, negative, fraction, exponent, hsign, hwhole, hpoint, hmark⟩ := h
  have hhead := head_exponent hmark hafter
  have hscan := scanSign_digits hsign hwhole (point ++ (mark ++ after))
  have hdigits := takeWhile_isDigit hwhole.2 (head_fraction hpoint hhead)
  obtain ⟨hfraction, hlength⟩ := scanFraction?_text hpoint hhead
  have hexponent := scanExponent?_text hmark hafter
  have hbody : sign ++ (whole ++ (point ++ mark)) ++ after =
      sign ++ (whole ++ (point ++ (mark ++ after))) := by simp
  rw [hbody, scan_eq hscan rfl]
  simp only [hdigits, List.drop_left, hfraction, hlength, hexponent]
  cases hmark <;> simp [Nat.add_assoc]

theorem startsNumber_numeral {body after : List Char} {n : Numeral} (h : NumeralText body n) :
    Parser.startsNumber (body ++ after) = true := by
  obtain ⟨hsign, hwhole, hpoint, hmark⟩ := h
  obtain ⟨c, tail, rfl, hc⟩ := hwhole.exists_cons
  cases hsign <;> simp [Parser.startsNumber, Parser.leadingSign?, hc]

-- Digits stand behind the sign, if there is one.
theorem isDigits_of_startsNumber {sign after : List Char} {negative : Bool}
    (hsign : IsSign sign negative)
    (hscan : Numeral.scanSign (sign ++ after) = (negative, sign.length))
    (h : Parser.startsNumber (sign ++ after) = true) :
    IsDigits (after.takeWhile Char.isDigit) := by
  have hfirst : ∃ c tail, after = c :: tail ∧ c.isDigit = true := by
    cases after with
    | nil => cases hsign <;> cases h
    | cons c tail =>
        refine ⟨c, tail, rfl, ?_⟩
        cases hsign with
        | none =>
            rcases Bool.or_eq_true_iff.mp h with hc | hlead
            · exact hc
            · rw [List.nil_append] at hscan
              unfold Parser.leadingSign? at hlead
              split at hlead
              next heq =>
                obtain ⟨rfl, -⟩ := List.cons.inj heq
                cases hscan
              next heq =>
                obtain ⟨rfl, -⟩ := List.cons.inj heq
                cases hscan
              next => cases hlead
        | plus => simpa [Parser.startsNumber, Parser.leadingSign?] using h
        | minus => simpa [Parser.startsNumber, Parser.leadingSign?] using h
  obtain ⟨c, tail, rfl, hc⟩ := hfirst
  refine ⟨?_, fun d hd => List.mem_takeWhile_imp hd⟩
  rw [List.takeWhile_cons_of_pos hc]
  exact List.cons_ne_nil _ _

theorem exists_numeral {cs : List Char} (h : Parser.startsNumber cs = true) :
    ∃ body after, NumeralText body (Numeral.scan cs).1 ∧ cs = body ++ after ∧
      (Numeral.scan cs).2 = body.length := by
  obtain ⟨sign, rest, negative, hsign, rfl, hscan⟩ := exists_sign cs
  have hwhole := isDigits_of_startsNumber hsign hscan h
  rw [scan_eq hscan rfl]
  obtain ⟨mid, hmid⟩ := List.takeWhile_prefix (l := rest) Char.isDigit
  generalize rest.takeWhile Char.isDigit = whole at hwhole hmid ⊢
  subst hmid
  obtain ⟨point, last, hpoint, rfl, hfraction⟩ := exists_fraction mid
  obtain ⟨mark, after, hmark, rfl, hexponent⟩ := exists_exponent last
  simp only [List.drop_left, hfraction, hexponent]
  refine ⟨_, after, .mk hsign hwhole hpoint hmark, ?_, ?_⟩
  · simp only [List.append_assoc]
  · simp only [List.length_append, Nat.add_assoc]

section

variable {ctx : Context} {s : State}

theorem number_sound (hstart : Parser.startsNumber s.rest = true) :
    (Parser.number ctx s).Sat
      (fun v t => ∃ body, NumberText body v ∧ s.Takes body t ∧ continuesKey t.rest = false)
      True (fun _ => False) := by
  obtain ⟨body, after, hbody, hrest, hlength⟩ := exists_numeral hstart
  rw [Parser.number, Parser.position_bind, Parser.ahead_bind]
  generalize Numeral.scan s.rest = scanned at hbody hlength
  obtain ⟨n, length⟩ := scanned
  simp only at hbody hlength ⊢
  subst hlength
  have hdrop : s.rest.drop body.length = after := by rw [hrest, List.drop_left]
  rw [hdrop]
  by_cases hafter : continuesKey after = true
  · rw [if_pos hafter]
    trivial
  · rw [if_neg hafter]
    cases hvalue : n.value? with
    | some v =>
        have htakes := State.Takes.advance hrest
        refine ⟨body, (numberText_iff body v).mpr ⟨n, hbody, hvalue⟩, htakes, ?_⟩
        rw [htakes.rest_eq hrest]
        exact Bool.eq_false_iff.mpr hafter
    | none => trivial

theorem number_complete {body after : List Char} {v : Literal} (hbody : NumberText body v)
    (hrest : s.rest = body ++ after) (hafter : continuesKey after = false) :
    (Parser.number ctx s).Sat (fun v' t => v' = v ∧ s.Takes body t) False (fun _ => False) := by
  obtain ⟨n, hn, hvalue⟩ := (numberText_iff body v).mp hbody
  have hnot : ¬ continuesKey after = true := Bool.eq_false_iff.mp hafter
  rw [Parser.number, Parser.position_bind, Parser.ahead_bind, hrest, scan_numeral hn hafter]
  simp only [List.drop_left, if_neg hnot, hvalue]
  exact ⟨rfl, .advance hrest⟩

end

end CardLore
