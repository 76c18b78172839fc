import CardLore.Component.Enumeration
import CardLore.Diagnostic.Offence
import CardLore.Statement.Basic

namespace CardLore

inductive Misfit where
  | type (expected : String)
  | word (value : Text) (allowed : List String)

def Misfit.offence (key : Key) (value : Literal) : Misfit → Offence
  | type expected => .wrongType key expected value
  | word written allowed => .outsideEnumeration written key allowed

namespace Literal

def toText : Literal → Except Misfit Text
  | string t => .ok t
  | _ => .error (.type "string")

def toBool : Literal → Except Misfit Bool
  | bool b => .ok b
  | _ => .error (.type "boolean")

def toCount : Literal → Except Misfit Int
  | int n => if 0 ≤ n then .ok n else .error (.type "non-negative integer")
  | _ => .error (.type "non-negative integer")

def toMember {α : Type} (e : Enumeration α) (value : Literal) : Except Misfit α := do
  let word ← value.toText
  match e.find? word with
  | some member => .ok member
  | none => .error (.word word e.words)

end Literal

-- What the keys that a kind knows do to its record, and where the other ones go.
structure Fields (R : Type) where
  kind : Kind
  known : List (String × (Literal → Except Misfit (R → R)))
  addOther : Key → Literal → R → R

-- Keys that only a signature may give.
def signatureKeys : List Key := ["id", "label", "description"]

-- A record under construction: `assigned` holds the keys that were set and `used` the statements
-- that may appear once, each with its place.
structure Draft (R : Type) where
  record : R
  assigned : List (Key × Span)
  used : List (String × Span)

namespace Draft

variable {R : Type}

def ofRecord (record : R) : Draft R := ⟨record, [], []⟩

def modify (d : Draft R) (f : R → R) : Draft R := { d with record := f d.record }

def reserve (d : Draft R) (kind : Kind) (name : String) (span : Span) : Except Refusal (Draft R) :=
  match d.used.lookup name with
  | some first => .error ⟨.repeatedStatement name kind first, span⟩
  | none => .ok { d with used := d.used ++ [(name, span)] }

def assign (d : Draft R) (fields : Fields R) (key : Key) (value : Literal) (span : Span) :
    Except Refusal (Draft R) :=
  if key ∈ signatureKeys then .error ⟨.signatureKey key fields.kind, span⟩
  else match d.assigned.lookup key with
    | some first => .error ⟨.reassigned key fields.kind first, span⟩
    | none =>
      let d := { d with assigned := d.assigned ++ [(key, span)] }
      match fields.known.find? (fun entry => Text.ofString entry.1 = key.text) with
      | none => .ok (d.modify (fields.addOther key value))
      | some (_, convert) =>
        match convert value with
        | .ok update => .ok (d.modify update)
        | .error misfit => .error ⟨misfit.offence key value, span⟩

end Draft

def addKeyed {α : Type} (entries : List (Key × α)) (what : String) (key : Key) (value : α)
    (span : Span) : Except Refusal (List (Key × α)) :=
  if (entries.lookup key).isSome then .error ⟨.duplicateEntry what key, span⟩
  else .ok (entries ++ [(key, value)])

end CardLore
