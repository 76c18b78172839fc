import CardLore.Text.CodePoint

namespace CardLore.Text

-- A code point whose number lies in a range.
def isBetween (first last : Nat) (p : CodePoint) : Bool :=
  first ≤ p.toNat && p.toNat ≤ last

def isParameter : CodePoint → Bool := isBetween 0x30 0x3f

def isIntermediate : CodePoint → Bool := isBetween 0x20 0x2f

def isFinal : CodePoint → Bool := isBetween 0x40 0x7e

-- The length of the control sequence at the front of a text, if there is one.
def sequenceLength? : Text → Option Nat
  | .scalar '\x1b' :: .scalar '[' :: inside =>
    let parameters := inside.takeWhile isParameter
    let rest := inside.dropWhile isParameter
    let intermediates := rest.takeWhile isIntermediate
    match rest.dropWhile isIntermediate with
    | final :: _ =>
      if isFinal final then some (2 + parameters.length + intermediates.length + 1) else none
    | [] => none
  | _ => none

-- Leaves out the sequences; the next `skip` code points belong to one.
def dropSequences : (skip : Nat) → Text → Text
  | _, [] => []
  | skip + 1, _ :: rest => dropSequences skip rest
  | 0, p :: rest =>
    match sequenceLength? (p :: rest) with
    | some length => dropSequences (length - 1) rest
    | none => p :: dropSequences 0 rest

def plain (t : Text) : Text := dropSequences 0 t

end CardLore.Text
