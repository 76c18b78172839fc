namespace CardLore.Text.Utf8

inductive Reason where
  | invalidStart
  | invalidContinuation
  | unexpectedEnd
deriving DecidableEq, Repr

def Reason.message : Reason → String
  | invalidStart => "invalid start byte"
  | invalidContinuation => "invalid continuation byte"
  | unexpectedEnd => "unexpected end of data"

-- The bytes from `start` up to, and excluding, `stop` are no character; `first` is the first one.
structure Fault where
  start : Nat
  stop : Nat
  first : UInt8
  reason : Reason
deriving DecidableEq, Repr

-- A sequence that lacks `missing` bytes, the next of which has to lie in `low` to `high`.
structure Pending where
  start : Nat
  first : UInt8
  missing : Nat
  code : Nat
  low : UInt8
  high : UInt8
deriving DecidableEq, Repr

-- What a first byte asks for. Bounds on the second byte keep out longer forms than needed,
-- surrogates and numbers above the last code point.
def Pending.ofFirst? (start : Nat) (b : UInt8) : Option Pending :=
  let lead (missing base : Nat) (low high : UInt8) : Option Pending :=
    some ⟨start, b, missing, b.toNat - base, low, high⟩
  if b < 0xC2 then none
  else if b < 0xE0 then lead 1 0xC0 0x80 0xBF
  else if b = 0xE0 then lead 2 0xE0 0xA0 0xBF
  else if b = 0xED then lead 2 0xE0 0x80 0x9F
  else if b < 0xF0 then lead 2 0xE0 0x80 0xBF
  else if b = 0xF0 then lead 3 0xF0 0x90 0xBF
  else if b < 0xF4 then lead 3 0xF0 0x80 0xBF
  else if b = 0xF4 then lead 3 0xF0 0x80 0x8F
  else none

def decodeFrom (pos : Nat) (pending : Option Pending) : List UInt8 → Except Fault (List Char)
  | [] => match pending with
    | none => .ok []
    | some p => .error ⟨p.start, pos, p.first, .unexpectedEnd⟩
  | b :: rest => match pending with
    | none =>
      if b < 0x80 then return Char.ofNat b.toNat :: (← decodeFrom (pos + 1) none rest)
      else match Pending.ofFirst? pos b with
        | none => .error ⟨pos, pos + 1, b, .invalidStart⟩
        | some p => decodeFrom (pos + 1) (some p) rest
    | some p =>
      if p.low ≤ b ∧ b ≤ p.high then
        let code := p.code * 64 + (b.toNat - 0x80)
        if p.missing = 1 then return Char.ofNat code :: (← decodeFrom (pos + 1) none rest)
        else decodeFrom (pos + 1)
          (some { p with missing := p.missing - 1, code, low := 0x80, high := 0xBF }) rest
      else .error ⟨p.start, pos, p.first, .invalidContinuation⟩

def decode (bytes : List UInt8) : Except Fault (List Char) :=
  decodeFrom 0 none bytes

-- A byte in two hexadecimal digits.
def hexByte (b : UInt8) : String :=
  String.ofList [Nat.digitChar (b.toNat / 16), Nat.digitChar (b.toNat % 16)]

def Fault.message (fault : Fault) : String :=
  let place :=
    if fault.stop = fault.start + 1 then s!"byte 0x{hexByte fault.first} in position {fault.start}"
    else s!"bytes in position {fault.start}-{fault.stop - 1}"
  s!"'utf-8' codec can't decode {place}: {fault.reason.message}"

end CardLore.Text.Utf8
