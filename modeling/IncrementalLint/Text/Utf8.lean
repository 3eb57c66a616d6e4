/-!
# Text from bytes

A file or a pipe holds bytes. `Utf8.decode?` reads well-formed UTF-8 and nothing else;
`Utf8.decodeLossy` reads anything and writes one replacement character for each maximal piece that
could still have been the start of a character.
-/

namespace IncrementalLint.Utf8

/-! ## well-formed text -/

def encode (s : String) : ByteArray := s.toUTF8
def decode? (bs : ByteArray) : Option String := String.fromUTF8? bs

/-! ## any bytes -/

def replacement : Char := Char.ofNat 0xFFFD

def isContinuation (b : UInt8) : Bool := 0x80 ≤ b && b ≤ 0xBF

/-- which second byte may follow a lead byte of a character of three or four bytes -/
def secondAllowed (lead second : UInt8) : Bool :=
  if lead == 0xE0 then 0xA0 ≤ second && second ≤ 0xBF
  else if lead == 0xED then 0x80 ≤ second && second ≤ 0x9F
  else if lead == 0xF0 then 0x90 ≤ second && second ≤ 0xBF
  else if lead == 0xF4 then 0x80 ≤ second && second ≤ 0x8F
  else isContinuation second

def low6 (b : UInt8) : Nat := b.toNat % 64

/-- the character at the front of `b :: rest`, or none, and how many bytes of `rest` go with it -/
def front (b : UInt8) (rest : List UInt8) : Option Char × Nat :=
  if b < 0x80 then (some (Char.ofNat b.toNat), 0)
  else if 0xC2 ≤ b && b ≤ 0xDF then
    match rest with
    | b1 :: _ =>
      if isContinuation b1 then (some (Char.ofNat (b.toNat % 32 * 64 + low6 b1)), 1) else (none, 0)
    | [] => (none, 0)
  else if 0xE0 ≤ b && b ≤ 0xEF then
    match rest with
    | b1 :: more =>
      if secondAllowed b b1 then
        match more with
        | b2 :: _ =>
          if isContinuation b2 then
            (some (Char.ofNat ((b.toNat % 16 * 64 + low6 b1) * 64 + low6 b2)), 2)
          else (none, 1)
        | [] => (none, 1)
      else (none, 0)
    | [] => (none, 0)
  else if 0xF0 ≤ b && b ≤ 0xF4 then
    match rest with
    | b1 :: more =>
      if secondAllowed b b1 then
        match more with
        | b2 :: more2 =>
          if isContinuation b2 then
            match more2 with
            | b3 :: _ =>
              if isContinuation b3 then
                (some (Char.ofNat (((b.toNat % 8 * 64 + low6 b1) * 64 + low6 b2) * 64 + low6 b3)), 3)
              else (none, 2)
            | [] => (none, 2)
          else (none, 1)
        | [] => (none, 1)
      else (none, 0)
    | [] => (none, 0)
  else (none, 0)

/-- reads on behind `acc`, last character first -/
def lossyFrom (acc : List Char) : List UInt8 → List Char
  | [] => acc.reverse
  | b :: rest => lossyFrom ((front b rest).1.getD replacement :: acc) (rest.drop (front b rest).2)
termination_by bs => bs.length
decreasing_by
  rw [List.length_drop, List.length_cons]
  omega

def decodeLossy (bs : ByteArray) : String := String.ofList (lossyFrom [] bs.toList)

theorem lossyFrom_nil (acc : List Char) : lossyFrom acc [] = acc.reverse := by
  unfold lossyFrom
  rfl

end IncrementalLint.Utf8
