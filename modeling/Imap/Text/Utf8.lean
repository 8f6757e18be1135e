import Imap.Bytes

namespace Imap.Text.Utf8

/-- What is shown for each longest start of a character that its next octet breaks off. -/
def replacement : Char := '\uFFFD'

/-- What a lead octet contributes to the code point, and the bounds of the octets that must follow. -/
def lead (b : UInt8) : Option (Nat × List (UInt8 × UInt8)) :=
  let any : UInt8 × UInt8 := (0x80, 0xBF)
  if b < 0x80 then some (b.toNat, [])
  else if b < 0xC2 then none
  else if b < 0xE0 then some (b.toNat - 0xC0, [any])
  else if b = 0xE0 then some (0, [(0xA0, 0xBF), any])
  else if b = 0xED then some (0xD, [(0x80, 0x9F), any])
  else if b < 0xF0 then some (b.toNat - 0xE0, [any, any])
  else if b = 0xF0 then some (0, [(0x90, 0xBF), any, any])
  else if b < 0xF4 then some (b.toNat - 0xF0, [any, any, any])
  else if b = 0xF4 then some (4, [(0x80, 0x8F), any, any])
  else none

/-- The code point once every bound is met, and how many octets were taken either way. -/
def follow (point : Nat) : List (UInt8 × UInt8) → Bytes → Option Nat × Nat
  | [], _ => (some point, 0)
  | _ :: _, [] => (none, 0)
  | (low, high) :: bounds, b :: bs =>
    if low ≤ b ∧ b ≤ high then
      let (point, taken) := follow (point * 64 + (b.toNat - 0x80)) bounds bs
      (point, taken + 1)
    else (none, 0)

def chars : Bytes → List Char
  | [] => []
  | b :: bs =>
    match lead b with
    | none => replacement :: chars bs
    | some (point, bounds) =>
      let (point, taken) := follow point bounds bs
      (point.map Char.ofNat).getD replacement :: chars (bs.drop taken)
termination_by bs => bs.length
decreasing_by all_goals (simp only [List.length_drop, List.length_cons]; omega)

def decode (bs : Bytes) : String := String.ofList (chars bs)

end Imap.Text.Utf8
