import Imap.Rule

namespace Imap.Base64

def alphabet : List Char :=
  "ABCDEFGHIJKLMNOPQRSTUVWXYZabcdefghijklmnopqrstuvwxyz0123456789+/".toList

def digit (n : Nat) : Char := alphabet.getD n '='

def value? (c : Char) : Option Nat := alphabet.idxOf? c

def encodeChars : Bytes → List Char
  | [] => []
  | [a] =>
    let n := a.toNat * 16
    [digit (n / 64), digit (n % 64), '=', '=']
  | [a, b] =>
    let n := (a.toNat * 256 + b.toNat) * 4
    [digit (n / 4096), digit (n / 64 % 64), digit (n % 64), '=']
  | a :: b :: c :: rest =>
    let n := (a.toNat * 256 + b.toNat) * 256 + c.toNat
    digit (n / 262144) :: digit (n / 4096 % 64) :: digit (n / 64 % 64) :: digit (n % 64) ::
      encodeChars rest

def encode (bs : Bytes) : String := String.ofList (encodeChars bs)

/-- The octets of one or more groups of four. Only the last group may be padded, and a whole last
group may have any padding behind it; the bits that a padded group leaves over are ignored. -/
def decodeGroups : List Char → Option Bytes
  | a :: b :: c :: d :: rest =>
    match value? a, value? b, value? c, value? d with
    | some a, some b, some c, some d =>
      let n := ((a * 64 + b) * 64 + c) * 64 + d
      let more := if rest.all (· = '=') then some [] else decodeGroups rest
      more.map fun bs =>
        UInt8.ofNat (n / 65536) :: UInt8.ofNat (n / 256 % 256) :: UInt8.ofNat (n % 256) :: bs
    | some a, some b, some c, none =>
      let n := ((a * 64 + b) * 64 + c) / 4
      if d = '=' ∧ rest = [] then some [UInt8.ofNat (n / 256), UInt8.ofNat (n % 256)] else none
    | some a, some b, none, none =>
      if c = '=' ∧ d = '=' ∧ rest = [] then some [UInt8.ofNat ((a * 64 + b) / 16)] else none
    | _, _, _, _ => none
  | _ => none

def decode (s : String) : Except Refusal Bytes :=
  let chars := s.toList
  if chars.any (0x80 ≤ ·.toNat) then .error .notAscii
  else if chars = [] then .ok []
  else match decodeGroups chars with
    | some bs => .ok bs
    | none => .error .badBase64

/-- The characters of the alphabet ahead, and at most two of padding. -/
def tokenLength (bs : Bytes) : Nat :=
  let n := (bs.takeWhile Octet.isBase64Char).length
  n + (((bs.drop n).take 2).takeWhile (· = 0x3D)).length

/-- A token, perhaps empty, whose length is a multiple of four. -/
def rule : Rule String :=
  (Rule.token tokenLength true (.element .base64) (.expected .base64)).refine fun found =>
    if found.length % 4 = 0 then .ok found else .error (.miss .base64Length 0)

end Imap.Base64
