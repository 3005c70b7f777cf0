import GuardedData.Text.Basic
import GuardedData.Value.Flaw

/-!
# Reading strings

A string in quotes may hold every character but quotes, backslashes and control characters, which
are escaped. A character beyond four hexadecimal digits is escaped as a pair of surrogates.
-/

namespace GuardedData.Value

/-- A text that does not start with four hexadecimal digits: it is too short or they are wrong. -/
def failHex {α : Type} (rest : List Char) : Read α :=
  if Position.bytes rest < 4 then .error ⟨.endInString, 0⟩
  else .error ⟨.invalidEscape, Position.bytes rest - 4⟩

/-- The character of an escape of one letter. -/
def escape? : Char → Option Char
  | '"' => some '"'
  | '\\' => some '\\'
  | '/' => some '/'
  | 'b' => some '\x08'
  | 'f' => some '\x0c'
  | 'n' => some '\n'
  | 'r' => some '\r'
  | 't' => some '\t'
  | _ => none

/-- Read the rest of a string after its opening quote; the characters so far come last first. -/
def readChars (soFar : List Char) : List Char → Read String
  | [] => failHere .endInString []
  | '"' :: rest => .ok (String.ofList soFar.reverse, rest)
  | ['\\'] => failHere .endInString []
  | '\\' :: 'u' :: a :: b :: c :: d :: rest =>
    match Text.hexNumber? [a, b, c, d] with
    | none => failHex (a :: b :: c :: d :: rest)
    | some n =>
      if 0xDC00 ≤ n ∧ n ≤ 0xDFFF then failHere .loneSurrogate rest
      else if n < 0xD800 ∨ 0xDBFF < n then readChars (Char.ofNat n :: soFar) rest
      else
        match rest with
        | [] | ['\\'] => failHere .endInString []
        | '\\' :: 'u' :: e :: f :: g :: h :: after =>
          match Text.hexNumber? [e, f, g, h] with
          | none => failHex (e :: f :: g :: h :: after)
          | some m =>
            if m < 0xDC00 ∨ 0xDFFF < m then failHere .loneSurrogate after
            else readChars
              (Char.ofNat ((n - 0xD800) * 1024 + (m - 0xDC00) + 0x10000) :: soFar) after
        | '\\' :: 'u' :: after => failHex after
        | '\\' :: after => failNext .brokenSurrogatePair after
        | after => failNext .brokenSurrogatePair after
  | '\\' :: 'u' :: rest => failHex rest
  | '\\' :: c :: rest =>
    match escape? c with
    | some e => readChars (e :: soFar) rest
    | none => failNext .invalidEscape (c :: rest)
  | c :: rest =>
    if c.toNat < 32 then failHere .controlCharacter rest
    else readChars (c :: soFar) rest

end GuardedData.Value
