import DatasetAlgebra.Json.Numeral

/-! Tokens of JSON text, read character by character. -/
namespace DatasetAlgebra

inductive Token where
  | openArray
  | closeArray
  | openObject
  | closeObject
  | comma
  | colon
  /-- A number, a truth value or null. -/
  | scalar (d : Document)
  /-- A string, or none for one with an unpaired surrogate. -/
  | string (s : Option String)

namespace Token

/-- Text of escaped and plain code units. Surrogates occur in pairs, high before low. -/
def decode : List Nat → Option (List Char)
  | [] => some []
  | high :: low :: rest =>
    if 0xD800 ≤ high && high < 0xDC00 && 0xDC00 ≤ low && low < 0xE000 then
      (decode rest).map (Char.ofNat (0x10000 + (high - 0xD800) * 1024 + (low - 0xDC00)) :: ·)
    else if 0xD800 ≤ high && high < 0xE000 then none
    else (decode (low :: rest)).map (Char.ofNat high :: ·)
  | [unit] => if 0xD800 ≤ unit && unit < 0xE000 then none else some [Char.ofNat unit]

/-- Where the reader stands. What it has read of the current token is kept last first. -/
inductive Mode where
  | ground
  | word (read : List Char)
  | numeral (read : List Char)
  | string (read : List Nat)
  | escape (read : List Nat)
  | unicode (read : List Nat) (missing : Nat) (unit : Nat)

def hexDigit? (c : Char) : Option Nat :=
  if c.isDigit then some (c.toNat - '0'.toNat)
  else if 'a' ≤ c && c ≤ 'f' then some (c.toNat - 'a'.toNat + 10)
  else if 'A' ≤ c && c ≤ 'F' then some (c.toNat - 'A'.toNat + 10)
  else none

/-- The one-letter escapes. -/
def escaped? (c : Char) : Option Nat :=
  if c = '"' || c = '\\' || c = '/' then some c.toNat
  else if c = 'b' then some 8
  else if c = 'f' then some 12
  else if c = 'n' then some 10
  else if c = 'r' then some 13
  else if c = 't' then some 9
  else none

/-- A character between tokens. -/
def start (c : Char) : Option (List Token × Mode) :=
  if c = ' ' || c = '\t' || c = '\n' || c = '\r' then some ([], .ground)
  else if c = '[' then some ([.openArray], .ground)
  else if c = ']' then some ([.closeArray], .ground)
  else if c.toNat = 0x7b then some ([.openObject], .ground)
  else if c.toNat = 0x7d then some ([.closeObject], .ground)
  else if c = ',' then some ([.comma], .ground)
  else if c = ':' then some ([.colon], .ground)
  else if c = '"' then some ([], .string [])
  else if c = '-' || c.isDigit then some ([], .numeral [c])
  else if c.isAlpha then some ([], .word [c])
  else none

def word? (read : List Char) : Option Token :=
  let s := String.ofList read.reverse
  if s = "true" then some (.scalar (.boolean true))
  else if s = "false" then some (.scalar (.boolean false))
  else if s = "null" then some (.scalar .null)
  else none

def numeral? (read : List Char) : Option Token :=
  (Numeral.read? read.reverse).map fun n => .scalar n.value

def step : Mode → Char → Option (List Token × Mode)
  | .ground, c => start c
  | .word read, c =>
    if c.isAlpha then some ([], .word (c :: read))
    else do
      let token ← word? read
      let (tokens, mode) ← start c
      some (token :: tokens, mode)
  | .numeral read, c =>
    if c.isDigit || c = '.' || c = 'e' || c = 'E' || c = '+' || c = '-' then
      some ([], .numeral (c :: read))
    else do
      let token ← numeral? read
      let (tokens, mode) ← start c
      some (token :: tokens, mode)
  | .string read, c =>
    if c = '"' then some ([.string ((decode read.reverse).map String.ofList)], .ground)
    else if c = '\\' then some ([], .escape read)
    else if c.toNat < 0x20 then none
    else some ([], .string (c.toNat :: read))
  | .escape read, c =>
    if c = 'u' then some ([], .unicode read 3 0)
    else (escaped? c).map fun unit => ([], .string (unit :: read))
  | .unicode read missing unit, c =>
    (hexDigit? c).map fun d =>
      match missing with
      | 0 => ([], .string ((16 * unit + d) :: read))
      | missing + 1 => ([], .unicode read missing (16 * unit + d))

/-- The token that ends with the text. Strings do not. -/
def finish : Mode → Option (List Token)
  | .ground => some []
  | .word read => (word? read).map ([·])
  | .numeral read => (numeral? read).map ([·])
  | _ => none

def scanFrom : Mode → List Char → Option (List Token)
  | mode, [] => finish mode
  | mode, c :: rest => do
    let (tokens, next) ← step mode c
    let more ← scanFrom next rest
    some (tokens ++ more)

/-- All tokens of a text. -/
def scan (text : String) : Option (List Token) := scanFrom .ground text.toList

end Token
end DatasetAlgebra
