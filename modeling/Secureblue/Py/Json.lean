import Secureblue.Py.Text

/-! JSON: the values that `json.loads` returns, and writing (`json.dumps`), as far as objects of strings. -/

namespace Py.Json

/-- A value that `json.loads` returns; `ν` are its numbers. -/
inductive Value (ν : Type) where
  | null
  | bool (b : Bool)
  | number (n : ν)
  | string (s : Text)
  | array (elems : List (Value ν))
  | object (members : List (Text × Value ν))

/-- Lists and dictionaries cannot be looked up in a dictionary. -/
def Value.isHashable {ν : Type} : Value ν → Bool
  | .array _ | .object _ => false
  | _ => true

def hexDigit (n : ℕ) : Char := if n < 10 then Char.ofNat (48 + n) else Char.ofNat (87 + n)

/-- `\uXXXX` -/
def unicodeEscape (n : ℕ) : Text :=
  ['\\', 'u', hexDigit (n / 4096 % 16), hexDigit (n / 256 % 16), hexDigit (n / 16 % 16),
    hexDigit (n % 16)]

/-- A character in a string, with `ensure_ascii`: beyond the basic plane, as a surrogate pair. -/
def escape (c : Char) : Text :=
  let n := c.toNat
  if c = '"' then ['\\', '"']
  else if c = '\\' then ['\\', '\\']
  else if c = '\n' then ['\\', 'n']
  else if c = '\r' then ['\\', 'r']
  else if c = '\t' then ['\\', 't']
  else if n = 8 then ['\\', 'b']
  else if n = 12 then ['\\', 'f']
  else if 32 ≤ n ∧ n < 127 then [c]
  else if n < 0x10000 then unicodeEscape n
  else unicodeEscape (0xd800 + (n - 0x10000) / 1024) ++ unicodeEscape (0xdc00 + (n - 0x10000) % 1024)

/-- `json.dumps(s)` -/
def dumpsString (s : Text) : Text := '"' :: s.flatMap escape ++ ['"']

/-- `json.dumps(d, indent=4)` for a dictionary of strings -/
def dumpsObject (items : List (Text × Text)) : Text :=
  if items = [] then ['{', '}']
  else ['{', '\n'] ++ [',', '\n'].intercalate (items.map fun e =>
    "    " ++ dumpsString e.1 ++ ": " ++ dumpsString e.2) ++ ['\n', '}']

end Py.Json
