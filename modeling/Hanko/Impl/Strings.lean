import Hanko.Framework.Base64

/-!
# Go's `strings` and `strconv`

The functions of these packages that the code calls, on strings of bytes. White
space is that of `unicode.IsSpace`, in UTF-8. Which runes `strconv` takes as
printable is left to the caller.
-/

namespace Hanko

open Bytes

/-- The characters `strings.TrimSpace` removes. -/
def spaces : List Char :=
  ['\t', '\n', '\x0b', '\x0c', '\r', ' ', '\u0085', '\u00a0', '\u1680', '\u2000', '\u2001', '\u2002',
    '\u2003', '\u2004', '\u2005', '\u2006', '\u2007', '\u2008', '\u2009', '\u200a', '\u2028', '\u2029',
    '\u202f', '\u205f', '\u3000']

/-- White space removed from the start, at most `n` times. -/
def trimLeft : Nat → Bytes → Bytes
  | 0, s => s
  | n + 1, s =>
    match spaces.find? fun c => (utf8 [c]).isPrefixOf s with
    | some c => trimLeft n (s.drop (utf8 [c]).length)
    | none => s

/-- White space removed from the end, at most `n` times. -/
def trimRight : Nat → Bytes → Bytes
  | 0, s => s
  | n + 1, s =>
    match spaces.find? fun c => (utf8 [c]).isSuffixOf s with
    | some c => trimRight n (s.take (s.length - (utf8 [c]).length))
    | none => s

/-- `strings.TrimSpace`. -/
def trimSpace (s : Bytes) : Bytes := trimRight s.length (trimLeft s.length s)

/-- `strings.Index(s, sub)`. -/
def index (sub : Bytes) : Bytes → Option Nat
  | [] => if sub = [] then some 0 else none
  | b :: s => if sub.isPrefixOf (b :: s) then some 0 else (index sub s).map (· + 1)

/-- A field that ends, if it has begun. -/
def endField (field : Bytes) : List Bytes := if field = [] then [] else [field]

/-- The fields of a string, `field` being what was read of the first; at most
`n` characters are read. -/
def fieldsUpTo : Nat → Bytes → Bytes → List Bytes
  | 0, field, _ => endField field
  | _ + 1, field, [] => endField field
  | n + 1, field, b :: s =>
    match spaces.find? fun c => (utf8 [c]).isPrefixOf (b :: s) with
    | some c => endField field ++ fieldsUpTo n [] ((b :: s).drop (utf8 [c]).length)
    | none => fieldsUpTo n (field ++ [b]) s

/-- `strings.Fields`. -/
def fields (s : Bytes) : List Bytes := fieldsUpTo s.length [] s

/-! ## Quoting -/

/-- The last `k` hexadecimal digits of a number. -/
def lowerHex (k n : Nat) : Bytes := (List.range k).reverse.map fun i => hexDigit (n / 16 ^ i % 16)

/-- The runes with a letter to escape them by. -/
def escapeLetters : List (Char × Bytes) :=
  [('\x07', lit "a"), ('\x08', lit "b"), ('\x0c', lit "f"), ('\n', lit "n"), ('\r', lit "r"), ('\t', lit "t"),
    ('\x0b', lit "v")]

/-- `appendEscapedRune`, between double quotes. -/
def escapeRune (isPrint : Char → Bool) (r : Char) : Bytes :=
  if r = '"' ∨ r = '\\' then 92 :: utf8 [r]
  else if isPrint r then utf8 [r]
  else
    match escapeLetters.lookup r with
    | some letter => 92 :: letter
    | none =>
      if r.toNat < 32 ∨ r.toNat = 127 then lit "\\x" ++ lowerHex 2 r.toNat
      else if r.toNat < 65536 then lit "\\u" ++ lowerHex 4 r.toNat
      else lit "\\U" ++ lowerHex 8 r.toNat

/-- The escaped runes of a string; at most `n` are read. -/
def escapeUpTo (isPrint : Char → Bool) : Nat → Bytes → Bytes
  | 0, _ => []
  | _ + 1, [] => []
  | n + 1, b :: s =>
    match decodeRune (b :: s) with
    | some r => escapeRune isPrint r ++ escapeUpTo isPrint n ((b :: s).drop r.utf8Size)
    | none => lit "\\x" ++ (lowerHex 2 b.toNat ++ escapeUpTo isPrint n s)

/-- `strconv.Quote`. -/
def strconvQuote (isPrint : Char → Bool) (s : Bytes) : Bytes := 34 :: (escapeUpTo isPrint s.length s ++ [34])

end Hanko
