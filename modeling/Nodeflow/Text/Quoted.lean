import Nodeflow.Text.Attaching
import Nodeflow.Text.Hex

/-!
# Quoted text in structural dumps

A dump shows a text between double quotes.  Quotes, backslashes, the usual control
characters, characters without a shape of their own and marks that attach to the
character before them are written as escapes.
-/

namespace Nodeflow

/-- Ranges of code points that have no visible shape: controls, formats, separators,
surrogates and private use. -/
def shapelessRanges : List (Nat × Nat) :=
  [ (0x0, 0x1f), (0x7f, 0xa0), (0xad, 0xad), (0x600, 0x605), (0x61c, 0x61c), (0x6dd, 0x6dd)
  , (0x70f, 0x70f), (0x890, 0x891), (0x8e2, 0x8e2), (0x1680, 0x1680), (0x180e, 0x180e)
  , (0x2000, 0x200f), (0x2028, 0x202f), (0x205f, 0x206f), (0x3000, 0x3000), (0xd800, 0xf8ff)
  , (0xfeff, 0xfeff), (0xfff0, 0xfffb), (0xfffe, 0xffff), (0x110bd, 0x110bd), (0x110cd, 0x110cd)
  , (0x13430, 0x1343f), (0x1bca0, 0x1bca3), (0x1d173, 0x1d17a), (0xe0000, 0x10ffff) ]

private def codeEscape (c : Char) : List Char :=
  ['\\', 'u', '{'] ++ Nat.toDigits 16 c.toNat ++ ['}']

def dumpChar (mark : Char) (c : Char) : List Char :=
  if c = '\\' then ['\\', '\\']
  else if c = mark then ['\\', c]
  else if c = '\n' then ['\\', 'n']
  else if c = '\r' then ['\\', 'r']
  else if c = '\t' then ['\\', 't']
  else if c.toNat = 0 then ['\\', '0']
  else if c = ' ' then [c]
  else if inRanges attachingRanges c.toNat || inRanges shapelessRanges c.toNat then codeEscape c
  else [c]

def dumpText (s : String) : String :=
  "\"" ++ String.ofList (s.toList.flatMap (dumpChar '"')) ++ "\""

end Nodeflow
