import Biei.Basic

/-!
# Texts

The operations on texts that the sources use, on lists of characters: where a text is split, and how a number is read.
-/

namespace Biei

/-- The bytes of a text. -/
def utf8 (s : String) : Bytes := s.toByteArray.data.toList

/-- `split_once`: the text before and after the first occurrence. -/
def splitOnce (c : Char) : List Char → Option (List Char × List Char)
  | [] => none
  | d :: rest => if d = c then some ([], rest) else (splitOnce c rest).map fun (before, after) => (d :: before, after)

/-- `rsplit_once`: the text before and after the last occurrence. -/
def rsplitOnce (c : Char) (text : List Char) : Option (List Char × List Char) :=
  (splitOnce c text.reverse).map fun (after, before) => (before.reverse, after.reverse)

/-- What follows `lead` in the text. -/
def stripLead : List Char → List Char → Option (List Char)
  | [], text => some text
  | _ :: _, [] => none
  | c :: lead, d :: text => if c = d then stripLead lead text else none

/-- `strip_suffix`: what comes before `tail` in the text. -/
def stripEnd (tail text : List Char) : Option (List Char) :=
  if tail.isSuffixOf text then some (text.take (text.length - tail.length)) else none

/-- The number that decimal digits stand for. -/
def decimal (digits : List Char) : Nat := digits.foldl (fun n c => n * 10 + (c.toNat - 48)) 0

/-- `str::parse` of an unsigned integer below the bound: digits, after an optional plus sign. -/
def parseUnsigned (bound : Nat) (text : List Char) : Option Nat :=
  let digits :=
    match text with
    | c :: rest => if c = '+' then rest else text
    | [] => text
  if digits.isEmpty || !digits.all Char.isDigit then none
  else if decimal digits < bound then some (decimal digits) else none

end Biei
