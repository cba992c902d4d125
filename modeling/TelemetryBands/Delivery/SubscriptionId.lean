import TelemetryBands.Text.Blank
import TelemetryBands.Text.Digits

/-!
# Subscription identifiers

A subscription is known by a 128-bit number, shown as 32 hexadecimal digits in five groups. It may
also be written without the groups, or with them in braces or behind the words `urn:uuid:`. Digits
and words may be in either letter case, even mixed.
-/

namespace TelemetryBands

/-- The number that identifies a subscription. -/
structure SubscriptionId where
  number : Nat
  deriving DecidableEq, Repr

namespace SubscriptionId

/-- The identifier that no subscription has. -/
def nil : SubscriptionId :=
  ⟨0⟩

/-- The number from which identifiers are issued. Its digits carry the marks of an identifier that
stands for nothing but itself: version 4 and the usual variant. -/
def base : Nat := 0x7c5f1e92a36d4b088d41000000000000

/-- The identifier that is issued after `count` others. -/
def issue (count : Nat) : SubscriptionId :=
  ⟨base + count⟩

/-- The lengths of the groups of digits. -/
def groupLengths : List Nat := [8, 4, 4, 4, 12]

/-- Cuts a text into pieces of given lengths. -/
def cut : List Nat → List Char → List (List Char)
  | [], _ => []
  | n :: lengths, cs => cs.take n :: cut lengths (cs.drop n)

/-- The text that shows an identifier. -/
def text (id : SubscriptionId) : String :=
  String.ofList (['-'].intercalate (cut groupLengths (Text.hexDigits 32 id.number)))

/-- Reads 32 hexadecimal digits. -/
def plain? (cs : List Char) : Option SubscriptionId :=
  if cs.length = 32 then (Text.ofHexDigits? cs).map SubscriptionId.mk else none

/-- Reads five groups of hexadecimal digits with hyphens between them. -/
def grouped? (cs : List Char) : Option SubscriptionId :=
  let groups := Text.splitAtChar '-' cs
  if groups.map List.length = groupLengths then plain? groups.flatten else none

/-- The words that may stand before the groups. -/
def leadingWords : List Char := "urn:uuid:".toList

/-- What follows the leading words, if a text begins with them in any letter case. -/
def afterWords? (cs : List Char) : Option (List Char) :=
  let (words, rest) := cs.splitAt leadingWords.length
  if words.map Char.toLower = leadingWords then some rest else none

/-- Reads an identifier in any of its forms, with white space around it. -/
def ofText? (s : String) : Option SubscriptionId :=
  let cs := Text.trim s.toList
  plain? cs <|> grouped? cs
    <|> ((Text.dropBeginning? ['{'] cs).bind (Text.dropEnding? ['}'])).bind grouped?
    <|> (afterWords? cs).bind grouped?

end SubscriptionId

end TelemetryBands
