/-!
# Letter case of keywords

Keywords are met in any letter case. The full case mappings of Unicode take ten characters outside
ASCII to upper-case ASCII letters and one to a lower-case one; every other character outside ASCII
maps to a text that no keyword contains, and stands for itself here.
-/

namespace TelemetryBands.Text

/-- The characters outside ASCII whose upper-case form is made of ASCII letters. -/
def upperExceptions : List (Char × List Char) :=
  [('ß', ['S', 'S']), ('ı', ['I']), ('ſ', ['S']), ('ﬀ', ['F', 'F']), ('ﬁ', ['F', 'I']),
   ('ﬂ', ['F', 'L']), ('ﬃ', ['F', 'F', 'I']), ('ﬄ', ['F', 'F', 'L']), ('ﬅ', ['S', 'T']),
   ('ﬆ', ['S', 'T'])]

/-- The upper-case form of a character, as far as a keyword can contain it. -/
def upperChar (c : Char) : List Char :=
  match upperExceptions.lookup c with
  | some form => form
  | none => [c.toUpper]

/-- The upper-case form of a text, as far as a keyword can contain it. -/
def upper (cs : List Char) : List Char :=
  cs.flatMap upperChar

/-- The lower-case form of a character, as far as a keyword can contain it; the Kelvin sign is the
one character outside ASCII that maps to an ASCII letter. -/
def lowerChar (c : Char) : Char :=
  if c = '\u212A' then 'k' else c.toLower

/-- The lower-case form of a text, as far as a keyword can contain it. -/
def lower (cs : List Char) : List Char :=
  cs.map lowerChar

end TelemetryBands.Text
