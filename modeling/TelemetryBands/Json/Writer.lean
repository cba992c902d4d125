import TelemetryBands.Json.Token

/-!
# Writing documents

The two written forms of a document: `compact` without any gap, and `pretty` with every member and
item on a line of its own, indented by two spaces for each container around it.
-/

namespace TelemetryBands.Json

/-- A token or a gap. -/
inductive Piece where
  | token (t : Token)
  | space
  /-- The start of a line, inside so many containers. -/
  | line (depth : Nat)
  deriving DecidableEq, Repr

/-- The text of a token or a gap. -/
def Piece.chars : Piece → List Char
  | .token t => t.chars
  | .space => [' ']
  | .line depth => '\n' :: List.replicate (2 * depth) ' '

mutual

/-- The tokens of a document. -/
def tokens : Json → List Token
  | .null => [.null]
  | .bool b => [.bool b]
  | .number n => [.numeral n]
  | .string q => [.quoted q]
  | .array items => .openArray :: itemTokens items ++ [.closeArray]
  | .object members => .openObject :: memberTokens members ++ [.closeObject]

/-- The tokens of the items of an array, with commas between them. -/
def itemTokens : List Json → List Token
  | [] => []
  | [item] => item.tokens
  | item :: next :: items => item.tokens ++ .comma :: itemTokens (next :: items)

/-- The tokens of the members of an object, with commas between them. -/
def memberTokens : List (Quoted × Json) → List Token
  | [] => []
  | [(name, value)] => .quoted name :: .colon :: value.tokens
  | (name, value) :: next :: members =>
    .quoted name :: .colon :: value.tokens ++ .comma :: memberTokens (next :: members)

end

mutual

/-- The tokens and gaps of a document in lines. -/
def pieces (depth : Nat) : Json → List Piece
  | .null => [.token .null]
  | .bool b => [.token (.bool b)]
  | .number n => [.token (.numeral n)]
  | .string q => [.token (.quoted q)]
  | .array [] => [.token .openArray, .token .closeArray]
  | .array (item :: items) =>
    .token .openArray :: itemPieces (depth + 1) (item :: items)
      ++ [.line depth, .token .closeArray]
  | .object [] => [.token .openObject, .token .closeObject]
  | .object (member :: members) =>
    .token .openObject :: memberPieces (depth + 1) (member :: members)
      ++ [.line depth, .token .closeObject]

/-- The items of an array, each on a line. -/
def itemPieces (depth : Nat) : List Json → List Piece
  | [] => []
  | [item] => .line depth :: item.pieces depth
  | item :: next :: items =>
    .line depth :: item.pieces depth ++ .token .comma :: itemPieces depth (next :: items)

/-- The members of an object, each on a line. -/
def memberPieces (depth : Nat) : List (Quoted × Json) → List Piece
  | [] => []
  | [(name, value)] =>
    .line depth :: .token (.quoted name) :: .token .colon :: .space :: value.pieces depth
  | (name, value) :: next :: members =>
    .line depth :: .token (.quoted name) :: .token .colon :: .space :: value.pieces depth
      ++ .token .comma :: memberPieces depth (next :: members)

end

/-- The text of a document without gaps. -/
def compact (j : Json) : String :=
  String.ofList (j.tokens.flatMap Token.chars)

/-- The text of a document in lines. -/
def pretty (j : Json) : String :=
  String.ofList ((j.pieces 0).flatMap Piece.chars)

end TelemetryBands.Json
