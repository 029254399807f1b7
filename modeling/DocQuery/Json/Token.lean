import DocQuery.Json.Basic
import DocQuery.Json.Quoted

/-!
# JSON tokens

The words of a JSON text: punctuation and scalars. A document is written as its tokens, with nothing
between them.
-/

set_option autoImplicit false

namespace DocQuery.Json

/-- A word of a JSON text. -/
inductive Token where
  | openArray
  | closeArray
  | openObject
  | closeObject
  | comma
  | colon
  | null
  | bool (b : Bool)
  | number (n : Number)
  | string (s : String)
  /-- A place in the text where no word starts. -/
  | invalid
  deriving DecidableEq

/-- The text of a token. -/
def Token.write : Token → List Char
  | .openArray => ['[']
  | .closeArray => [']']
  | .openObject => ['\x7b']
  | .closeObject => ['\x7d']
  | .comma => [',']
  | .colon => [':']
  | .null => ['n', 'u', 'l', 'l']
  | .bool true => ['t', 'r', 'u', 'e']
  | .bool false => ['f', 'a', 'l', 's', 'e']
  | .number n => n.write
  | .string s => Quoted.write s.toList
  | .invalid => []

/-! ## Writing documents -/

mutual

/-- The tokens of a document. -/
def tokens : Json → List Token
  | .null => [.null]
  | .bool b => [.bool b]
  | .number n => [.number n]
  | .string s => [.string s]
  | .array [] => [.openArray, .closeArray]
  | .array (item :: items) => .openArray :: tokens item ++ itemTokens items
  | .object .nil => [.openObject, .closeObject]
  | .object (.cons key _ member members) =>
      .openObject :: .string key :: .colon :: tokens member ++ memberTokens members

/-- The tokens of the further items of an array, with its closing bracket. -/
def itemTokens : List Json → List Token
  | [] => [.closeArray]
  | item :: items => .comma :: tokens item ++ itemTokens items

/-- The tokens of the further members of an object, with its closing brace. -/
def memberTokens : {bound : Option String} → Entries Json bound → List Token
  | _, .nil => [.closeObject]
  | _, .cons key _ member members =>
      .comma :: .string key :: .colon :: tokens member ++ memberTokens members

end

/-- The text of a document. -/
def write (json : Json) : List Char := json.tokens.flatMap Token.write

/-- The text of a document, as a string. -/
def text (json : Json) : String := String.ofList json.write

end DocQuery.Json
