import DocQuery.Json.Scan

/-!
# Reading documents

A document is read from its tokens, left to right, with a stack of the arrays and objects that are
still open. The number of open ones is the depth of the value that comes next, and a value that
starts below the depth limit stops the reading at once, whatever it is. So the first fault of a text
decides what is reported, with the place where the reader stopped.

An object of repeated keys keeps the last member of each; the members that are replaced count for
the depth all the same.
-/

set_option autoImplicit false

namespace DocQuery.Json

/-- Why a token is not taken. -/
inductive Fault where
  /-- No document goes on with the token. -/
  | unexpected
  /-- A value starts below the depth limit. -/
  | tooDeep
  deriving DecidableEq

/-- Why a text was not read. -/
inductive ReadError where
  /-- The text is not exactly one document. The reader stopped at a token, or at the end of the text,
  and so many tokens are unread, that one included. -/
  | malformed (unread : Nat)
  /-- A value starts below the depth limit. -/
  | tooDeep
  deriving DecidableEq

/-- What is reported when a token is not taken and so many tokens are unread. -/
def Fault.report (unread : Nat) : Fault → ReadError
  | unexpected => .malformed unread
  | tooDeep => .tooDeep

/-- An open array or object whose next item or member is being read. -/
inductive Frame where
  /-- The items so far, the last one first. -/
  | array (items : List Json)
  /-- The members so far and the key of the one being read. -/
  | object (members : Dict Json) (key : String)

/-- What may come next. Each state holds the open arrays and objects around it. -/
inductive ReaderState where
  /-- A value. -/
  | value (stack : List Frame)
  /-- The first item of an array, or its end. -/
  | firstItem (stack : List Frame)
  /-- A comma or the end of an array. -/
  | afterItem (items : List Json) (stack : List Frame)
  /-- The first key of an object, or its end. -/
  | firstKey (stack : List Frame)
  /-- A key. -/
  | laterKey (members : Dict Json) (stack : List Frame)
  /-- The colon after a key. -/
  | colon (members : Dict Json) (key : String) (stack : List Frame)
  /-- A comma or the end of an object. -/
  | afterMember (members : Dict Json) (stack : List Frame)
  /-- Nothing: the document is complete. -/
  | done (json : Json)

namespace ReaderState

/-- A value is complete: it joins the innermost open array or object. -/
def complete (json : Json) : List Frame → ReaderState
  | [] => .done json
  | .array items :: stack => .afterItem (json :: items) stack
  | .object members key :: stack => .afterMember (members.insert key json) stack

/-- A value is about to start, as deep as there are open arrays and objects. -/
def enter (limit : Option Nat) (stack : List Frame) : Except Fault ReaderState :=
  if limit.any (· < stack.length) then .error .tooDeep else .ok (.value stack)

/-- Start a value with its first token. -/
def start (stack : List Frame) : Token → Except Fault ReaderState
  | .null => .ok (complete .null stack)
  | .bool b => .ok (complete (.bool b) stack)
  | .number n => .ok (complete (.number n) stack)
  | .string s => .ok (complete (.string s) stack)
  | .openArray => .ok (.firstItem stack)
  | .openObject => .ok (.firstKey stack)
  | _ => .error .unexpected

/-- Take the next token. -/
def step (limit : Option Nat) : ReaderState → Token → Except Fault ReaderState
  | .value stack, token => start stack token
  | .firstItem stack, .closeArray => .ok (complete (.array []) stack)
  | .firstItem stack, token => do
      let _ ← enter limit (.array [] :: stack)
      start (.array [] :: stack) token
  | .afterItem items stack, .comma => enter limit (.array items :: stack)
  | .afterItem items stack, .closeArray => .ok (complete (.array items.reverse) stack)
  | .firstKey stack, .closeObject => .ok (complete (.object .nil) stack)
  | .firstKey stack, .string key => .ok (.colon .empty key stack)
  | .laterKey members stack, .string key => .ok (.colon members key stack)
  | .colon members key stack, .colon => enter limit (.object members key :: stack)
  | .afterMember members stack, .comma => .ok (.laterKey members stack)
  | .afterMember members stack, .closeObject => .ok (complete (.object members) stack)
  | _, _ => .error .unexpected

/-- Take tokens in order, up to the first fault or the end of the document. The tokens that follow
the document are left over. -/
def run (limit : Option Nat) : ReaderState → List Token → Except ReadError (Json × List Token)
  | .done json, tokens => .ok (json, tokens)
  | _, [] => .error (.malformed 0)
  | state, token :: tokens => do
      let next ← (step limit state token).mapError (Fault.report (tokens.length + 1))
      run limit next tokens

end ReaderState

/-- Read the document at the front of tokens, whose values lie no deeper than the limit; the tokens
that follow it are left over. -/
def firstOfTokens (limit : Option Nat) (tokens : List Token) :
    Except ReadError (Json × List Token) :=
  ReaderState.run limit (.value []) tokens

/-- Read a document whose values lie no deeper than the limit, with nothing after it. -/
def ofTokens (limit : Option Nat) (tokens : List Token) : Except ReadError Json := do
  let (json, rest) ← firstOfTokens limit tokens
  if rest = [] then return json else throw (.malformed rest.length)

/-- Read a document from its text. -/
def read (limit : Option Nat) (text : String) : Except ReadError Json :=
  ofTokens limit (Token.scan text.toList)

/-! ## Nesting -/

/-- How many arrays and objects are open at most, when some are open already. -/
def nestingFrom : Nat → List Token → Nat
  | current, [] => current
  | current, .openArray :: tokens => max current (nestingFrom (current + 1) tokens)
  | current, .openObject :: tokens => max current (nestingFrom (current + 1) tokens)
  | current, .closeArray :: tokens => max current (nestingFrom (current - 1) tokens)
  | current, .closeObject :: tokens => max current (nestingFrom (current - 1) tokens)
  | current, _ :: tokens => nestingFrom current tokens

/-- How deep arrays and objects nest. -/
def nesting (tokens : List Token) : Nat := nestingFrom 0 tokens

end DocQuery.Json
