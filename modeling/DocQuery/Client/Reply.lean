import DocQuery.Dict

/-!
# Replies

What a server answers: a status, headers and a body. Headers are stored under names in lower case and
looked up in any case. A header whose value is not readable as text is passed over, and of a repeated
header the last readable value stays.
-/

set_option autoImplicit false

namespace DocQuery

/-- A reply, before its body is looked at. -/
structure Reply where
  status : Nat
  headers : Dict String
  body : String

/-- A header as it is received: a name in any case, and bytes. -/
structure Header where
  name : String
  value : List UInt8

namespace Header

/-- A name in lower case, as far as basic Latin goes. -/
def lower (name : String) : String := String.ofList (name.toList.map Char.toLower)

/-- The byte is a visible character of basic Latin, a blank or a tab. -/
def isReadable (b : UInt8) : Bool := decide (b = 9 ∨ (32 ≤ b ∧ b < 127))

/-- The value as a text, if it is readable. -/
def text? (header : Header) : Option String :=
  if header.value.all isReadable then
    some (String.ofList (header.value.map (fun b => Char.ofNat b.toNat)))
  else none

/-- The readable headers by name. -/
def collect (headers : List Header) : Dict String :=
  Dict.ofList (headers.filterMap (fun header => header.text?.map (fun t => (lower header.name, t))))

end Header

namespace Reply

/-- The value of a header. -/
def header? (reply : Reply) (name : String) : Option String :=
  reply.headers.find? (Header.lower name)

/-- The status tells success. -/
def isSuccess (reply : Reply) : Bool := decide (200 ≤ reply.status ∧ reply.status < 300)

end Reply

/-- Why there is no reply. -/
inductive TransportError where
  /-- The exchange with the server failed. -/
  | noReply
  /-- The connection was given no secret. -/
  | missingSecret
  deriving DecidableEq

/-- The wording of a fault of transport. What is wrong with an exchange is left open. -/
def TransportError.message : TransportError → String
  | .noReply => "HTTP request failed"
  | .missingSecret => "A secret is required to connect"

end DocQuery
