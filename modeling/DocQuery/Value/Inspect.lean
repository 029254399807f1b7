import DocQuery.Binary64.Layout
import DocQuery.Calendar.TimestampText
import DocQuery.Text.Inspected
import DocQuery.Value.Basic

/-!
# Inspected values

The text that shows a value with its kinds spelled out. Unlike the wire form, every value has one.
-/

set_option autoImplicit false

namespace DocQuery.Value

/-- A payload after the name of its kind. -/
def labelled (label payload : String) : String := label ++ "(" ++ payload ++ ")"

mutual

/-- The text that shows a value. -/
def inspect : Value → String
  | null => "Null"
  | boolean b => labelled "Boolean" (if b then "true" else "false")
  | long n => labelled "Long" (String.ofList (Text.integer n.toInt))
  | double d => labelled "Double" (d.text .inspect)
  | string s => labelled "String" (Text.inspect s)
  | array items => labelled "Array" ("[" ++ inspectItems items ++ "]")
  | object members => labelled "Object" ("\x7b" ++ inspectMembers members ++ "\x7d")
  | ref r => labelled "Ref" (labelled "Ref" (Text.inspect r.id))
  | timestamp t => labelled "Timestamp" (labelled "Timestamp" t.text)
  | date d => labelled "Date" (labelled "Date" d.text)
  | set query => labelled "SetRef" (inspect query)

/-- The items of an array, with commas between them. -/
def inspectItems : List Value → String
  | [] => ""
  | [item] => inspect item
  | item :: next :: items => inspect item ++ ", " ++ inspectItems (next :: items)

/-- The members of an object, with commas between them. -/
def inspectMembers : {bound : Option String} → Entries Value bound → String
  | _, .nil => ""
  | _, .cons key _ member .nil => Text.inspect key ++ ": " ++ inspect member
  | _, .cons key _ member (.cons key' above member' members) =>
      Text.inspect key ++ ": " ++ inspect member ++ ", " ++
        inspectMembers (.cons key' above member' members)

end

end DocQuery.Value
