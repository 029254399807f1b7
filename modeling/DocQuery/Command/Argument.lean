/-!
# Arguments of a command line

The words of a command line are options with values and operands. An option is a word that starts
with two hyphens; its value stands behind an equal sign in the same word or is the next word. Two
hyphens alone end the options. A single hyphen is a word like any other, and no word but an option
starts with one.
-/

set_option autoImplicit false

namespace DocQuery

/-- A part of a command line. -/
inductive Argument where
  /-- An option and its value. -/
  | option (name value : String)
  /-- A word on its own. -/
  | operand (word : String)
  /-- A word after the mark that ends the options. -/
  | verbatim (word : String)
  deriving DecidableEq

namespace Argument

/-- The word starts with a hyphen and is not a single one. -/
def isHyphenated (word : String) : Bool := word.toList.head? == some '-' && word != "-"

/-- The name of an option and the value in the same word, if there is one. -/
def splitOption? (word : String) : Option (String × Option String) :=
  match word.toList with
  | '-' :: '-' :: cs =>
      let name := String.ofList (cs.takeWhile (· != '='))
      match cs.dropWhile (· != '=') with
      | [] => some (name, none)
      | _ :: value => some (name, some (String.ofList value))
  | _ => none

/-- The mark that ends the options. -/
def endOfOptions : String := "--"

/-- The arguments of a list of words, unless an option lacks its value or a word is hyphenated
without being an option. -/
def scan : List String → Option (List Argument)
  | [] => some []
  | word :: words =>
      if word = endOfOptions then some (words.map verbatim)
      else match splitOption? word with
        | some (name, some value) => (scan words).map (option name value :: ·)
        | some (name, none) =>
            match words with
            | [] => none
            | value :: words =>
                if isHyphenated value then none else (scan words).map (option name value :: ·)
        | none => if isHyphenated word then none else (scan words).map (operand word :: ·)

/-- The argument is an option. -/
def isOption : Argument → Bool
  | option _ _ => true
  | operand _ | verbatim _ => false

/-- The name and the value of an option. -/
def asOption? : Argument → Option (String × String)
  | option name value => some (name, value)
  | operand _ | verbatim _ => none

/-- The word of an argument that is no option. -/
def word? : Argument → Option String
  | option _ _ => none
  | operand word | verbatim word => some word

/-- The options among arguments, if all of them are known and none is repeated. -/
def options? (known : List String) (arguments : List Argument) : Option (List (String × String)) :=
  let given := arguments.filterMap asOption?
  if (given.map Prod.fst).Nodup ∧ (given.map Prod.fst).all known.contains then some given else none

/-- The words among arguments that are no options. -/
def words (arguments : List Argument) : List String := arguments.filterMap word?

end Argument

end DocQuery
