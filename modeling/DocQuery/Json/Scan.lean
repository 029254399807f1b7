import DocQuery.Json.Numeral
import DocQuery.Json.Token

/-!
# From text to tokens

Blanks between tokens are passed over. The list ends at the end of the text, or with an invalid
token at the first place where no word starts.
-/

set_option autoImplicit false

namespace DocQuery.Json

/-- The blanks between tokens. -/
def isBlank (c : Char) : Bool := c == ' ' || c == '\t' || c == '\n' || c == '\r'

namespace Token

/-- Pass over the given word. -/
def readWord : List Char → List Char → Option (List Char)
  | [], cs => some cs
  | _ :: _, [] => none
  | w :: word, c :: cs => if w = c then readWord word cs else none

/-- Read the token that starts with the first character; the other characters follow it. -/
def read (c : Char) (cs : List Char) : Option (Token × List Char) :=
  match c with
  | '[' => some (.openArray, cs)
  | ']' => some (.closeArray, cs)
  | '\x7b' => some (.openObject, cs)
  | '\x7d' => some (.closeObject, cs)
  | ',' => some (.comma, cs)
  | ':' => some (.colon, cs)
  | 'n' => (readWord ['u', 'l', 'l'] cs).map (fun rest => (.null, rest))
  | 't' => (readWord ['r', 'u', 'e'] cs).map (fun rest => (.bool true, rest))
  | 'f' => (readWord ['a', 'l', 's', 'e'] cs).map (fun rest => (.bool false, rest))
  | '"' => (Quoted.read cs).map (fun r => (.string (String.ofList r.1), r.2))
  | c => do
      let (numeral, rest) ← Numeral.read (c :: cs)
      let number ← numeral.toNumber?
      return (.number number, rest)

theorem readWord_length {word cs rest : List Char} (h : readWord word cs = some rest) :
    rest.length ≤ cs.length := by
  induction word generalizing cs with
  | nil =>
      simp only [readWord, Option.some.injEq] at h
      simp [h]
  | cons w word ih =>
      cases cs with
      | nil => cases h
      | cons c cs =>
          simp only [readWord] at h
          split at h
          · have := ih h
            simp only [List.length_cons]
            omega
          · cases h

/-- What follows a token is shorter than the text that starts with it. -/
theorem read_length {c : Char} {cs rest : List Char} {token : Token}
    (h : read c cs = some (token, rest)) : rest.length ≤ cs.length := by
  unfold read at h
  split at h
  iterate 6
    · simp only [Option.some.injEq, Prod.mk.injEq] at h
      simp [h.2]
  iterate 3
    · simp only [Option.map_eq_some_iff, Prod.mk.injEq] at h
      obtain ⟨rest', hword, -, rfl⟩ := h
      exact readWord_length hword
  · simp only [Option.map_eq_some_iff, Prod.exists, Prod.mk.injEq] at h
    obtain ⟨chars, rest', hstring, -, rfl⟩ := h
    exact Nat.le_of_lt (Quoted.read_length hstring)
  · simp only [bind, Option.bind_eq_some_iff, Prod.exists, pure, Option.some.injEq,
      Prod.mk.injEq] at h
    obtain ⟨numeral, rest', hnumeral, number, -, -, rfl⟩ := h
    have := Numeral.read_length hnumeral
    simp only [List.length_cons] at this
    omega

/-- The tokens of a text. -/
def scan : List Char → List Token
  | [] => []
  | c :: cs =>
      if isBlank c then scan cs
      else
        match _h : read c cs with
        | none => [.invalid]
        | some (token, rest) => token :: scan rest
termination_by cs => cs.length
decreasing_by
  · simp
  · have := read_length _h
    simp only [List.length_cons]
    omega

end Token

end DocQuery.Json
