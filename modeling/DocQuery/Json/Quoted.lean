/-!
# Quoted strings

A string between quotation marks. Writing escapes the quotation mark, the backslash and the control
characters below the blank, and nothing else. Reading goes in three steps: split off the body up to
the closing mark, turn the body into code units, and join the code units to characters, where a
surrogate counts only as half of a pair.
-/

set_option autoImplicit false

namespace DocQuery.Json.Quoted

/-! ## Writing -/

/-- A hexadecimal digit below sixteen, in lower case. -/
def hexDigit (d : Nat) : Char := if d < 10 then Char.ofNat (48 + d) else Char.ofNat (87 + d)

/-- A character as it stands between quotation marks. -/
def escapeChar (c : Char) : List Char :=
  if c = '"' then ['\\', '"']
  else if c = '\\' then ['\\', '\\']
  else if 32 ≤ c.toNat then [c]
  else if c = '\n' then ['\\', 'n']
  else if c = '\t' then ['\\', 't']
  else if c = '\r' then ['\\', 'r']
  else if c.toNat = 8 then ['\\', 'b']
  else if c.toNat = 12 then ['\\', 'f']
  else ['\\', 'u', '0', '0', hexDigit (c.toNat / 16), hexDigit (c.toNat % 16)]

/-- A string between quotation marks. -/
def write (s : List Char) : List Char := '"' :: s.flatMap escapeChar ++ ['"']

/-! ## Reading -/

/-- Split after the opening mark: the body, and what follows the closing mark. A character after a
backslash does not close the string. -/
def splitBody : List Char → Option (List Char × List Char)
  | [] => none
  | ['\\'] => none
  | '"' :: rest => some ([], rest)
  | '\\' :: c :: rest => (splitBody rest).map (fun r => ('\\' :: c :: r.1, r.2))
  | c :: rest => (splitBody rest).map (fun r => (c :: r.1, r.2))

/-- The number that a hexadecimal digit stands for. -/
def hexValue? (c : Char) : Option Nat :=
  if '0' ≤ c ∧ c ≤ '9' then some (c.toNat - 48)
  else if 'a' ≤ c ∧ c ≤ 'f' then some (c.toNat - 87)
  else if 'A' ≤ c ∧ c ≤ 'F' then some (c.toNat - 55)
  else none

/-- The code unit of four hexadecimal digits. -/
def codeUnit? (a b c d : Char) : Option Nat := do
  let a ← hexValue? a
  let b ← hexValue? b
  let c ← hexValue? c
  let d ← hexValue? d
  return 4096 * a + 256 * b + 16 * c + d

/-- The code of an escape of one letter. -/
def shortEscape? : Char → Option Nat
  | '"' => some 34
  | '\\' => some 92
  | '/' => some 47
  | 'b' => some 8
  | 'f' => some 12
  | 'n' => some 10
  | 'r' => some 13
  | 't' => some 9
  | _ => none

/-- The code units of a body: the code of a plain character, or the unit that an escape names.
Control characters below the blank have to be escaped. -/
def codeUnits : List Char → Option (List Nat)
  | [] => some []
  | '\\' :: 'u' :: a :: b :: c :: d :: rest => do
      let unit ← codeUnit? a b c d
      let units ← codeUnits rest
      return unit :: units
  | '\\' :: c :: rest => do
      let unit ← shortEscape? c
      let units ← codeUnits rest
      return unit :: units
  | c :: rest => if c.toNat < 32 then none else (codeUnits rest).map (c.toNat :: ·)

/-- The first half of a surrogate pair. -/
def isHighSurrogate (unit : Nat) : Bool := decide (0xD800 ≤ unit ∧ unit < 0xDC00)

/-- The second half of a surrogate pair. -/
def isLowSurrogate (unit : Nat) : Bool := decide (0xDC00 ≤ unit ∧ unit < 0xE000)

/-- The characters of code units; a surrogate outside a pair has none. -/
def joinUnits : List Nat → Option (List Char)
  | [] => some []
  | [unit] =>
      if isHighSurrogate unit || isLowSurrogate unit then none else some [Char.ofNat unit]
  | unit :: next :: rest =>
      if isHighSurrogate unit then
        if isLowSurrogate next then
          (joinUnits rest).map
            (Char.ofNat (0x10000 + 1024 * (unit - 0xD800) + (next - 0xDC00)) :: ·)
        else none
      else if isLowSurrogate unit then none
      else (joinUnits (next :: rest)).map (Char.ofNat unit :: ·)

/-- Read a string whose opening mark has been passed: its characters, and what follows the closing
mark. -/
def read (cs : List Char) : Option (List Char × List Char) := do
  let (body, rest) ← splitBody cs
  let units ← codeUnits body
  let chars ← joinUnits units
  return (chars, rest)

/-- What follows a string is shorter than what follows its opening mark. -/
theorem splitBody_length {cs body rest : List Char} (h : splitBody cs = some (body, rest)) :
    rest.length < cs.length := by
  induction cs using splitBody.induct generalizing body with
  | case1 => simp [splitBody] at h
  | case2 => simp [splitBody] at h
  | case3 rest' =>
      simp only [splitBody, Option.some.injEq, Prod.mk.injEq] at h
      simp [h.2]
  | case4 c rest' ih =>
      simp only [splitBody, Option.map_eq_some_iff, Prod.mk.injEq, Prod.exists] at h
      obtain ⟨body', rest'', hsplit, -, rfl⟩ := h
      have := ih hsplit
      simp only [List.length_cons]
      omega
  | case5 c rest' h1 h2 h3 ih =>
      rw [splitBody.eq_5 _ _ h1 h2 h3] at h
      simp only [Option.map_eq_some_iff, Prod.mk.injEq, Prod.exists] at h
      obtain ⟨body', rest'', hsplit, -, rfl⟩ := h
      have := ih hsplit
      simp only [List.length_cons]
      omega

theorem read_length {cs chars rest : List Char} (h : read cs = some (chars, rest)) :
    rest.length < cs.length := by
  simp only [read, bind, Option.bind_eq_some_iff, Prod.exists, pure, Option.some.injEq,
    Prod.mk.injEq] at h
  obtain ⟨body, rest', hsplit, -, -, -, -, -, rfl⟩ := h
  exact splitBody_length hsplit

end DocQuery.Json.Quoted
