import DocQuery.Binary64.Arithmetic
import DocQuery.Json.Number

/-!
# Numerals

A numeral has a sign, a whole part without needless leading zeros, and optionally a fraction and an
exponent. A numeral without fraction and exponent whose value fits in 64 bits denotes an integer,
except that `-0` denotes the double; all others denote doubles, and a numeral too large for a finite
double denotes nothing.

The double is computed with doubles: as many digits as fit in 64 bits make an integer, which is
rounded and then multiplied with a power of ten or divided by it, and rounded again.
-/

set_option autoImplicit false

namespace DocQuery.Json

/-- The parts of a written number. -/
structure Numeral where
  /-- A minus sign stands in front. -/
  negative : Bool
  /-- The digits before the point. -/
  whole : List Char
  /-- The digits after the point, if there is one. -/
  fraction : Option (List Char)
  /-- The power of ten that scales the number, if it is written. -/
  exponent : Option Int

namespace Numeral

/-- The leading digits of a text, of which there must be one. -/
def readDigits (cs : List Char) : Option (List Char × List Char) :=
  if cs.takeWhile Char.isDigit = [] then none
  else some (cs.takeWhile Char.isDigit, cs.dropWhile Char.isDigit)

/-- Read an optional minus sign. -/
def readSign : List Char → Bool × List Char
  | '-' :: rest => (true, rest)
  | cs => (false, cs)

/-- Read the whole part: a zero alone, or digits that do not start with zero. -/
def readWhole (cs : List Char) : Option (List Char × List Char) := do
  let (ds, rest) ← readDigits cs
  match ds with
  | '0' :: _ :: _ => none
  | _ => some (ds, rest)

/-- Read an optional fraction. -/
def readFraction : List Char → Option (Option (List Char) × List Char)
  | '.' :: cs => do
      let (ds, rest) ← readDigits cs
      return (some ds, rest)
  | cs => some (none, cs)

/-- Read the exponent after its mark. -/
def readPower : List Char → Option (Int × List Char)
  | '+' :: cs => do
      let (ds, rest) ← readDigits cs
      return ((Text.value ds : Int), rest)
  | '-' :: cs => do
      let (ds, rest) ← readDigits cs
      return (-(Text.value ds : Int), rest)
  | cs => do
      let (ds, rest) ← readDigits cs
      return ((Text.value ds : Int), rest)

/-- Read an optional exponent. -/
def readExponent : List Char → Option (Option Int × List Char)
  | 'e' :: cs => do
      let (e, rest) ← readPower cs
      return (some e, rest)
  | 'E' :: cs => do
      let (e, rest) ← readPower cs
      return (some e, rest)
  | cs => some (none, cs)

/-- Read the longest numeral at the front of a text. -/
def read (cs : List Char) : Option (Numeral × List Char) := do
  let (negative, cs) := readSign cs
  let (whole, cs) ← readWhole cs
  let (fraction, cs) ← readFraction cs
  let (exponent, cs) ← readExponent cs
  return (⟨negative, whole, fraction, exponent⟩, cs)

/-! ## Reading takes something -/

theorem readDigits_length {cs ds rest : List Char} (h : readDigits cs = some (ds, rest)) :
    rest.length < cs.length := by
  unfold readDigits at h
  split at h
  · cases h
  · rename_i hne
    simp only [Option.some.injEq, Prod.mk.injEq] at h
    have happ := congrArg List.length (List.takeWhile_append_dropWhile (p := Char.isDigit) (l := cs))
    have hpos := List.length_pos_iff.2 hne
    rw [List.length_append, h.2] at happ
    omega

theorem readSign_length (cs : List Char) : (readSign cs).2.length ≤ cs.length := by
  unfold readSign
  split <;> simp

theorem readWhole_length {cs ds rest : List Char} (h : readWhole cs = some (ds, rest)) :
    rest.length < cs.length := by
  simp only [readWhole, bind, Option.bind_eq_some_iff, Prod.exists] at h
  obtain ⟨ds', rest', hds, h⟩ := h
  split at h
  · cases h
  · simp only [Option.some.injEq, Prod.mk.injEq] at h
    exact h.2 ▸ readDigits_length hds

theorem readFraction_length {cs rest : List Char} {fraction : Option (List Char)}
    (h : readFraction cs = some (fraction, rest)) : rest.length ≤ cs.length := by
  unfold readFraction at h
  split at h
  · simp only [bind, Option.bind_eq_some_iff, Prod.exists, pure, Option.some.injEq,
      Prod.mk.injEq] at h
    obtain ⟨ds, rest', hds, -, rfl⟩ := h
    have := readDigits_length hds
    simp only [List.length_cons]
    omega
  · simp only [Option.some.injEq, Prod.mk.injEq] at h
    simp [h.2]

theorem readPower_length {cs rest : List Char} {e : Int} (h : readPower cs = some (e, rest)) :
    rest.length ≤ cs.length := by
  unfold readPower at h
  split at h <;>
    · simp only [bind, Option.bind_eq_some_iff, Prod.exists, pure, Option.some.injEq,
        Prod.mk.injEq] at h
      obtain ⟨ds, rest', hds, -, rfl⟩ := h
      have := readDigits_length hds
      try simp only [List.length_cons]
      omega

theorem readExponent_length {cs rest : List Char} {exponent : Option Int}
    (h : readExponent cs = some (exponent, rest)) : rest.length ≤ cs.length := by
  unfold readExponent at h
  split at h
  · simp only [bind, Option.bind_eq_some_iff, Prod.exists, pure, Option.some.injEq,
      Prod.mk.injEq] at h
    obtain ⟨e, rest', he, -, rfl⟩ := h
    have := readPower_length he
    simp only [List.length_cons]
    omega
  · simp only [bind, Option.bind_eq_some_iff, Prod.exists, pure, Option.some.injEq,
      Prod.mk.injEq] at h
    obtain ⟨e, rest', he, -, rfl⟩ := h
    have := readPower_length he
    simp only [List.length_cons]
    omega
  · simp only [Option.some.injEq, Prod.mk.injEq] at h
    simp [h.2]

theorem read_length {cs rest : List Char} {n : Numeral} (h : read cs = some (n, rest)) :
    rest.length < cs.length := by
  simp only [read, bind, Option.bind_eq_some_iff, Prod.exists, pure, Option.some.injEq,
    Prod.mk.injEq] at h
  obtain ⟨whole, cs₁, hwhole, fraction, cs₂, hfraction, exponent, cs₃, hexponent, -, rfl⟩ := h
  have h₀ := readSign_length cs
  have h₁ := readWhole_length hwhole
  have h₂ := readFraction_length hfraction
  have h₃ := readExponent_length hexponent
  omega

/-! ## The value of a numeral -/

/-- Take digits into a number as long as it fits in 64 bits. The digits from the first one on that
would make it too large are left over. -/
def takeDigits : Nat → List Char → Nat × List Char
  | n, [] => (n, [])
  | n, c :: cs =>
      if 10 * n + Text.digitValue c < UInt64.size then takeDigits (10 * n + Text.digitValue c) cs
      else (n, c :: cs)

/-- The number that the digits of the whole part make, with the digits of it that are left over. -/
def takenWhole (n : Numeral) : Nat × List Char := takeDigits 0 n.whole

/-- The number that the digits make, those of the fraction after those of the whole part, with the
digits of the fraction that are left over. -/
def taken (n : Numeral) : Nat × List Char := takeDigits n.takenWhole.1 (n.fraction.getD [])

/-- The digits of a numeral as a number, as far as they fit in 64 bits. -/
def significand (n : Numeral) : Nat := n.taken.1

/-- The power of ten that scales the digits that were taken. A digit of the whole part that is left
over makes the number ten times as large, and a digit of the fraction that was taken ten times as
small. -/
def power (n : Numeral) : Int :=
  n.exponent.getD 0 + (n.takenWhole.2.length : Int) -
    (((n.fraction.getD []).length : Int) - (n.taken.2.length : Int))

/-- The double that a numeral denotes, unless it is too large. The digits are rounded to a double
first and scaled as a double after that, so the result need not be the double nearest to the
numeral. -/
def toDouble? (n : Numeral) : Option Binary64 :=
  ((Binary64.ofRatio n.significand 1).scale10? n.power).map (Binary64.withSign n.negative)

/-- The value of a numeral without fraction and exponent. -/
def toInt (n : Numeral) : Int :=
  if n.negative then -(Text.value n.whole : Int) else (Text.value n.whole : Int)

/-- The numeral denotes an integer: neither a fraction nor an exponent is written, the value fits,
and it is not a zero with a minus sign. -/
def IsInteger (n : Numeral) : Prop :=
  (n.fraction = none ∧ n.exponent = none) ∧ FitsWord n.toInt ∧ ¬ (n.negative = true ∧ n.toInt = 0)

instance (n : Numeral) : Decidable n.IsInteger := by
  unfold IsInteger
  infer_instance

/-- The number that a numeral denotes, if any. Every double that a numeral denotes is finite. -/
def toNumber? (n : Numeral) : Option Number :=
  if h : n.IsInteger then some (.integer n.toInt h.2.1)
  else match n.toDouble? with
    | some d => if h : d.isFinite = true then some (.double d h) else none
    | none => none

end Numeral

end DocQuery.Json
