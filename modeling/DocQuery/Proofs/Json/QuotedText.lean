import DocQuery.Json.Quoted

/-!
# Quoted strings read back

What is written between quotation marks is read as the string that was written, whatever follows the
closing mark (`Quoted.read_write`). The three steps of reading invert the writing of one character
at a time.
-/

set_option autoImplicit false

namespace DocQuery.Json.Quoted

theorem hexValue?_hexDigit {d : Nat} (h : d < 16) : hexValue? (hexDigit d) = some d := by
  have hall : ∀ d : Fin 16, hexValue? (hexDigit d.val) = some d.val := by decide
  exact hall ⟨d, h⟩

theorem hexDigit_ne {d : Nat} (h : d < 16) : hexDigit d ≠ '"' ∧ hexDigit d ≠ '\\' := by
  have hall : ∀ d : Fin 16, hexDigit d.val ≠ '"' ∧ hexDigit d.val ≠ '\\' := by decide
  exact hall ⟨d, h⟩

/-- The ways to write a character: behind a backslash, as it is, or by its code. -/
theorem escapeChar_cases (c : Char) :
    (∃ e, e ≠ 'u' ∧ shortEscape? e = some c.toNat ∧ escapeChar c = ['\\', e]) ∨
      (c ≠ '"' ∧ c ≠ '\\' ∧ 32 ≤ c.toNat ∧ escapeChar c = [c]) ∨
      (c.toNat < 32 ∧ escapeChar c =
        ['\\', 'u', '0', '0', hexDigit (c.toNat / 16), hexDigit (c.toNat % 16)]) := by
  unfold escapeChar
  split
  · subst c
    exact Or.inl ⟨'"', by decide, rfl, rfl⟩
  split
  · subst c
    exact Or.inl ⟨'\\', by decide, rfl, rfl⟩
  split
  · exact Or.inr (Or.inl ⟨‹_›, ‹_›, ‹_›, rfl⟩)
  split
  · subst c
    exact Or.inl ⟨'n', by decide, rfl, rfl⟩
  split
  · subst c
    exact Or.inl ⟨'t', by decide, rfl, rfl⟩
  split
  · subst c
    exact Or.inl ⟨'r', by decide, rfl, rfl⟩
  split
  · rename_i hcode
    exact Or.inl ⟨'b', by decide, by rw [hcode]; rfl, rfl⟩
  split
  · rename_i hcode
    exact Or.inl ⟨'f', by decide, by rw [hcode]; rfl, rfl⟩
  · exact Or.inr (Or.inr ⟨Nat.lt_of_not_le ‹_›, rfl⟩)

/-! ## The body -/

theorem splitBody_plain {c : Char} (hquote : c ≠ '"') (hbackslash : c ≠ '\\') (cs : List Char) :
    splitBody (c :: cs) = (splitBody cs).map fun r => (c :: r.1, r.2) :=
  splitBody.eq_5 c cs (fun h _ => hbackslash h) hquote fun _ _ h _ => hbackslash h

theorem splitBody_escapeChar (c : Char) (cs : List Char) :
    splitBody (escapeChar c ++ cs) = (splitBody cs).map fun r => (escapeChar c ++ r.1, r.2) := by
  rcases escapeChar_cases c with ⟨e, -, -, h⟩ | ⟨hquote, hbackslash, -, h⟩ | ⟨hlt, h⟩
  · -- what stands behind a backslash is taken with it
    rw [h]
    rfl
  · rw [h]
    exact splitBody_plain hquote hbackslash cs
  · -- the backslash takes the `u`, and the four digits are plain
    obtain ⟨hquote, hbackslash⟩ := hexDigit_ne (d := c.toNat / 16) (by omega)
    obtain ⟨hquote', hbackslash'⟩ := hexDigit_ne (d := c.toNat % 16) (by omega)
    rw [h]
    show (splitBody ('0' :: '0' :: hexDigit (c.toNat / 16) :: hexDigit (c.toNat % 16) :: cs)).map
      (fun r => ('\\' :: 'u' :: r.1, r.2)) = _
    rw [splitBody_plain (by decide) (by decide), splitBody_plain (by decide) (by decide),
      splitBody_plain hquote hbackslash, splitBody_plain hquote' hbackslash']
    simp only [Option.map_map]
    rfl

theorem splitBody_write (s rest : List Char) :
    splitBody (s.flatMap escapeChar ++ '"' :: rest) = some (s.flatMap escapeChar, rest) := by
  induction s with
  | nil => rfl
  | cons c s ih =>
      rw [List.flatMap_cons, List.append_assoc, splitBody_escapeChar, ih]
      rfl

/-! ## Code units -/

theorem codeUnits_escapeChar (c : Char) (cs : List Char) :
    codeUnits (escapeChar c ++ cs) = (codeUnits cs).map (c.toNat :: ·) := by
  rcases escapeChar_cases c with ⟨e, hne, hshort, h⟩ | ⟨-, hbackslash, hle, h⟩ | ⟨hlt, h⟩
  · have hunits : codeUnits ('\\' :: e :: cs) = (do
        let unit ← shortEscape? e
        let units ← codeUnits cs
        return unit :: units) :=
      codeUnits.eq_3 e cs fun _ _ _ _ _ he _ => hne he
    rw [h]
    show codeUnits ('\\' :: e :: cs) = _
    rw [hunits, hshort]
    cases codeUnits cs <;> rfl
  · have hunits : codeUnits (c :: cs) =
        if c.toNat < 32 then none else (codeUnits cs).map (c.toNat :: ·) :=
      codeUnits.eq_4 c cs (fun _ _ _ _ _ he _ => hbackslash he) fun _ _ he _ => hbackslash he
    rw [h]
    show codeUnits (c :: cs) = _
    rw [hunits, if_neg (Nat.not_lt.2 hle)]
  · -- the code has two hexadecimal digits that are not zero
    have hunit : codeUnit? '0' '0' (hexDigit (c.toNat / 16)) (hexDigit (c.toNat % 16)) =
        some c.toNat := by
      have hzero : hexValue? '0' = some 0 := by decide
      rw [codeUnit?, hzero, hexValue?_hexDigit (by omega), hexValue?_hexDigit (by omega)]
      show some (4096 * 0 + 256 * 0 + 16 * (c.toNat / 16) + c.toNat % 16) = some c.toNat
      congr 1
      omega
    rw [h]
    show codeUnits ('\\' :: 'u' :: '0' :: '0' :: hexDigit (c.toNat / 16) ::
      hexDigit (c.toNat % 16) :: cs) = _
    rw [codeUnits, hunit]
    cases codeUnits cs <;> rfl

theorem codeUnits_write (s : List Char) :
    codeUnits (s.flatMap escapeChar) = some (s.map Char.toNat) := by
  induction s with
  | nil => rfl
  | cons c s ih =>
      rw [List.flatMap_cons, codeUnits_escapeChar, ih]
      rfl

/-! ## Characters -/

/-- A character is no half of a surrogate pair. -/
theorem isSurrogate_toNat (c : Char) :
    isHighSurrogate c.toNat = false ∧ isLowSurrogate c.toNat = false := by
  have hvalid : c.toNat < 0xD800 ∨ 0xDFFF < c.toNat ∧ c.toNat < 0x110000 := c.valid
  simp only [isHighSurrogate, isLowSurrogate, decide_eq_false_iff_not]
  omega

theorem joinUnits_toNat (s : List Char) : joinUnits (s.map Char.toNat) = some s := by
  induction s with
  | nil => rfl
  | cons c s ih =>
      -- no unit of a character joins the next one
      obtain ⟨hhigh, hlow⟩ := isSurrogate_toNat c
      cases s with
      | nil =>
          rw [List.map_singleton, joinUnits, hhigh, hlow, Char.ofNat_toNat]
          rfl
      | cons c' s =>
          rw [List.map_cons] at ih
          rw [List.map_cons, List.map_cons, joinUnits, hhigh, hlow, ih, Char.ofNat_toNat]
          rfl

/-- **A written string is read back.** -/
theorem read_write (s rest : List Char) :
    read (s.flatMap escapeChar ++ '"' :: rest) = some (s, rest) := by
  rw [read, splitBody_write]
  show (do
    let units ← codeUnits (s.flatMap escapeChar)
    let chars ← joinUnits units
    return (chars, rest)) = some (s, rest)
  rw [codeUnits_write]
  show (do
    let chars ← joinUnits (s.map Char.toNat)
    return (chars, rest)) = some (s, rest)
  rw [joinUnits_toNat]
  rfl

end DocQuery.Json.Quoted
