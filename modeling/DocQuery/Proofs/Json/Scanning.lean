import DocQuery.Json.Scan
import DocQuery.Proofs.Json.NumberText
import DocQuery.Proofs.Json.QuotedText

/-!
# Written documents are scanned back

A written token is scanned as itself, whatever follows it; only a number must not be followed by
something that a numeral goes on with, and has to be one that is read back. In a document a bracket
or a comma follows, so the text of a document is scanned as its tokens (`scan_document`).
-/

set_option autoImplicit false

namespace DocQuery.Json

namespace Token

theorem scan_cons {c : Char} {cs rest : List Char} {token : Token} (hblank : isBlank c = false)
    (hread : read c cs = some (token, rest)) : scan (c :: cs) = token :: scan rest := by
  rw [scan, if_neg (by rw [hblank]; exact Bool.false_ne_true)]
  split
  · rename_i hnone
    rw [hread] at hnone
    cases hnone
  · rename_i token' rest' hsome
    rw [hread] at hsome
    cases hsome
    rfl

/-- The first character of a numeral is a minus sign or a digit. -/
theorem head_numeral {n : Numeral} (h : n.IsSpelled) :
    ∃ c cs, n.write = c :: cs ∧ (c = '-' ∨ c.isDigit = true) := by
  rw [Numeral.write]
  cases n.negative with
  | true => exact ⟨'-', _, rfl, .inl rfl⟩
  | false =>
      cases hwhole : n.whole with
      | nil => exact absurd hwhole h.whole_ne_nil
      | cons c cs =>
          refine ⟨c, _, rfl, .inr (h.whole_digits c ?_)⟩
          rw [hwhole]
          exact List.mem_cons_self

/-- What starts with a minus sign or a digit is read as a numeral. -/
theorem read_numeral {c : Char} {cs rest : List Char} {numeral : Numeral} {number : Number}
    (hc : c = '-' ∨ c.isDigit = true) (hread : Numeral.read (c :: cs) = some (numeral, rest))
    (hnumber : numeral.toNumber? = some number) : read c cs = some (.number number, rest) := by
  -- no other token starts with such a character
  have hne : ∀ x : Char, x ≠ '-' → x.isDigit = false → c ≠ x := by
    rintro x hminus hdigit rfl
    rcases hc with hc | hc
    · exact hminus hc
    · rw [hdigit] at hc
      cases hc
  rw [read.eq_11 c cs (hne _ (by decide) rfl) (hne _ (by decide) rfl) (hne _ (by decide) rfl)
    (hne _ (by decide) rfl) (hne _ (by decide) rfl) (hne _ (by decide) rfl)
    (hne _ (by decide) rfl) (hne _ (by decide) rfl) (hne _ (by decide) rfl)
    (hne _ (by decide) rfl)]
  simp only [hread, hnumber, Option.bind_eq_bind, Option.bind_some]
  rfl

theorem isBlank_numeral {c : Char} (hc : c = '-' ∨ c.isDigit = true) : isBlank c = false := by
  rw [Bool.eq_false_iff]
  intro hblank
  simp only [isBlank, Bool.or_eq_true, beq_iff_eq] at hblank
  rcases hblank with ((rfl | rfl) | rfl) | rfl <;> exact absurd hc (by decide)

/-- A numeral is scanned as the number that it denotes. -/
theorem scan_numeral {n : Numeral} (hspelled : n.IsSpelled) {number : Number}
    (hnumber : n.toNumber? = some number) {rest : List Char} (hrest : Numeral.Ends rest) :
    scan (n.write ++ rest) = .number number :: scan rest := by
  obtain ⟨c, cs, hhead, hc⟩ := head_numeral hspelled
  have hread := Numeral.read_write hspelled hrest
  rw [hhead, List.cons_append] at hread ⊢
  exact scan_cons (isBlank_numeral hc) (read_numeral hc hread hnumber)

/-- The text of the token is scanned as the token, so far as numbers go. -/
def ReadsBack : Token → Prop
  | .number n => n.ReadsBack
  | _ => True

instance : DecidablePred ReadsBack
  | .number n => inferInstanceAs (Decidable n.ReadsBack)
  | .openArray | .closeArray | .openObject | .closeObject | .comma | .colon | .null | .bool _
  | .string _ | .invalid => inferInstanceAs (Decidable True)

/-- **A written token is scanned back.** -/
theorem scan_write (token : Token) (hvalid : token ≠ .invalid) (hback : token.ReadsBack)
    {rest : List Char} (hrest : ∀ n, token = .number n → Numeral.Ends rest) :
    scan (token.write ++ rest) = token :: scan rest := by
  -- only numbers and strings look at what they are made of
  cases token with
  | openArray => exact scan_cons rfl rfl
  | closeArray => exact scan_cons rfl rfl
  | openObject => exact scan_cons rfl rfl
  | closeObject => exact scan_cons rfl rfl
  | comma => exact scan_cons rfl rfl
  | colon => exact scan_cons rfl rfl
  | null => exact scan_cons rfl rfl
  | bool b => cases b <;> exact scan_cons rfl rfl
  | number n =>
      obtain ⟨numeral, hspelled, hwrite, hnumber⟩ := Number.exists_numeral hback
      rw [write, ← hwrite]
      exact scan_numeral hspelled hnumber (hrest n rfl)
  | string s =>
      have hread := Quoted.read_write s.toList rest
      have htext : Token.write (.string s) ++ rest =
          '"' :: (s.toList.flatMap Quoted.escapeChar ++ '"' :: rest) := by
        rw [write, Quoted.write, List.append_assoc]
        rfl
      rw [htext]
      refine scan_cons rfl ?_
      rw [read, hread, Option.map_some, String.ofList_toList]
  | invalid => exact absurd rfl hvalid

/-- The token is scanned as itself, whatever follows it. -/
def StandsAlone : Token → Prop
  | .number _ | .invalid => False
  | _ => True

instance : DecidablePred StandsAlone
  | .number _ | .invalid => inferInstanceAs (Decidable False)
  | .openArray | .closeArray | .openObject | .closeObject | .comma | .colon | .null | .bool _
  | .string _ => inferInstanceAs (Decidable True)

theorem scan_write_of_standsAlone {token : Token} (h : token.StandsAlone) (rest : List Char) :
    scan (token.write ++ rest) = token :: scan rest := by
  cases token with
  | number n => cases h
  | invalid => cases h
  | _ =>
      apply scan_write
      · simp
      · trivial
      · rintro n ⟨⟩

end Token

/-! ## Documents -/

/-- No numeral goes on with what follows an item. -/
theorem ends_itemTokens (items : List Json) (rest : List Char) :
    Numeral.Ends ((itemTokens items).flatMap Token.write ++ rest) := by
  intro c hc
  cases items with
  | nil =>
      cases hc
      decide
  | cons item items =>
      cases hc
      decide

/-- No numeral goes on with what follows a member. -/
theorem ends_memberTokens {bound : Option String} (members : Entries Json bound)
    (rest : List Char) : Numeral.Ends ((memberTokens members).flatMap Token.write ++ rest) := by
  intro c hc
  cases members with
  | nil =>
      cases hc
      decide
  | cons key _ member members =>
      cases hc
      decide

/-- The text of a token followed by the texts of others. -/
theorem scan_flatMap_cons {token : Token} {tokens : List Token} {rest : List Char}
    (h : token.StandsAlone) :
    Token.scan ((token :: tokens).flatMap Token.write ++ rest) =
      token :: Token.scan (tokens.flatMap Token.write ++ rest) := by
  rw [List.flatMap_cons, List.append_assoc]
  exact Token.scan_write_of_standsAlone h _

/-- Tokens without numbers are scanned back. -/
theorem scan_flatMap {tokens : List Token} (h : ∀ token ∈ tokens, token.StandsAlone) :
    Token.scan (tokens.flatMap Token.write) = tokens := by
  induction tokens with
  | nil => rw [List.flatMap_nil, Token.scan]
  | cons token tokens ih =>
      rw [List.forall_mem_cons] at h
      rw [List.flatMap_cons, Token.scan_write_of_standsAlone h.1, ih h.2]

mutual

theorem scan_tokens : (json : Json) → (∀ token ∈ json.tokens, token.ReadsBack) →
    {rest : List Char} → Numeral.Ends rest →
    Token.scan (json.tokens.flatMap Token.write ++ rest) = json.tokens ++ Token.scan rest
  | .null, _, _, _ => scan_flatMap_cons (by trivial)
  | .bool _, _, _, _ => scan_flatMap_cons (by trivial)
  | .number n, hback, rest, hrest => by
      rw [tokens, List.flatMap_singleton]
      exact Token.scan_write (.number n) (by simp) (hback _ (List.mem_singleton_self _))
        fun _ _ => hrest
  | .string _, _, _, _ => scan_flatMap_cons (by trivial)
  | .array [], _, rest, _ => by
      rw [tokens, scan_flatMap_cons (by trivial), scan_flatMap_cons (by trivial)]
      rfl
  | .array (item :: items), hback, rest, _ => by
      -- what follows the first item is a comma or a bracket, so a numeral in it ends there
      rw [tokens, List.cons_append, List.forall_mem_cons, List.forall_mem_append] at hback
      rw [tokens, List.cons_append, scan_flatMap_cons (by trivial), List.flatMap_append,
        List.append_assoc, scan_tokens item hback.2.1 (ends_itemTokens items rest),
        scan_itemTokens items hback.2.2, List.cons_append, List.append_assoc]
  | .object .nil, _, rest, _ => by
      rw [tokens, scan_flatMap_cons (by trivial), scan_flatMap_cons (by trivial)]
      rfl
  | .object (.cons key _ member members), hback, rest, _ => by
      rw [tokens, List.forall_mem_append] at hback
      simp only [List.forall_mem_cons] at hback
      rw [tokens, List.cons_append, List.cons_append, List.cons_append,
        scan_flatMap_cons (by trivial), scan_flatMap_cons (by trivial),
        scan_flatMap_cons (by trivial), List.flatMap_append, List.append_assoc,
        scan_tokens member hback.1.2.2.2 (ends_memberTokens members rest),
        scan_memberTokens members hback.2]
      simp only [List.cons_append, List.append_assoc]

theorem scan_itemTokens : (items : List Json) → (∀ token ∈ itemTokens items, token.ReadsBack) →
    {rest : List Char} → Token.scan ((itemTokens items).flatMap Token.write ++ rest) =
      itemTokens items ++ Token.scan rest
  | [], _, _ => scan_flatMap_cons (by trivial)
  | item :: items, hback, rest => by
      rw [itemTokens, List.cons_append, List.forall_mem_cons, List.forall_mem_append] at hback
      rw [itemTokens, List.cons_append, scan_flatMap_cons (by trivial), List.flatMap_append,
        List.append_assoc, scan_tokens item hback.2.1 (ends_itemTokens items rest),
        scan_itemTokens items hback.2.2, List.cons_append, List.append_assoc]

theorem scan_memberTokens : {bound : Option String} → (members : Entries Json bound) →
    (∀ token ∈ memberTokens members, token.ReadsBack) →
    {rest : List Char} → Token.scan ((memberTokens members).flatMap Token.write ++ rest) =
      memberTokens members ++ Token.scan rest
  | _, .nil, _, _ => scan_flatMap_cons (by trivial)
  | _, .cons key _ member members, hback, rest => by
      rw [memberTokens, List.forall_mem_append] at hback
      simp only [List.forall_mem_cons] at hback
      rw [memberTokens, List.cons_append, List.cons_append, List.cons_append,
        scan_flatMap_cons (by trivial), scan_flatMap_cons (by trivial),
        scan_flatMap_cons (by trivial), List.flatMap_append, List.append_assoc,
        scan_tokens member hback.1.2.2.2 (ends_memberTokens members rest),
        scan_memberTokens members hback.2]
      simp only [List.cons_append, List.append_assoc]

end

/-- The numbers of the document are all read back. -/
def ReadsBack (json : Json) : Prop := ∀ token ∈ json.tokens, token.ReadsBack

instance (json : Json) : Decidable json.ReadsBack := inferInstanceAs (Decidable (∀ _ ∈ _, _))

/-- The numbers of a document of one token are read back when the token is. -/
theorem readsBack_of_tokens {json : Json} {token : Token} (h : json.tokens = [token])
    (hback : token.ReadsBack) : json.ReadsBack := by
  rw [ReadsBack, h, List.forall_mem_singleton]
  exact hback

theorem readsBack_itemTokens {items : List Json} (h : ∀ item ∈ items, item.ReadsBack) :
    ∀ token ∈ itemTokens items, token.ReadsBack := by
  induction items with
  | nil =>
      rw [itemTokens, List.forall_mem_singleton]
      trivial
  | cons item items ih =>
      rw [List.forall_mem_cons] at h
      rw [itemTokens, List.cons_append, List.forall_mem_cons, List.forall_mem_append]
      exact ⟨trivial, h.1, ih h.2⟩

theorem readsBack_array {items : List Json} (h : ∀ item ∈ items, item.ReadsBack) :
    (Json.array items).ReadsBack := by
  rw [ReadsBack]
  cases items with
  | nil =>
      rw [tokens, List.forall_mem_cons, List.forall_mem_singleton]
      exact ⟨trivial, trivial⟩
  | cons item items =>
      rw [List.forall_mem_cons] at h
      rw [tokens, List.cons_append, List.forall_mem_cons, List.forall_mem_append]
      exact ⟨trivial, h.1, readsBack_itemTokens h.2⟩

theorem readsBack_memberTokens : {bound : Option String} → {members : Entries Json bound} →
    (∀ entry ∈ members.toList, entry.2.ReadsBack) →
    ∀ token ∈ memberTokens members, token.ReadsBack
  | _, .nil, _ => by
      rw [memberTokens, List.forall_mem_singleton]
      trivial
  | _, .cons key _ member members, h => by
      rw [Entries.toList, List.forall_mem_cons] at h
      rw [memberTokens, List.forall_mem_append]
      simp only [List.forall_mem_cons]
      exact ⟨⟨trivial, trivial, trivial, h.1⟩, readsBack_memberTokens h.2⟩

theorem readsBack_object {members : Dict Json}
    (h : ∀ entry ∈ Entries.toList members, entry.2.ReadsBack) : (Json.object members).ReadsBack := by
  rw [ReadsBack]
  cases members with
  | nil =>
      rw [tokens, List.forall_mem_cons, List.forall_mem_singleton]
      exact ⟨trivial, trivial⟩
  | cons key above member members =>
      rw [Entries.toList, List.forall_mem_cons] at h
      rw [tokens, List.forall_mem_append]
      simp only [List.forall_mem_cons]
      exact ⟨⟨trivial, trivial, trivial, h.1⟩, readsBack_memberTokens h.2⟩

/-- **The text of a document is scanned as its tokens,** if its numbers are read back. -/
theorem scan_document {json : Json} (hback : json.ReadsBack) :
    Token.scan json.text.toList = json.tokens := by
  have hscan := scan_tokens json hback Numeral.ends_nil
  rw [List.append_nil] at hscan
  rw [text, String.toList_ofList, write, hscan, Token.scan, List.append_nil]

end DocQuery.Json
