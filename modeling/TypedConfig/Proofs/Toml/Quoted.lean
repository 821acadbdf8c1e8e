/-
# Strings of settings files are read as they were written

A string is written in one of four forms, and the reader tells from the first quotes which one it
is. Between single double quotes every character is read as it was escaped
(`Toml.readBasic?_escaped`), between single quotes as it stands (`Toml.readLiteral?_append`). A block
ends at the first three quotes in a row, to which up to two more may belong that are part of the
text. So what has to be shown of a block is that three quotes are never met earlier: the text has no
three of them in a row, and if it ends in quotes, then in at most two (`Toml.exists_replicate`).

Key theorems: `Toml.escaped_cases`, `Toml.readBasic?_escaped`, `Toml.readLiteral?_append`,
`Toml.readBlock?_blockText`, `Toml.readLiteralBlock?_append`, `Toml.readString?_stringText`.
-/
import Mathlib
import TypedConfig.Toml.Quoted

namespace TypedConfig
namespace Toml

/-! ### Escapes -/

theorem hexValue?_upperHexDigit : ∀ n < 16, JsonToken.hexValue? (upperHexDigit n) = some n := by
  decide

theorem readUnit?_upperHex {n : ℕ} (h : n < 0x10000) (rest : List Char) :
    JsonToken.readUnit? (upperHex n ++ rest) = some (n, rest) := by
  have h3 := hexValue?_upperHexDigit (n / 4096 % 16) (Nat.mod_lt _ (by decide))
  have h2 := hexValue?_upperHexDigit (n / 256 % 16) (Nat.mod_lt _ (by decide))
  have h1 := hexValue?_upperHexDigit (n / 16 % 16) (Nat.mod_lt _ (by decide))
  have h0 := hexValue?_upperHexDigit (n % 16) (Nat.mod_lt _ (by decide))
  have hsum : ((n / 4096 % 16 * 16 + n / 256 % 16) * 16 + n / 16 % 16) * 16 + n % 16 = n := by omega
  simp [upperHex, JsonToken.readUnit?, h3, h2, h1, h0, hsum]

theorem charOf?_toNat (c : Char) : charOf? c.toNat = some c := by
  have hvalid : c.toNat.isValidChar := c.valid
  rw [charOf?, if_pos hvalid, Char.ofNat_toNat]

/-- The text after a backslash spells a character, and is no line break. -/
structure Spells (code : List Char) (c : Char) : Prop where
  readEscape? : ∀ rest, readEscape? (code ++ rest) = some (c, rest)
  skipBreak? : ∀ rest, skipBreak? (code ++ rest) = none

/-- **A character is written as itself or by an escape.** -/
theorem escaped_cases (c : Char) :
    (escaped c = [c] ∧ isPlain c = true ∧ c ≠ '"' ∧ c ≠ '\\') ∨
      ∃ code, escaped c = '\\' :: code ∧ Spells code c := by
  unfold escaped
  split_ifs with hb ht hn hf hr hquote hback hplain
  · subst hb
    exact .inr ⟨_, rfl, fun _ => rfl, fun _ => rfl⟩
  · subst ht
    exact .inr ⟨_, rfl, fun _ => rfl, fun _ => rfl⟩
  · subst hn
    exact .inr ⟨_, rfl, fun _ => rfl, fun _ => rfl⟩
  · subst hf
    exact .inr ⟨_, rfl, fun _ => rfl, fun _ => rfl⟩
  · subst hr
    exact .inr ⟨_, rfl, fun _ => rfl, fun _ => rfl⟩
  · subst hquote
    exact .inr ⟨_, rfl, fun _ => rfl, fun _ => rfl⟩
  · subst hback
    exact .inr ⟨_, rfl, fun _ => rfl, fun _ => rfl⟩
  · exact .inl ⟨rfl, hplain, hquote, hback⟩
  · -- what is left are the control characters, and four digits do for their codes
    have hcode : c.toNat < 0x10000 := by
      simp only [isPlain, ht, decide_false, Bool.false_or, Bool.and_eq_true, decide_eq_true_eq,
        not_and, not_not] at hplain
      omega
    refine .inr ⟨_, rfl, fun rest => ?_, fun _ => rfl⟩
    simp only [List.cons_append, readEscape?, readUnit?_upperHex hcode, Option.bind_eq_bind,
      Option.bind_some, charOf?_toNat]
    rfl

theorem head?_escaped_append (c : Char) (rest : List Char) :
    (escaped c ++ rest).head? ≠ some '"' ∧ (c ≠ '\n' → (escaped c ++ rest).head? ≠ some '\n') := by
  rcases escaped_cases c with ⟨h, -, hquote, -⟩ | ⟨code, h, -⟩
  · rw [h]
    exact ⟨fun heq => hquote (Option.some.inj heq), fun hn heq => hn (Option.some.inj heq)⟩
  · rw [h]
    exact ⟨by simp, by simp⟩

/-! ### In one line -/

/-- One character between double quotes is read. -/
theorem readBasic?_escaped_append (c : Char) (fuel : ℕ) (rest : List Char) :
    readBasic? (fuel + 1) (escaped c ++ rest) =
      (readBasic? fuel rest).map fun p => (c :: p.1, p.2) := by
  rcases escaped_cases c with ⟨h, hplain, hquote, hback⟩ | ⟨code, h, spells⟩
  · rw [h]
    cases hread : readBasic? fuel rest <;> simp [readBasic?, hquote, hback, hplain, hread]
  · rw [h]
    cases hread : readBasic? fuel rest <;>
      simp [readBasic?, spells.readEscape?, hread]

/-- **What is written between double quotes is read as the text.** -/
theorem readBasic?_escaped : ∀ (cs : List Char) (fuel : ℕ) (rest : List Char), cs.length < fuel →
    readBasic? fuel (cs.flatMap escaped ++ '"' :: rest) = some (cs, rest)
  | [], fuel, rest, h => by
    obtain ⟨fuel, rfl⟩ : ∃ n, fuel = n + 1 := ⟨fuel - 1, by simp at h; omega⟩
    simp [readBasic?]
  | c :: cs, fuel, rest, h => by
    simp only [List.length_cons] at h
    obtain ⟨fuel, rfl⟩ : ∃ n, fuel = n + 1 := ⟨fuel - 1, by omega⟩
    have ih := readBasic?_escaped cs fuel rest (by omega)
    rw [List.flatMap_cons, List.append_assoc, readBasic?_escaped_append, ih]
    rfl

/-- **What is written between single quotes is read as the text.** -/
theorem readLiteral?_append : ∀ (cs rest : List Char), (∀ c ∈ cs, isPlain c = true ∧ c ≠ '\'') →
    readLiteral? (cs ++ '\'' :: rest) = some (cs, rest)
  | [], rest, _ => by simp [readLiteral?]
  | c :: cs, rest, h => by
    obtain ⟨hplain, hquote⟩ := h c List.mem_cons_self
    have ih := readLiteral?_append cs rest fun d hd => h d (List.mem_cons_of_mem c hd)
    simp [readLiteral?, hplain, hquote, ih]

/-! ### Quotes in a row -/

/-- Three quotes in a row. -/
def triple (quote : Char) : List Char := [quote, quote, quote]

theorem hasTriple_cons_iff {quote c : Char} {cs : List Char} :
    StringForm.hasTriple quote (c :: cs) = true ↔
      (c :: cs).take 3 = triple quote ∨ StringForm.hasTriple quote cs = true := by
  simp [StringForm.hasTriple, triple]

/-- A text before three quotes that does not start with three, while with them it does, is of at
most two quotes. -/
theorem exists_replicate {quote : Char} {text rest : List Char}
    (alone : text.take 3 ≠ triple quote)
    (together : (text ++ (triple quote ++ rest)).take 3 = triple quote) :
    ∃ k ≤ 2, text = List.replicate k quote := by
  match text with
  | [] => exact ⟨0, by decide, rfl⟩
  | [a] =>
    simp [triple] at together
    exact ⟨1, by decide, by simp [together]⟩
  | [a, b] =>
    simp [triple] at together
    exact ⟨2, by decide, by simp [together]⟩
  | a :: b :: c :: text => exact absurd together alone

theorem replicate_append_triple (quote : Char) (k : ℕ) (rest : List Char) :
    List.replicate k quote ++ (triple quote ++ rest)
      = quote :: quote :: quote :: (List.replicate k quote ++ rest) := by
  have htriple : triple quote = List.replicate 3 quote := rfl
  rw [← List.append_assoc, htriple, List.replicate_append_replicate, Nat.add_comm,
    ← List.replicate_append_replicate]
  rfl

/-- At most two quotes in front of the three that end a string belong to it. -/
theorem endBlock_replicate {quote : Char} {rest : List Char} (h : rest.head? ≠ some quote) {k : ℕ}
    (hk : k ≤ 2) : endBlock quote (List.replicate k quote ++ rest) =
      (List.replicate k quote, rest) := by
  have hrest : rest.takeWhile (· = quote) = [] := by
    cases rest with
    | nil => rfl
    | cons c rest =>
      have hc : c ≠ quote := fun heq => h (by rw [heq]; rfl)
      simp [hc]
  have hall : ∀ c ∈ List.replicate k quote, decide (c = quote) = true := by
    intro c hc
    simp [List.eq_of_mem_replicate hc]
  unfold endBlock
  rw [List.takeWhile_append_of_pos hall, hrest, List.append_nil,
    List.take_of_length_le (by rw [List.length_replicate]; exact hk)]
  simp

/-! ### Blocks -/

section Blocks

variable {fuel : ℕ} {c : Char} {text rest : List Char}

/-- The end of a block: what is left of the text is at most two quotes. -/
theorem readBlock?_replicate (h : rest.head? ≠ some '"') {k : ℕ} (hk : k ≤ 2) :
    readBlock? (fuel + 1) (List.replicate k '"' ++ (triple '"' ++ rest)) =
      some (List.replicate k '"', rest) := by
  rw [replicate_append_triple, readBlock?, endBlock_replicate h hk]

/-- Before its end a block is read character by character. -/
theorem readBlock?_cons (h : (c :: text).take 3 ≠ triple '"') :
    readBlock? (fuel + 1) (c :: text) =
      if c = '\\' then
        match skipBreak? text with
        | some rest => readBlock? fuel rest
        | none => do
          let (d, rest) ← readEscape? text
          let (s, rest) ← readBlock? fuel rest
          pure (d :: s, rest)
      else if c = '\n' || isPlain c then do
        let (s, rest) ← readBlock? fuel text
        pure (c :: s, rest)
      else none := by
  refine readBlock?.eq_4 fuel c text ?_
  rintro rest rfl rfl
  exact h rfl

/-- A character that stands for itself in a block is read. -/
theorem readBlock?_plain (h : (c :: text).take 3 ≠ triple '"') (plain : c = '\n' ∨ isPlain c = true)
    (hback : c ≠ '\\') : readBlock? (fuel + 1) (c :: text) =
      (readBlock? fuel text).map fun p => (c :: p.1, p.2) := by
  have hallowed : (decide (c = '\n') || isPlain c) = true := by simpa using plain
  rw [readBlock?_cons h, if_neg hback, if_pos hallowed]
  cases readBlock? fuel text <;> rfl

/-- An escaped character of a block is read. -/
theorem readBlock?_escaped_append : readBlock? (fuel + 1) (escaped c ++ text) =
    (readBlock? fuel text).map fun p => (c :: p.1, p.2) := by
  have htake : (escaped c ++ text).take 3 ≠ triple '"' := by
    have hhead := (head?_escaped_append c text).1
    rintro heq
    cases htext : escaped c ++ text with
    | nil => rw [htext] at heq; cases heq
    | cons a left =>
      rw [htext] at heq hhead
      exact hhead (congrArg some (List.cons.inj heq).1)
  rcases escaped_cases c with ⟨h, hplain, -, hback⟩ | ⟨code, h, spells⟩
  · rw [h] at htake ⊢
    exact readBlock?_plain htake (.inr hplain) hback
  · rw [h] at htake ⊢
    rw [List.cons_append] at htake ⊢
    rw [readBlock?_cons htake, if_pos rfl, spells.skipBreak?, spells.readEscape?]
    cases hread : readBlock? fuel text <;> simp [hread]

/-- A quote that stands for itself in a block is one of at most two in a row. -/
theorem exists_of_blockText_cons {quotes : ℕ} {cs : List Char}
    (h : blockText quotes cs = '"' :: text) :
    ∃ left, cs = '"' :: left ∧ quotes < 2 ∧ blockText (quotes + 1) left = text := by
  cases cs with
  | nil => cases h
  | cons c cs =>
    rw [blockText] at h
    split_ifs at h with hquote hbreak
    · cases h
      exact ⟨cs, by rw [hquote.1], hquote.2, rfl⟩
    · rw [hbreak] at h
      cases h
    · have hhead := (head?_escaped_append c (blockText 0 cs)).1
      rw [h] at hhead
      exact absurd rfl hhead

theorem take_blockText_ne (quotes : ℕ) (cs : List Char) :
    (blockText quotes cs).take 3 ≠ triple '"' := by
  intro h
  have hall : blockText quotes cs = '"' :: '"' :: '"' :: (blockText quotes cs).drop 3 := by
    conv_lhs => rw [← List.take_append_drop 3 (blockText quotes cs), h]
    rfl
  obtain ⟨cs₁, -, -, h₁⟩ := exists_of_blockText_cons hall
  obtain ⟨cs₂, -, -, h₂⟩ := exists_of_blockText_cons h₁
  obtain ⟨cs₃, -, hlt, -⟩ := exists_of_blockText_cons h₂
  omega

theorem eq_replicate_of_blockText : ∀ {k quotes : ℕ} {cs : List Char},
    blockText quotes cs = List.replicate k '"' → cs = List.replicate k '"'
  | 0, quotes, cs, h => by
    cases cs with
    | nil => rfl
    | cons c cs =>
      rw [blockText] at h
      split_ifs at h
      · cases h
      · cases h
      · rcases escaped_cases c with ⟨hc, -⟩ | ⟨code, hc, -⟩ <;> rw [hc] at h <;> cases h
  | k + 1, quotes, cs, h => by
    obtain ⟨left, rfl, -, hleft⟩ := exists_of_blockText_cons h
    rw [eq_replicate_of_blockText hleft, List.replicate_succ]

/-- **What is written in a block is read as the text.** -/
theorem readBlock?_blockText (h : rest.head? ≠ some '"') : ∀ (cs : List Char) (quotes fuel : ℕ),
    cs.length < fuel →
    readBlock? fuel (blockText quotes cs ++ (triple '"' ++ rest)) = some (cs, rest)
  | cs, quotes, 0, hfuel => absurd hfuel (Nat.not_lt_zero _)
  | cs, quotes, fuel + 1, hfuel => by
    by_cases ends : (blockText quotes cs ++ (triple '"' ++ rest)).take 3 = triple '"'
    · obtain ⟨k, hk, hquotes⟩ := exists_replicate (take_blockText_ne quotes cs) ends
      rw [hquotes, eq_replicate_of_blockText hquotes]
      exact readBlock?_replicate h hk
    cases cs with
    | nil => exact absurd rfl ends
    | cons c cs =>
      simp only [List.length_cons] at hfuel
      rw [blockText] at ends ⊢
      split_ifs at ends ⊢ with hquote hbreak
      · have hplain : isPlain c = true ∧ c ≠ '\\' := by
          rw [hquote.1]
          decide
        rw [List.cons_append] at ends ⊢
        rw [readBlock?_plain ends (.inr hplain.1) hplain.2,
          readBlock?_blockText h cs (quotes + 1) fuel (by omega)]
        rfl
      · have hback : c ≠ '\\' := by
          rw [hbreak]
          decide
        rw [List.cons_append] at ends ⊢
        rw [readBlock?_plain ends (.inl hbreak) hback,
          readBlock?_blockText h cs 0 fuel (by omega)]
        rfl
      · rw [List.append_assoc, readBlock?_escaped_append,
          readBlock?_blockText h cs 0 fuel (by omega)]
        rfl

example : readBlock? 6 (blockText 0 ['"', '"', '"', '\n', '"'] ++ triple '"') =
    some (['"', '"', '"', '\n', '"'], []) := by
  decide

/-! ### Literal blocks -/

theorem readLiteralBlock?_replicate (h : rest.head? ≠ some '\'') {k : ℕ} (hk : k ≤ 2) :
    readLiteralBlock? (List.replicate k '\'' ++ (triple '\'' ++ rest)) =
      some (List.replicate k '\'', rest) := by
  rw [replicate_append_triple, readLiteralBlock?, endBlock_replicate h hk]

/-- **What is written in a literal block is read as the text.** -/
theorem readLiteralBlock?_append (h : rest.head? ≠ some '\'') : ∀ cs : List Char,
    StringForm.isClean cs = true → StringForm.hasTriple '\'' cs = false →
    readLiteralBlock? (cs ++ (triple '\'' ++ rest)) = some (cs, rest)
  | [], _, _ => readLiteralBlock?_replicate h (Nat.zero_le 2)
  | c :: cs, clean, single => by
    rw [← Bool.not_eq_true, hasTriple_cons_iff, not_or, Bool.not_eq_true] at single
    by_cases ends : (c :: cs ++ (triple '\'' ++ rest)).take 3 = triple '\''
    · obtain ⟨k, hk, hquotes⟩ := exists_replicate single.1 ends
      rw [hquotes]
      exact readLiteralBlock?_replicate h hk
    · simp only [StringForm.isClean, List.all_cons, Bool.and_eq_true] at clean
      have ih := readLiteralBlock?_append h cs clean.2 single.2
      rw [List.cons_append, readLiteralBlock?, if_pos clean.1, ih]
      · rfl
      · rintro left rfl hleft
        rw [List.cons_append, hleft] at ends
        exact ends rfl

end Blocks

/-! ### All forms -/

theorem plain_of_isClean {cs : List Char} (clean : StringForm.isClean cs = true)
    (single : '\n' ∉ cs) {c : Char} (hc : c ∈ cs) : isPlain c = true := by
  have hclean := List.all_eq_true.mp clean c hc
  rw [Bool.or_eq_true, decide_eq_true_eq] at hclean
  rcases hclean with rfl | hplain
  · exact absurd hc single
  · exact hplain

/-- The line break that a block opens with does not count, and a block without one starts with
no line break. -/
theorem dropBreak_openingBreak {cs text : List Char}
    (h : '\n' ∉ cs → text.head? ≠ some '\n') :
    dropBreak (openingBreak cs ++ text) = text := by
  unfold openingBreak
  split_ifs with hbreak
  · rfl
  · rw [List.contains_iff_mem] at hbreak
    rw [List.nil_append]
    have hhead := h hbreak
    cases text with
    | nil => rfl
    | cons c text =>
      have hc : c ≠ '\n' := fun heq => hhead (by rw [heq]; rfl)
      unfold dropBreak
      split
      · rename_i heq
        cases heq
        exact absurd rfl hc
      · rfl

theorem length_escaped_pos (c : Char) : 1 ≤ (escaped c).length := by
  rcases escaped_cases c with ⟨h, -⟩ | ⟨code, h, -⟩ <;> simp [h]

theorem length_le_flatMap_escaped : ∀ cs : List Char, cs.length ≤ (cs.flatMap escaped).length
  | [] => le_rfl
  | c :: cs => by
    have ih := length_le_flatMap_escaped cs
    have hc := length_escaped_pos c
    simp only [List.flatMap_cons, List.length_append, List.length_cons]
    omega

theorem length_le_blockText : ∀ (cs : List Char) (quotes : ℕ),
    cs.length ≤ (blockText quotes cs).length
  | [], _ => le_rfl
  | c :: cs, quotes => by
    have ih := length_le_blockText cs
    have hraw := ih (quotes + 1)
    have hc := length_escaped_pos c
    have hnext := ih 0
    rw [blockText]
    split_ifs <;> simp only [List.length_append, List.length_cons] <;> omega

/-- One quote opens a string that is no block. -/
theorem readString?_basic {text : List Char} (h : text.take 2 ≠ ['"', '"']) :
    readString? ('"' :: text) = readBasic? (text.length + 1) text := by
  rw [readString?]
  rintro rest rfl
  exact h rfl

theorem readString?_literal {text : List Char} (h : text.take 2 ≠ ['\'', '\'']) :
    readString? ('\'' :: text) = readLiteral? text := by
  rw [readString?]
  rintro rest rfl
  exact h rfl

theorem take_two_ne {quote : Char} {text rest : List Char} (h : text.head? ≠ some quote)
    (hrest : rest.head? ≠ some quote) : (text ++ quote :: rest).take 2 ≠ [quote, quote] := by
  cases text with
  | nil =>
    cases rest with
    | nil => simp
    | cons c rest =>
      have hc : c ≠ quote := fun heq => hrest (by rw [heq]; rfl)
      simp [hc]
  | cons c text =>
    have hc : c ≠ quote := fun heq => h (by rw [heq]; rfl)
    simp [hc]

section Forms

variable {cs rest : List Char}

theorem readString?_basicText (h : rest.head? ≠ some '"') :
    readString? (textIn cs .basic ++ rest) = some (cs, rest) := by
  have hhead : (cs.flatMap escaped).head? ≠ some '"' := by
    cases cs with
    | nil => simp
    | cons c cs => exact (head?_escaped_append c (cs.flatMap escaped)).1
  have hlength := length_le_flatMap_escaped cs
  simp only [textIn, List.cons_append, List.nil_append, List.append_assoc]
  rw [readString?_basic (take_two_ne hhead h)]
  exact readBasic?_escaped cs _ rest (by simp only [List.length_append]; omega)

theorem readString?_literalText (h : rest.head? ≠ some '\'')
    (fits : StringForm.fits cs .literal = true) :
    readString? (textIn cs .literal ++ rest) = some (cs, rest) := by
  simp only [StringForm.fits, Bool.and_eq_true, Bool.not_eq_true', List.contains_eq_mem,
    decide_eq_false_iff_not] at fits
  obtain ⟨⟨clean, hquote⟩, hbreak⟩ := fits
  have hplain : ∀ c ∈ cs, isPlain c = true ∧ c ≠ '\'' := fun c hc =>
    ⟨plain_of_isClean clean hbreak hc, fun heq => hquote (heq ▸ hc)⟩
  have hhead : cs.head? ≠ some '\'' := fun heq => hquote (List.mem_of_mem_head? heq)
  simp only [textIn, List.cons_append, List.nil_append, List.append_assoc]
  rw [readString?_literal (take_two_ne hhead h)]
  exact readLiteral?_append cs rest hplain

theorem readString?_blockText (h : rest.head? ≠ some '"') :
    readString? (textIn cs .block ++ rest) = some (cs, rest) := by
  have hhead : '\n' ∉ cs → (blockText 0 cs ++ (triple '"' ++ rest)).head? ≠ some '\n' := by
    intro hbreak
    cases cs with
    | nil => simp [blockText, triple]
    | cons c cs =>
      have hc : c ≠ '\n' := fun heq => hbreak (heq ▸ List.mem_cons_self)
      rw [blockText]
      split_ifs with hquote
      · rw [hquote.1]
        simp
      · rw [List.append_assoc]
        exact (head?_escaped_append c _).2 hc
  have htext : textIn cs .block ++ rest
      = '"' :: '"' :: '"' :: (openingBreak cs ++ (blockText 0 cs ++ (triple '"' ++ rest))) := by
    simp [textIn, triple]
  have hlength := length_le_blockText cs 0
  rw [htext, readString?, dropBreak_openingBreak hhead]
  exact readBlock?_blockText h cs 0 _ (by simp only [List.length_append]; omega)

theorem readString?_literalBlockText (h : rest.head? ≠ some '\'')
    (fits : StringForm.fits cs .literalBlock = true) :
    readString? (textIn cs .literalBlock ++ rest) = some (cs, rest) := by
  simp only [StringForm.fits, Bool.and_eq_true, Bool.not_eq_true'] at fits
  have hhead : '\n' ∉ cs → (cs ++ (triple '\'' ++ rest)).head? ≠ some '\n' := by
    intro hbreak
    cases cs with
    | nil => simp [triple]
    | cons c cs => exact fun heq => hbreak (Option.some.inj heq ▸ List.mem_cons_self)
  have htext : textIn cs .literalBlock ++ rest
      = '\'' :: '\'' :: '\'' :: (openingBreak cs ++ (cs ++ (triple '\'' ++ rest))) := by
    simp [textIn, triple]
  rw [htext, readString?, dropBreak_openingBreak hhead]
  exact readLiteralBlock?_append h cs fits.1 fits.2

end Forms

/-- The form that a text is written in needs no escapes, if it has none. -/
theorem fits_best {cs : List Char} (h : StringForm.best cs = .literal ∨
    StringForm.best cs = .literalBlock) : StringForm.fits cs (StringForm.best cs) = true := by
  unfold StringForm.best at h ⊢
  split_ifs at h ⊢ with h1 h2 h3 h4 h5
  · exact h1
  · exact h2
  · exact h3
  · exact h4
  · simp at h
  · simp at h

/-- **A string is read as it was written**, unless a quote follows it. -/
theorem readString?_stringText {rest : List Char} (hdouble : rest.head? ≠ some '"')
    (hsingle : rest.head? ≠ some '\'') (s : String) :
    readString? (stringText s ++ rest) = some (s.toList, rest) := by
  unfold stringText
  have fits := @fits_best s.toList
  cases hform : StringForm.best s.toList with
  | basic => exact readString?_basicText hdouble
  | literal => exact readString?_literalText hsingle (hform ▸ fits (.inl hform))
  | block => exact readString?_blockText hdouble
  | literalBlock => exact readString?_literalBlockText hsingle (hform ▸ fits (.inr hform))

/-! ### Line breaks -/

/-- What is written is free of the character that could be taken for a part of a line break. -/
theorem noReturn_escaped (c : Char) : '\r' ∉ escaped c := by
  have hdigit : ∀ n < 16, upperHexDigit n ≠ '\r' := by decide
  unfold escaped
  split_ifs with hb ht hn hf hr hquote hback hplain
  · simp
  · simp
  · simp
  · simp
  · simp
  · simp
  · simp
  · simp [Ne.symm hr]
  · simp only [upperHex, List.mem_cons, List.mem_map, List.not_mem_nil, or_false, not_or,
      not_exists, not_and]
    refine ⟨by decide, by decide, fun n hlist => hdigit n ?_⟩
    rcases hlist with rfl | rfl | rfl | rfl <;> exact Nat.mod_lt _ (by decide)

theorem noReturn_blockText : ∀ (cs : List Char) (quotes : ℕ), '\r' ∉ blockText quotes cs
  | [], _ => List.not_mem_nil
  | c :: cs, quotes => by
    have ih := noReturn_blockText cs
    rw [blockText]
    split_ifs with hquote hbreak
    · rw [hquote.1]
      simp [ih]
    · rw [hbreak]
      simp [ih]
    · simp [ih, noReturn_escaped]

theorem noReturn_of_isClean {cs : List Char} (clean : StringForm.isClean cs = true) : '\r' ∉ cs :=
  fun hmem => absurd (List.all_eq_true.mp clean _ hmem) (by decide)

theorem noReturn_stringText (s : String) : '\r' ∉ stringText s := by
  unfold stringText
  have fits := @fits_best s.toList
  have hopening : '\r' ∉ openingBreak s.toList := by
    unfold openingBreak
    split_ifs <;> simp
  cases hform : StringForm.best s.toList with
  | basic => simp [textIn, noReturn_escaped]
  | literal =>
    have hfits := fits (.inl hform)
    simp only [hform, StringForm.fits, Bool.and_eq_true] at hfits
    simp [textIn, noReturn_of_isClean hfits.1.1]
  | block => simp [textIn, noReturn_blockText, hopening]
  | literalBlock =>
    have hfits := fits (.inr hform)
    simp only [hform, StringForm.fits, Bool.and_eq_true] at hfits
    simp [textIn, noReturn_of_isClean hfits.1, hopening]

end Toml
end TypedConfig
