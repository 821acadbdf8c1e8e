/-
# Texts that spell tokens

A text spells a list of tokens if the reader takes it for just these, whatever comes
after it, as long as that does not go on with a number (`Spells`). Texts that are put
together spell the tokens of their parts, so that what a value is written as spells
the tokens of its tree (`Value.json_spells`), in both layouts.

Key definitions: `Spells`, `Binary.numeral`, `Value.tree`.
Key theorems: `JsonToken.readString?_jsonString`, `Value.json_spells`.
-/
import Mathlib
import TypedConfig.Json.Layout
import TypedConfig.Proofs.Json.Numeral
import TypedConfig.Proofs.Json.Tree
import TypedConfig.Proofs.Value.Shape

namespace TypedConfig

namespace JsonToken

/-! ### Strings -/

theorem hexValue?_hexDigit : ∀ n < 16, hexValue? (hexDigit n) = some n := by decide

/-- An escaped character is read as the character. -/
theorem readString?_jsonEscape (c : Char) (fuel : ℕ) (rest : List Char) :
    readString? (fuel + 1) (jsonEscape c ++ rest) =
      (readString? fuel rest).map fun p => (c :: p.1, p.2) := by
  unfold jsonEscape
  split_ifs with hquote hback hb ht hn hf hr hcontrol
  · subst hquote
    cases h : readString? fuel rest <;> simp [readString?, readEscape?, h]
  · subst hback
    cases h : readString? fuel rest <;> simp [readString?, readEscape?, h]
  · subst hb
    cases h : readString? fuel rest <;> simp [readString?, readEscape?, h]
  · subst ht
    cases h : readString? fuel rest <;> simp [readString?, readEscape?, h]
  · subst hn
    cases h : readString? fuel rest <;> simp [readString?, readEscape?, h]
  · subst hf
    cases h : readString? fuel rest <;> simp [readString?, readEscape?, h]
  · subst hr
    cases h : readString? fuel rest <;> simp [readString?, readEscape?, h]
  · -- a control character is written by its code
    have hhigh := hexValue?_hexDigit (c.toNat / 16) (by omega)
    have hlow := hexValue?_hexDigit (c.toNat % 16) (by omega)
    have hzero : hexValue? '0' = some 0 := by decide
    have hcode : c.toNat / 16 * 16 + c.toNat % 16 = c.toNat := by omega
    have hcoded : readCoded? ('0' :: '0' :: hexDigit (c.toNat / 16) :: hexDigit (c.toNat % 16) ::
        rest) = some (c, rest) := by
      have hhalf : isLowHalf c.toNat = false ∧ isHighHalf c.toNat = false := by
        simp only [isLowHalf, isHighHalf, decide_eq_false_iff_not]
        omega
      simp [readCoded?, readUnit?, hhigh, hlow, hzero, hcode, hhalf.1, hhalf.2]
    cases h : readString? fuel rest <;> simp [readString?, readEscape?, hcoded, h]
  · cases h : readString? fuel rest <;> simp [readString?, hquote, hback, hcontrol, h]

/-- **What is written between quotes is read as the string.** -/
theorem readString?_flatMap : ∀ (cs : List Char) (fuel : ℕ) (rest : List Char),
    cs.length < fuel →
    readString? fuel (cs.flatMap jsonEscape ++ '"' :: rest) = some (cs, rest)
  | [], fuel, rest, h => by
    obtain ⟨fuel, rfl⟩ : ∃ n, fuel = n + 1 := ⟨fuel - 1, by simp at h; omega⟩
    simp [readString?]
  | c :: cs, fuel, rest, h => by
    simp only [List.length_cons] at h
    obtain ⟨fuel, rfl⟩ : ∃ n, fuel = n + 1 := ⟨fuel - 1, by omega⟩
    have ih := readString?_flatMap cs fuel rest (by omega)
    rw [List.flatMap_cons, List.append_assoc, readString?_jsonEscape, ih]
    rfl

theorem length_le_flatMap_jsonEscape : ∀ cs : List Char,
    cs.length ≤ (cs.flatMap jsonEscape).length
  | [] => le_rfl
  | c :: cs => by
    have ih := length_le_flatMap_jsonEscape cs
    have hc : 1 ≤ (jsonEscape c).length := by
      unfold jsonEscape
      split_ifs <;> simp
    simp only [List.flatMap_cons, List.length_append, List.length_cons]
    omega

/-! ### Spelling -/

/-- The reader takes a text for these tokens, whatever comes after it. -/
def Spells (text : List Char) (tokens : List JsonToken) : Prop :=
  ∀ (rest : List Char) (fuel : ℕ), Stops rest → (text ++ rest).length ≤ fuel →
    ∃ left, rest.length ≤ left ∧
      scanWith? fuel (text ++ rest) = (scanWith? left rest).map (tokens ++ ·)

theorem spells_nil : Spells [] [] := fun rest fuel _ hfuel =>
  ⟨fuel, hfuel, by simp⟩

/-- What stands before a text that does not go on with a number. -/
theorem Spells.append {text text' : List Char} {tokens tokens' : List JsonToken}
    (h : Spells text tokens) (h' : Spells text' tokens')
    (hstops : ∀ rest, Stops rest → Stops (text' ++ rest)) :
    Spells (text ++ text') (tokens ++ tokens') := by
  intro rest fuel hrest hfuel
  rw [List.append_assoc] at hfuel ⊢
  obtain ⟨left, hleft, hscan⟩ := h (text' ++ rest) fuel (hstops rest hrest) hfuel
  obtain ⟨left', hleft', hscan'⟩ := h' rest left hrest hleft
  refine ⟨left', hleft', ?_⟩
  rw [hscan, hscan', Option.map_map]
  congr 1
  funext ts
  simp

theorem stops_cons {c : Char} (hd : isDigit c = false) (hp : c ≠ '.') (he : c ≠ 'e') (hE : c ≠ 'E')
    (text : List Char) : Stops (c :: text) := fun d hd' => by
  cases hd'
  exact ⟨hd, hp, he, hE⟩

/-- One more blank in front. -/
theorem Spells.blank {c : Char} {text : List Char} {tokens : List JsonToken}
    (h : Spells text tokens) (hc : isBlank c = true) : Spells (c :: text) tokens := by
  intro rest fuel hrest hfuel
  simp only [List.cons_append, List.length_cons] at hfuel ⊢
  obtain ⟨fuel, rfl⟩ : ∃ n, fuel = n + 1 := ⟨fuel - 1, by omega⟩
  obtain ⟨left, hleft, hscan⟩ := h rest fuel hrest (by omega)
  exact ⟨left, hleft, by simpa [scanWith?, hc] using hscan⟩

theorem Spells.blanks {text : List Char} {tokens : List JsonToken} (h : Spells text tokens) :
    ∀ blanks : List Char, (∀ c ∈ blanks, isBlank c = true) → Spells (blanks ++ text) tokens
  | [], _ => h
  | c :: blanks, hall =>
    (Spells.blanks h blanks fun b hb => hall b (List.mem_cons_of_mem c hb)).blank
      (hall c List.mem_cons_self)

/-- One more token of a single character in front. -/
theorem Spells.mark {text : List Char} {tokens : List JsonToken} (h : Spells text tokens)
    (c : Char) (token : JsonToken)
    (hc : ∀ fuel rest, scanWith? (fuel + 1) (c :: rest) = (scanWith? fuel rest).map (token :: ·)) :
    Spells (c :: text) (token :: tokens) := by
  intro rest fuel hrest hfuel
  simp only [List.cons_append, List.length_cons] at hfuel ⊢
  obtain ⟨fuel, rfl⟩ : ∃ n, fuel = n + 1 := ⟨fuel - 1, by omega⟩
  obtain ⟨left, hleft, hscan⟩ := h rest fuel hrest (by omega)
  refine ⟨left, hleft, ?_⟩
  rw [hc, hscan, Option.map_map]
  rfl

theorem scanWith?_quote (fuel : ℕ) (rest : List Char) :
    scanWith? (fuel + 1) ('"' :: rest) = (readString? (rest.length + 1) rest).bind fun p =>
      (scanWith? fuel p.2).map (.string (String.ofList p.1) :: ·) := by
  simp only [scanWith?, isBlank]
  cases h : readString? (rest.length + 1) rest with
  | none => rfl
  | some p => cases h' : scanWith? fuel p.2 <;> simp [h']

/-- The characters that a number starts with start nothing else. -/
theorem scanWith?_number {c : Char} (hc : isDigit c = true ∨ c = '-') (fuel : ℕ)
    (rest : List Char) :
    scanWith? (fuel + 1) (c :: rest) = (readNumeral? (c :: rest)).bind fun p =>
      (scanWith? fuel p.2).map (.number p.1 :: ·) := by
  have hne : ∀ d, isDigit d = false → d ≠ '-' → c ≠ d := by
    rintro d hd hm rfl
    rcases hc with hc | hc
    · rw [hd] at hc
      cases hc
    · exact hm hc
  have hblank : isBlank c = false := by
    simp [isBlank, hne ' ' (by decide) (by decide), hne '\t' (by decide) (by decide),
      hne '\n' (by decide) (by decide), hne '\r' (by decide) (by decide)]
  rw [scanWith?, hblank, if_neg (by simp)]
  · cases h : readNumeral? (c :: rest) with
    | none => rfl
    | some p => cases h' : scanWith? fuel p.2 <;> simp [h']
  all_goals first
    | exact hne _ (by decide) (by decide)
    | exact fun _ h => absurd h (hne _ (by decide) (by decide))

/-- A string between quotes. -/
theorem spells_jsonString (s : String) : Spells (jsonString s) [.string s] := by
  intro rest fuel _ hfuel
  simp only [jsonString, List.cons_append, List.length_cons, List.append_assoc] at hfuel ⊢
  obtain ⟨fuel, rfl⟩ : ∃ n, fuel = n + 1 := ⟨fuel - 1, by omega⟩
  have hlen := length_le_flatMap_jsonEscape s.toList
  simp only [List.length_append, List.length_cons] at hfuel
  have hread := readString?_flatMap s.toList
    ((s.toList.flatMap jsonEscape ++ '"' :: rest).length + 1) rest
    (by simp only [List.length_append]; omega)
  refine ⟨fuel, by omega, ?_⟩
  rw [scanWith?_quote]
  simp only [List.nil_append, hread, Option.bind_some, String.ofList_toList]

theorem head_of_readNumeral? {cs : List Char} {p : Numeral × List Char}
    (h : readNumeral? cs = some p) :
    ∃ c rest, cs = c :: rest ∧ (isDigit c = true ∨ c = '-') := by
  cases cs with
  | nil => simp [readNumeral?, readWhole?] at h
  | cons c rest =>
    refine ⟨c, rest, rfl, ?_⟩
    by_cases hm : c = '-'
    · exact .inr hm
    · left
      by_contra hd
      have hzero : c ≠ '0' := by
        rintro rfl
        exact hd (by decide)
      simp [readNumeral?, hm, readWhole?, hd, hzero] at h

/-- A text that is read as a number. -/
theorem spells_number {text : List Char} {n : Numeral}
    (hread : ∀ rest, Stops rest → readNumeral? (text ++ rest) = some (n, rest)) :
    Spells text [.number n] := by
  intro rest fuel hrest hfuel
  have halone := hread [] stops_nil
  rw [List.append_nil] at halone
  obtain ⟨c, cs, rfl, hc⟩ := head_of_readNumeral? halone
  have h := hread rest hrest
  simp only [List.cons_append, List.length_cons, List.length_append] at hfuel h ⊢
  obtain ⟨fuel, rfl⟩ : ∃ n, fuel = n + 1 := ⟨fuel - 1, by omega⟩
  refine ⟨fuel, by omega, ?_⟩
  rw [scanWith?_number hc, h, Option.bind_some]
  rfl

end JsonToken

open JsonToken

/-! ### Numbers -/

/-- The numeral that a number is written as in a document. -/
def Binary.numeral {f : BinaryFormat} (x : Binary f) : Numeral :=
  ((readNumeral? (x.text .document).toList).map (·.1)).getD ⟨false, 0, none⟩

/-- A finite number is written as a numeral with a scale, which has its value and at most 767
digits. -/
theorem Binary64.text_reads (x : Binary64) (hx : x.isFinite = true) :
    (∀ rest, Stops rest →
      readNumeral? ((x.text .document).toList ++ rest) = some (x.numeral, rest)) ∧
    ∃ d : Decimal, x.numeral = ⟨x.isNegative, d.digits, some d.exponent⟩ ∧
      d.value = (x.shortest .even).value ∧ d.digits < 10 ^ 767 := by
  have hzero : (x.shortest .even).digits = 0 → (x.shortest .even).exponent ≤ 0 := by
    intro h
    simp [Binary.shortest, Binary.isZero_of_shortest_digits (by decide) hx h]
  obtain ⟨d, hvalue, hdigits, hread⟩ := readsDecimal_decimalText hzero
  have htext : (x.text .document).toList = (if x.isNegative then ['-'] else []) ++
      (NumberStyle.document.decimalText (x.shortest .even)).toList := by
    cases hneg : x.isNegative <;> simp [Binary.text, hx, hneg, NumberStyle.document]
  have hread : ∀ rest, Stops rest → readNumeral? ((x.text .document).toList ++ rest) =
      some (⟨x.isNegative, d.digits, some d.exponent⟩, rest) := by
    intro rest hrest
    rw [htext, List.append_assoc]
    exact hread x.isNegative rest hrest
  have hnumeral : x.numeral = ⟨x.isNegative, d.digits, some d.exponent⟩ := by
    have halone := hread [] stops_nil
    rw [List.append_nil] at halone
    simp [Binary.numeral, halone]
  refine ⟨fun rest hrest => by rw [hnumeral]; exact hread rest hrest, d, hnumeral, hvalue, ?_⟩
  have hmost := Binary.shortest_digits_lt x hx .even
  have hfew : 10 ^ 17 < 10 ^ 767 := by decide +kernel
  omega

/-! ### Values -/

namespace Value

mutual

/-- The tree that a value is written as. -/
def tree : Value → Json
  | .bool b => .bool b
  | .int n => .number ⟨decide (n.toInt < 0), n.toInt.natAbs, none⟩
  | .float x => .number x.numeral
  | .string s => .string s
  | .constant c => .string c.name
  | .array items => .array (trees items)

/-- The trees that the values of a list are written as. -/
def trees : List Value → List Json
  | [] => []
  | v :: rest => v.tree :: trees rest

end

mutual

/-- The tree of a value is nested as deep as the value. -/
@[simp] theorem depth_tree : ∀ v : Value, v.tree.depth = v.depth
  | .bool _ => rfl
  | .int _ => rfl
  | .float _ => rfl
  | .string _ => rfl
  | .constant _ => rfl
  | .array items => by simp only [tree, Json.depth, depth, itemsDepth_trees items]

theorem itemsDepth_trees : ∀ vs : List Value, Json.itemsDepth (trees vs) = itemsDepth vs
  | [] => rfl
  | v :: rest => by simp only [trees, Json.itemsDepth, itemsDepth, depth_tree v, itemsDepth_trees rest]

end

end Value

theorem JsonLayout.isBlank_lineBreak (layout : JsonLayout) (level : ℕ) :
    ∀ c ∈ layout.lineBreak level, isBlank c = true := by
  intro c hc
  cases layout with
  | compact => simp [lineBreak] at hc
  | pretty =>
    rcases List.mem_cons.mp hc with rfl | hc
    · rfl
    · rw [List.eq_of_mem_replicate hc]
      rfl

namespace Value

theorem boolText_spells (b : Bool) : Spells (boolText b).toList [.bool b] := by
  intro rest fuel hrest hfuel
  cases b with
  | true =>
    simp only [boolText] at hfuel ⊢
    obtain ⟨fuel, rfl⟩ : ∃ n, fuel = n + 1 := ⟨fuel - 1, by simp at hfuel; omega⟩
    exact ⟨fuel, by simp at hfuel; omega, rfl⟩
  | false =>
    simp only [boolText] at hfuel ⊢
    obtain ⟨fuel, rfl⟩ : ∃ n, fuel = n + 1 := ⟨fuel - 1, by simp at hfuel; omega⟩
    exact ⟨fuel, by simp at hfuel; omega, rfl⟩

/-- What follows an item inside an array starts with a comma, a blank or the end of the array. -/
theorem stops_jsonItems (layout : JsonLayout) (level : ℕ) (vs : List Value) (rest : List Char) :
    Stops (jsonItems layout (level + 1) vs ++ (layout.lineBreak level ++ ']' :: rest)) := by
  cases vs with
  | nil =>
    cases layout with
    | compact => exact stops_cons (by decide) (by decide) (by decide) (by decide) _
    | pretty => exact stops_cons (by decide) (by decide) (by decide) (by decide) _
  | cons v vs => exact stops_cons (by decide) (by decide) (by decide) (by decide) _

mutual

/-- **What a value is written as spells the tokens of its tree, in both layouts.** -/
theorem json_spells (layout : JsonLayout) : ∀ (level : ℕ) (v : Value), v.AllFinite →
    Spells (v.json layout level) v.tree.tokens
  | _, .bool b, _ => boolText_spells b
  | _, .int n, _ => spells_number fun _ hrest => readNumeral?_integerText n.toInt hrest
  | _, .float x, h => spells_number (Binary64.text_reads x h).1
  | _, .string s, _ => spells_jsonString s
  | _, .constant c, _ => spells_jsonString c.name
  | _, .array [], _ => 
    (spells_nil.mark ']' .closeArray fun _ _ => rfl).mark '[' .openArray fun _ _ => rfl
  | level, .array (v :: rest), h => by
    have hv := json_spells layout (level + 1) v h.1
    have hrest := jsonItems_spells layout level rest h.2
    have h := ((hv.append hrest fun more _ => ?_).blanks (layout.lineBreak (level + 1))
      (layout.isBlank_lineBreak _)).mark '[' .openArray fun _ _ => rfl
    · simpa [json, tree, trees, Json.tokens] using h
    · simpa using stops_jsonItems layout level rest more

theorem jsonItems_spells (layout : JsonLayout) (level : ℕ) : ∀ vs : List Value, ItemsFinite vs →
    Spells (jsonItems layout (level + 1) vs ++ (layout.lineBreak level ++ [']']))
      (Json.itemTokens (trees vs))
  | [], _ =>
    (spells_nil.mark ']' .closeArray fun _ _ => rfl).blanks _ (layout.isBlank_lineBreak level)
  | v :: rest, h => by
    have hv := json_spells layout (level + 1) v h.1
    have hrest := jsonItems_spells layout level rest h.2
    have h := ((hv.append hrest fun more _ => ?_).blanks (layout.lineBreak (level + 1))
      (layout.isBlank_lineBreak _)).mark ',' .comma fun _ _ => rfl
    · simpa [jsonItems, trees, Json.itemTokens] using h
    · simpa using stops_jsonItems layout level rest more

end

end Value
end TypedConfig
