/-
# Texts that consist of tokens

A text is lexed into tokens and the blanks between them (`Lexes`). The grammar alone does
not say where a number ends that another one follows, so a text may be lexed in more
than one way; no tree has two numbers next to each other, though, and where there are
none the scanner finds the tokens (`JsonToken.scan?_of_lexes`), as it finds no others
(`JsonToken.lexes_of_scan?`). With the reader of trees this says which texts are those of
a tree, and of which (`Json.ofText?_eq_some_iff`).

Key definitions: `JsonToken.Lexes`, `JsonToken.NumbersApart`.
Key theorems: `JsonToken.scan?_of_lexes`, `JsonToken.lexes_of_scan?`,
`Json.ofText?_eq_some_iff`.
-/
import Mathlib
import TypedConfig.Proofs.Json.Lexeme
import TypedConfig.Proofs.Json.Spelling

namespace TypedConfig
namespace JsonToken

/-- A text that consists of tokens, with blanks anywhere between them. -/
inductive Lexes : List Char → List JsonToken → Prop
  | nil : Lexes [] []
  | blank {c : Char} {text : List Char} {tokens : List JsonToken} (hc : isBlank c = true)
    (more : Lexes text tokens) : Lexes (c :: text) tokens
  | token {lexeme text : List Char} {token : JsonToken} {tokens : List JsonToken}
    (h : Lexeme lexeme token) (more : Lexes text tokens) : Lexes (lexeme ++ text) (token :: tokens)

/-- Whether a token is a number. -/
def isNumber : JsonToken → Bool
  | .number _ => true
  | _ => false

/-- No two numbers are next to each other. -/
def NumbersApart (tokens : List JsonToken) : Prop :=
  tokens.IsChain fun a b => a.isNumber = false ∨ b.isNumber = false

/-! ### Scanning -/

theorem scanWith?_fixed {lexeme : List Char} {token : JsonToken}
    (h : (lexeme, token) ∈ fixedLexemes) (fuel : ℕ) (rest : List Char) :
    scanWith? (fuel + 1) (lexeme ++ rest) = (scanWith? fuel rest).map (token :: ·) := by
  simp only [fixedLexemes, List.mem_cons, Prod.mk.injEq, List.not_mem_nil, or_false] at h
  rcases h with ⟨rfl, rfl⟩ | ⟨rfl, rfl⟩ | ⟨rfl, rfl⟩ | ⟨rfl, rfl⟩ | ⟨rfl, rfl⟩ | ⟨rfl, rfl⟩ |
    ⟨rfl, rfl⟩ | ⟨rfl, rfl⟩ | ⟨rfl, rfl⟩ <;> rfl

/-- What is written in one way only does not start like the rest of a number. -/
theorem exists_cons_of_fixed {lexeme : List Char} {token : JsonToken}
    (h : (lexeme, token) ∈ fixedLexemes) :
    ∃ c cs, lexeme = c :: cs ∧ isDigit c = false ∧ c ≠ '.' ∧ c ≠ 'e' ∧ c ≠ 'E' := by
  simp only [fixedLexemes, List.mem_cons, Prod.mk.injEq, List.not_mem_nil, or_false] at h
  rcases h with ⟨rfl, -⟩ | ⟨rfl, -⟩ | ⟨rfl, -⟩ | ⟨rfl, -⟩ | ⟨rfl, -⟩ | ⟨rfl, -⟩ | ⟨rfl, -⟩ |
    ⟨rfl, -⟩ | ⟨rfl, -⟩ <;> exact ⟨_, _, rfl, by decide, by decide, by decide, by decide⟩

/-- The text of a number starts with a digit or a minus. -/
theorem NumberText.exists_cons (n : NumberText) :
    ∃ c cs, n.text = c :: cs ∧ (isDigit c = true ∨ c = '-') := by
  have hread := readNumeral?_text n stops_nil
  rw [List.append_nil] at hread
  exact head_of_readNumeral? hread

theorem length_lexeme_pos {lexeme : List Char} {token : JsonToken} (h : Lexeme lexeme token) :
    0 < lexeme.length := by
  cases h with
  | fixed h =>
    obtain ⟨c, cs, rfl, -⟩ := exists_cons_of_fixed h
    exact Nat.succ_pos _
  | string h => exact Nat.succ_pos _
  | number n =>
    obtain ⟨c, cs, htext, -⟩ := n.exists_cons
    rw [htext]
    exact Nat.succ_pos _

/-- What starts with no number does not go on with one. -/
theorem Lexes.stops {text : List Char} {tokens : List JsonToken} (h : Lexes text tokens)
    (hhead : ∀ token ∈ tokens.head?, token.isNumber = false) : Stops text := by
  cases h with
  | nil => exact stops_nil
  | blank hc more =>
    simp only [isBlank, Bool.or_eq_true, decide_eq_true_eq] at hc
    rcases hc with ((rfl | rfl) | rfl) | rfl <;>
      exact stops_cons (by decide) (by decide) (by decide) (by decide) _
  | token h more =>
    cases h with
    | fixed h =>
      obtain ⟨c, cs, rfl, hdigit, hpoint, he, hE⟩ := exists_cons_of_fixed h
      exact stops_cons hdigit hpoint he hE _
    | string h => exact stops_cons (by decide) (by decide) (by decide) (by decide) _
    | number n => cases hhead _ rfl

/-- **The scanner finds the tokens that a text consists of.** -/
theorem scanWith?_of_lexes {text : List Char} {tokens : List JsonToken} (h : Lexes text tokens)
    (hapart : NumbersApart tokens) :
    ∀ fuel : ℕ, text.length ≤ fuel → scanWith? fuel text = some tokens := by
  induction h with
  | nil =>
    intro fuel _
    cases fuel <;> rfl
  | blank hc more ih =>
    intro fuel hfuel
    obtain ⟨fuel, rfl⟩ : ∃ n, fuel = n + 1 := ⟨fuel - 1, by simp at hfuel; omega⟩
    unfold scanWith?
    rw [if_pos hc]
    exact ih hapart fuel (by simpa using hfuel)
  | @token lexeme text token tokens h more ih =>
    intro fuel hfuel
    obtain ⟨hnext, hrest⟩ := List.isChain_cons.mp hapart
    have hpos := length_lexeme_pos h
    rw [List.length_append] at hfuel
    obtain ⟨fuel, rfl⟩ : ∃ n, fuel = n + 1 := ⟨fuel - 1, by omega⟩
    have hmore := ih hrest fuel (by omega)
    cases h with
    | fixed h => rw [scanWith?_fixed h, hmore, Option.map_some]
    | @string inner s h =>
      have hread := readString?_text h text ((inner ++ '"' :: text).length + 1)
        (by simp only [List.length_append]; omega)
      simp only [List.cons_append, List.append_assoc, List.nil_append]
      rw [scanWith?_quote, hread, Option.bind_some, hmore, Option.map_some]
    | number n =>
      -- what follows is no number, so the number ends where its text does
      have hstops : Stops text := more.stops fun next hhead => by
        rcases hnext next hhead with h | h
        · cases h
        · exact h
      have hread := readNumeral?_text n hstops
      obtain ⟨c, cs, htext, hc⟩ := n.exists_cons
      rw [htext, List.cons_append] at hread ⊢
      rw [scanWith?_number hc, hread, Option.bind_some, hmore, Option.map_some]

theorem scan?_of_lexes {text : List Char} {tokens : List JsonToken} (h : Lexes text tokens)
    (hapart : NumbersApart tokens) : scan? text = some tokens :=
  scanWith?_of_lexes h hapart text.length le_rfl

/-- **What the scanner finds are the tokens of the text.** -/
theorem lexes_of_scanWith? : ∀ (fuel : ℕ) {text : List Char} {tokens : List JsonToken},
    scanWith? fuel text = some tokens → Lexes text tokens
  | fuel, [], tokens, h => by
    have hnil : tokens = [] := by
      cases fuel <;> exact (Option.some.inj h).symm
    rw [hnil]
    exact .nil
  | 0, _ :: _, _, h => by cases h
  | fuel + 1, c :: cs, tokens, h => by
    have hfixed : ∀ (lexeme : List Char) {rest : List Char} {token : JsonToken},
        (lexeme, token) ∈ fixedLexemes → (scanWith? fuel rest).map (token :: ·) = some tokens →
        Lexes (lexeme ++ rest) tokens := by
      intro lexeme rest token hmem h
      obtain ⟨more, hmore, rfl⟩ := Option.map_eq_some_iff.mp h
      exact .token (.fixed hmem) (lexes_of_scanWith? fuel hmore)
    unfold scanWith? at h
    by_cases hblank : isBlank c = true
    · rw [if_pos hblank] at h
      exact .blank hblank (lexes_of_scanWith? fuel h)
    rw [if_neg hblank] at h
    split at h
    case h_7 => exact hfixed ['n', 'u', 'l', 'l'] (by simp [fixedLexemes]) h
    case h_8 => exact hfixed ['t', 'r', 'u', 'e'] (by simp [fixedLexemes]) h
    case h_9 => exact hfixed ['f', 'a', 'l', 's', 'e'] (by simp [fixedLexemes]) h
    case h_10 rest =>
      simp only [Option.bind_eq_bind, Option.bind_eq_some_iff, Option.pure_def, Option.some.injEq,
        Prod.exists] at h
      obtain ⟨s, after, hread, more, hmore, rfl⟩ := h
      obtain ⟨inner, hinner, rfl⟩ := exists_of_readString? _ hread
      have hlexes := Lexes.token (.string hinner) (lexes_of_scanWith? fuel hmore)
      simpa using hlexes
    case h_11 =>
      simp only [Option.bind_eq_bind, Option.bind_eq_some_iff, Option.pure_def, Option.some.injEq,
        Prod.exists] at h
      obtain ⟨n, after, hread, more, hmore, rfl⟩ := h
      obtain ⟨number, htext, rfl⟩ := exists_of_readNumeral? hread
      rw [htext]
      exact .token (.number number) (lexes_of_scanWith? fuel hmore)
    all_goals exact hfixed [_] (by simp [fixedLexemes]) h

theorem lexes_of_scan? {text : List Char} {tokens : List JsonToken}
    (h : scan? text = some tokens) : Lexes text tokens :=
  lexes_of_scanWith? text.length h

end JsonToken

/-! ### Texts of trees -/

namespace Json

open JsonToken

/-- A token that is no number keeps apart those before it and those after it. -/
theorem numbersApart_cons {token : JsonToken} {tokens : List JsonToken}
    (htoken : token.isNumber = false) (h : NumbersApart tokens) : NumbersApart (token :: tokens) :=
  List.isChain_cons.mpr ⟨fun _ _ => .inl htoken, h⟩

mutual

/-- The tokens of a tree, with more behind them that do not start with a number. -/
theorem numbersApart_tokens : ∀ (t : Json) {more : List JsonToken}, NumbersApart more →
    (∀ token ∈ more.head?, token.isNumber = false) → NumbersApart (t.tokens ++ more)
  | .null, _, hmore, _ => numbersApart_cons rfl hmore
  | .bool _, _, hmore, _ => numbersApart_cons rfl hmore
  | .number _, _, hmore, hhead => List.isChain_cons.mpr ⟨fun token h => .inr (hhead token h), hmore⟩
  | .string _, _, hmore, _ => numbersApart_cons rfl hmore
  | .array [], _, hmore, _ => numbersApart_cons rfl (numbersApart_cons rfl hmore)
  | .array (item :: rest), more, hmore, _ => by
    have hitem := numbersApart_tokens item (numbersApart_itemTokens rest hmore) (by
      cases rest <;> simp [itemTokens, isNumber])
    have hopen : NumbersApart (.openArray :: (item.tokens ++ (itemTokens rest ++ more))) :=
      numbersApart_cons rfl hitem
    simpa [tokens] using hopen
  | .object [], _, hmore, _ => numbersApart_cons rfl (numbersApart_cons rfl hmore)
  | .object ((key, item) :: rest), more, hmore, _ => by
    have hitem := numbersApart_tokens item (numbersApart_memberTokens rest hmore) (by
      cases rest <;> simp [memberTokens, isNumber])
    have hpair : NumbersApart (.openObject :: .string key :: .colon ::
        (item.tokens ++ (memberTokens rest ++ more))) :=
      numbersApart_cons rfl (numbersApart_cons rfl (numbersApart_cons rfl hitem))
    simpa [tokens, pairTokens] using hpair

theorem numbersApart_itemTokens : ∀ (items : List Json) {more : List JsonToken},
    NumbersApart more → NumbersApart (itemTokens items ++ more)
  | [], _, hmore => numbersApart_cons rfl hmore
  | item :: rest, more, hmore => by
    have hitem := numbersApart_tokens item (numbersApart_itemTokens rest hmore) (by
      cases rest <;> simp [itemTokens, isNumber])
    have hcomma : NumbersApart (.comma :: (item.tokens ++ (itemTokens rest ++ more))) :=
      numbersApart_cons rfl hitem
    simpa [itemTokens] using hcomma

theorem numbersApart_memberTokens : ∀ (members : List (String × Json)) {more : List JsonToken},
    NumbersApart more → NumbersApart (memberTokens members ++ more)
  | [], _, hmore => numbersApart_cons rfl hmore
  | (key, item) :: rest, more, hmore => by
    have hitem := numbersApart_tokens item (numbersApart_memberTokens rest hmore) (by
      cases rest <;> simp [memberTokens, isNumber])
    have hpair : NumbersApart (.comma :: .string key :: .colon ::
        (item.tokens ++ (memberTokens rest ++ more))) :=
      numbersApart_cons rfl (numbersApart_cons rfl (numbersApart_cons rfl hitem))
    simpa [memberTokens, pairTokens] using hpair

end

/-- **The texts of a tree are those that consist of its tokens**, if it is nested no deeper than
is allowed, and no other text is read as it. -/
theorem ofText?_eq_some_iff {cs : List Char} {t : Json} :
    ofText? cs = some t ↔ Lexes cs t.tokens ∧ t.depth ≤ maxDepth := by
  constructor
  · intro h
    obtain ⟨tokens, hscan, htokens⟩ := Option.bind_eq_some_iff.mp h
    obtain ⟨rfl, hdepth⟩ := ofTokens?_eq_some_iff.mp htokens
    exact ⟨lexes_of_scan? hscan, hdepth⟩
  · rintro ⟨hlexes, hdepth⟩
    have hapart : NumbersApart t.tokens := by
      have h := numbersApart_tokens t (List.isChain_nil : NumbersApart []) (by simp)
      rwa [List.append_nil] at h
    rw [ofText?, scan?_of_lexes hlexes hapart, Option.bind_some]
    exact ofTokens?_eq_some_iff.mpr ⟨rfl, hdepth⟩

end Json
end TypedConfig
