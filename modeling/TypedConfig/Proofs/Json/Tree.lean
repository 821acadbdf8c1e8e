/-
# Trees and their tokens

The tokens of a tree (`Json.tokens`) are read as that tree, if it is nested no deeper
than the reader has room for, and not at all if it is deeper (`Json.ofTokens?_tokens`).
The steps that are allowed for are always enough: one for each token would be. And
whatever tokens a tree was read from are its own, and it is nested no deeper than the
reader had room for (`Json.ofTokens?_eq_some_iff`).

Key definitions: `Json.tokens`, `Json.depth`.
Key theorems: `Json.read?_tokens`, `Json.ofTokens?_tokens`, `Json.ofTokens?_eq_some_iff`.
-/
import Mathlib
import TypedConfig.Json.Tree

namespace TypedConfig
namespace Json

/-! ### Writing tokens -/

mutual

/-- The tokens of a tree. -/
def tokens : Json → List JsonToken
  | .null => [.null]
  | .bool b => [.bool b]
  | .number n => [.number n]
  | .string s => [.string s]
  | .array [] => [.openArray, .closeArray]
  | .array (item :: rest) => .openArray :: (tokens item ++ itemTokens rest)
  | .object [] => [.openObject, .closeObject]
  | .object (member :: rest) => .openObject :: (pairTokens member ++ memberTokens rest)

/-- The items after the first, each behind a comma, and the end of the array. -/
def itemTokens : List Json → List JsonToken
  | [] => [.closeArray]
  | item :: rest => .comma :: (tokens item ++ itemTokens rest)

/-- A key and its value. -/
def pairTokens : String × Json → List JsonToken
  | (key, item) => .string key :: .colon :: tokens item

/-- The members after the first, each behind a comma, and the end of the object. -/
def memberTokens : List (String × Json) → List JsonToken
  | [] => [.closeObject]
  | member :: rest => .comma :: (pairTokens member ++ memberTokens rest)

end

mutual

/-- How many arrays and objects are open at once. -/
def depth : Json → ℕ
  | .array items => itemsDepth items + 1
  | .object members => membersDepth members + 1
  | _ => 0

def itemsDepth : List Json → ℕ
  | [] => 0
  | item :: rest => max (depth item) (itemsDepth rest)

def pairDepth : String × Json → ℕ
  | (_, item) => depth item

def membersDepth : List (String × Json) → ℕ
  | [] => 0
  | member :: rest => max (pairDepth member) (membersDepth rest)

end

/-- A tree does not start with the end of an array. -/
theorem tokens_head (t : Json) : ∃ a ts, t.tokens = a :: ts ∧ a ≠ .closeArray := by
  cases t with
  | array items => cases items <;> exact ⟨_, _, rfl, by simp⟩
  | object members => cases members <;> exact ⟨_, _, rfl, by simp⟩
  | _ => exact ⟨_, _, rfl, by simp⟩

/-! ### Reading them -/

/-- What a reader with room for `depth` does with the tokens of a tree. -/
def ReadsTree (depth : ℕ) (t : Json) : Prop :=
  ∀ (fuel : ℕ) (more : List JsonToken), t.tokens.length ≤ fuel →
    read? fuel depth (t.tokens ++ more) = if t.depth ≤ depth then some (t, more) else none

theorem readItems?_tokens {depth : ℕ} : ∀ (rest : List Json) {item : Json},
    ReadsTree depth item → (∀ t ∈ rest, ReadsTree depth t) →
    ∀ (fuel : ℕ) (more : List JsonToken), (item.tokens ++ itemTokens rest).length ≤ fuel →
      readItems? fuel depth (item.tokens ++ itemTokens rest ++ more) =
        if max item.depth (itemsDepth rest) ≤ depth then some (item :: rest, more) else none
  | [], item, hitem, _, fuel, more, hfuel => by
    simp only [itemTokens, List.length_append, List.length_singleton] at hfuel
    obtain ⟨fuel, rfl⟩ : ∃ n, fuel = n + 1 := ⟨fuel - 1, by omega⟩
    have hread := hitem fuel (.closeArray :: more) (by omega)
    simp only [itemTokens, List.append_assoc, List.singleton_append, readItems?, hread, itemsDepth,
      Nat.max_zero]
    split_ifs <;> rfl
  | t :: rest, item, hitem, hrest, fuel, more, hfuel => by
    simp only [itemTokens, List.length_append, List.length_cons] at hfuel
    obtain ⟨fuel, rfl⟩ : ∃ n, fuel = n + 1 := ⟨fuel - 1, by omega⟩
    have hread := hitem fuel (.comma :: (t.tokens ++ itemTokens rest ++ more)) (by omega)
    have hnext := readItems?_tokens rest (hrest t List.mem_cons_self)
      (fun u hu => hrest u (List.mem_cons_of_mem t hu)) fuel more
      (by simp only [List.length_append]; omega)
    simp only [itemTokens, List.append_assoc, List.cons_append] at hread hnext ⊢
    simp only [readItems?, hread, itemsDepth]
    by_cases hdepth : item.depth ≤ depth
    · simp only [hdepth, if_true, hnext, max_le_iff, true_and]
      split_ifs <;> rfl
    · simp only [hdepth, if_false, max_le_iff, false_and]

theorem readMembers?_tokens {depth : ℕ} : ∀ (rest : List (String × Json)) (key : String)
    {item : Json}, ReadsTree depth item → (∀ m ∈ rest, ReadsTree depth m.2) →
    ∀ (fuel : ℕ) (more : List JsonToken),
      (pairTokens (key, item) ++ memberTokens rest).length ≤ fuel →
      readMembers? fuel depth (pairTokens (key, item) ++ memberTokens rest ++ more) =
        if max item.depth (membersDepth rest) ≤ depth then some ((key, item) :: rest, more) else none
  | [], key, item, hitem, _, fuel, more, hfuel => by
    simp only [pairTokens, memberTokens, List.length_append, List.length_cons] at hfuel
    obtain ⟨fuel, rfl⟩ : ∃ n, fuel = n + 1 := ⟨fuel - 1, by omega⟩
    have hread := hitem fuel (.closeObject :: more) (by omega)
    simp only [pairTokens, memberTokens, List.append_assoc, List.nil_append, List.cons_append,
      readMembers?, hread, membersDepth, Nat.max_zero]
    split_ifs <;> rfl
  | (key', t) :: rest, key, item, hitem, hrest, fuel, more, hfuel => by
    simp only [pairTokens, memberTokens, List.length_append, List.length_cons] at hfuel
    obtain ⟨fuel, rfl⟩ : ∃ n, fuel = n + 1 := ⟨fuel - 1, by omega⟩
    have hread := hitem fuel (.comma :: (pairTokens (key', t) ++ memberTokens rest ++ more))
      (by omega)
    have hnext := readMembers?_tokens rest key' (hrest (key', t) List.mem_cons_self)
      (fun m hm => hrest m (List.mem_cons_of_mem (key', t) hm)) fuel more
      (by simp only [pairTokens, List.length_append, List.length_cons]; omega)
    simp only [pairTokens, memberTokens, List.append_assoc, List.cons_append] at hread hnext ⊢
    simp only [readMembers?, hread, membersDepth, pairDepth]
    by_cases hdepth : item.depth ≤ depth
    · simp only [hdepth, if_true, hnext, max_le_iff, true_and]
      split_ifs <;> rfl
    · simp only [hdepth, if_false, max_le_iff, false_and]

mutual

/-- **The tokens of a tree read as the tree where there is room for it, and nowhere else.** -/
theorem read?_tokens : ∀ (t : Json) (depth : ℕ), ReadsTree depth t
  | .null, depth, fuel, more, hfuel => by
    obtain ⟨fuel, rfl⟩ : ∃ n, fuel = n + 1 := ⟨fuel - 1, by simp [tokens] at hfuel; omega⟩
    simp [tokens, read?, Json.depth]
  | .bool b, depth, fuel, more, hfuel => by
    obtain ⟨fuel, rfl⟩ : ∃ n, fuel = n + 1 := ⟨fuel - 1, by simp [tokens] at hfuel; omega⟩
    simp [tokens, read?, Json.depth]
  | .number n, depth, fuel, more, hfuel => by
    obtain ⟨fuel, rfl⟩ : ∃ n, fuel = n + 1 := ⟨fuel - 1, by simp [tokens] at hfuel; omega⟩
    simp [tokens, read?, Json.depth]
  | .string s, depth, fuel, more, hfuel => by
    obtain ⟨fuel, rfl⟩ : ∃ n, fuel = n + 1 := ⟨fuel - 1, by simp [tokens] at hfuel; omega⟩
    simp [tokens, read?, Json.depth]
  | .array [], depth, fuel, more, hfuel => by
    obtain ⟨fuel, rfl⟩ : ∃ n, fuel = n + 1 := ⟨fuel - 1, by simp [tokens] at hfuel; omega⟩
    cases depth <;> simp [tokens, read?, Json.depth, itemsDepth]
  | .array (item :: rest), depth, fuel, more, hfuel => by
    simp only [tokens, List.length_cons] at hfuel
    obtain ⟨fuel, rfl⟩ : ∃ n, fuel = n + 1 := ⟨fuel - 1, by omega⟩
    have hhead : ∀ ts, item.tokens ++ itemTokens rest ++ more ≠ .closeArray :: ts := by
      obtain ⟨a, as, hitem, ha⟩ := tokens_head item
      intro ts h
      simp only [hitem, List.cons_append, List.cons.injEq] at h
      exact ha h.1
    cases depth with
    | zero => simp [tokens, read?, Json.depth]
    | succ depth =>
      have hread := readItems?_tokens rest (read?_tokens item depth) (read?_items rest depth) fuel more
        (by omega)
      simp only [tokens, List.cons_append, read?, hread, Json.depth, itemsDepth,
        Nat.add_le_add_iff_right]
      split_ifs <;> rfl
  | .object [], depth, fuel, more, hfuel => by
    obtain ⟨fuel, rfl⟩ : ∃ n, fuel = n + 1 := ⟨fuel - 1, by simp [tokens] at hfuel; omega⟩
    cases depth <;> simp [tokens, read?, Json.depth, membersDepth]
  | .object ((key, item) :: rest), depth, fuel, more, hfuel => by
    simp only [tokens, List.length_cons] at hfuel
    obtain ⟨fuel, rfl⟩ : ∃ n, fuel = n + 1 := ⟨fuel - 1, by omega⟩
    cases depth with
    | zero => simp [tokens, read?, Json.depth]
    | succ depth =>
      have hread := readMembers?_tokens rest key (read?_tokens item depth)
        (read?_members rest depth) fuel more (by omega)
      simp only [pairTokens, List.cons_append] at hread
      simp only [tokens, pairTokens, List.cons_append, read?, hread, Json.depth, membersDepth,
        pairDepth, Nat.add_le_add_iff_right]
      split_ifs <;> rfl

theorem read?_items : ∀ (items : List Json) (depth : ℕ), ∀ t ∈ items, ReadsTree depth t
  | [], _, t, ht => by cases ht
  | item :: rest, depth, t, ht => by
    rcases List.mem_cons.mp ht with heq | ht
    · rw [heq]
      exact read?_tokens item depth
    · exact read?_items rest depth t ht

theorem read?_members : ∀ (members : List (String × Json)) (depth : ℕ),
    ∀ m ∈ members, ReadsTree depth m.2
  | [], _, m, hm => by cases hm
  | (_, item) :: rest, depth, m, hm => by
    rcases List.mem_cons.mp hm with heq | hm
    · rw [heq]
      exact read?_tokens item depth
    · exact read?_members rest depth m hm

end

/-- Whole texts: a tree reads back if it is nested no deeper than is allowed. -/
theorem ofTokens?_tokens (t : Json) :
    ofTokens? t.tokens = if t.depth ≤ maxDepth then some t else none := by
  have hread := read?_tokens t maxDepth (2 * t.tokens.length + 1) [] (by omega)
  rw [List.append_nil] at hread
  unfold ofTokens?
  rw [hread]
  by_cases hdepth : t.depth ≤ maxDepth <;> simp [hdepth]

/-! ### What is read -/

/-- **What a reader gives is nested no deeper than it has room for.** -/
theorem depth_le_of_read? (fuel : ℕ) :
    (∀ {depth : ℕ} {tokens rest : List JsonToken} {t : Json},
      read? fuel depth tokens = some (t, rest) → t.depth ≤ depth) ∧
    (∀ {depth : ℕ} {tokens rest : List JsonToken} {items : List Json},
      readItems? fuel depth tokens = some (items, rest) → itemsDepth items ≤ depth) ∧
    (∀ {depth : ℕ} {tokens rest : List JsonToken} {members : List (String × Json)},
      readMembers? fuel depth tokens = some (members, rest) → membersDepth members ≤ depth) := by
  induction fuel with
  | zero => simp [read?, readItems?, readMembers?]
  | succ fuel ih =>
    obtain ⟨tree, items, members⟩ := ih
    refine ⟨?tree, ?items, ?members⟩
    case tree =>
      intro depth tokens rest t h
      unfold read? at h
      split at h
      all_goals simp only [Option.some.injEq, Prod.mk.injEq, Option.map_eq_some_iff, Prod.exists,
        reduceCtorEq] at h
      · obtain ⟨rfl, -⟩ := h
        exact Nat.zero_le _
      · obtain ⟨rfl, -⟩ := h
        exact Nat.zero_le _
      · obtain ⟨rfl, -⟩ := h
        exact Nat.zero_le _
      · obtain ⟨rfl, -⟩ := h
        exact Nat.zero_le _
      · obtain ⟨rfl, -⟩ := h
        simp [Json.depth, itemsDepth]
      · obtain ⟨inner, _, hread, rfl, -⟩ := h
        simpa [Json.depth] using items hread
      · obtain ⟨rfl, -⟩ := h
        simp [Json.depth, membersDepth]
      · obtain ⟨inner, _, hread, rfl, -⟩ := h
        simpa [Json.depth] using members hread
    case items =>
      intro depth tokens rest ts h
      unfold readItems? at h
      split at h
      · rename_i item _ hread
        cases h
        simpa [itemsDepth] using tree hread
      · rename_i item _ hread
        simp only [Option.map_eq_some_iff, Prod.mk.injEq, Prod.exists] at h
        obtain ⟨more, _, hmore, rfl, -⟩ := h
        exact max_le (tree hread) (items hmore)
      · cases h
    case members =>
      intro depth tokens rest ms h
      unfold readMembers? at h
      split at h
      · split at h
        · rename_i item _ hread
          cases h
          simpa [membersDepth, pairDepth] using tree hread
        · rename_i item _ hread
          simp only [Option.map_eq_some_iff, Prod.mk.injEq, Prod.exists] at h
          obtain ⟨more, _, hmore, rfl, -⟩ := h
          exact max_le (tree hread) (members hmore)
        · cases h
      · cases h

/-- **What a reader gives is the tree of the tokens that it has gone past.** -/
theorem append_of_read? (fuel : ℕ) :
    (∀ {depth : ℕ} {tokens rest : List JsonToken} {t : Json},
      read? fuel depth tokens = some (t, rest) → tokens = t.tokens ++ rest) ∧
    (∀ {depth : ℕ} {tokens rest : List JsonToken} {items : List Json},
      readItems? fuel depth tokens = some (items, rest) →
        ∃ item more, items = item :: more ∧ tokens = item.tokens ++ itemTokens more ++ rest) ∧
    (∀ {depth : ℕ} {tokens rest : List JsonToken} {members : List (String × Json)},
      readMembers? fuel depth tokens = some (members, rest) →
        ∃ member more, members = member :: more ∧
          tokens = pairTokens member ++ memberTokens more ++ rest) := by
  induction fuel with
  | zero => simp [read?, readItems?, readMembers?]
  | succ fuel ih =>
    obtain ⟨tree, items, members⟩ := ih
    refine ⟨?tree, ?items, ?members⟩
    case tree =>
      intro depth ts rest t h
      unfold read? at h
      split at h
      all_goals simp only [Option.some.injEq, Prod.mk.injEq, Option.map_eq_some_iff, Prod.exists,
        reduceCtorEq] at h
      case h_6 =>
        obtain ⟨inner, _, hread, rfl, rfl⟩ := h
        obtain ⟨item, more, rfl, htokens⟩ := items hread
        simp [htokens, tokens]
      case h_8 =>
        obtain ⟨inner, _, hread, rfl, rfl⟩ := h
        obtain ⟨member, more, rfl, htokens⟩ := members hread
        simp [htokens, tokens]
      all_goals
        obtain ⟨rfl, rfl⟩ := h
        rfl
    case items =>
      intro depth ts rest is h
      unfold readItems? at h
      split at h
      · rename_i item _ hread
        cases h
        exact ⟨item, [], rfl, by simp [tree hread, itemTokens]⟩
      · rename_i item _ hread
        simp only [Option.map_eq_some_iff, Prod.mk.injEq, Prod.exists] at h
        obtain ⟨next, _, hnext, rfl, rfl⟩ := h
        obtain ⟨item', more, rfl, htokens⟩ := items hnext
        exact ⟨item, item' :: more, rfl, by simp [tree hread, htokens, itemTokens]⟩
      · cases h
    case members =>
      intro depth ts rest ms h
      unfold readMembers? at h
      split at h
      · split at h
        · rename_i key _ _ item _ hread
          cases h
          exact ⟨(key, item), [], rfl, by simp [tree hread, memberTokens, pairTokens]⟩
        · rename_i key _ _ item _ hread
          simp only [Option.map_eq_some_iff, Prod.mk.injEq, Prod.exists] at h
          obtain ⟨next, _, hnext, rfl, rfl⟩ := h
          obtain ⟨member, more, rfl, htokens⟩ := members hnext
          exact ⟨(key, item), member :: more, rfl,
            by simp [tree hread, htokens, memberTokens, pairTokens]⟩
        · cases h
      · cases h

/-- **The tokens of a tree, and no others, are read as the tree.** -/
theorem ofTokens?_eq_some_iff {tokens : List JsonToken} {t : Json} :
    ofTokens? tokens = some t ↔ tokens = t.tokens ∧ t.depth ≤ maxDepth := by
  constructor
  · intro h
    unfold ofTokens? at h
    split at h
    · rename_i hread
      cases h
      have htokens := (append_of_read? _).1 hread
      rw [List.append_nil] at htokens
      exact ⟨htokens, (depth_le_of_read? _).1 hread⟩
    · cases h
  · rintro ⟨rfl, hdepth⟩
    rw [ofTokens?_tokens, if_pos hdepth]

theorem depth_le_of_ofText? {cs : List Char} {t : Json} (h : ofText? cs = some t) :
    t.depth ≤ maxDepth := by
  obtain ⟨tokens, -, htokens⟩ := Option.bind_eq_some_iff.mp h
  exact (ofTokens?_eq_some_iff.mp htokens).2

end Json
end TypedConfig
