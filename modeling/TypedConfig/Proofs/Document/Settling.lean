/-
# What is read settles

Whatever text a document was read from, with duplicate keys, nulls, blanks and numbers
in any spelling, the document is one that the writer can express: no value of it is or
holds a constant, its floats are finite, since a numeral too large for one is refused,
and its arrays are nested no deeper than the reader allows for below the object that
holds them. So writing it and reading it again gives the same document, bit for bit,
and a file that was edited by hand has its final text after it was loaded and saved
once (`Encoding.settled_of_decode`).

Key theorems: `Value.isSound_of_ofJson?`, `Document.isSound_of_ofText?`,
`Encoding.isSound_of_decode`, `Encoding.settled_of_decode`.
-/
import Mathlib
import TypedConfig.Proofs.Document.Decoded
import TypedConfig.Proofs.Document.RoundTrip

namespace TypedConfig

/-! ### Values -/

/-- A value that can be read back: its floats are finite, and it is nested no deeper than `n`. -/
structure Value.IsSound (n : ℕ) (v : Value) : Prop where
  finite : v.AllFinite
  shallow : v.depth ≤ n

namespace Numeral

theorem isSound_of_float? {n : Numeral} {scale : ℤ} {v : Value} (h : n.float? scale = some v) :
    v.IsSound 0 := by
  simp only [float?] at h
  split at h
  · rename_i hfinite
    cases h
    exact ⟨hfinite, le_rfl⟩
  · cases h

theorem isSound_of_value? {n : Numeral} {v : Value} (h : n.value? = some v) : v.IsSound 0 := by
  unfold value? at h
  split at h
  · exact isSound_of_float? h
  · split at h
    · exact isSound_of_float? h
    · split at h
      · cases h
        exact ⟨trivial, le_rfl⟩
      · exact isSound_of_float? h

end Numeral

namespace Value

theorem IsSound.mono {m n : ℕ} {v : Value} (h : v.IsSound m) (hmn : m ≤ n) : v.IsSound n :=
  ⟨h.finite, h.shallow.trans hmn⟩

mutual

/-- **The value of a tree is finite throughout, and nested no deeper than the tree.** -/
theorem isSound_of_ofJson? : ∀ (j : Json) {v : Value}, ofJson? j = some v → v.IsSound j.depth
  | .null, _, h => nomatch h
  | .bool _, _, h => by
    cases h
    exact ⟨trivial, le_rfl⟩
  | .number _, _, h => Numeral.isSound_of_value? h
  | .string _, _, h => by
    cases h
    exact ⟨trivial, le_rfl⟩
  | .array items, v, h => by
    simp only [ofJson?, Option.map_eq_some_iff] at h
    obtain ⟨vs, hvs, rfl⟩ := h
    obtain ⟨finite, shallow⟩ := itemsSound_of_allOfJson? items hvs
    exact ⟨finite, Nat.add_le_add_right shallow 1⟩
  | .object _, _, h => nomatch h

theorem itemsSound_of_allOfJson? : ∀ (js : List Json) {vs : List Value},
    allOfJson? js = some vs → ItemsFinite vs ∧ itemsDepth vs ≤ Json.itemsDepth js
  | [], _, h => by
    cases h
    exact ⟨trivial, le_rfl⟩
  | j :: rest, vs, h => by
    unfold allOfJson? at h
    split at h
    · cases h
    · rename_i v hv
      simp only [Option.map_eq_some_iff] at h
      obtain ⟨ws, hws, rfl⟩ := h
      obtain ⟨finite, shallow⟩ := itemsSound_of_allOfJson? rest hws
      have hsound := isSound_of_ofJson? j hv
      exact ⟨⟨hsound.finite, finite⟩, max_le_max hsound.shallow shallow⟩

end

mutual

/-- A persisted form holds no constant. -/
theorem holdsConstant_persisted : ∀ v : Value, v.persisted.holdsConstant = false
  | .bool _ => rfl
  | .int _ => rfl
  | .float _ => rfl
  | .string _ => rfl
  | .constant _ => rfl
  | .array items => anyHoldsConstant_allPersisted items

theorem anyHoldsConstant_allPersisted : ∀ vs : List Value,
    anyHoldsConstant (allPersisted vs) = false
  | [] => rfl
  | v :: rest => by
    rw [allPersisted, anyHoldsConstant, holdsConstant_persisted v,
      anyHoldsConstant_allPersisted rest]
    rfl

end

end Value

/-! ### Documents -/

namespace Document

/-- All values of a document can be read back. -/
def IsSound (n : ℕ) (d : Document) : Prop := ∀ key v, d.get? key = some v → v.IsSound n

theorem isSound_empty (n : ℕ) : IsSound n SortedMap.empty := fun _ _ h => nomatch h

theorem IsSound.insert {n : ℕ} {d : Document} (h : IsSound n d) (key : String) {v : Value}
    (hv : v.IsSound n) : IsSound n (d.insert key v) := by
  intro other u hu
  rw [SortedMap.get?_insert] at hu
  split at hu
  · cases hu
    exact hv
  · exact h other u hu

theorem IsSound.erase {n : ℕ} {d : Document} (h : IsSound n d) (key : String) :
    IsSound n (d.erase key) := by
  intro other u hu
  rw [SortedMap.get?_erase] at hu
  split at hu
  · cases hu
  · exact h other u hu

theorem IsSound.allFinite {n : ℕ} {d : Document} (h : IsSound n d) : AllFinite d :=
  allFinite_iff.mpr fun key v hv => (h key v hv).finite

theorem IsSound.depth_le {n : ℕ} {d : Document} (h : IsSound n d) : depth d ≤ n :=
  depth_le_iff.mpr fun key v hv => (h key v hv).shallow

/-- Adding members keeps a document sound, whichever of them replace or take out others. -/
theorem isSound_of_addMembers? {n : ℕ} : ∀ (members : List (String × Json)) {d d' : Document},
    IsSound n d → Json.membersDepth members ≤ n → addMembers? d members = some d' → IsSound n d'
  | [], _, _, hd, _, h => by
    cases h
    exact hd
  | (key, j) :: rest, d, d', hd, hdepth, h => by
    obtain ⟨hj, hrest⟩ : j.depth ≤ n ∧ Json.membersDepth rest ≤ n := max_le_iff.mp hdepth
    unfold addMembers? at h
    split at h
    · rename_i hnil
      cases hnil
    · rename_i heq
      cases heq
      exact isSound_of_addMembers? rest (hd.erase key) hrest h
    · rename_i heq
      cases heq
      split at h
      · cases h
      · rename_i v hv
        have hsound := (Value.isSound_of_ofJson? j hv).mono hj
        exact isSound_of_addMembers? rest (hd.insert key hsound) hrest h

/-- **A document that a text spells can be written and read back.** -/
theorem isSound_of_ofText? {cs : List Char} {d : Document} (h : ofText? cs = some d) :
    IsSound maxDepth d := by
  unfold ofText? at h
  split at h
  · rename_i members htree
    -- the object that holds the members is open as well
    have hdepth := Json.depth_le_of_ofText? htree
    rw [Json.depth, Json.maxDepth] at hdepth
    exact isSound_of_addMembers? members (isSound_empty maxDepth)
      (Nat.le_of_succ_le_succ hdepth) h
  · cases h

end Document

/-! ### Bytes -/

namespace Encoding

variable {encoding : Encoding} {bytes : Bytes} {d : Document}

theorem isSound_of_readDocument (h : readDocument bytes = .ok d) :
    d.IsSound Document.maxDepth := by
  unfold readDocument at h
  split at h
  · rename_i text _
    cases htext : Document.ofText? text.toList with
    | none =>
      rw [htext] at h
      cases h
    | some _ =>
      rw [htext] at h
      cases h
      exact Document.isSound_of_ofText? htext
  · cases h

theorem isSound_of_decode (h : encoding.decode bytes = .ok d) : d.IsSound Document.maxDepth := by
  unfold decode at h
  split at h
  · cases h
    exact Document.isSound_empty _
  · split at h
    · exact isSound_of_readDocument h
    · cases h

/-- A value under a key of a document that was read holds no constant. -/
theorem holdsConstant_of_decode (h : encoding.decode bytes = .ok d) {key : String} {v : Value}
    (hv : d.get? key = some v) : v.holdsConstant = false := by
  have hsame := congrArg (·.get? key) (persisted_of_decode h)
  simp only [Document.get?_persisted, hv, Option.map_some, Option.some.injEq] at hsame
  rw [← hsame]
  exact v.holdsConstant_persisted

/-- What a text is read as can be computed: it is enough to see that the document is written like
the one it is said to be. -/
theorem decode_ofText {text : String} {d : Document} (named : d.persisted = d)
    (h : (Document.ofText? text.toList).any (fun e => decide (e.WrittenAlike d)) = true) :
    Encoding.plain.decode (Bytes.ofText text) = .ok d := by
  cases htext : Document.ofText? text.toList with
  | none =>
    rw [htext] at h
    cases h
  | some e =>
    rw [htext] at h
    have halike : e.WrittenAlike d := of_decide_eq_true h
    have hsame : e = d := by
      rw [← Document.persisted_of_ofText? htext, (Document.writtenAlike_iff e d).mp halike, named]
    have hsome : text ≠ "" := by
      rintro rfl
      cases htext
    rw [decode_plain_ofText hsome, htext, hsame]
    rfl

/-- **What is read settles.** A document that was read from bytes, whatever they are, has no
constant and no float that is not finite, and is not too deep to be read again; what is written
for it, if it has room, is read as the same document, and has the same bytes from then on. -/
theorem settled_of_decode (h : encoding.decode bytes = .ok d) :
    (∀ key v, d.get? key = some v →
      v.holdsConstant = false ∧ v.AllFinite ∧ v.depth ≤ Document.maxDepth) ∧
    (∀ nonce, (encoding.HasRoom d →
        ∃ again, encoding.encode nonce d = .ok again ∧ encoding.decode again = .ok d) ∧
      (¬ encoding.HasRoom d → encoding.encode nonce d = .error (.envelope .tooLong))) ∧
    (encoding = .plain → ∀ nonce, ∃ again, encoding.encode nonce d = .ok again ∧
      ∃ d', encoding.decode again = .ok d' ∧ ∀ nonce', encoding.encode nonce' d' = .ok again) := by
  have hsound := isSound_of_decode h
  have htrip : ∀ nonce, _ := fun nonce =>
    round_trip encoding nonce d hsound.allFinite hsound.depth_le
  rw [persisted_of_decode h] at htrip
  refine ⟨fun key v hv => ⟨holdsConstant_of_decode h hv, (hsound key v hv).finite,
    (hsound key v hv).shallow⟩, htrip, ?_⟩
  rintro rfl nonce
  obtain ⟨again, hencode, hdecode⟩ := (htrip nonce).1 (.inl rfl)
  exact ⟨again, hencode, d, hdecode, fun nonce' => hencode⟩

/-- A text that was edited by hand: a key that is taken out again and one that is replaced, blanks,
an escaped character, a mixed array, and numbers that are no integers: minus zero, one with an
exponent, and one past 64 bits. -/
def editedText : String :=
  "\x7b\"a\":1, \"b\": 2,\n\"a\" : null, \"b\":[-0, 1e2, [9223372036854775808, "
    ++ "\"\\u00fc\"], -5]\x7d "

/-- What it is read as. -/
def editedDocument : Document :=
  SortedMap.ofList [("b", .array [.float (Binary.zero true), .float ⟨0x4059000000000000⟩,
    .array [.float ⟨0x43e0000000000000⟩, .string "ü"], .int (-5)])]

/-- The text that it settles at. -/
def settledText : String :=
  "\x7b\n  \"b\": [\n    -0.0,\n    100.0,\n    [\n      9.223372036854776e+18,\n      \"ü\"\n"
    ++ "    ],\n    -5\n  ]\n\x7d"

theorem settled_of_decode_editedText :
    Encoding.plain.decode (Bytes.ofText editedText) = .ok editedDocument ∧
      ∀ nonce, Encoding.plain.encode nonce editedDocument = .ok (Bytes.ofText settledText) ∧
        Encoding.plain.decode (Bytes.ofText settledText) = .ok editedDocument := by
  have hdecode : Encoding.plain.decode (Bytes.ofText editedText) = .ok editedDocument :=
    decode_ofText rfl (by decide +kernel)
  have hsettled : Encoding.plain.documentText editedDocument = Bytes.ofText settledText := by
    decide +kernel
  refine ⟨hdecode, fun nonce => ?_⟩
  obtain ⟨again, hencode, hagain⟩ := ((settled_of_decode hdecode).2.1 nonce).1 (.inl rfl)
  have hsame : Encoding.plain.encode nonce editedDocument = .ok (Bytes.ofText settledText) :=
    congrArg Except.ok hsettled
  rw [hsame] at hencode
  cases hencode
  exact ⟨hsame, hagain⟩

end Encoding
end TypedConfig
