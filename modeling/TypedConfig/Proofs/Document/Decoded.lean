/-
# What is read holds no constant

A document that was read from bytes is in its persisted form: the reader makes truth
values, numbers, strings and arrays, and leaves it to later readings to resolve names.

Key theorems: `Value.persisted_of_ofJson?`, `Encoding.persisted_of_decode`,
`Encoding.documentOrEmpty_persisted`.
-/
import Mathlib
import TypedConfig.Proofs.Document.Persisted
import TypedConfig.Store.Opening

namespace TypedConfig

theorem Numeral.persisted_of_float? {n : Numeral} {scale : ℤ} {v : Value}
    (h : n.float? scale = some v) : v.persisted = v := by
  simp only [float?] at h
  split at h <;> cases h
  rfl

theorem Numeral.persisted_of_value? {n : Numeral} {v : Value} (h : n.value? = some v) :
    v.persisted = v := by
  unfold value? at h
  split at h
  · exact persisted_of_float? h
  · split at h
    · exact persisted_of_float? h
    · split at h
      · cases h
        rfl
      · exact persisted_of_float? h

namespace Value

mutual

theorem persisted_of_ofJson? : ∀ (j : Json) {v : Value}, ofJson? j = some v → v.persisted = v
  | .null, _, h => nomatch h
  | .bool _, _, h => by
    cases h
    rfl
  | .number _, _, h => Numeral.persisted_of_value? h
  | .string _, _, h => by
    cases h
    rfl
  | .array items, v, h => by
    simp only [ofJson?, Option.map_eq_some_iff] at h
    obtain ⟨vs, hvs, rfl⟩ := h
    exact congrArg Value.array (allPersisted_of_allOfJson? items hvs)
  | .object _, _, h => nomatch h

theorem allPersisted_of_allOfJson? : ∀ (js : List Json) {vs : List Value},
    allOfJson? js = some vs → allPersisted vs = vs
  | [], _, h => by
    cases h
    rfl
  | j :: rest, vs, h => by
    unfold allOfJson? at h
    split at h
    · cases h
    · rename_i v hv
      simp only [Option.map_eq_some_iff] at h
      obtain ⟨ws, hws, rfl⟩ := h
      rw [allPersisted, persisted_of_ofJson? j hv, allPersisted_of_allOfJson? rest hws]

end

end Value

namespace Document

theorem persisted_of_addMembers? : ∀ (members : List (String × Json)) {d d' : Document},
    persisted d = d → addMembers? d members = some d' → persisted d' = d'
  | [], _, _, hd, h => by
    cases h
    exact hd
  | (key, j) :: rest, d, d', hd, h => by
    unfold addMembers? at h
    split at h
    · rename_i hnil
      cases hnil
    · rename_i heq
      cases heq
      refine persisted_of_addMembers? rest ?_ h
      rw [persisted_erase, hd]
    · rename_i heq
      cases heq
      split at h
      · cases h
      · rename_i v hv
        refine persisted_of_addMembers? rest ?_ h
        rw [persisted_insert, hd, Value.persisted_of_ofJson? _ hv]

theorem persisted_of_ofText? {cs : List Char} {d : Document} (h : ofText? cs = some d) :
    persisted d = d := by
  unfold ofText? at h
  split at h
  · exact persisted_of_addMembers? _ rfl h
  · cases h

end Document

namespace Encoding

/-- **A document that was read is in its persisted form.** -/
theorem persisted_of_decode {encoding : Encoding} {bytes : Bytes} {d : Document}
    (h : encoding.decode bytes = .ok d) : d.persisted = d := by
  unfold decode at h
  split at h
  · cases h
    rfl
  · split at h
    · unfold readDocument at h
      split at h
      · rename_i text _
        cases htext : Document.ofText? text.toList with
        | none =>
          rw [htext] at h
          cases h
        | some d' =>
          rw [htext] at h
          cases h
          exact Document.persisted_of_ofText? htext
      · cases h
    · cases h

theorem documentOrEmpty_persisted (encoding : Encoding) (bytes? : Option Bytes) :
    (encoding.documentOrEmpty bytes?).persisted = encoding.documentOrEmpty bytes? := by
  unfold documentOrEmpty
  split
  · rfl
  · split
    · rename_i hdecode
      exact persisted_of_decode hdecode
    · rfl

end Encoding
end TypedConfig
