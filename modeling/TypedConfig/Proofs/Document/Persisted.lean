/-
# Documents that are written alike

A document is written as its persisted form is, in which every value is in its
persisted form (`Document.persisted`). Two documents are written alike if they
have the same keys with values that are written alike under each, which is to have
one persisted form (`writtenAlike_iff`), and then every encoding gives them the
same bytes (`WrittenAlike.encode_eq`).

Key definitions: `Document.persisted`, `Document.WrittenAlike`, `Encoding.Holds`.
Key theorems: `Document.writtenAlike_iff`, `Document.WrittenAlike.encode_eq`.
-/
import Mathlib
import TypedConfig.Document.Encoding
import TypedConfig.Proofs.SortedMap
import TypedConfig.Proofs.Value.Persisted

namespace TypedConfig

/-! ### The persisted form of a document -/

namespace Document

/-- The document as it is read back: every value in its persisted form. -/
def persisted (d : Document) : Document := d.mapValues Value.persisted

theorem get?_persisted (d : Document) (key : String) :
    d.persisted.get? key = (d.get? key).map Value.persisted :=
  SortedMap.get?_mapValues _ d key

/-- Two documents have the same keys, and values that are written alike under each of them. -/
def WrittenAlike (d e : Document) : Prop :=
  ∀ key, Option.Rel (fun a b => a.samePersisted b = true) (d.get? key) (e.get? key)

/-- Being written alike is having one persisted form. -/
theorem writtenAlike_iff (d e : Document) : WrittenAlike d e ↔ persisted d = persisted e := by
  have hrel : ∀ a? b? : Option Value, Option.Rel (fun a b => a.samePersisted b = true) a? b? ↔
      a?.map Value.persisted = b?.map Value.persisted := by
    intro a? b?
    cases a? <;> cases b? <;> simp [Value.samePersisted_iff]
  constructor
  · intro h
    refine SortedMap.ext_get? fun key => ?_
    rw [get?_persisted, get?_persisted]
    exact (hrel _ _).mp (h key)
  · intro h key
    rw [hrel, ← get?_persisted, ← get?_persisted, h]

/-- Whether two lists of entries have the same keys, and values that are written alike, place by
place. -/
def entriesAlike : List (String × Value) → List (String × Value) → Bool
  | [], [] => true
  | a :: as, b :: bs => a.1 == b.1 && a.2.samePersisted b.2 && entriesAlike as bs
  | _, _ => false

theorem entriesAlike_iff : ∀ as bs : List (String × Value), entriesAlike as bs = true ↔
    as.map (fun e => (e.1, e.2.persisted)) = bs.map fun e => (e.1, e.2.persisted)
  | [], [] => by simp [entriesAlike]
  | [], _ :: _ => by simp [entriesAlike]
  | _ :: _, [] => by simp [entriesAlike]
  | a :: as, b :: bs => by
    simp [entriesAlike, Value.samePersisted_iff, entriesAlike_iff as bs]

instance (d e : Document) : Decidable (WrittenAlike d e) :=
  decidable_of_iff (entriesAlike d.toList e.toList = true) <| by
    rw [entriesAlike_iff, writtenAlike_iff, persisted, persisted, SortedMap.mapValues,
      SortedMap.mapValues, SortedMap.mk.injEq]

theorem WrittenAlike.refl (d : Document) : WrittenAlike d d := (writtenAlike_iff d d).mpr rfl

theorem WrittenAlike.symm {d e : Document} (h : WrittenAlike d e) : WrittenAlike e d :=
  (writtenAlike_iff e d).mpr ((writtenAlike_iff d e).mp h).symm

theorem WrittenAlike.trans {d e f : Document} (h : WrittenAlike d e) (h' : WrittenAlike e f) :
    WrittenAlike d f :=
  (writtenAlike_iff d f).mpr (((writtenAlike_iff d e).mp h).trans ((writtenAlike_iff e f).mp h'))

theorem persisted_writtenAlike (d : Document) : WrittenAlike (persisted d) d := by
  rw [writtenAlike_iff]
  refine SortedMap.ext_get? fun key => ?_
  rw [get?_persisted, get?_persisted, Option.map_map]
  cases d.get? key with
  | none => rfl
  | some v => exact congrArg some v.persisted_persisted

theorem persisted_insert (d : Document) (key : String) (v : Value) :
    persisted (d.insert key v) = (persisted d).insert key v.persisted :=
  SortedMap.mapValues_insert _ d key v

theorem persisted_erase (d : Document) (key : String) :
    persisted (d.erase key) = (persisted d).erase key :=
  SortedMap.mapValues_erase _ d key

theorem persisted_merge (d upper : Document) :
    persisted (d.merge upper) = (persisted d).merge (persisted upper) := by
  refine SortedMap.ext_get? fun key => ?_
  simp only [get?_persisted, SortedMap.get?_merge, Option.map_or]

/-- Writing a value like the one that is there leaves the document written as it is. -/
theorem writtenAlike_insert_self {d : Document} {key : String} {old v : Value}
    (hold : d.get? key = some old) (h : v.persisted = old.persisted) :
    WrittenAlike d (d.insert key v) := by
  rw [writtenAlike_iff]
  refine SortedMap.ext_get? fun other => ?_
  rw [persisted_insert, SortedMap.get?_insert, get?_persisted]
  split
  · rename_i he
    rw [← he, hold, h]
    rfl
  · rfl

/-! ### What is written -/

theorem jsonMember_persisted (layout : JsonLayout) (e : String × Value) :
    jsonMember layout (e.1, e.2.persisted) = jsonMember layout e := by
  simp only [jsonMember, Value.json_persisted]

theorem jsonMembers_persisted (layout : JsonLayout) : ∀ entries : List (String × Value),
    jsonMembers layout (entries.map fun e => (e.1, e.2.persisted)) = jsonMembers layout entries
  | [] => rfl
  | e :: rest => by
    simp only [List.map_cons, jsonMembers, jsonMember_persisted, jsonMembers_persisted layout rest]

/-- The text of a document is that of its persisted form. -/
theorem json_persisted (layout : JsonLayout) (d : Document) :
    json layout (persisted d) = json layout d := by
  obtain ⟨entries, increasing⟩ := d
  simp only [json, persisted, SortedMap.mapValues]
  cases entries with
  | nil => rfl
  | cons e rest =>
    simp only [List.map_cons, jsonEntries, jsonMember_persisted, jsonMembers_persisted]

theorem encode_persisted (encoding : Encoding) (nonce : Nonce) (d : Document) :
    encoding.encode nonce (persisted d) = encoding.encode nonce d := by
  cases encoding <;> simp only [Encoding.encode, Encoding.documentText, json_persisted]

/-- Documents that are written alike have the same bytes. -/
theorem WrittenAlike.encode_eq {d e : Document} (h : WrittenAlike d e) (encoding : Encoding)
    (nonce : Nonce) : encoding.encode nonce d = encoding.encode nonce e := by
  rw [← encode_persisted, (writtenAlike_iff d e).mp h, encode_persisted]

end Document

/-- The bytes are those of a document that is written like `entries`. -/
def Encoding.Holds (encoding : Encoding) (bytes : Bytes) (entries : Document) : Prop :=
  ∃ d nonce, encoding.encode nonce d = .ok bytes ∧ d.WrittenAlike entries

theorem Encoding.Holds.trans {encoding : Encoding} {bytes : Bytes} {d e : Document}
    (h : encoding.Holds bytes d) (hde : d.WrittenAlike e) : encoding.Holds bytes e := by
  obtain ⟨c, nonce, henc, hc⟩ := h
  exact ⟨c, nonce, henc, hc.trans hde⟩

end TypedConfig
