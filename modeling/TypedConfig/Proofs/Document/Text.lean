/-
# The text determines the document

Values that have the same text, in whatever layout and at whatever depth, are written
alike, and so are documents (`Value.json_eq_iff`, `Document.json_eq_iff`): the text
spells the tokens of a tree, the tokens are those of one tree only, and the tree reads
as the persisted form. No bound on the nesting is needed, since it is the writer that
is looked at here and not the reader, which stops at some depth.

The text does not depend on the order in which the entries are met. Its members stand
in the order of their keys, byte by byte (`Document.text_determines`).

Key theorems: `Json.tokens_injective`, `Value.json_eq_iff`, `Document.json_eq_iff`,
`Document.text_determines`.
-/
import Mathlib
import TypedConfig.Proofs.Document.RoundTrip
import TypedConfig.Proofs.Text.ByteOrder

namespace TypedConfig

/-! ### Texts, tokens and trees -/

theorem Bytes.ofText_injective {s t : String} (h : Bytes.ofText s = Bytes.ofText t) : s = t := by
  have htext := congrArg Bytes.text? h
  rw [Encoding.text?_ofText, Encoding.text?_ofText] at htext
  exact Option.some.inj htext

/-- A whole text spells one list of tokens at most. -/
theorem JsonToken.Spells.unique {text : List Char} {tokens tokens' : List JsonToken}
    (h : Spells text tokens) (h' : Spells text tokens') : tokens = tokens' := by
  have hscan : ∀ {ts : List JsonToken}, Spells text ts → scan? text = some ts := by
    intro ts hts
    obtain ⟨left, -, hread⟩ := hts [] text.length stops_nil (by simp)
    rw [List.append_nil] at hread
    rw [scan?, hread]
    simp [scanWith?]
  exact Option.some.inj ((hscan h).symm.trans (hscan h'))

/-- A tree is known by its tokens: a reader that has room for both gives both. -/
theorem Json.tokens_injective {t u : Json} (h : t.tokens = u.tokens) : t = u := by
  have ht := read?_tokens t (max t.depth u.depth) t.tokens.length [] le_rfl
  have hu := read?_tokens u (max t.depth u.depth) u.tokens.length [] le_rfl
  rw [if_pos (le_max_left _ _)] at ht
  rw [if_pos (le_max_right _ _), ← h] at hu
  exact congrArg Prod.fst (Option.some.inj (ht.symm.trans hu))

/-! ### Values -/

namespace Value

/-- Finite values with one tree are written alike. -/
theorem persisted_eq_of_tree_eq {a b : Value} (ha : a.AllFinite) (hb : b.AllFinite)
    (h : a.tree = b.tree) : a.persisted = b.persisted := by
  have hread := congrArg ofJson? h
  rw [ofJson?_tree a ha, ofJson?_tree b hb] at hread
  exact Option.some.inj hread

/-- **Values have the same text exactly if they are written alike.** -/
theorem json_eq_iff {a b : Value} (ha : a.AllFinite) (hb : b.AllFinite) (layout : JsonLayout)
    (level : ℕ) : a.json layout level = b.json layout level ↔ a.samePersisted b = true := by
  rw [samePersisted_iff]
  constructor
  · intro h
    have hspells := json_spells layout level a ha
    rw [h] at hspells
    have htokens := hspells.unique (json_spells layout level b hb)
    exact persisted_eq_of_tree_eq ha hb (Json.tokens_injective htokens)
  · intro h
    rw [← json_persisted, h, json_persisted]

end Value

/-! ### Documents -/

namespace Document

/-- **Documents have the same text exactly if they are written alike.** -/
theorem json_eq_iff {d e : Document} (hd : d.AllFinite) (he : e.AllFinite)
    (layout : JsonLayout) : d.json layout = e.json layout ↔ d.WrittenAlike e := by
  rw [writtenAlike_iff]
  constructor
  · intro h
    have hspells := json_spells layout d hd
    rw [h] at hspells
    have htree : tree d = tree e := Json.tokens_injective (hspells.unique (json_spells layout e he))
    have hmembers : members d.toList = members e.toList := Json.object.inj htree
    have hread := congrArg ofMembers? hmembers
    rw [ofMembers?_members d hd, ofMembers?_members e he] at hread
    exact Option.some.inj hread
  · intro h
    rw [← json_persisted, h, json_persisted]

theorem allFinite_of_persistable {d : Document}
    (h : ∀ key v, d.get? key = some v → v.checkPersistable = .ok ()) : d.AllFinite :=
  allFinite_iff.mpr fun key v hv => v.allFinite_of_checkPersistable (h key v hv)

/-- **The text determines the document.** Values that can be written have the same text exactly if
they are written alike. Documents of such values have the same bytes, in plain text, exactly if
they have the same keys with values that are written alike. And the bytes of a document do not
depend on the order in which its entries are met: they are those of its entries in the order of
their keys, in which the bytes of the keys strictly increase. -/
theorem text_determines :
    (∀ a b : Value, a.checkPersistable = .ok () → b.checkPersistable = .ok () →
      (a.samePersisted b = true ↔ a.jsonText = b.jsonText) ∧
        ∀ layout level,
          (a.samePersisted b = true ↔ a.json layout level = b.json layout level)) ∧
    (∀ d e : Document, (∀ key v, d.get? key = some v → v.checkPersistable = .ok ()) →
      (∀ key v, e.get? key = some v → v.checkPersistable = .ok ()) →
      ∀ nonce nonce',
        (Encoding.plain.encode nonce d = Encoding.plain.encode nonce' e ↔ d.WrittenAlike e)) ∧
    (∀ (d : Document) (met : List (String × Value)), met.Perm d.toList →
      ∃ members : List (String × Value), members.Perm met ∧
        members.Pairwise (fun a b =>
          (Bytes.ofText a.1).toBytesList < (Bytes.ofText b.1).toBytesList) ∧
        ∀ nonce, Encoding.plain.encode nonce (SortedMap.ofList met) =
          .ok (Bytes.ofText (String.ofList (jsonEntries .pretty members)))) := by
  refine ⟨fun a b ha hb => ?values, fun d e hd he nonce nonce' => ?documents,
    fun d met hmet => ?order⟩
  case values =>
    have hfinite := Value.json_eq_iff (a.allFinite_of_checkPersistable ha)
      (b.allFinite_of_checkPersistable hb)
    refine ⟨?_, fun layout level => (hfinite layout level).symm⟩
    rw [Value.jsonText, Value.jsonText, String.ofList_inj]
    exact (hfinite .compact 0).symm
  case documents =>
    rw [← json_eq_iff (allFinite_of_persistable hd) (allFinite_of_persistable he) .pretty]
    exact ⟨fun h => String.ofList_inj.mp (Bytes.ofText_injective (Except.ok.inj h)),
      fun h => congrArg (fun cs => Except.ok (Bytes.ofText (String.ofList cs))) h⟩
  case order =>
    refine ⟨d.toList, hmet.symm, d.increasing.imp Text.bytes_lt_of_lt, fun nonce => ?_⟩
    rw [SortedMap.ofList_of_perm hmet]
    rfl

/-- Entries met in the order of falling keys: the first key is past the 16-bit characters, and
two of the values are constants of one name, of different enumerations. -/
def metEntries : List (String × Value) :=
  [("😀", .array [.constant ⟨"app::Mode", "Auto", 0⟩]), ("\uffff", .float (Binary.zero true)),
    ("a", .array [.constant ⟨"app::legacy::Mode", "Auto", 1⟩]), ("", .float (Binary.zero false))]

theorem text_determines_metEntries :
    (∃ a b : Value, (SortedMap.ofList metEntries).get? "😀" = some a ∧
      (SortedMap.ofList metEntries).get? "a" = some b ∧ a.isEqual b = false ∧
      a.jsonText = b.jsonText) ∧
    (∃ a b : Value, (SortedMap.ofList metEntries).get? "" = some a ∧
      (SortedMap.ofList metEntries).get? "\uffff" = some b ∧ a.isEqual b = true ∧
      a.jsonText ≠ b.jsonText) ∧
    ((∀ key v, (SortedMap.ofList metEntries).get? key = some v → v.checkPersistable = .ok ()) ∧
      ∀ nonce nonce', Encoding.plain.encode nonce (SortedMap.ofList metEntries) ≠
        Encoding.plain.encode nonce' SortedMap.empty) ∧
    metEntries.Perm (SortedMap.ofList metEntries).toList ∧
    ∃ members : List (String × Value), members.Perm metEntries ∧
      members.Pairwise (fun a b =>
        (Bytes.ofText a.1).toBytesList < (Bytes.ofText b.1).toBytesList) ∧
      ∀ nonce, Encoding.plain.encode nonce (SortedMap.ofList metEntries) =
        .ok (Bytes.ofText (String.ofList (jsonEntries .pretty members))) := by
  obtain ⟨values, documents, order⟩ := text_determines
  have hlist : (SortedMap.ofList metEntries).toList = metEntries.reverse := rfl
  have hperm : metEntries.Perm (SortedMap.ofList metEntries).toList := by
    rw [hlist]
    exact metEntries.reverse_perm.symm
  have hcheck : ∀ key v, (SortedMap.ofList metEntries).get? key = some v →
      v.checkPersistable = .ok () := by
    intro key v hv
    rw [SortedMap.get?_eq_some_iff, hlist] at hv
    simp only [metEntries, List.mem_reverse, List.mem_cons, Prod.mk.injEq, List.not_mem_nil,
      or_false] at hv
    rcases hv with ⟨-, rfl⟩ | ⟨-, rfl⟩ | ⟨-, rfl⟩ | ⟨-, rfl⟩ <;> rfl
  refine ⟨⟨_, _, rfl, rfl, rfl, ?_⟩, ⟨_, _, rfl, rfl, rfl, ?_⟩, ⟨hcheck, fun nonce nonce' h => ?_⟩,
    hperm, order _ _ hperm⟩
  · exact (values _ _ rfl rfl).1.mp rfl
  · exact fun h => absurd ((values _ _ rfl rfl).1.mpr h) (by decide)
  · have halike := (documents _ SortedMap.empty hcheck (fun _ _ h => nomatch h) nonce nonce').mp h
    have hentry := halike ""
    exact absurd hentry (by rintro ⟨⟩)

end Document
end TypedConfig
