/-
# Documents that are written read back

A document whose floats are all finite reads back in its persisted form, in every
encoding, if no value of it is nested deeper than the reader allows for below the
object that holds it; otherwise its text is malformed to the reader
(`Encoding.decode_of_encode`). That is for every text of every string, and bit for bit
for every float.

Key definitions: `Document.tree`, `Document.maxDepth`, `Encoding.HasRoom`.
Key theorems: `Value.ofJson?_tree`, `Document.ofText?_json`, `Encoding.decode_of_encode`,
`Encoding.round_trip`.
-/
import Mathlib
import TypedConfig.Cipher.Nonces
import TypedConfig.Proofs.Cipher.Envelope
import TypedConfig.Proofs.Document.Shape
import TypedConfig.Proofs.Json.Spelling
import TypedConfig.Proofs.Schema.Integers

namespace TypedConfig

/-! ### Numbers -/

/-- The digits of an integer spell it. -/
theorem Numeral.value?_integer (n : Int64) :
    (⟨decide (n.toInt < 0), n.toInt.natAbs, none⟩ : Numeral).value? = some (.int n) := by
  have hzero : ¬ (n.toInt < 0 ∧ n.toInt.natAbs = 0) := by omega
  have hvalue : (if n.toInt < 0 then -(n.toInt.natAbs : ℤ) else n.toInt.natAbs) = n.toInt := by
    split <;> omega
  have hrange : int64? n.toInt = some n := int64?_eq_some_iff.mpr rfl
  simp only [Numeral.value?, decide_eq_true_eq, hzero, if_false, hvalue, hrange]

/-- **The numeral that a finite float is written as spells the float, bit for bit.** -/
theorem Binary64.value?_numeral (x : Binary64) (hx : x.isFinite = true) :
    x.numeral.value? = some (.float x) := by
  obtain ⟨-, d, hnumeral, hvalue, hdigits⟩ := Binary64.text_reads x hx
  have hleft : Binary.decimalLength d.digits - mostDigits = 0 := by
    have hle : Binary.decimalLength d.digits ≤ 767 :=
      (Binary.decimalLength_le_iff (by norm_num)).mpr hdigits
    unfold mostDigits
    omega
  have hread : (Binary.ofDecimal x.isNegative d.digits d.exponent : Binary64) = x := by
    rw [Binary.ofDecimal_eq_of_value_eq _ hvalue]
    exact Binary.ofDecimal_shortest (by decide) hx .even
  rw [hnumeral]
  simp only [Numeral.value?, Numeral.float?, leading, hleft, if_true, hread, hx]

/-! ### Values -/

namespace Value

mutual

/-- **The tree of a value reads as its persisted form.** -/
theorem ofJson?_tree : ∀ v : Value, v.AllFinite → ofJson? v.tree = some v.persisted
  | .bool _, _ => rfl
  | .int n, _ => Numeral.value?_integer n
  | .float x, h => Binary64.value?_numeral x h
  | .string _, _ => rfl
  | .constant _, _ => rfl
  | .array items, h => by simp only [tree, ofJson?, allOfJson?_trees items h, persisted, Option.map_some]

theorem allOfJson?_trees : ∀ vs : List Value, ItemsFinite vs →
    allOfJson? (trees vs) = some (allPersisted vs)
  | [], _ => rfl
  | v :: rest, h => by
    simp only [trees, allOfJson?, ofJson?_tree v h.1, allOfJson?_trees rest h.2, allPersisted,
      Option.map_some]

end

end Value

/-! ### Documents -/

namespace Document

/-- The members that the entries of a list are written as. -/
def members (entries : List (String × Value)) : List (String × Json) :=
  entries.map fun e => (e.1, e.2.tree)

/-- The tree that a document is written as. -/
def tree (d : Document) : Json := .object (members d.toList)

theorem membersDepth_members : ∀ entries : List (String × Value),
    Json.membersDepth (members entries) = Value.itemsDepth (entries.map (·.2))
  | [] => rfl
  | e :: rest => by
    have ih := membersDepth_members rest
    simp only [members, List.map_cons, Json.membersDepth, Json.pairDepth, Value.itemsDepth,
      Value.depth_tree] at ih ⊢
    rw [ih]

theorem depth_tree (d : Document) : (tree d).depth = depth d + 1 := by
  simp only [tree, Json.depth, membersDepth_members, depth]

theorem stops_members (layout : JsonLayout) (entries : List (String × Value)) (rest : List Char) :
    JsonToken.Stops (jsonMembers layout entries ++ (layout.lineBreak 0 ++ '\x7d' :: rest)) := by
  cases entries with
  | nil =>
    cases layout with
    | compact => exact JsonToken.stops_cons (by decide) (by decide) (by decide) (by decide) _
    | pretty => exact JsonToken.stops_cons (by decide) (by decide) (by decide) (by decide) _
  | cons e rest => exact JsonToken.stops_cons (by decide) (by decide) (by decide) (by decide) _

/-- A member in front of a text that ends its value. -/
theorem jsonMember_spells (layout : JsonLayout) (e : String × Value) (h : e.2.AllFinite)
    {text : List Char} {tokens : List JsonToken} (htext : JsonToken.Spells text tokens)
    (hstops : ∀ rest, JsonToken.Stops (text ++ rest)) :
    JsonToken.Spells (jsonMember layout e ++ text) (Json.pairTokens (e.1, e.2.tree) ++ tokens) := by
  have hvalue := (Value.json_spells layout 1 e.2 h).append htext fun rest _ => hstops rest
  have hcolon : JsonToken.Spells (layout.colon ++ (e.2.json layout 1 ++ text))
      (.colon :: (e.2.tree.tokens ++ tokens)) := by
    cases layout with
    | compact => exact hvalue.mark ':' .colon fun _ _ => rfl
    | pretty => exact (hvalue.blank (by decide)).mark ':' .colon fun _ _ => rfl
  have hkey := (JsonToken.spells_jsonString e.1).append hcolon fun rest _ => by
    cases layout <;>
      exact JsonToken.stops_cons (by decide) (by decide) (by decide) (by decide) _
  have hall := hkey.blanks (layout.lineBreak 1) (layout.isBlank_lineBreak 1)
  simpa [jsonMember, Json.pairTokens] using hall

theorem jsonMembers_spells (layout : JsonLayout) : ∀ entries : List (String × Value),
    Value.ItemsFinite (entries.map (·.2)) →
    JsonToken.Spells (jsonMembers layout entries ++ (layout.lineBreak 0 ++ ['\x7d']))
      (Json.memberTokens (members entries))
  | [], _ => (JsonToken.spells_nil.mark '\x7d' .closeObject fun _ _ => rfl).blanks _
      (layout.isBlank_lineBreak 0)
  | e :: rest, h => by
    have hrest := jsonMembers_spells layout rest h.2
    have hmember := (jsonMember_spells layout e h.1 hrest fun more => by
      simpa using stops_members layout rest more).mark ',' .comma fun _ _ => rfl
    simpa [jsonMembers, members, Json.memberTokens] using hmember

/-- **The text of a document spells the tokens of its tree, in both layouts.** -/
theorem json_spells (layout : JsonLayout) (d : Document) (h : AllFinite d) :
    JsonToken.Spells (json layout d) (tree d).tokens := by
  obtain ⟨entries, increasing⟩ := d
  simp only [json, tree, AllFinite] at h ⊢
  cases entries with
  | nil =>
    exact (JsonToken.spells_nil.mark '\x7d' .closeObject fun _ _ => rfl).mark '\x7b' .openObject
      fun _ _ => rfl
  | cons e rest =>
    have hrest := jsonMembers_spells layout rest h.2
    have hmember := (jsonMember_spells layout e h.1 hrest fun more => by
      simpa using stops_members layout rest more).mark '\x7b' .openObject fun _ _ => rfl
    simpa [jsonEntries, members, Json.tokens] using hmember

/-! ### Reading a document -/

theorem addMembers?_cons {d : Document} {key : String} {j : Json} {v : Value}
    (h : Value.ofJson? j = some v) (rest : List (String × Json)) :
    addMembers? d ((key, j) :: rest) = addMembers? (d.insert key v) rest := by
  cases j with
  | null => simp [Value.ofJson?] at h
  | _ => simp only [addMembers?, h]

/-- The members of a document are added under their keys, whatever is there already. -/
theorem addMembers?_members : ∀ (entries : List (String × Value)) (d : Document),
    KeysIncrease entries → Value.ItemsFinite (entries.map (·.2)) →
    ∃ d', addMembers? d (members entries) = some d' ∧
      ∀ key, d'.get? key = ((SortedMap.lookupIn key entries).map Value.persisted).or (d.get? key)
  | [], d, _, _ => ⟨d, rfl, fun _ => by simp [SortedMap.lookupIn]⟩
  | (k, v) :: rest, d, hinc, hfin => by
    obtain ⟨hk, hrest⟩ := List.pairwise_cons.mp hinc
    obtain ⟨d', hadd, hget⟩ := addMembers?_members rest (d.insert k v.persisted) hrest hfin.2
    refine ⟨d', ?_, fun key => ?_⟩
    · rw [members, List.map_cons, addMembers?_cons (Value.ofJson?_tree v hfin.1)]
      exact hadd
    · rw [hget key, SortedMap.get?_insert, SortedMap.lookupIn]
      by_cases hkey : k = key
      · -- the keys after it are all larger
        subst hkey
        rw [SortedMap.lookupIn_eq_none hk]
        simp
      · simp [hkey]

theorem ofMembers?_members (d : Document) (h : AllFinite d) :
    ofMembers? (members d.toList) = some d.persisted := by
  obtain ⟨d', hadd, hget⟩ := addMembers?_members d.toList SortedMap.empty d.increasing h
  rw [ofMembers?, hadd]
  congr 1
  refine SortedMap.ext_get? fun key => ?_
  rw [hget key, get?_persisted, SortedMap.get?_empty, Option.or_none]
  rfl

/-- How deep the values of a document may be nested so that it can be read: one less than the
reader has room for, because the document itself is an object. -/
def maxDepth : ℕ := 126

/-- **The text of a document reads as its persisted form, unless it is nested too deep.** -/
theorem ofText?_json (layout : JsonLayout) (d : Document) (h : AllFinite d) :
    ofText? (json layout d) = if depth d ≤ maxDepth then some d.persisted else none := by
  obtain ⟨left, -, hscan⟩ := json_spells layout d h [] (json layout d).length JsonToken.stops_nil
    (by simp)
  have htokens : JsonToken.scan? (json layout d) = some (tree d).tokens := by
    rw [List.append_nil] at hscan
    rw [JsonToken.scan?, hscan]
    simp [JsonToken.scanWith?]
  have hdepth : (tree d).depth ≤ Json.maxDepth ↔ depth d ≤ maxDepth := by
    rw [depth_tree, Json.maxDepth, maxDepth]
    omega
  simp only [ofText?, Json.ofText?, htokens, Option.bind_some, Json.ofTokens?_tokens, hdepth]
  split
  · rename_i hread
    split at hread
    · rename_i hle
      cases hread
      rw [if_pos hle, ofMembers?_members d h]
    · cases hread
  · rename_i hread
    split
    · rename_i hle
      exact absurd (if_pos hle) (hread _)
    · rfl

end Document

/-! ### Bytes -/

namespace Encoding

theorem text?_ofText (text : String) : (Bytes.ofText text).text? = some text :=
  dif_pos text.isValidUTF8

/-- A text that is there at all is read as what it spells. -/
theorem decode_plain_ofText {text : String} (h : text ≠ "") :
    Encoding.plain.decode (Bytes.ofText text) =
      orError .malformed (Document.ofText? text.toList) := by
  have hsize : (Bytes.ofText text).size ≠ 0 := fun hempty =>
    h (String.utf8ByteSize_eq_zero_iff.mp hempty)
  rw [decode, if_neg hsize]
  simp only [openText, readDocument, text?_ofText]

theorem readDocument_ofText (layout : JsonLayout) (d : Document) (h : d.AllFinite) :
    readDocument (Bytes.ofText (String.ofList (d.json layout))) =
      if d.depth ≤ Document.maxDepth then .ok d.persisted else .error .malformed := by
  simp only [readDocument, text?_ofText, String.toList_ofList, Document.ofText?_json layout d h]
  split <;> rfl

theorem documentText_size_ne_zero (encoding : Encoding) (d : Document) :
    (encoding.documentText d).size ≠ 0 := by
  obtain ⟨c, cs, hjson⟩ : ∃ c cs, d.json encoding.layout = c :: cs := by
    obtain ⟨entries, increasing⟩ := d
    cases entries <;> exact ⟨_, _, rfl⟩
  intro h
  have hempty : String.ofList (d.json encoding.layout) = "" := String.utf8ByteSize_eq_zero_iff.mp h
  rw [hjson] at hempty
  simp at hempty

theorem ofBytesList_toBytesList (bytes : Bytes) : Bytes.ofBytesList bytes.toBytesList = bytes := by
  simp [Bytes.ofBytesList, Bytes.toBytesList]

/-- **Bytes that were written read as the persisted form of the document, unless it is nested too
deep.** -/
theorem decode_of_encode {encoding : Encoding} {nonce : Nonce} {d : Document} {bytes : Bytes}
    (hd : d.AllFinite) (h : encoding.encode nonce d = .ok bytes) :
    encoding.decode bytes =
      if d.depth ≤ Document.maxDepth then .ok d.persisted else .error .malformed := by
  cases encoding with
  | plain =>
    cases h
    rw [decode, if_neg (documentText_size_ne_zero .plain d)]
    exact readDocument_ofText .pretty d hd
  | encrypted key =>
    simp only [encode] at h
    split at h
    · rename_i envelope hseal
      cases h
      have hopen := key.decrypt_encrypt nonce hseal
      have hlen := key.length_of_encrypt nonce hseal
      have hlist : (Bytes.ofBytesList envelope).toBytesList = envelope := by
        simp [Bytes.ofBytesList, Bytes.toBytesList]
      have hsize : (Bytes.ofBytesList envelope).size ≠ 0 := by
        have hlong : (Bytes.ofBytesList envelope).size = envelope.length := by
          simp [Bytes.ofBytesList, ByteArray.size]
        rw [hlong, hlen, Envelope.nonceSize]
        omega
      rw [decode, if_neg hsize]
      simp only [openText, hlist, hopen, ofBytesList_toBytesList]
      exact readDocument_ofText .compact d hd
    · cases h

/-- Whether the text of a document is not too long to be sealed. -/
def HasRoom (encoding : Encoding) (d : Document) : Prop :=
  encoding = .plain ∨ (encoding.documentText d).size ≤ Envelope.maxLength

/-- A document has bytes exactly if it has room. -/
theorem exists_encode_iff (encoding : Encoding) (nonce : Nonce) (d : Document) :
    (∃ bytes, encoding.encode nonce d = .ok bytes) ↔ encoding.HasRoom d := by
  cases encoding with
  | plain => exact ⟨fun _ => .inl rfl, fun _ => ⟨_, rfl⟩⟩
  | encrypted key =>
    have hlength : (documentText (.encrypted key) d).toBytesList.length =
        (documentText (.encrypted key) d).size := rfl
    constructor
    · rintro ⟨bytes, h⟩
      refine .inr (not_lt.mp fun hlong => ?_)
      rw [← hlength] at hlong
      simp only [encode, key.encrypt_of_lt nonce hlong] at h
      cases h
    · rintro (h | hroom)
      · cases h
      · rw [← hlength] at hroom
        simp only [encode, key.encrypt_of_le nonce hroom]
        exact ⟨_, rfl⟩

/-- **Documents that are written read back.** -/
theorem round_trip (encoding : Encoding) (nonce : Nonce) (d : Document) (finite : d.AllFinite)
    (shallow : d.depth ≤ Document.maxDepth) :
    (encoding.HasRoom d → ∃ bytes, encoding.encode nonce d = .ok bytes ∧
      encoding.decode bytes = .ok d.persisted) ∧
    (¬ encoding.HasRoom d → encoding.encode nonce d = .error (.envelope .tooLong)) := by
  have hread : ∀ bytes, encoding.encode nonce d = .ok bytes →
      encoding.decode bytes = .ok d.persisted := fun bytes h => by
    rw [decode_of_encode finite h, if_pos shallow]
  cases encoding with
  | plain => exact ⟨fun _ => ⟨_, rfl, hread _ rfl⟩, fun h => absurd (.inl rfl) h⟩
  | encrypted key =>
    have hlength : (documentText (.encrypted key) d).toBytesList.length =
        (documentText (.encrypted key) d).size := rfl
    constructor
    · rintro (h | hroom)
      · cases h
      · rw [← hlength] at hroom
        have hseal := key.encrypt_of_le nonce hroom
        have hencode : ∃ bytes, encode (.encrypted key) nonce d = .ok bytes := by
          simp only [encode, hseal]
          exact ⟨_, rfl⟩
        obtain ⟨bytes, hbytes⟩ := hencode
        exact ⟨bytes, hbytes, hread bytes hbytes⟩
    · intro hroom
      have hlong : Envelope.maxLength < (documentText (.encrypted key) d).toBytesList.length :=
        not_le.mp fun h => hroom (.inr h)
      simp only [encode, key.encrypt_of_lt nonce hlong]

/-- A document with a mixed array under the empty key: a constant, characters to escape, both a
float and an integer of one value, and the negative zero. -/
def mixedDocument : Document :=
  SortedMap.ofList
    [("", .array [.constant ⟨"app::Mode", "Fast", 1⟩, .string "a\"\n\\ü",
      .array [.float (Binary.zero true), .int 1, .float ⟨0x3ff0000000000000⟩]]),
      ("half", .float ⟨0x3fe0000000000000⟩), ("least", .int Int64.minValue)]

theorem round_trip_mixedDocument :
    mixedDocument.AllFinite ∧ mixedDocument.depth ≤ Document.maxDepth ∧
      ∃ bytes, (Encoding.encrypted ⟨Vector.replicate 32 7⟩).encode (NonceSupply.nonce 5)
        mixedDocument = .ok bytes ∧
      (Encoding.encrypted ⟨Vector.replicate 32 7⟩).decode bytes = .ok mixedDocument.persisted ∧
      mixedDocument.persisted.get? "" = some (.array [.string "Fast", .string "a\"\n\\ü",
        .array [.float (Binary.zero true), .int 1, .float ⟨0x3ff0000000000000⟩]]) := by
  have finite : mixedDocument.AllFinite :=
    ⟨⟨trivial, trivial, ⟨rfl, trivial, rfl, trivial⟩, trivial⟩, rfl, trivial, trivial⟩
  have shallow : mixedDocument.depth ≤ Document.maxDepth := by decide
  have room : (Encoding.encrypted ⟨Vector.replicate 32 7⟩).HasRoom mixedDocument :=
    .inr (by decide +kernel)
  obtain ⟨bytes, hencode, hdecode⟩ := (round_trip (.encrypted ⟨Vector.replicate 32 7⟩)
    (NonceSupply.nonce 5) mixedDocument finite shallow).1 room
  exact ⟨finite, shallow, bytes, hencode, hdecode, rfl⟩

end Encoding
end TypedConfig
