/-
# Two documents in one store

A store is opened from two layers: a seed, and what its medium holds. A layer offers the
entries of the document that it decodes to; one that is missing, or decodes to none,
offers nothing (`Encoding.Offers`). Under each key the store has what the medium offers,
and else what the seed does (`Store.IsLayered`). Opening fails only where the medium
cannot be read, and leaves the medium alone (`Workspace.opened_merges`).

A member that is null is no entry, so it hides nothing of the seed. After a save, what the
medium offers is what was saved.

Key definitions: `Encoding.Offers`, `Store.IsLayered`.
Key theorems: `Encoding.get?_documentOrEmpty_iff`, `Encoding.not_offers_of_null`,
`Store.load_isLayered`, `Workspace.opened_merges`.
-/
import Mathlib
import TypedConfig.Proofs.Document.Members
import TypedConfig.Proofs.Store.Admission
import TypedConfig.Proofs.Store.Keeping

namespace TypedConfig

/-! ### What a layer offers -/

/-- **Whatever was added, each key has what the last member of it stands for.** -/
theorem Document.get?_of_addMembers? (key : String) :
    ∀ (members : List (String × Json)) {d d' : Document}, addMembers? d members = some d' →
      d'.get? key = (Json.lastMember? key members).elim (d.get? key) Value.ofJson?
  | [], _, _, h => by
    cases h
    rfl
  | (k, j) :: rest, d, d', h => by
    -- the first member leaves its value, which is none if it is null
    obtain ⟨d₁, hrest, hget⟩ : ∃ d₁ : Document, addMembers? d₁ rest = some d' ∧
        d₁.get? key = if key = k then Value.ofJson? j else d.get? key := by
      by_cases hnull : j = .null
      · subst hnull
        refine ⟨d.erase k, h, ?_⟩
        rw [SortedMap.get?_erase]
        simp only [eq_comm, Value.ofJson?]
      · cases hvalue : Value.ofJson? j with
        | none =>
          rw [addMembers?_refused hnull hvalue] at h
          cases h
        | some v =>
          rw [addMembers?_cons hvalue] at h
          refine ⟨d.insert k v, h, ?_⟩
          rw [SortedMap.get?_insert]
          simp only [eq_comm]
    rw [get?_of_addMembers? key rest hrest, hget, Json.lastMember?_cons]
    cases Json.lastMember? key rest with
    | some last => rfl
    | none => by_cases hkey : key = k <;> simp [hkey]

namespace Encoding

variable {encoding : Encoding} {bytes? : Option Bytes} {bytes : Bytes} {key : String}
  {value : Value}

/-- The bytes are there, they are a document, and it has the value under the key. -/
def Offers (encoding : Encoding) (bytes? : Option Bytes) (key : String) (value : Value) : Prop :=
  ∃ bytes d, bytes? = some bytes ∧ encoding.decode bytes = .ok d ∧ d.get? key = some value

theorem offers_some_iff {d : Document} (h : encoding.decode bytes = .ok d) :
    encoding.Offers (some bytes) key value ↔ d.get? key = some value := by
  constructor
  · rintro ⟨bytes', d', hbytes, hdecode, hget⟩
    cases hbytes
    rw [h] at hdecode
    cases hdecode
    exact hget
  · intro hget
    exact ⟨bytes, d, rfl, h, hget⟩

/-- Bytes that are no document offer nothing. -/
theorem not_offers_of_error {e : DocumentError} (h : encoding.decode bytes = .error e) :
    ¬ encoding.Offers (some bytes) key value := by
  rintro ⟨bytes', d, hbytes, hdecode, -⟩
  cases hbytes
  rw [h] at hdecode
  cases hdecode

/-- **What counts as a document has exactly what the bytes offer.** -/
theorem get?_documentOrEmpty_iff :
    (encoding.documentOrEmpty bytes?).get? key = some value ↔ encoding.Offers bytes? key value := by
  cases bytes? with
  | none =>
    constructor
    · intro h
      cases h
    · rintro ⟨_, _, h, -⟩
      cases h
  | some bytes =>
    cases hdecode : encoding.decode bytes with
    | ok d =>
      rw [offers_some_iff hdecode]
      simp only [documentOrEmpty, hdecode]
    | error e =>
      have hnot : ¬ encoding.Offers (some bytes) key value := not_offers_of_error hdecode
      simp only [documentOrEmpty, hdecode, hnot, iff_false]
      intro h
      cases h

theorem get?_documentOrEmpty_eq_none_iff :
    (encoding.documentOrEmpty bytes?).get? key = none ↔
      ∀ value, ¬ encoding.Offers bytes? key value := by
  simp only [← get?_documentOrEmpty_iff, Option.eq_none_iff_forall_ne_some, ne_eq]

/-- Bytes in which a document text is found decode to what the text spells. -/
theorem decode_of_openText {text : String}
    (hopen : encoding.openText bytes = .ok (Bytes.ofText text))
    (hsome : text ≠ "") :
    encoding.decode bytes = orError .malformed (Document.ofText? text.toList) := by
  have hsize : bytes.size ≠ 0 := by
    intro hempty
    cases encoding with
    | plain =>
      cases hopen
      exact hsome (String.utf8ByteSize_eq_zero_iff.mp hempty)
    | encrypted k =>
      have hlist : bytes.toBytesList = [] := List.eq_nil_of_length_eq_zero hempty
      simp only [openText, hlist] at hopen
      cases hopen
  rw [decode, if_neg hsize]
  simp only [hopen, readDocument, text?_ofText]

/-- **A key whose last member is null is not offered.** -/
theorem not_offers_of_null {text : String} {members : List (String × Json)}
    (hopen : encoding.openText bytes = .ok (Bytes.ofText text))
    (lexes : JsonToken.Lexes text.toList (Json.object members).tokens)
    (shallow : (Json.object members).depth ≤ Json.maxDepth)
    (null : Json.lastMember? key members = some .null) :
    ¬ encoding.Offers (some bytes) key value := by
  have htree : Json.ofText? text.toList = some (.object members) :=
    Json.ofText?_eq_some_iff.mpr ⟨lexes, shallow⟩
  have hsome : text ≠ "" := by
    rintro rfl
    cases htree
  have hdecode := decode_of_openText hopen hsome
  rw [Document.ofText?, htree] at hdecode
  dsimp only at hdecode
  cases hmembers : Document.ofMembers? members with
  | none =>
    rw [hmembers] at hdecode
    exact not_offers_of_error hdecode
  | some d =>
    rw [hmembers] at hdecode
    have hget := Document.get?_of_addMembers? key members hmembers
    rw [null] at hget
    rw [offers_some_iff hdecode, hget]
    intro h
    cases h

end Encoding

/-! ### Two layers -/

/-- What a store has of an upper and a lower layer. -/
structure Store.IsLayered (s : Store) (encoding : Encoding) (upper? lower? : Option Bytes) :
    Prop where
  /-- Each key has what the upper layer offers, else what the lower one does, and else nothing. -/
  entry : ∀ key value, s.get? key = some value ↔ encoding.Offers upper? key value ∨
    (∀ v, ¬ encoding.Offers upper? key v) ∧ encoding.Offers lower? key value
  /-- An upper layer that is no document leaves the lower one as it is. -/
  lowerAlone : ∀ bytes e, upper? = some bytes → encoding.decode bytes = .error e →
    ∀ key value, s.get? key = some value ↔ encoding.Offers lower? key value
  /-- A lower layer that is no document leaves the upper one as it is. -/
  upperAlone : ∀ bytes e, lower? = some bytes → encoding.decode bytes = .error e →
    ∀ key value, s.get? key = some value ↔ encoding.Offers upper? key value
  /-- A null in the upper layer does not hide the lower one. -/
  null : ∀ bytes text members key, upper? = some bytes →
    encoding.openText bytes = .ok (Bytes.ofText text) →
    JsonToken.Lexes text.toList (Json.object members).tokens →
    (Json.object members).depth ≤ Json.maxDepth → Json.lastMember? key members = some .null →
    ∀ value, s.get? key = some value ↔ encoding.Offers lower? key value

/-- **What was loaded is layered**, the medium over the seed. -/
theorem Store.load_isLayered (o : OpenOptions) (location : Location) (stored? : Option Bytes) :
    (Store.load o location stored?).IsLayered o.encoding stored? o.seed? := by
  have hentry : ∀ key value, (Store.load o location stored?).get? key = some value ↔
      o.encoding.Offers stored? key value ∨
        (∀ v, ¬ o.encoding.Offers stored? key v) ∧ o.encoding.Offers o.seed? key value := by
    intro key value
    show ((o.encoding.documentOrEmpty o.seed?).merge
      (o.encoding.documentOrEmpty stored?)).get? key = some value ↔ _
    rw [SortedMap.get?_merge, Option.or_eq_some_iff, Encoding.get?_documentOrEmpty_iff,
      Encoding.get?_documentOrEmpty_eq_none_iff, Encoding.get?_documentOrEmpty_iff]
  refine ⟨hentry, fun bytes e hupper hdecode key value => ?_,
    fun bytes e hlower hdecode key value => ?_,
    fun bytes text members key hupper hopen lexes shallow null value => ?_⟩
  · have hnot : ∀ v, ¬ o.encoding.Offers stored? key v := fun v =>
      hupper ▸ Encoding.not_offers_of_error hdecode
    simp only [hentry, hnot, not_false_eq_true, implies_true, true_and, false_or]
  · have hnot : ¬ o.encoding.Offers o.seed? key value :=
      hlower ▸ Encoding.not_offers_of_error hdecode
    simp only [hentry, hnot, and_false, or_false]
  · have hnot : ∀ v, ¬ o.encoding.Offers stored? key v := fun v =>
      hupper ▸ Encoding.not_offers_of_null hopen lexes shallow null
    simp only [hentry, hnot, not_false_eq_true, implies_true, true_and, false_or]

namespace Workspace

variable {o : OpenOptions} {env : Environment} {media : Media} {location : Location}

theorem opened_of_read_error (located : o.location env = .ok location) {e : MediumError}
    (unreadable : media.read location = .error e) (nonces : NonceSupply) :
    Workspace.opened o env media nonces = .error (.medium location e) := by
  simp only [Workspace.opened, Store.opened, located, unreadable, Except.map]

theorem opened_of_read_ok (located : o.location env = .ok location) {stored? : Option Bytes}
    (readable : media.read location = .ok stored?) (nonces : NonceSupply) :
    Workspace.opened o env media nonces =
      .ok { store := Store.load o location stored?, media, nonces } := by
  simp only [Workspace.opened, Store.opened, located, readable, Except.map]

/-- **What a save has written is on the medium**, and decodes to the entries as they are
written. -/
theorem read_of_saved {w w' : Workspace} (finite : w.store.entries.AllFinite)
    (saved : w.perform .save = (.saved true, w')) :
    ∃ bytes, w'.media.read w'.store.location = .ok (some bytes) ∧
      ∀ d, w'.store.encoding.decode bytes = .ok d → d = w'.store.entries.persisted := by
  simp only [Workspace.perform, Workspace.save] at saved
  rcases hsave : w.store.save w.nonces.next.1 w.media with ⟨result, store, media⟩
  rw [hsave] at saved
  cases w.store.saveEnd w.nonces.next.1 w.media hsave with
  | written hopen dirty henc hwrite =>
    cases saved
    refine ⟨_, Media.read_of_write hwrite, fun d hdecode => ?_⟩
    have hread := Encoding.decode_of_encode finite (Store.encode_of_encoded henc)
    have hdecode : w.store.encoding.decode _ = .ok d := hdecode
    rw [hread] at hdecode
    split at hdecode <;> cases hdecode
    rfl
  | _ => cases saved

/-- **The medium counts before the seed, key by key.** Where the location is known, a store opens
unless its medium cannot be read. It then has nothing to write and its marks are zero, the medium
is as it was, and the entries are those of the medium over those of the seed. So wherever a save
has written a store that was opened and worked on in any way, a store that is opened with any seed
has the entries that were saved, and of the seed those under other keys, if what was saved can be
decoded. -/
theorem opened_merges (located : o.location env = .ok location) :
    (∀ (media : Media) (nonces : NonceSupply),
      ((∃ e, Workspace.opened o env media nonces = .error e ∧ e.isMedium = true) ↔
        ∃ e, media.read location = .error e) ∧
      (∀ e, media.read location = .error e →
        Workspace.opened o env media nonces = .error (.medium location e)) ∧
      (∀ stored?, media.read location = .ok stored? →
        ∃ w, Workspace.opened o env media nonces = .ok w ∧ w.media = media ∧
          w.store.marks.set = 0 ∧ w.store.marks.write = 0 ∧ w.store.isDirty = false ∧
          w.store.IsLayered o.encoding stored? o.seed?)) ∧
    (∀ (o₀ : OpenOptions) (env₀ : Environment) (media₀ : Media) (nonces₀ : NonceSupply)
      (w₀ w' : Workspace) (cs : List StoreCommand),
      Workspace.opened o₀ env₀ media₀ nonces₀ = .ok w₀ →
      (w₀.run cs).2.perform .save = (.saved true, w') →
      w'.store.location = location → w'.store.encoding = o.encoding →
      ∃ bytes, w'.media.read location = .ok (some bytes) ∧
        ∀ d, o.encoding.decode bytes = .ok d →
          ∃ w, Workspace.opened o env w'.media w'.nonces = .ok w ∧
            ∀ key value, w.store.get? key = some value ↔
              (∃ saved, w'.store.get? key = some saved ∧ value = saved.persisted) ∨
              w'.store.get? key = none ∧ o.encoding.Offers o.seed? key value) := by
  refine ⟨fun media nonces => ⟨⟨?medium, ?failed⟩, ?error, ?merged⟩, ?saved⟩
  case medium =>
    rintro ⟨e, hopened, -⟩
    cases hread : media.read location with
    | error e => exact ⟨e, rfl⟩
    | ok stored? =>
      rw [opened_of_read_ok located hread] at hopened
      cases hopened
  case failed =>
    rintro ⟨e, hread⟩
    exact ⟨_, opened_of_read_error located hread nonces, rfl⟩
  case error =>
    intro e hread
    exact opened_of_read_error located hread nonces
  case merged =>
    intro stored? hread
    exact ⟨_, opened_of_read_ok located hread nonces, rfl, rfl, rfl, rfl,
      Store.load_isLayered o location stored?⟩
  case saved =>
    intro o₀ env₀ media₀ nonces₀ w₀ w' cs hopened saved hlocation hencoding
    obtain ⟨bytes, hread, hdecoded⟩ := read_of_saved (run_allFinite hopened cs) saved
    rw [hlocation] at hread
    rw [hencoding] at hdecoded
    refine ⟨bytes, hread, fun d hdecode => ?_⟩
    cases hdecoded d hdecode
    refine ⟨_, opened_of_read_ok located hread w'.nonces, fun key value => ?_⟩
    have hlayered := Store.load_isLayered o location (some bytes)
    rw [hlayered.entry key value]
    simp only [Encoding.offers_some_iff hdecode, Document.get?_persisted]
    cases hsaved : w'.store.get? key with
    | none =>
      have hnone : w'.store.entries.get? key = none := hsaved
      simp [hnone]
    | some saved =>
      have hsome : w'.store.entries.get? key = some saved := hsaved
      simp [hsome, eq_comm]

/-- A seed with two entries. -/
def seedText : String := "\x7b\"a\": 1, \"b\": 2\x7d"

/-- A text that was edited by hand: it has one entry of its own, and a null. -/
def nullText : String := "\x7b\"b\": null, \"c\": 3\x7d"

/-- How a store in memory is opened over the seed. -/
def seeded : OpenOptions :=
  { address := .named "s", seed? := some (Bytes.ofText seedText), inMemory := true }

/-- Media of which the one in memory holds bytes. -/
def mediaOf (bytes : Bytes) : Media :=
  { blank.media with memory.contents? := some bytes }

/-- The null does not hide the seed, bytes that are no document leave it alone, and an entry that
was saved replaces its own. -/
theorem opened_merges_nullAndSaved :
    (∃ w, Workspace.opened seeded {} (mediaOf (Bytes.ofText nullText)) {} = .ok w ∧
      w.store.isDirty = false ∧ w.store.get? "a" = some (.int 1) ∧
      w.store.get? "b" = some (.int 2) ∧ w.store.get? "c" = some (.int 3)) ∧
    (∃ w, Workspace.opened seeded {} (mediaOf (Bytes.ofText "[")) {} = .ok w ∧
      w.store.get? "b" = some (.int 2)) ∧
    ∃ w' w, (blank.run [.putValue "b" (.int 7)]).2.perform .save = (.saved true, w') ∧
      Workspace.opened seeded {} w'.media w'.nonces = .ok w ∧
      w.store.get? "a" = some (.int 1) ∧ w.store.get? "b" = some (.int 7) := by
  have hseed : Encoding.plain.decode (Bytes.ofText seedText) =
      .ok (SortedMap.ofList [("a", .int 1), ("b", .int 2)]) :=
    Encoding.decode_ofText rfl (by decide +kernel)
  have hstored : Encoding.plain.decode (Bytes.ofText nullText) =
      .ok (SortedMap.ofList [("c", .int 3)]) :=
    Encoding.decode_ofText rfl (by decide +kernel)
  have offered : ∀ {key value}, seeded.encoding.Offers seeded.seed? key value ↔
      (SortedMap.ofList [("a", Value.int 1), ("b", Value.int 2)]).get? key = some value :=
    Encoding.offers_some_iff hseed
  have located : seeded.location {} = .ok .memory := rfl
  refine ⟨?null, ?undecodable, ?saved⟩
  case null =>
    obtain ⟨w, hopened, -, -, -, hclean, layered⟩ :=
      ((opened_merges located).1 (mediaOf (Bytes.ofText nullText)) {}).2.2 _ rfl
    have hnot : ∀ {key}, (SortedMap.ofList [("c", Value.int 3)]).get? key = none →
        ∀ v, ¬ seeded.encoding.Offers (some (Bytes.ofText nullText)) key v := by
      intro key hkey v hoffers
      have hsome := (Encoding.offers_some_iff hstored).mp hoffers
      rw [hkey] at hsome
      cases hsome
    refine ⟨w, hopened, hclean, ?_, ?_, ?_⟩
    · exact (layered.entry _ _).mpr (.inr ⟨hnot rfl, offered.mpr rfl⟩)
    · exact (layered.entry _ _).mpr (.inr ⟨hnot rfl, offered.mpr rfl⟩)
    · exact (layered.entry _ _).mpr (.inl ((Encoding.offers_some_iff hstored).mpr rfl))
  case undecodable =>
    obtain ⟨w, hopened, -, -, -, -, layered⟩ :=
      ((opened_merges located).1 (mediaOf (Bytes.ofText "[")) {}).2.2 _ rfl
    have hmalformed : Encoding.plain.decode (Bytes.ofText "[") = .error .malformed := by
      rw [Encoding.decode_plain_ofText (by decide)]
      rfl
    exact ⟨w, hopened, (layered.lowerAlone _ _ rfl hmalformed _ _).mpr (offered.mpr rfl)⟩
  case saved =>
    have opened : Workspace.opened { address := .named "s", inMemory := true } {} blank.media {} =
        .ok blank := rfl
    obtain ⟨w', saved⟩ : ∃ w', (blank.run [.putValue "b" (.int 7)]).2.perform .save =
        (.saved true, w') := ⟨_, rfl⟩
    obtain ⟨bytes, hread, reopened⟩ := (opened_merges located).2 _ _ _ _ _ w' _ opened saved
      (by cases saved; rfl) (by cases saved; rfl)
    have hbytes : bytes = Bytes.ofText "\x7b\n  \"b\": 7\n\x7d" := by
      cases saved
      cases hread
      decide +kernel
    have hdecode : Encoding.plain.decode bytes = .ok (SortedMap.ofList [("b", .int 7)]) :=
      hbytes ▸ Encoding.decode_ofText rfl (by decide +kernel)
    obtain ⟨w, hopened, hentry⟩ := reopened _ hdecode
    refine ⟨w', w, saved, hopened, (hentry _ _).mpr (.inr ⟨?_, offered.mpr rfl⟩),
      (hentry _ _).mpr (.inl ⟨.int 7, ?_, rfl⟩)⟩
    · cases saved
      rfl
    · cases saved
      rfl

end Workspace
end TypedConfig
