/-
# Lines of a settings file

A file of lines, each with a name, an equals sign and a value, is read as these pairs
(`TomlStatement.readAll?_lines`), provided that the names need no quotes and that every value is read
up to the end of its line (`Toml.SpellsValue`). Strings are such values, and so are the two truth
values. If no name comes twice, the pairs fill a table as they stand (`Toml.ofText?_lines`).

Key definitions: `Toml.SpellsValue`, `Toml.IsBare`, `Toml.Line`.
Key theorems: `Toml.spellsValue_string`, `Toml.spellsValue_boolean`, `TomlStatement.readAll?_lines`,
`Toml.ofText?_lines`.
-/
import Mathlib
import TypedConfig.Proofs.Toml.Quoted
import TypedConfig.Toml.Statement
import TypedConfig.Value.Basic

namespace TypedConfig
namespace Toml

/-! ### Values -/

/-- A text is read as a value, where a line break follows it. -/
structure SpellsValue (text : List Char) (v : Toml) : Prop where
  read : ∀ rest, readAny? (text ++ '\n' :: rest) = some (v, '\n' :: rest)
  noSpace : ∀ rest, (text ++ '\n' :: rest).dropWhile isSpace = text ++ '\n' :: rest
  noReturn : '\r' ∉ text

/-- A string starts with a quote. -/
theorem exists_stringText (s : String) :
    ∃ quote text, stringText s = quote :: text ∧ (quote = '"' ∨ quote = '\'') := by
  unfold stringText
  cases StringForm.best s.toList with
  | basic => exact ⟨_, _, rfl, .inl rfl⟩
  | literal => exact ⟨_, _, rfl, .inr rfl⟩
  | block => exact ⟨_, _, rfl, .inl rfl⟩
  | literalBlock => exact ⟨_, _, rfl, .inr rfl⟩

theorem spellsValue_string (s : String) : SpellsValue (stringText s) (.string s) := by
  obtain ⟨quote, text, htext, hquote⟩ := exists_stringText s
  refine ⟨fun rest => ?_, fun rest => ?_, noReturn_stringText s⟩
  · have hread := @readString?_stringText ('\n' :: rest) (by simp) (by simp) s
    rw [htext, List.cons_append] at hread ⊢
    simp only [readAny?, readValue?, if_pos hquote, hread]
    simp
  · rw [htext]
    rcases hquote with rfl | rfl <;> rfl

theorem spellsValue_boolean (b : Bool) :
    SpellsValue (Value.boolText b).toList (.boolean b) := by
  cases b <;> exact ⟨fun _ => rfl, fun _ => rfl, by decide⟩

/-! ### Lines -/

/-- A name that needs no quotes. -/
structure IsBare (name : String) : Prop where
  ne_nil : name.toList ≠ []
  all : ∀ c ∈ name.toList, isNameChar c = true

/-- A name, how its value is written, and the value. -/
structure Line where
  name : String
  written : List Char
  value : Toml

/-- A line with its line break. -/
def Line.text (l : Line) : List Char := l.name.toList ++ [' ', '=', ' '] ++ l.written ++ ['\n']

/-- A line can be read. -/
structure Line.IsSound (l : Line) : Prop where
  bare : IsBare l.name
  spells : SpellsValue l.written l.value

/-- A character of a name is none that is in no name. -/
theorem ne_of_isNameChar {c d : Char} (h : isNameChar c = true) (hd : isNameChar d = false) :
    c ≠ d := by
  rintro rfl
  rw [h] at hd
  cases hd

theorem isSpace_of_isNameChar {c : Char} (h : isNameChar c = true) : isSpace c = false := by
  have hblank : c ≠ ' ' := ne_of_isNameChar h (by decide)
  have htab : c ≠ '\t' := ne_of_isNameChar h (by decide)
  simp [isSpace, hblank, htab]

theorem IsBare.exists_cons {name : String} (h : IsBare name) :
    ∃ c rest, name.toList = c :: rest ∧ isNameChar c = true := by
  cases hname : name.toList with
  | nil => exact absurd hname h.ne_nil
  | cons c rest => exact ⟨c, rest, rfl, h.all c (hname ▸ List.mem_cons_self)⟩

/-- A bare name is read up to the equals sign. -/
theorem readName?_bare {name : String} (h : IsBare name) (rest : List Char) :
    readName? (name.toList ++ ' ' :: '=' :: rest) = some ([], name, '=' :: rest) := by
  obtain ⟨c, left, hname, hc⟩ := h.exists_cons
  have hspace := isSpace_of_isNameChar hc
  have hdrop : (name.toList ++ ' ' :: '=' :: rest).dropWhile isSpace
      = name.toList ++ ' ' :: '=' :: rest := by
    rw [hname, List.cons_append, List.dropWhile_cons_of_neg (by rw [hspace]; decide)]
  have hpart : readPart? (name.toList ++ ' ' :: '=' :: rest) = some (name, ' ' :: '=' :: rest) := by
    have htake : (name.toList ++ ' ' :: '=' :: rest).takeWhile isNameChar = name.toList := by
      rw [List.takeWhile_append_of_pos h.all]
      exact List.append_nil _
    have hleft : (name.toList ++ ' ' :: '=' :: rest).dropWhile isNameChar = ' ' :: '=' :: rest := by
      rw [List.dropWhile_append_of_pos h.all]
      rfl
    unfold readPart?
    split
    · rename_i heq
      rw [hname] at heq
      exact absurd (List.cons.inj heq).1 (ne_of_isNameChar hc (by decide))
    · rename_i heq
      rw [hname] at heq
      exact absurd (List.cons.inj heq).1 (ne_of_isNameChar hc (by decide))
    · rw [htake, hleft]
      split
      · rename_i hnil
        exact absurd hnil h.ne_nil
      · rw [String.ofList_toList]
  have hparts : readParts? maxNesting (name.toList ++ ' ' :: '=' :: rest)
      = some ([name], '=' :: rest) := by
    rw [maxNesting, readParts?, hdrop, hpart]
    rfl
  rw [readName?, hparts]
  rfl

end Toml

namespace TomlStatement

open Toml

variable {l : Line}

/-- A sound line is read as its pair. -/
theorem read?_line (h : l.IsSound) (rest : List Char) :
    read? (l.text ++ rest) = some (.pair [] l.name l.value, rest) := by
  obtain ⟨c, left, hname, hc⟩ := h.bare.exists_cons
  have hbracket : c ≠ '[' := ne_of_isNameChar hc (by decide)
  have htext : l.text ++ rest
      = l.name.toList ++ ' ' :: '=' :: ' ' :: (l.written ++ '\n' :: rest) := by
    simp [Line.text]
  have hvalue : (' ' :: (l.written ++ '\n' :: rest)).dropWhile isSpace
      = l.written ++ '\n' :: rest := by
    rw [List.dropWhile_cons_of_pos (by decide), h.spells.noSpace]
  rw [htext]
  unfold read?
  split
  · rename_i heq
    rw [hname] at heq
    exact absurd (List.cons.inj heq).1 hbracket
  · rename_i heq
    rw [hname] at heq
    exact absurd (List.cons.inj heq).1 hbracket
  · rw [readName?_bare h.bare]
    simp only [Option.bind_eq_bind, Option.bind_some, hvalue, h.spells.read]
    rfl

theorem skipVoid?_line (h : l.IsSound) (rest : List Char) :
    skipVoid? false (l.text ++ rest) = some (l.text ++ rest) := by
  obtain ⟨c, left, hname, hc⟩ := h.bare.exists_cons
  have hbreak : c ≠ '\n' := ne_of_isNameChar hc (by decide)
  have hcomment : c ≠ '#' := ne_of_isNameChar hc (by decide)
  rw [Line.text, hname]
  simp [skipVoid?, hbreak, isSpace_of_isNameChar hc, hcomment]

theorem readAllWith?_lines : ∀ (ls : List Line) (fuel : ℕ), (∀ l ∈ ls, l.IsSound) →
    (ls.flatMap Line.text).length ≤ fuel →
    readAllWith? fuel (ls.flatMap Line.text) = some (ls.map fun l => .pair [] l.name l.value)
  | [], fuel, _, _ => by cases fuel <;> rfl
  | l :: ls, fuel, sound, hfuel => by
    have hl := sound l List.mem_cons_self
    obtain ⟨c, left, hname, -⟩ := hl.bare.exists_cons
    rw [List.flatMap_cons] at hfuel ⊢
    have hpos : 0 < l.text.length := by simp [Line.text]
    rw [List.length_append] at hfuel
    obtain ⟨fuel, rfl⟩ : ∃ n, fuel = n + 1 := ⟨fuel - 1, by omega⟩
    have ih := readAllWith?_lines ls fuel (fun m hm => sound m (List.mem_cons_of_mem l hm))
      (by omega)
    have hskip := skipVoid?_line hl (ls.flatMap Line.text)
    have hread := read?_line hl (ls.flatMap Line.text)
    have hcons : ∃ rest, l.text ++ ls.flatMap Line.text = c :: rest := by
      rw [Line.text, hname]
      exact ⟨_, rfl⟩
    obtain ⟨rest, hcons⟩ := hcons
    rw [hcons] at hskip hread ⊢
    simp only [readAllWith?, hskip, hread, Option.bind_eq_bind, Option.bind_some, ih]
    rfl

/-- **A file of sound lines is read as their pairs.** -/
theorem readAll?_lines {ls : List Line} (sound : ∀ l ∈ ls, l.IsSound) :
    readAll? (ls.flatMap Line.text) = some (ls.map fun l => .pair [] l.name l.value) :=
  readAllWith?_lines ls _ sound le_rfl

end TomlStatement

namespace Toml

/-! ### The table of a file of lines -/

theorem set_of_find?_eq_none {name : String} (v : Toml) : ∀ {entries : Entries},
    find? name entries = none → set name v entries = entries ++ [(name, v)]
  | [], _ => rfl
  | (n, w) :: rest, h => by
    have hn : n ≠ name := by
      rintro rfl
      simp [find?] at h
    have hrest : find? name rest = none := by
      simpa [find?, hn] using h
    rw [set, if_neg hn, set_of_find?_eq_none v hrest]
    rfl

/-- **Pairs with different names fill a table with their values.** -/
theorem addStatements?_pairs : ∀ (ls : List Line) (entries : Entries),
    (ls.map Line.name).Nodup → (∀ l ∈ ls, find? l.name entries = none) →
    addStatements? [] (ls.map fun l => .pair [] l.name l.value) entries
      = some (entries ++ ls.map fun l => (l.name, l.value))
  | [], entries, _, _ => by simp [addStatements?]
  | l :: ls, entries, nodup, fresh => by
    rw [List.map_cons, List.nodup_cons] at nodup
    have hl := fresh l List.mem_cons_self
    have hadd : addPairIn? [] [] l.name l.value entries = some (entries ++ [(l.name, l.value)]) := by
      rw [← set_of_find?_eq_none l.value hl]
      simp [addPairIn?, descend?, addPair?, add?, hl]
    have hfresh : ∀ m ∈ ls, find? m.name (entries ++ [(l.name, l.value)]) = none := by
      intro m hm
      have hne : l.name ≠ m.name := fun heq => nodup.1 (heq ▸ List.mem_map_of_mem hm)
      have hold := fresh m (List.mem_cons_of_mem l hm)
      simp only [find?, Option.map_eq_none_iff] at hold
      simp [find?, List.find?_append, hold, hne]
    have ih := addStatements?_pairs ls _ nodup.2 hfresh
    simp only [List.map_cons, addStatements?, hadd, Option.bind_eq_bind, Option.bind_some, ih,
      List.append_assoc, List.singleton_append]

theorem normalBreaks_of_noReturn : ∀ {cs : List Char}, '\r' ∉ cs → normalBreaks cs = cs
  | [], _ => rfl
  | c :: cs, h => by
    rw [List.mem_cons, not_or] at h
    rw [normalBreaks, normalBreaks_of_noReturn h.2]
    rintro rest rfl
    exact absurd rfl h.1

variable {ls : List Line}

theorem noReturn_lines (sound : ∀ l ∈ ls, l.IsSound) : '\r' ∉ ls.flatMap Line.text := by
  rw [List.mem_flatMap]
  rintro ⟨l, hl, hmem⟩
  have hname : '\r' ∉ l.name.toList := fun hmem =>
    absurd ((sound l hl).bare.all _ hmem) (by decide)
  simp [Line.text, hname, (sound l hl).spells.noReturn] at hmem

theorem dropOrderMark_lines (sound : ∀ l ∈ ls, l.IsSound) :
    dropOrderMark (ls.flatMap Line.text) = ls.flatMap Line.text := by
  cases ls with
  | nil => rfl
  | cons l ls =>
    obtain ⟨c, left, hname, hc⟩ := (sound l List.mem_cons_self).bare.exists_cons
    have hmark : c ≠ Char.ofNat 0xFEFF := ne_of_isNameChar hc (by decide)
    rw [List.flatMap_cons, Line.text, hname]
    simp only [List.cons_append, dropOrderMark, if_neg hmark]

/-- **A file of sound lines with different names is read as its table.** -/
theorem ofText?_lines (sound : ∀ l ∈ ls, l.IsSound) (nodup : (ls.map Line.name).Nodup) :
    ofText? (ls.flatMap Line.text) = some (ls.map fun l => (l.name, l.value)) := by
  rw [ofText?, dropOrderMark_lines sound, normalBreaks_of_noReturn (noReturn_lines sound),
    TomlStatement.readAll?_lines sound]
  exact addStatements?_pairs ls [] nodup fun _ _ => rfl

end Toml
end TypedConfig
