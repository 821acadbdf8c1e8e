/-
# The order of texts is that of their bytes

Texts are ordered by their code points, and this is the order of their bytes in UTF-8:
of two characters the smaller one has the smaller byte at the first place where their
bytes differ, and there is such a place in both (`Text.differ_of_lt`). So a list of
texts that increases does so byte by byte as well (`Text.bytes_lt_of_lt`).

Key theorems: `Text.differ_of_lt`, `Text.bytes_lt_of_lt`.
-/
import Mathlib
import TypedConfig.Document.Encoding

namespace TypedConfig
namespace Text

/-- Two lists of bytes differ, and the first one is smaller where they first do. -/
def Differ (a b : List UInt8) : Prop :=
  ∃ common x y restA restB, a = common ++ x :: restA ∧ b = common ++ y :: restB ∧ x < y

theorem Differ.cons {a b : List UInt8} (h : Differ a b) (x : UInt8) : Differ (x :: a) (x :: b) := by
  obtain ⟨common, y, z, restA, restB, rfl, rfl, hlt⟩ := h
  exact ⟨x :: common, y, z, restA, restB, rfl, rfl, hlt⟩

/-- A smaller first byte decides. -/
theorem differ_head {x y : UInt8} (h : x < y) (a b : List UInt8) : Differ (x :: a) (y :: b) :=
  ⟨[], x, y, a, b, rfl, rfl, h⟩

/-- What follows two lists that differ does not matter. -/
theorem Differ.append_lt {a b : List UInt8} (h : Differ a b) (restA restB : List UInt8) :
    a ++ restA < b ++ restB := by
  obtain ⟨common, x, y, moreA, moreB, rfl, rfl, hlt⟩ := h
  induction common with
  | nil => exact List.Lex.rel hlt
  | cons z common ih => exact List.Lex.cons ih

theorem byte_lt {m n : ℕ} (h : m < n) (hn : n < 256) : UInt8.ofNat m < UInt8.ofNat n := by
  rw [UInt8.lt_iff_toNat_lt, UInt8.toNat_ofNat', UInt8.toNat_ofNat']
  omega

/-- The first place of two lists of numbers below 256 decides, or else what follows it. -/
theorem differ_step {m n : ℕ} {a b : List UInt8} (hn : n < 256) (hle : m ≤ n)
    (h : m = n → Differ a b) : Differ (UInt8.ofNat m :: a) (UInt8.ofNat n :: b) := by
  rcases hle.lt_or_eq with hlt | rfl
  · exact differ_head (byte_lt hlt hn) a b
  · exact (h rfl).cons _

/-- **The bytes of a smaller character are smaller at a place that both have.** -/
theorem differ_of_lt {c d : Char} (h : c < d) :
    Differ (String.utf8EncodeChar c) (String.utf8EncodeChar d) := by
  have hlt : c.val.toNat < d.val.toNat := h
  have hmost : d.val.toNat < 0x110000 := by
    rcases d.valid with hd | hd <;> omega
  unfold String.utf8EncodeChar
  generalize c.val.toNat = m at hlt ⊢
  generalize d.val.toNat = n at hlt hmost ⊢
  dsimp only
  -- the more bytes there are, the larger is the first one
  have hfirst : ∀ {x y : ℕ} {a b : List UInt8}, x < y ∧ y < 256 →
      Differ (UInt8.ofNat x :: a) (UInt8.ofNat y :: b) := fun hxy =>
    differ_head (byte_lt hxy.1 hxy.2) _ _
  split
  · split
    · exact hfirst (by omega)
    · split
      · exact hfirst (by omega)
      · split <;> exact hfirst (by omega)
  · split
    · split
      · omega
      · split
        · exact differ_step (by omega) (by omega) fun _ => hfirst (by omega)
        · split <;> exact hfirst (by omega)
    · split
      · split
        · omega
        · split
          · omega
          · split
            · exact differ_step (by omega) (by omega) fun _ =>
                differ_step (by omega) (by omega) fun _ => hfirst (by omega)
            · exact hfirst (by omega)
      · split
        · omega
        · split
          · omega
          · split
            · omega
            · exact differ_step (by omega) (by omega) fun _ =>
                differ_step (by omega) (by omega) fun _ =>
                  differ_step (by omega) (by omega) fun _ => hfirst (by omega)

theorem flatMap_lt_of_lt {cs ds : List Char} (h : cs < ds) :
    cs.flatMap String.utf8EncodeChar < ds.flatMap String.utf8EncodeChar := by
  induction h with
  | nil =>
    rename_i d ds
    rw [List.flatMap_cons]
    cases hd : String.utf8EncodeChar d with
    | nil => exact absurd hd String.utf8EncodeChar_ne_nil
    | cons x rest => exact List.Lex.nil
  | cons _ ih =>
    rw [List.flatMap_cons, List.flatMap_cons]
    exact List.append_left_lt ih
  | rel h =>
    rw [List.flatMap_cons, List.flatMap_cons]
    exact (differ_of_lt h).append_lt _ _

/-- **A smaller text has smaller bytes.** -/
theorem bytes_lt_of_lt {s t : String} (h : s < t) :
    (Bytes.ofText s).toBytesList < (Bytes.ofText t).toBytesList := by
  have hbytes : ∀ u : String, (Bytes.ofText u).toBytesList =
      u.toList.flatMap String.utf8EncodeChar := by
    intro u
    rw [Bytes.toBytesList, Bytes.ofText, String.toUTF8_eq_toByteArray, ← String.utf8Encode_toList,
      List.utf8Encode, List.data_toByteArray, List.toList_toArray]
  rw [hbytes, hbytes]
  exact flatMap_lt_of_lt h

end Text
end TypedConfig
