/-
# What the block cipher computes

AES with a key of 256 bits, said over the elements that bytes stand for. The key schedule is a
sequence of words of four bytes: the first eight are the key, and each later one is the sum of the
one eight places before it and of the one just before it, which is rotated and substituted in
front of every eighth word and substituted in the middle between two of those. A round substitutes
the bytes, moves the rows, multiplies the columns by a matrix and adds four words; the last one does
not multiply. A block is encrypted by another one if there is a schedule and a sequence of rounds
between them. There is always exactly one such block, the one that is computed
(`Aes.isEncryption_iff`).

Key definitions: `Block.matrix`, `Aes.IsSchedule`, `Aes.mixing`, `Aes.IsRound`,
`Aes.IsEncryption`.
Key theorems: `Aes.isSchedule_word`, `Aes.IsSchedule.unique`, `Aes.isRound_mixRound`,
`Aes.IsSchedule.state_eq`, `Aes.isEncryption_iff`.
-/
import Mathlib
import TypedConfig.Cipher.Aes
import TypedConfig.Proofs.Cipher.ByteRing
import TypedConfig.Proofs.Cipher.CounterMode

namespace TypedConfig

open Polynomial

/-! ### The cipher -/

/-- Sixteen bytes in four rows and four columns. -/
abbrev ByteMatrix := Matrix (Fin 4) (Fin 4) UInt8

/-- The bytes of a block, column by column. -/
def Block.matrix (b : Block) : ByteMatrix := fun r c => b.toBytes.getD (4 * c + r) 0

namespace Aes

/-- The words of a key schedule. -/
structure IsSchedule (key : Vector UInt8 32) (w : ℕ → Fin 4 → UInt8) : Prop where
  key_eq : ∀ i < 8, ∀ r : Fin 4, w i r = key.toList.getD (4 * i + r) 0
  /-- In front of every eighth word. -/
  rotated : ∀ i < 52, i % 8 = 0 → ∀ r, ∃ s, Byte.IsSubstitution (w (i + 7) (r + 1)) s ∧
    Byte.element (w (i + 8) r) = Byte.element (w i r) +
      (Byte.element s + if r = 0 then ByteRing.reduce X ^ (i / 8) else 0)
  /-- In the middle between two of those. -/
  substituted : ∀ i < 52, i % 8 = 4 → ∀ r, ∃ s, Byte.IsSubstitution (w (i + 7) r) s ∧
    Byte.element (w (i + 8) r) = Byte.element (w i r) + Byte.element s
  added : ∀ i < 52, i % 4 ≠ 0 → ∀ r,
    Byte.element (w (i + 8) r) = Byte.element (w i r) + Byte.element (w (i + 7) r)

/-- The round key of a number: four words, the columns. -/
def roundKey (w : ℕ → Fin 4 → UInt8) (n : ℕ) : ByteMatrix := fun r c => w (4 * n + c) r

/-- The matrix that columns are multiplied by. -/
noncomputable def mixing : Matrix (Fin 4) (Fin 4) ByteRing :=
  Matrix.circulant ![ByteRing.reduce X, 1, 1, ByteRing.reduce X + 1]

/-- A round: the bytes are substituted and row `r` is moved to the left by `r` places, the columns
are multiplied by a matrix, and the round key is added. -/
def IsRound (m : Matrix (Fin 4) (Fin 4) ByteRing) (key s t : ByteMatrix) : Prop :=
  ∃ u : ByteMatrix, (∀ r c, Byte.IsSubstitution (s r (c + r)) (u r c)) ∧
    t.map Byte.element = m * u.map Byte.element + key.map Byte.element

/-- An encryption of a block: the first round key is added, and fourteen rounds follow. -/
def IsEncryption (key : Vector UInt8 32) (b c : Block) : Prop :=
  ∃ (w : ℕ → Fin 4 → UInt8) (s : ℕ → ByteMatrix), IsSchedule key w ∧
    (s 0).map Byte.element = b.matrix.map Byte.element + (roundKey w 0).map Byte.element ∧
    (∀ n < 13, IsRound mixing (roundKey w (n + 1)) (s n) (s (n + 1))) ∧
    IsRound 1 (roundKey w 14) (s 13) c.matrix

end Aes

/-! ### Columns -/

namespace Column

/-- The byte in a row. -/
def byte (a : Column) : Fin 4 → UInt8 := ![a.b0, a.b1, a.b2, a.b3]

variable (a b : Column) (r : Fin 4)

theorem byte_add : (a.add b).byte r = a.byte r ^^^ b.byte r := by
  fin_cases r <;> rfl

theorem byte_rotate : a.rotate.byte r = a.byte (r + 1) := by
  fin_cases r <;> rfl

theorem byte_substituted : a.substituted.byte r = substitute (a.byte r) := by
  fin_cases r <;> simp [byte, substituted]

theorem byte_first (b : UInt8) : (Column.mk b 0 0 0).byte r = if r = 0 then b else 0 := by
  fin_cases r <;> rfl

theorem element_mixed (a b c d : UInt8) : Byte.element (mixed a b c d) =
    ByteRing.reduce X * Byte.element a + (ByteRing.reduce X + 1) * Byte.element b +
      Byte.element c + Byte.element d := by
  simp only [mixed, Byte.element_xor, Byte.element_doubleByte]
  ring

/-- **Mixing a column is multiplying it by the matrix.** -/
theorem element_byte_mix :
    Byte.element (a.mix.byte r) = ∑ k, Aes.mixing r k * Byte.element (a.byte k) := by
  rw [Fin.sum_univ_four]
  fin_cases r <;>
    simp [mix, byte, element_mixed, Aes.mixing, Matrix.circulant] <;>
    ring

end Column

namespace Columns

/-- The column in a place. -/
def column (a : Columns) : Fin 4 → Column := ![a.c0, a.c1, a.c2, a.c3]

/-- The bytes by their rows and columns. -/
def matrix (a : Columns) : ByteMatrix := fun r c => (a.column c).byte r

variable (a b : Columns) (r c : Fin 4)

theorem matrix_add : (a.add b).matrix r c = a.matrix r c ^^^ b.matrix r c := by
  have hcolumn : (a.add b).column c = (a.column c).add (b.column c) := by
    fin_cases c <;> rfl
  rw [matrix, hcolumn, Column.byte_add]
  rfl

theorem matrix_substituted : a.substituted.matrix r c = substitute (a.matrix r c) := by
  have hcolumn : a.substituted.column c = (a.column c).substituted := by
    fin_cases c <;> rfl
  rw [matrix, hcolumn, Column.byte_substituted]
  rfl

theorem matrix_shiftRows : a.shiftRows.matrix r c = a.matrix r (c + r) := by
  fin_cases r <;> fin_cases c <;> rfl

theorem element_matrix_mix :
    a.mix.matrix.map Byte.element = Aes.mixing * a.matrix.map Byte.element := by
  ext r c
  have hcolumn : a.mix.column c = (a.column c).mix := by
    fin_cases c <;> rfl
  rw [Matrix.map_apply, matrix, hcolumn, Column.element_byte_mix]
  rfl

theorem element_matrix_add : (a.add b).matrix.map Byte.element =
    a.matrix.map Byte.element + b.matrix.map Byte.element := by
  ext r c
  rw [Matrix.map_apply, matrix_add, Byte.element_xor]
  rfl

/-- The columns of a key schedule are summed up one by one. -/
theorem column_chain_succ (feed : Column) (c : Fin 3) :
    (a.chain feed).column c.succ = (a.column c.succ).add ((a.chain feed).column c.castSucc) := by
  fin_cases c <;> rfl

theorem matrix_ofBytes (bytes : List UInt8) :
    (ofBytes bytes).matrix r c = bytes.getD (4 * c + r) 0 := by
  fin_cases r <;> fin_cases c <;> rfl

/-- A block is its columns. -/
theorem matrix_toBytes : (Block.ofBytes a.toBytes).matrix = a.matrix := by
  ext r c
  have hlength : a.toBytes.length = 16 := rfl
  rw [Block.matrix, Block.toBytes_ofBytes hlength]
  fin_cases r <;> fin_cases c <;> rfl

end Columns

theorem Block.matrix_injective : Function.Injective Block.matrix := by
  intro a b h
  rw [← ofBytes_toBytes a, ← ofBytes_toBytes b]
  refine congrArg ofBytes (List.ext_getElem ?_ fun i hi hi' => ?_)
  · rw [length_toBytes, length_toBytes]
  · rw [length_toBytes] at hi
    have hentry := congrFun (congrFun h (Fin.ofNat 4 i)) (Fin.ofNat 4 (i / 4))
    have hplace : 4 * (i / 4 % 4) + i % 4 = i := by omega
    simpa [Block.matrix, hplace, List.getD_eq_getElem?_getD, length_toBytes, hi] using hentry

namespace Aes

/-! ### The key schedule -/

/-- The round key of a number, as it is computed. -/
def keyAt (key : Vector UInt8 32) (n : ℕ) : Columns := (roundKeys key).getD n default

/-- What the first column of a round key is summed up with, two round keys later. -/
def feed (key : Vector UInt8 32) (n : ℕ) : Column :=
  if n % 2 = 0 then
    (keyAt key (n + 1)).c3.rotate.substituted.add ⟨doubleByte^[n / 2] 1, 0, 0, 0⟩
  else (keyAt key (n + 1)).c3.substituted

/-- The round keys that follow two others continue them. -/
theorem extend_getD (pairs : ℕ) (constant : UInt8) (even odd : Columns) {j : ℕ} (hj : j < pairs) :
    let keys := even :: odd :: extend pairs constant even odd
    keys.getD (2 * j + 2) default = (keys.getD (2 * j) default).chain
        ((keys.getD (2 * j + 1) default).c3.rotate.substituted.add
          ⟨doubleByte^[j] constant, 0, 0, 0⟩) ∧
      keys.getD (2 * j + 3) default = (keys.getD (2 * j + 1) default).chain
        (keys.getD (2 * j + 2) default).c3.substituted := by
  induction pairs generalizing constant even odd j with
  | zero => cases hj
  | succ pairs ih =>
    cases j with
    | zero => exact ⟨rfl, rfl⟩
    | succ j => exact ih (doubleByte constant) _ _ (Nat.lt_of_succ_lt_succ hj)

theorem keyAt_add_two (key : Vector UInt8 32) {n : ℕ} (h : n < 14) :
    keyAt key (n + 2) = (keyAt key n).chain (feed key n) := by
  have hpair : n / 2 < 7 := by omega
  obtain ⟨heven, hodd⟩ := extend_getD 7 1 (Columns.ofBytes key.toList)
    (Columns.ofBytes (key.toList.drop 16)) hpair
  unfold feed
  split_ifs with hparity
  · rw [show 2 * (n / 2) = n by omega] at heven
    exact heven
  · rw [show 2 * (n / 2) + 1 = n by omega, show 2 * (n / 2) + 2 = n + 1 by omega,
      show 2 * (n / 2) + 3 = n + 2 by omega] at hodd
    exact hodd

/-- The words of the round keys that are computed. -/
def word (key : Vector UInt8 32) (i : ℕ) : Fin 4 → UInt8 :=
  ((keyAt key (i / 4)).column (Fin.ofNat 4 i)).byte

theorem word_eq (key : Vector UInt8 32) (n : ℕ) (c : Fin 4) :
    word key (4 * n + c) = ((keyAt key n).column c).byte := by
  have hplace : Fin.ofNat 4 (4 * n + c) = c := Fin.ext (by simp [Nat.mod_eq_of_lt])
  rw [word, hplace, show (4 * n + c) / 4 = n by omega]

theorem roundKey_word (key : Vector UInt8 32) (n : ℕ) :
    roundKey (word key) n = (keyAt key n).matrix := by
  ext r c
  rw [roundKey, word_eq]
  rfl

theorem element_iterate_doubleByte (j : ℕ) :
    Byte.element (doubleByte^[j] 1) = ByteRing.reduce X ^ j := by
  induction j with
  | zero => exact Byte.element_one
  | succ j ih => rw [Function.iterate_succ_apply', Byte.element_doubleByte, ih, pow_succ']

section Words

variable (key : Vector UInt8 32)

/-- Word `i` is column `c` of round key `n`. -/
theorem exists_place {i : ℕ} (hi : i < 52) : ∃ (n : ℕ) (c : Fin 4), n < 14 ∧ i = 4 * n + c :=
  ⟨i / 4, ⟨i % 4, Nat.mod_lt _ (by omega)⟩, by omega, by simp; omega⟩

/-- The words before those of a round key. -/
theorem word_add_seven (n : ℕ) :
    word key (4 * n + (0 : Fin 4) + 7) = (keyAt key (n + 1)).c3.byte :=
  word_eq key (n + 1) 3

theorem word_add_eight (n : ℕ) (c : Fin 4) :
    word key (4 * n + c + 8) = ((keyAt key (n + 2)).column c).byte := by
  rw [← word_eq]
  exact congrArg (word key) (by ring)

/-- What the first word of a round key is the sum of. -/
theorem word_first {n : ℕ} (hn : n < 14) (r : Fin 4) :
    word key (4 * n + (0 : Fin 4) + 8) r =
      word key (4 * n + (0 : Fin 4)) r ^^^ (feed key n).byte r := by
  rw [word_add_eight, keyAt_add_two key hn, word_eq, ← Column.byte_add]
  rfl

theorem word_of_key {i : ℕ} (hi : i < 8) (r : Fin 4) :
    word key i r = key.toList.getD (4 * i + r) 0 := by
  obtain ⟨n, c, -, rfl⟩ := exists_place (show i < 52 by omega)
  rw [word_eq]
  obtain rfl | rfl : n = 0 ∨ n = 1 := by omega
  · exact (Columns.matrix_ofBytes r c key.toList).trans (by rw [Nat.mul_zero, Nat.zero_add])
  · refine (Columns.matrix_ofBytes r c (key.toList.drop 16)).trans ?_
    rw [List.getD_eq_getElem?_getD, List.getElem?_drop, ← List.getD_eq_getElem?_getD]
    exact congrArg (key.toList.getD · 0) (by ring)

/-- **The words that are computed are a key schedule.** -/
theorem isSchedule_word : IsSchedule key (word key) := by
  refine ⟨fun i hi r => word_of_key key hi r, ?rotated, ?substituted, ?added⟩
  case rotated =>
    intro i hi hmod r
    obtain ⟨n, c, hn, rfl⟩ := exists_place hi
    obtain rfl : c = 0 := Fin.ext (by simp; omega)
    have hparity : n % 2 = 0 := by simp at hmod; omega
    have hpair : (4 * n + (0 : Fin 4)) / 8 = n / 2 := by simp; omega
    refine ⟨_, Byte.isSubstitution_iff.mpr rfl, ?_⟩
    rw [word_first key hn, word_add_seven, feed, if_pos hparity, Column.byte_add,
      Column.byte_substituted, Column.byte_rotate, Byte.element_xor, Byte.element_xor,
      Column.byte_first, apply_ite Byte.element, element_iterate_doubleByte, Byte.element_zero,
      hpair]
  case substituted =>
    intro i hi hmod r
    obtain ⟨n, c, hn, rfl⟩ := exists_place hi
    obtain rfl : c = 0 := Fin.ext (by simp; omega)
    have hparity : n % 2 ≠ 0 := by simp at hmod; omega
    refine ⟨_, Byte.isSubstitution_iff.mpr rfl, ?_⟩
    rw [word_first key hn, word_add_seven, feed, if_neg hparity, Column.byte_substituted,
      Byte.element_xor]
  case added =>
    intro i hi hmod r
    obtain ⟨n, c, hn, rfl⟩ := exists_place hi
    obtain ⟨c, rfl⟩ : ∃ c' : Fin 3, c'.succ = c :=
      Fin.exists_succ_eq.mpr fun hzero => hmod (by rw [hzero]; simp)
    have hlast : word key (4 * n + c.succ + 7) =
        ((keyAt key (n + 2)).column c.castSucc).byte := by
      rw [← word_eq]
      exact congrArg (word key) (by simp; ring)
    rw [word_add_eight, hlast, word_eq, keyAt_add_two key hn, Columns.column_chain_succ,
      Column.byte_add, Byte.element_xor]

end Words

/-- **There is one key schedule**, as far as it is used. -/
theorem IsSchedule.unique {key : Vector UInt8 32} {w w' : ℕ → Fin 4 → UInt8}
    (h : IsSchedule key w) (h' : IsSchedule key w') {i : ℕ} (hi : i < 60) : w i = w' i := by
  induction i using Nat.strong_induction_on with
  | _ i ih =>
    funext r
    rcases Nat.lt_or_ge i 8 with hkey | hlater
    · rw [h.key_eq i hkey, h'.key_eq i hkey]
    obtain ⟨i, rfl⟩ := Nat.exists_eq_add_of_le' hlater
    have hsame := ih i (by omega) (by omega)
    have hlast := ih (i + 7) (by omega) (by omega)
    have hlt : i < 52 := by omega
    refine Byte.element_injective ?_
    by_cases hplace : i % 4 ≠ 0
    · rw [h.added i hlt hplace, h'.added i hlt hplace, hsame, hlast]
    by_cases hrotated : i % 8 = 0
    · obtain ⟨s, hs, heq⟩ := h.rotated i hlt hrotated r
      obtain ⟨s', hs', heq'⟩ := h'.rotated i hlt hrotated r
      rw [hlast] at hs
      rw [heq, heq', hsame, hs.unique hs']
    · obtain ⟨s, hs, heq⟩ := h.substituted i hlt (by omega) r
      obtain ⟨s', hs', heq'⟩ := h'.substituted i hlt (by omega) r
      rw [hlast] at hs
      rw [heq, heq', hsame, hs.unique hs']

/-- The round keys of a key schedule are those that are computed. -/
theorem IsSchedule.roundKey_eq {key : Vector UInt8 32} {w : ℕ → Fin 4 → UInt8}
    (h : IsSchedule key w) {n : ℕ} (hn : n < 15) : roundKey w n = (keyAt key n).matrix := by
  rw [← roundKey_word]
  refine Matrix.ext fun r c => ?_
  have hlt : 4 * n + c < 60 := by omega
  exact congrFun (h.unique (isSchedule_word key) hlt) r

/-! ### Rounds -/

/-- A round that mixes, as it is computed. -/
def mixRound (s key : Columns) : Columns := s.substituted.shiftRows.mix.add key

/-- The last round, as it is computed. -/
def lastRound (s key : Columns) : Columns := s.substituted.shiftRows.add key

theorem isRound_iff {m : Matrix (Fin 4) (Fin 4) ByteRing} {key s : Columns} {t : ByteMatrix} :
    IsRound m key.matrix s.matrix t ↔
      t.map Byte.element = m * s.substituted.shiftRows.matrix.map Byte.element +
        key.matrix.map Byte.element := by
  have hentry : ∀ r c, s.substituted.shiftRows.matrix r c = substitute (s.matrix r (c + r)) := by
    intro r c
    rw [Columns.matrix_shiftRows, Columns.matrix_substituted]
  have hsubstituted : ∀ u : ByteMatrix,
      (∀ r c, Byte.IsSubstitution (s.matrix r (c + r)) (u r c)) ↔
        u = s.substituted.shiftRows.matrix := by
    intro u
    simp only [Byte.isSubstitution_iff, ← hentry]
    exact Matrix.ext_iff
  constructor
  · rintro ⟨u, hu, heq⟩
    rwa [(hsubstituted u).mp hu] at heq
  · exact fun heq => ⟨_, (hsubstituted _).mpr rfl, heq⟩

/-- Matrices of bytes are known by the elements in them. -/
theorem map_element_inj {s t : ByteMatrix} : s.map Byte.element = t.map Byte.element ↔ s = t :=
  (Matrix.map_injective Byte.element_injective).eq_iff

/-- **The round that is computed is the only one.** -/
theorem isRound_mixRound {key s : Columns} {t : ByteMatrix} :
    IsRound mixing key.matrix s.matrix t ↔ t = (mixRound s key).matrix := by
  rw [isRound_iff, ← Columns.element_matrix_mix, ← Columns.element_matrix_add, map_element_inj]
  rfl

theorem isRound_lastRound {key s : Columns} {t : ByteMatrix} :
    IsRound 1 key.matrix s.matrix t ↔ t = (lastRound s key).matrix := by
  rw [isRound_iff, Matrix.one_mul, ← Columns.element_matrix_add, map_element_inj]
  rfl

theorem rounds_cons (key next : Columns) (rest : List Columns) (s : Columns) :
    rounds (key :: next :: rest) s = rounds (next :: rest) (mixRound s key) := by
  rw [rounds, mixRound]
  exact List.cons_ne_nil _ _

theorem rounds_concat (last : Columns) (keys : List Columns) (s : Columns) :
    rounds (keys ++ [last]) s = lastRound (keys.foldl mixRound s) last := by
  induction keys generalizing s with
  | nil => rw [List.nil_append, rounds, List.foldl_nil, lastRound]
  | cons key keys ih =>
    rw [List.foldl_cons, ← ih]
    cases keys <;> exact rounds_cons _ _ _ s

/-- What is left of a block after some rounds. -/
def state (key : Vector UInt8 32) (b : Block) : ℕ → Columns
  | 0 => (Columns.ofBytes b.toBytes).add (keyAt key 0)
  | n + 1 => mixRound (state key b n) (keyAt key (n + 1))

theorem foldl_mixRound (key : Vector UInt8 32) (b : Block) (n : ℕ) :
    ((List.range n).map fun i => keyAt key (i + 1)).foldl mixRound (state key b 0) =
      state key b n := by
  induction n with
  | zero => rfl
  | succ n ih =>
    rw [List.range_succ, List.map_append, List.foldl_append, ih]
    rfl

theorem encryptColumns_roundKeys (key : Vector UInt8 32) (b : Block) :
    encryptColumns (roundKeys key) (Columns.ofBytes b.toBytes) =
      lastRound (state key b 13) (keyAt key 14) := by
  rw [← foldl_mixRound, ← rounds_concat]
  rfl

/-! ### Blocks -/

theorem element_state_zero (key : Vector UInt8 32) (b : Block) :
    (state key b 0).matrix.map Byte.element =
      b.matrix.map Byte.element + (keyAt key 0).matrix.map Byte.element := by
  have hblock : (Columns.ofBytes b.toBytes).matrix = b.matrix :=
    Matrix.ext fun r c => Columns.matrix_ofBytes r c _
  rw [state, Columns.element_matrix_add, hblock]

theorem matrix_encryptBlock (key : Vector UInt8 32) (b : Block) :
    (encryptBlock key b).matrix = (lastRound (state key b 13) (keyAt key 14)).matrix := by
  rw [encryptBlock, Columns.matrix_toBytes, encryptColumns_roundKeys]

/-- Rounds from the same block with the round keys of a schedule lead to the same states. -/
theorem IsSchedule.state_eq {key : Vector UInt8 32} {w : ℕ → Fin 4 → UInt8}
    (h : IsSchedule key w) {b : Block} {s : ℕ → ByteMatrix}
    (hfirst : (s 0).map Byte.element =
      b.matrix.map Byte.element + (roundKey w 0).map Byte.element)
    (hround : ∀ n < 13, IsRound mixing (roundKey w (n + 1)) (s n) (s (n + 1))) {n : ℕ}
    (hn : n < 14) : s n = (state key b n).matrix := by
  induction n with
  | zero =>
    rw [h.roundKey_eq (by norm_num), ← element_state_zero] at hfirst
    exact map_element_inj.mp hfirst
  | succ n ih =>
    have hstep := hround n (by omega)
    rw [h.roundKey_eq (by omega), ih (by omega)] at hstep
    exact isRound_mixRound.mp hstep

/-- **A block is encrypted by exactly one block**, the one that is computed. -/
theorem isEncryption_iff {key : Vector UInt8 32} {b c : Block} :
    IsEncryption key b c ↔ c = encryptBlock key b := by
  constructor
  · rintro ⟨w, s, schedule, hfirst, hround, hend⟩
    rw [schedule.roundKey_eq (by norm_num), schedule.state_eq hfirst hround (by norm_num),
      isRound_lastRound, ← matrix_encryptBlock] at hend
    exact Block.matrix_injective hend
  · rintro rfl
    refine ⟨word key, fun n => (state key b n).matrix, isSchedule_word key, ?_, fun n _ => ?_, ?_⟩
    · rw [roundKey_word, element_state_zero]
    · rw [roundKey_word]
      exact isRound_mixRound.mpr rfl
    · rw [roundKey_word, matrix_encryptBlock]
      exact isRound_lastRound.mpr rfl

end Aes
end TypedConfig
