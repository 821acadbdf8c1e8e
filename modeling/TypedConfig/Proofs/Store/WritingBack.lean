/-
# What is read can be put back

A typed read answers what the entry reads as, or the default. Put back under the same key at the
same type, it is accepted, with one exception: a float that is too large for the 32 bits at which
it is read comes out as an infinity, and this is refused (`Workspace.get_then_put`). Nothing else
that a store can hold, loaded or stored, turns into a value that cannot be written.

Key definitions: `Store.Overflows`.
Key theorems: `Store.isFinite_get_iff`, `Workspace.get_then_put`.
-/
import Mathlib
import TypedConfig.Proofs.Schema.Narrowing
import TypedConfig.Proofs.Store.ReadingBack

namespace TypedConfig
namespace Store

variable {s : Store} {t : SettingType} {key : String}

/-- The entry of a key reads at the type, and a float in it is too large for 32 bits. -/
def Overflows (s : Store) (t : SettingType) (key : String) : Prop :=
  ∃ entry v, s.get? key = some entry ∧ t.fromValue entry = .ok v ∧ t.Overflows entry

/-- **What a read answers is finite, unless a float of the entry is too large.** -/
theorem isFinite_get_iff (finite : s.entries.AllFinite) (hkey : key ≠ "")
    (hopen : s.closed = false) {default : t.Val}
    (persistable : (t.toValue default).checkPersistable = .ok ()) :
    t.isFinite (s.get t key default).1 = true ↔ ¬ s.Overflows t key := by
  by_cases hreads : ∃ v, s.Reads t key v
  · obtain ⟨v, entry, hentry, hread⟩ := hreads
    have hlarge : s.Overflows t key ↔ t.Overflows entry := by
      constructor
      · rintro ⟨found, -, hfound, -, hlarge⟩
        rw [hentry] at hfound
        cases hfound
        exact hlarge
      · exact fun hlarge => ⟨entry, v, hentry, hread, hlarge⟩
    rw [get_of_reads hkey hopen hentry hread, hlarge]
    exact t.isFinite_iff_of_read (Document.allFinite_iff.mp finite key entry hentry) hread
  · have hdefault : t.isFinite default = true :=
      (t.isFinite_iff default).mpr (Value.allFinite_of_checkPersistable _ persistable)
    have hfits : ¬ s.Overflows t key := by
      rintro ⟨entry, v, hentry, hread, -⟩
      exact hreads ⟨v, entry, hentry, hread⟩
    rw [get_of_not_reads hkey hopen (not_exists.mp hreads)]
    exact iff_of_true hdefault hfits

end Store

namespace Workspace

/-- **What is read can be put back.** What reads at a type from a value that can be written can be
written too, unless a float is read at 32 bits and is too large for them; then it is refused for
being infinite. So it is in a store that was opened and worked on in any way, and is still open:
what a read at a type answers, with a default that can be written, is accepted when it is put back
under its key, unless the entry holds a float that is too large, and then it is refused and
nothing changes. -/
theorem get_then_put (t : SettingType) :
    (∀ (value : Value) (v : t.Val), value.checkPersistable = .ok () → t.fromValue value = .ok v →
      (¬ t.Overflows value → (t.toValue v).checkPersistable = .ok ()) ∧
        (t.Overflows value → (t.toValue v).checkPersistable = .error .nonFiniteFloat)) ∧
    ∀ (o : OpenOptions) (env : Environment) (media : Media) (nonces : NonceSupply)
      (w₀ w : Workspace) (cs : List StoreCommand),
      Workspace.opened o env media nonces = .ok w₀ → (w₀.run cs).2 = w → w.store.closed = false →
      ∀ (key : String) (default : t.Val), key ≠ "" →
        (t.toValue default).checkPersistable = .ok () →
        ∃ v w₁, w.perform (.get t key default) = (.typed t v, w₁) ∧
          (¬ w.store.Overflows t key →
            ∃ changed w₂, w₁.perform (.put t key v) = (.changed changed, w₂)) ∧
          (w.store.Overflows t key →
            w₁.perform (.put t key v) = (.refused (.persistence .nonFiniteFloat), w₁)) := by
  refine ⟨fun value v persistable hread => ?value, ?store⟩
  case value =>
    exact t.checkPersistable_of_read (value.allFinite_of_checkPersistable persistable) hread
  case store =>
    intro o env media nonces w₀ w cs opened ran hopen key default hkey persistable
    have finite : w.store.entries.AllFinite := ran ▸ run_allFinite opened cs
    have hfinite := Store.isFinite_get_iff finite hkey hopen persistable
    have hopen₁ : (w.store.get t key default).2.closed = false :=
      (w.store.get_closed t key default).trans hopen
    refine ⟨(w.store.get t key default).1, { w with store := (w.store.get t key default).2 }, rfl,
      fun hfits => ?_, fun hlarge => ?_⟩
    · obtain ⟨changed, stored, hput⟩ := Store.exists_put hkey hopen₁ (hfinite.mpr hfits)
      refine ⟨changed, { w with store := stored }, ?_⟩
      simp only [perform, hput, settled]
    · have hinfinite : t.isFinite (w.store.get t key default).1 = false := by
        rw [← Bool.not_eq_true, hfinite]
        exact not_not.mpr hlarge
      have hput := Store.put_of_not_finite hkey hopen₁ hinfinite
      simp only [perform, hput, settled]

/-- The float 2¹²⁸, for which 32 bits have no number. -/
def beyondSingle : Binary64 := ⟨0x47f0000000000000⟩

theorem absValue_beyondSingle : beyondSingle.absValue = 2 ^ 128 := by
  have hsignificand : beyondSingle.significand = 2 ^ 52 := by decide
  have hexponent : beyondSingle.exponent = 76 := by decide
  rw [Binary.absValue, hsignificand, hexponent]
  norm_num

/-- The float is stored, and put back as it is. Read at 32 bits it is infinite, and refused. -/
theorem get_then_put_beyondSingle :
    let w := (blank.run [.putValue "k" (.float beyondSingle)]).2
    (∃ v w₁ changed w₂, w.perform (.get .double "k" (.zero false)) = (.typed .double v, w₁) ∧
      w₁.perform (.put .double "k" v) = (.changed changed, w₂)) ∧
    ∃ v w₁, w.perform (.get .float "k" (.zero false)) = (.typed .float v, w₁) ∧
      w₁.perform (.put .float "k" v) = (.refused (.persistence .nonFiniteFloat), w₁) := by
  intro w
  have opened : Workspace.opened { address := .named "s", inMemory := true } {} blank.media {} =
      .ok blank := rfl
  have hentry : w.store.get? "k" = some (.float beyondSingle) := rfl
  have hput := fun t => (get_then_put t).2 _ _ _ _ blank w
    [.putValue "k" (.float beyondSingle)] opened rfl rfl
  constructor
  · obtain ⟨v, w₁, hget, hfits, -⟩ := hput .double "k" (.zero false) (by decide) rfl
    obtain ⟨changed, w₂, hchanged⟩ := hfits fun ⟨_, _, _, _, hlarge⟩ => hlarge
    exact ⟨v, w₁, changed, w₂, hget, hchanged⟩
  · have persistable : (SettingType.float.toValue (.zero false)).checkPersistable = .ok () := by
      rw [SettingType.checkPersistable_toValue]
      rfl
    obtain ⟨v, w₁, hget, -, hlarge⟩ := hput .float "k" (.zero false) (by decide) persistable
    refine ⟨v, w₁, hget, hlarge ⟨_, _, hentry, rfl, ?_⟩⟩
    rw [SettingType.Overflows, absValue_beyondSingle]
    norm_num

end Workspace
end TypedConfig
