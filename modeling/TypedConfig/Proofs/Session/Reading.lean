/-
# Reading a setting and asking whether it stands at its default

A read asks the store for the value, which may keep what it answered. Whether the setting
stands at its default is asked of the entry itself, and nothing is kept. While the store is
open both see one value, whatever stands under the key, and the read does not change it
(`Setting.current_read`). A closed store is read as the default, but its entries are still
there to be asked: then the two differ exactly where the entry reads as a value other than
the default (`Setting.isDefault_eq_read_iff`).

Key theorems: `Setting.current_read`, `Setting.isDefault_eq_read_iff`,
`Session.carryOut_read`, `Session.carryOut_isDefault`,
`Session.isDefault_agrees_unless_closed`.
-/
import Mathlib
import TypedConfig.Proofs.Session.Telling
import TypedConfig.Proofs.Store.Rereading

namespace TypedConfig

/-! ### The two values of a setting -/

namespace Setting

variable {t : SettingType} {s : Setting t} {store : Store} {v : t.Val}

theorem current_of_reads (reads : store.Reads t s.key v) : s.current store = v := by
  obtain ⟨entry, found, hread⟩ := reads
  simp only [current, found, hread]

theorem current_of_not_reads (h : ∀ v, ¬ store.Reads t s.key v) : s.current store = s.default := by
  unfold current
  cases found : store.get? s.key with
  | none => rfl
  | some entry =>
    cases hread : t.fromValue entry with
    | error e => simp only [hread]
    | ok v => exact absurd ⟨entry, found, hread⟩ (h v)

/-- Whatever became of storing the default, the setting stands at it. -/
theorem current_populate {found? : Option Value} (h : s.current store = s.default) :
    s.current (store.populate t s.key found? s.default) = s.default := by
  simp only [Store.populate]
  split
  · refine current_of_written ?_ (Declaration.accepts_default s.sound)
      (store.memoryForm_persisted t s.default)
    rw [Store.get?_setEntry, if_pos rfl]
  · exact h

/-- **A read does not change the value of a setting**, whatever the store keeps of it. -/
theorem current_read (s : Setting t) (store : Store) :
    s.current (s.read store).2 = s.current store := by
  cases hclosed : store.closed with
  | true => rw [s.read_of_closed hclosed]
  | false =>
    by_cases h : ∃ v, store.Reads t s.key v
    · obtain ⟨v, entry, found, hread⟩ := h
      have reads : store.Reads t s.key v := ⟨entry, found, hread⟩
      rw [read, Store.get_of_reads s.key_ne_empty hclosed found hread, current_of_reads reads]
      dsimp only
      split
      · exact current_of_reads (Store.reads_cacheResolved found hread)
      · exact current_of_reads reads
    · have hdefault := s.current_of_not_reads (not_exists.mp h)
      rw [read, Store.get_of_not_reads s.key_ne_empty hclosed (not_exists.mp h), hdefault]
      dsimp only
      split
      · exact current_populate hdefault
      · exact hdefault

theorem isEqual_default (s : Setting t) : t.isEqual s.default s.default = true :=
  (Declaration.accepts_default s.sound).isEqual_self

/-- A setting does not stand at its default exactly if its entry reads as another value. -/
theorem isDefault_eq_false_iff : s.isDefault store = false ↔
    ∃ v, store.Reads t s.key v ∧ t.isEqual v s.default = false := by
  constructor
  · intro h
    by_cases hreads : ∃ v, store.Reads t s.key v
    · obtain ⟨v, reads⟩ := hreads
      rw [isDefault, current_of_reads reads] at h
      exact ⟨v, reads, h⟩
    · rw [isDefault, current_of_not_reads (not_exists.mp hreads), s.isEqual_default] at h
      cases h
  · rintro ⟨v, reads, hother⟩
    rw [isDefault, current_of_reads reads, hother]

/-- **Asking agrees with reading** unless the store is closed over an entry that reads as another
value than the default. -/
theorem isDefault_eq_read_iff : s.isDefault store = t.isEqual (s.read store).1 s.default ↔
    ¬ (store.closed = true ∧ ∃ v, store.Reads t s.key v ∧ t.isEqual v s.default = false) := by
  cases hclosed : store.closed with
  | false => simp [isDefault, s.read_eq_current hclosed]
  | true =>
    rw [s.read_of_closed hclosed, s.isEqual_default, ← isDefault_eq_false_iff]
    simp

end Setting

/-! ### Reading and asking in a session -/

namespace Session

variable {s : Session} {name key : String} {t : SettingType} {setting : Setting t}

/-- What a session comes to by a read of a setting. -/
theorem carryOut_read (registered : (s.registry name).setting t key = .ok setting) :
    s.carryOut (.registry name (.read t key)) =
      { reply := .registry (.typed t (setting.read s.workspace.store).1)
        session := s.withStore name (setting.read s.workspace.store).2 } := by
  simp only [carryOut, perform, step, Registry.perform, registered]
  rfl

/-- Asking whether a setting stands at its default changes nothing. -/
theorem carryOut_isDefault (registered : (s.registry name).setting t key = .ok setting) :
    s.carryOut (.isDefault name t key) =
      { reply := .answer (setting.isDefault s.workspace.store), session := s } := by
  simp only [carryOut, registered]

/-- **A setting stands at its default exactly if it is read as its default, unless its store was
closed over another value.** Take a setting of any type, registered in any session. A read answers
a value, and the question whether the setting stands at its default is answered without a change,
before the read as after it. While the store is open, what is read is what the entry stands for;
once it is closed, the default is read. The answer tells whether what is read equals the default,
except where the store is closed and the entry of the setting reads as a value that does not. -/
theorem isDefault_agrees_unless_closed (s : Session) {name key : String} {t : SettingType}
    {setting : Setting t} (registered : (s.registry name).setting t key = .ok setting) :
    let store := s.workspace.store
    let done := s.carryOut (.registry name (.read t key))
    ∃ v yes, done.reply = .registry (.typed t v) ∧
      s.carryOut (.isDefault name t key) = { reply := .answer yes, session := s } ∧
      done.session.carryOut (.isDefault name t key) =
        { reply := .answer yes, session := done.session } ∧
      (store.closed = false → v = setting.current store) ∧
      (store.closed = true → v = setting.default) ∧
      (yes = t.isEqual v setting.default ↔
        ¬ (store.closed = true ∧
          ∃ other, store.Reads t key other ∧ t.isEqual other setting.default = false)) := by
  intro store done
  have hdone : done = _ := carryOut_read registered
  have hkey : setting.key = key := Registry.key_of_setting registered
  refine ⟨(setting.read store).1, setting.isDefault store, ?_, carryOut_isDefault registered, ?_,
    setting.read_eq_current, fun hclosed => ?_, hkey ▸ Setting.isDefault_eq_read_iff⟩
  · rw [hdone]
  · have hstays : setting.isDefault (setting.read store).2 = setting.isDefault store := by
      rw [Setting.isDefault, setting.current_read, Setting.isDefault]
    rw [← registry_withStore s name (setting.read store).2] at registered
    rw [hdone, carryOut_isDefault registered]
    exact congrArg (fun yes => SessionStep.mk (.answer yes) _ none) hstays
  · rw [setting.read_of_closed hclosed]

/-- Other ports were set, and then the store was closed. -/
def closedPorts : Session :=
  after { workspace := Workspace.blank }
    [.registry "r" (.register (.array .integer) portsSetting.declaration),
      .registry "r" (.assign (.array .integer) "ports" [443]), .store .close]

/-- The ports are read as the default, and yet are said not to stand at it. -/
theorem isDefault_agrees_unless_closed_ports :
    (closedPorts.carryOut (.registry "r" (.read (.array .integer) "ports"))).reply =
        .registry (.typed (.array .integer) [80]) ∧
      (closedPorts.carryOut (.isDefault "r" (.array .integer) "ports")).reply = .answer false := by
  have registered : (closedPorts.registry "r").setting (.array .integer) "ports" =
      .ok { portsSetting with listeners := {} } := rfl
  have reads : closedPorts.workspace.store.Reads (.array .integer) "ports" [443] :=
    ⟨.array [.int 443], rfl, rfl⟩
  obtain ⟨v, yes, hread, hask, -, -, hclosed, hagree⟩ :=
    isDefault_agrees_unless_closed closedPorts registered
  have hv : v = [80] := hclosed rfl
  subst hv
  rw [hread, hask]
  refine ⟨rfl, ?_⟩
  cases yes with
  | false => rfl
  | true => exact absurd ⟨rfl, [443], reads, rfl⟩ (hagree.mp rfl)

end Session
end TypedConfig
