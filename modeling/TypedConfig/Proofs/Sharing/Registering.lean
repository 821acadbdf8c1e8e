/-
# A registry shared by threads

Any number of calls set up settings of one registry at the same time: they take a
declaration in, or look a setting up and set it up. Between two steps of one call the
others may take any number of steps. A declaration is checked before anything is shared; it
is taken in under the lock of the registry, but set up after the lock was let go of. To set
a setting up takes four steps: to ask whether it is marked as set up, to check its
declaration again, to mark it if it is not marked by now, and to tell this.

How far a call has come is its `CallPhase`, and `RegistryCall.advance` is its next step. The
steps of a call that no other one comes between are those of the registry's own operation
(`SharedRegistry.Run.alone`).

Key definitions: `RegistryCall`, `CallPhase`, `Note`, `RegistryCall.advance`,
`SharedRegistry`, `SharedRegistry.Run`.
Key theorems: `SharedRegistry.Run.alone`.
-/
import Mathlib
import TypedConfig.Proofs.Registry.Registering

namespace TypedConfig

/-! ### One call -/

/-- A call that sets up a setting. -/
inductive RegistryCall where
  | register (t : SettingType) (d : Declaration t)
  /-- To set up the setting of a key, which is looked up first. -/
  | setUp (t : SettingType) (key : String)

/-- How far a call has come. -/
inductive CallPhase where
  /-- It was not made yet. -/
  | waiting
  /-- Its declaration is sound, and is taken in next unless the key is taken. -/
  | inserting
  /-- It asks next whether the setting is marked as set up. -/
  | asking
  /-- It checks the declaration again. -/
  | checking
  /-- It marks the setting next, unless it is marked by now. -/
  | claiming
  /-- It has marked the setting, and tells this next. -/
  | telling (event : Event)
  | returned (reply : RegistryReply)

/-- What is worth noting of a step. -/
inductive Note where
  /-- A declaration was taken in. -/
  | won
  /-- A setting was marked as set up. -/
  | raised
  | told (event : Event)

/-- What a step does: what is worth noting of it, the registry, and how far the call is then. -/
structure CallStep where
  note? : Option Note := none
  registry : Registry
  phase : CallPhase

namespace RegistryCall

/-- The type of the setting. -/
@[reducible] def type : RegistryCall → SettingType
  | .register t _ => t
  | .setUp t _ => t

/-- The key of the setting. -/
def key : RegistryCall → String
  | .register _ d => d.key
  | .setUp _ key => key

/-- The call as an operation that nothing comes between. -/
def command : RegistryCall → RegistryCommand
  | .register t d => .register t d
  | .setUp t key => .initializing t key

/-- The answer of a call that has set its setting up, or found it set up. -/
def answer : (c : RegistryCall) → Setting c.type → RegistryReply
  | .register t _, s => .registered t s
  | .setUp _ _, _ => .accepted

/-- The first step: a declaration is checked, or a setting is looked up. -/
def begin (r : Registry) : RegistryCall → CallPhase
  | .register _ d =>
    match d.check with
    | .error e => .returned (.unsound e)
    | .ok () => .inserting
  | .setUp t key =>
    match r.setting t key with
    | .error e => .returned (.refused e)
    | .ok _ => .asking

/-- The section under the lock of the registry. -/
def insert (r : Registry) : RegistryCall → Option CallStep
  | .register _ d =>
    match r.register d with
    | .error e => some { registry := r, phase := .returned (.unsound e) }
    | .ok (_, r) => some { note? := some .won, registry := r, phase := .asking }
  | .setUp _ _ => none

/-- A step that needs the setting of the call. -/
def atSetting (c : RegistryCall) (r : Registry) (step : Setting c.type → CallStep) : CallStep :=
  match r.setting c.type c.key with
  | .error e => { registry := r, phase := .returned (.refused e) }
  | .ok s => step s

/-- The next step of a call, if it has not returned yet. -/
def advance (c : RegistryCall) (r : Registry) : CallPhase → Option CallStep
  | .waiting => some { registry := r, phase := c.begin r }
  | .inserting => c.insert r
  | .asking => some <| c.atSetting r fun s =>
    { registry := r, phase := if s.initialized then .returned (c.answer s) else .checking }
  | .checking => some <| c.atSetting r fun s =>
    { registry := r
      phase := match s.declaration.check with
        | .error e => .returned (.unsound e)
        | .ok () => .claiming }
  | .claiming => some <| c.atSetting r fun s =>
    match s.initializing with
    | (none, s) => { registry := r, phase := .returned (c.answer s) }
    | (some event, s) =>
      { note? := some .raised, registry := r.place ⟨c.type, s⟩, phase := .telling event }
  | .telling event => some <| c.atSetting r fun s =>
    { note? := some (.told event), registry := r, phase := .returned (c.answer s) }
  | .returned _ => none

end RegistryCall

/-! ### Calls that share a registry -/

/-- A registry, and how far each of the calls has come. -/
structure SharedRegistry where
  registry : Registry
  phase : ℕ → CallPhase

namespace SharedRegistry

/-- The shared registry after a step of call `n`. -/
def after (s : SharedRegistry) (n : ℕ) (step : CallStep) : SharedRegistry :=
  { registry := step.registry, phase := Function.update s.phase n step.phase }

/-- What is noted of a step of call `n`. -/
def notesOf (n : ℕ) (step : CallStep) : List (ℕ × Note) := (step.note?.map (n, ·)).toList

/-- Steps of any of the calls in any order, with what is noted of them, the last one first. -/
inductive Run (calls : ℕ → RegistryCall) (start : SharedRegistry) :
    List (ℕ × Note) → SharedRegistry → Prop
  | start : Run calls start [] start
  | step {notes : List (ℕ × Note)} {s : SharedRegistry} {n : ℕ} {step : CallStep}
    (run : Run calls start notes s)
    (next : (calls n).advance s.registry (s.phase n) = some step) :
    Run calls start (notesOf n step ++ notes) (s.after n step)

/-- A registry without settings, on which no call was made. -/
structure IsFresh (s : SharedRegistry) : Prop where
  empty : s.registry.settings = SortedMap.empty
  waiting : ∀ n, s.phase n = .waiting

/-- No call is in progress. -/
def IsQuiet (s : SharedRegistry) : Prop :=
  ∀ n, s.phase n = .waiting ∨ ∃ reply, s.phase n = .returned reply

@[simp] theorem after_phase (s : SharedRegistry) (n : ℕ) (step : CallStep) :
    (s.after n step).phase n = step.phase := Function.update_self ..

theorem after_phase_of_ne (s : SharedRegistry) {m n : ℕ} (h : m ≠ n) (step : CallStep) :
    (s.after n step).phase m = s.phase m := Function.update_of_ne h ..

end SharedRegistry

/-! ### The steps one by one -/

namespace RegistryCall

variable {c : RegistryCall} {r : Registry} {s : Setting c.type}

theorem atSetting_eq (h : r.setting c.type c.key = .ok s) (step : Setting c.type → CallStep) :
    c.atSetting r step = step s := by
  simp only [atSetting, h]

/-- A setting that is marked needs no more work. -/
theorem advance_asking_up (h : r.setting c.type c.key = .ok s) (up : s.initialized = true) :
    c.advance r .asking = some { registry := r, phase := .returned (c.answer s) } := by
  simp only [advance, atSetting_eq h, up, if_true]

theorem advance_asking_down (h : r.setting c.type c.key = .ok s) (down : s.initialized = false) :
    c.advance r .asking = some { registry := r, phase := .checking } := by
  simp only [advance, atSetting_eq h, down, Bool.false_eq_true, if_false]

/-- The declaration of a setting was sound before, and is sound still. -/
theorem advance_checking (h : r.setting c.type c.key = .ok s) :
    c.advance r .checking = some { registry := r, phase := .claiming } := by
  simp only [advance, atSetting_eq h, s.sound]

theorem advance_claiming_up (h : r.setting c.type c.key = .ok s) (up : s.initialized = true) :
    c.advance r .claiming = some { registry := r, phase := .returned (c.answer s) } := by
  simp only [advance, atSetting_eq h, Setting.initializing, up, if_true]

theorem advance_claiming_down (h : r.setting c.type c.key = .ok s)
    (down : s.initialized = false) :
    c.advance r .claiming = some
      { note? := some .raised
        registry := r.place ⟨c.type, { s with initialized := true }⟩
        phase := .telling (.initialized c.key c.type.variant) } := by
  simp only [advance, atSetting_eq h, Setting.initializing, down, Bool.false_eq_true, if_false,
    Registry.key_of_setting h]

theorem advance_telling (h : r.setting c.type c.key = .ok s) (event : Event) :
    c.advance r (.telling event) = some
      { note? := some (.told event), registry := r, phase := .returned (c.answer s) } := by
  simp only [advance, atSetting_eq h]

end RegistryCall

/-! ### A call that is not interrupted -/

/-- The event that a note is about. -/
def Note.event? : Note → Option Event
  | .told event => some event
  | _ => none

/-- The events that were told, the last one first. -/
def toldEvents (notes : List (ℕ × Note)) : List Event := notes.filterMap fun e => e.2.event?

theorem Registry.place_of_setting {r : Registry} {t : SettingType} {key : String} {s : Setting t}
    (h : r.setting t key = .ok s) : r.place ⟨t, s⟩ = r := by
  have hfound : r.settings.get? s.key = some ⟨t, s⟩ := by
    rw [key_of_setting h]
    exact setting_eq_ok_iff.mp h
  have hsettings : r.settings.insert s.key ⟨t, s⟩ = r.settings := SortedMap.insert_eq_self hfound
  cases r
  simpa only [place, AnySetting.key, mk.injEq, true_and, and_true] using hsettings

namespace SharedRegistry

variable {calls : ℕ → RegistryCall} {start s : SharedRegistry} {notes : List (ℕ × Note)} {n : ℕ}

theorem after_after (s : SharedRegistry) (n : ℕ) (first second : CallStep) :
    (s.after n first).after n second = s.after n second := by
  simp [after]

/-- One more step of a call that has come to `first`. -/
theorem Run.next {first second : CallStep} (run : Run calls start notes (s.after n first))
    (next : (calls n).advance first.registry first.phase = some second) :
    Run calls start (notesOf n second ++ notes) (s.after n second) := by
  have hnext : (calls n).advance (s.after n first).registry ((s.after n first).phase n) =
      some second := by
    rw [after_phase]
    exact next
  have hstep := run.step hnext
  rwa [after_after] at hstep

/-- To set a setting up, with no other call in between: it is told if it was not set up before. -/
theorem Run.asking_alone {c : RegistryCall} (call : calls n = c) {first : CallStep}
    (run : Run calls start notes (s.after n first)) (phase : first.phase = .asking)
    {set : Setting c.type} (stored : first.registry.setting c.type c.key = .ok set) :
    ∃ more, Run calls start (more ++ notes)
        (s.after n
          { registry := first.registry.place ⟨c.type, set.initializing.2⟩
            phase := .returned (c.answer set.initializing.2) }) ∧
      toldEvents more = set.initializing.1.toList := by
  subst call
  have hkey : set.key = (calls n).key := Registry.key_of_setting stored
  cases hup : set.initialized with
  | true =>
    have hnext : (calls n).advance first.registry first.phase =
        some { registry := first.registry, phase := .returned ((calls n).answer set) } := by
      rw [phase, RegistryCall.advance_asking_up stored hup]
    have hsame : set.initializing = (none, set) := by
      rw [Setting.initializing, hup]
      rfl
    rw [hsame, Registry.place_of_setting stored]
    exact ⟨[], run.next hnext, rfl⟩
  | false =>
    let up : Setting (calls n).type := { set with initialized := true }
    let event : Event := .initialized (calls n).key (calls n).type.variant
    have hfirst : set.initializing = (some event, up) := by
      rw [Setting.initializing, hup, hkey]
      rfl
    have hplaced : (first.registry.place ⟨(calls n).type, up⟩).setting (calls n).type
        (calls n).key = .ok up := by
      rw [← hkey]
      exact Registry.setting_place _ up
    have hnext : (calls n).advance first.registry first.phase =
        some { registry := first.registry, phase := .checking } := by
      rw [phase, RegistryCall.advance_asking_down stored hup]
    rw [hfirst]
    have checked := (run.next hnext).next (RegistryCall.advance_checking stored)
    have raised := checked.next (RegistryCall.advance_claiming_down stored hup)
    exact ⟨[(n, .told event), (n, .raised)],
      raised.next (RegistryCall.advance_telling hplaced event), rfl⟩

/-- **The steps of a call that no other one comes between are those of the registry's own
operation.** -/
theorem Run.alone (calls : ℕ → RegistryCall) {s : SharedRegistry} {n : ℕ}
    (waiting : s.phase n = .waiting) (w : Workspace) :
    ∃ notes, Run calls s notes
        (s.after n
          { registry := (s.registry.perform w (calls n).command).registry
            phase := .returned (s.registry.perform w (calls n).command).reply }) ∧
      toldEvents notes = (s.registry.perform w (calls n).command).event?.toList := by
  have first : ∀ {c}, calls n = c →
      Run calls s [] (s.after n { registry := s.registry, phase := c.begin s.registry }) := by
    rintro c rfl
    exact .step (n := n) .start (by rw [waiting]; rfl)
  cases hcall : calls n with
  | register t d =>
    have begun := first hcall
    rw [RegistryCall.begin] at begun
    rw [RegistryCall.command]
    cases hcheck : d.check with
    | error e =>
      simp only [Registry.perform, Registry.register_of_unsound hcheck]
      rw [hcheck] at begun
      exact ⟨[], begun, rfl⟩
    | ok u =>
      rw [hcheck] at begun
      have hinsert : ∀ {step}, (RegistryCall.register t d).insert s.registry = some step →
          Run calls s (notesOf n step ++ []) (s.after n step) := by
        intro step hstep
        exact begun.next (by rw [hcall]; exact hstep)
      cases hfound : s.registry.settings.get? d.key with
      | some found =>
        have taken := Registry.register_of_taken hcheck (by rw [hfound]; exact Option.some_ne_none _)
        have hstep : (RegistryCall.register t d).insert s.registry = some
            { registry := s.registry, phase := .returned (.unsound (.duplicateKey d.key)) } := by
          simp only [RegistryCall.insert, taken]
        simp only [Registry.perform, taken]
        exact ⟨[], hinsert hstep, rfl⟩
      | none =>
        have free := Registry.register_of_free hcheck hfound
        have inserted := hinsert (by simp only [RegistryCall.insert, free]; rfl)
        obtain ⟨more, hrun, htold⟩ := inserted.asking_alone hcall rfl (Registry.setting_place _ _)
        simp only [Registry.perform, free]
        refine ⟨_, hrun, ?_⟩
        rw [toldEvents, List.filterMap_append]
        exact (List.append_nil _).trans htold
  | setUp t key =>
    have begun := first hcall
    rw [RegistryCall.begin] at begun
    rw [RegistryCall.command]
    cases hfound : s.registry.setting t key with
    | error e =>
      simp only [Registry.perform, hfound]
      rw [hfound] at begun
      exact ⟨[], begun, rfl⟩
    | ok set =>
      rw [hfound] at begun
      obtain ⟨more, hrun, htold⟩ := begun.asking_alone hcall rfl hfound
      simp only [Registry.perform, hfound]
      exact ⟨_, hrun, by rw [List.append_nil]; exact htold⟩

end SharedRegistry
end TypedConfig
