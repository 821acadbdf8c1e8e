/-
# Sessions over the projection of a store

A session is projected by its workspace; registries, listeners and records are the same.
An operation on a registry is that in the projection (`Session.perform_uncached`), with all
that listeners do while they are told of its event, however deep their reactions nest
(`Session.deliver_projects`).

Key definitions: `Session.uncached`, `Session.NamesAreWords`, `Session.Projects`.
Key theorems: `Session.act_uncached`, `Session.deliver_projects`, `Session.perform_uncached`.
-/
import Mathlib
import TypedConfig.Proofs.Registry.Uncached
import TypedConfig.Session.Command

namespace TypedConfig
namespace Session

/-! ### Sessions -/

/-- The session over the projection of its workspace. -/
def uncached (s : Session) : Session := { s with workspace := s.workspace.uncached }

/-- No constant of the types of the settings has a name that spells an integer. -/
def NamesAreWords (s : Session) : Prop :=
  ∀ name r, s.registries.get? name = some r → r.NamesAreWords

variable {s : Session}

theorem registry_uncached (s : Session) (name : String) :
    s.uncached.registry name = s.registry name := rfl

theorem namesAreWords_registry (words : s.NamesAreWords) (name : String) :
    (s.registry name).NamesAreWords := by
  unfold registry
  cases hget : s.registries.get? name with
  | none =>
    intro key setting h
    simp at h
  | some r => exact words name r hget

theorem namesAreWords_setRegistry (words : s.NamesAreWords) {r : Registry}
    (hr : r.NamesAreWords) : (s.setRegistry r).NamesAreWords := by
  intro name found h
  simp only [setRegistry] at h
  rw [SortedMap.get?_insert] at h
  split at h
  · cases h
    exact hr
  · exact words name found h

/-! ### Listening -/

theorem namesAreWords_acquaint (words : s.NamesAreWords) (name : String) (listener : Listener) :
    (s.acquaint name listener).NamesAreWords := by
  unfold acquaint
  split <;> exact words

theorem acquaint_uncached (s : Session) (name : String) (listener : Listener) :
    s.uncached.acquaint name listener = (s.acquaint name listener).uncached := by
  have hlisteners : s.uncached.listeners = s.listeners := rfl
  unfold acquaint
  rw [hlisteners]
  by_cases h : s.listeners.contains name = true
  · rw [if_pos h, if_pos h]
  · rw [if_neg h, if_neg h]
    rfl

theorem namesAreWords_listen (words : s.NamesAreWords) (registry name : String) :
    (s.listen registry name).NamesAreWords :=
  namesAreWords_setRegistry words (namesAreWords_registry words registry)

theorem namesAreWords_unlisten (words : s.NamesAreWords) (registry name : String) :
    (s.unlisten registry name).2.NamesAreWords :=
  namesAreWords_setRegistry words (namesAreWords_registry words registry)

theorem namesAreWords_listenTo (words : s.NamesAreWords) {registry key name : String}
    {t : SettingType} {s' : Session} (h : s.listenTo registry t key name = .ok s') :
    s'.NamesAreWords := by
  have hregistry := namesAreWords_registry words registry
  simp only [listenTo] at h
  cases hsetting : (s.registry registry).setting t key with
  | error e =>
    rw [hsetting] at h
    cases h
  | ok setting =>
    rw [hsetting] at h
    cases h
    exact namesAreWords_setRegistry words (Registry.namesAreWords_place hregistry
      (Registry.namesAreWords_of_setting hregistry hsetting))

theorem namesAreWords_unlistenTo (words : s.NamesAreWords) {registry key name : String}
    {t : SettingType} {p : Bool × Session} (h : s.unlistenTo registry t key name = .ok p) :
    p.2.NamesAreWords := by
  have hregistry := namesAreWords_registry words registry
  simp only [unlistenTo] at h
  cases hsetting : (s.registry registry).setting t key with
  | error e =>
    rw [hsetting] at h
    cases h
  | ok setting =>
    rw [hsetting] at h
    cases h
    exact namesAreWords_setRegistry words (Registry.namesAreWords_place hregistry
      (Registry.namesAreWords_of_setting hregistry hsetting))

theorem listenTo_uncached (s : Session) (registry : String) (t : SettingType)
    (key name : String) : s.uncached.listenTo registry t key name =
      (s.listenTo registry t key name).map uncached := by
  simp only [listenTo, registry_uncached]
  cases (s.registry registry).setting t key <;> rfl

theorem unlistenTo_uncached (s : Session) (registry : String) (t : SettingType)
    (key name : String) : s.uncached.unlistenTo registry t key name =
      (s.unlistenTo registry t key name).map fun p => (p.1, p.2.uncached) := by
  simp only [unlistenTo, registry_uncached]
  cases (s.registry registry).setting t key <;> rfl

/-! ### Operations and their telling -/

theorem namesAreWords_step (words : s.NamesAreWords) (registry : String) {c : RegistryCommand}
    (hc : c.NamesAreWords) : (s.step registry c).2.1.NamesAreWords :=
  namesAreWords_setRegistry words
    (Registry.perform_namesAreWords (namesAreWords_registry words registry) s.workspace hc)

theorem step_uncached (words : s.NamesAreWords) (registry : String) (c : RegistryCommand) :
    s.uncached.step registry c =
      ((s.step registry c).1, (s.step registry c).2.1.uncached, (s.step registry c).2.2) := by
  have h := Registry.perform_uncached (namesAreWords_registry words registry) s.workspace c
  have hworkspace : s.uncached.workspace = s.workspace.uncached := rfl
  simp only [step, registry_uncached, hworkspace, h]
  rfl

theorem namesAreWords_command (words : s.NamesAreWords) (c : StoreCommand) :
    (s.command c).2.NamesAreWords := words

theorem command_uncached (s : Session) {c : StoreCommand} (hc : c.NamesAreWords)
    (htoggle : ∀ on, c ≠ .setEnumCache on) :
    s.uncached.command c.uncached = ((s.command c).1.uncached, (s.command c).2.uncached) := by
  have h := s.workspace.perform_uncached hc htoggle
  simp only [command, uncached, h]

/-- What is done to a session is done to its projection, and keeps the types that it has. -/
structure Projects (f : Session → Session) : Prop where
  words : ∀ {s : Session}, s.NamesAreWords → (f s).NamesAreWords
  uncached : ∀ {s : Session}, s.NamesAreWords → f s.uncached = (f s).uncached

theorem Projects.foldl {α : Type} {f : Session → α → Session} (h : ∀ a, Projects (f · a))
    (as : List α) : Projects (as.foldl f ·) := by
  induction as with
  | nil => exact ⟨fun words => words, fun _ => rfl⟩
  | cons a as ih =>
    refine ⟨fun words => ih.words ((h a).words words), fun {s} words => ?_⟩
    rw [List.foldl_cons, List.foldl_cons, (h a).uncached words, ih.uncached ((h a).words words)]

theorem namesAreWords_act (words : s.NamesAreWords) (name registry : String) (action : Action) :
    (s.act name registry action).2.1.NamesAreWords := by
  cases action with
  | assignValue key value => exact namesAreWords_step words registry trivial
  | reset key => exact namesAreWords_step words registry trivial
  | close => exact words
  | clear =>
    have h := namesAreWords_command words .clear
    simp only [act]
    rcases hdone : s.command .clear with ⟨reply, s'⟩
    rw [hdone] at h
    cases reply <;> exact h
  | save =>
    have h := namesAreWords_command words .save
    simp only [act]
    rcases hdone : s.command .save with ⟨reply, s'⟩
    rw [hdone] at h
    cases reply <;> exact h
  | leave => exact namesAreWords_unlisten words registry name

theorem act_uncached (words : s.NamesAreWords) (name registry : String) (action : Action) :
    s.uncached.act name registry action =
      ((s.act name registry action).1, (s.act name registry action).2.1.uncached,
        (s.act name registry action).2.2) := by
  cases action with
  | assignValue key value => simp only [act, step_uncached words]
  | reset key => simp only [act, step_uncached words]
  | close => rfl
  | clear =>
    have h : s.uncached.command .clear = _ := s.command_uncached (c := .clear) trivial nofun
    simp only [act, h]
    rcases s.command .clear with ⟨reply, s'⟩
    cases reply <;> rfl
  | save =>
    have h : s.uncached.command .save = _ := s.command_uncached (c := .save) trivial nofun
    simp only [act, h]
    rcases s.command .save with ⟨reply, s'⟩
    cases reply <;> rfl
  | leave => rfl

theorem react_uncached (s : Session) (name : String) (event : Event) :
    s.uncached.react name event =
      (s.react name event).map fun p => (p.1, p.2.1, p.2.2.uncached) := by
  have hlisteners : s.uncached.listeners = s.listeners := rfl
  simp only [react, hlisteners]
  cases s.listeners.get? name with
  | none => rfl
  | some listener =>
    dsimp only
    cases listener.reaction? with
    | none => rfl
    | some reaction =>
      dsimp only
      by_cases h : reaction.trigger.matches event = true ∧ 0 < reaction.remaining
      · rw [if_pos h, if_pos h]
        rfl
      · rw [if_neg h, if_neg h]
        rfl

theorem namesAreWords_react (words : s.NamesAreWords) {name : String} {event : Event}
    {p : Listener × Action × Session} (h : s.react name event = some p) :
    p.2.2.NamesAreWords := by
  unfold react at h
  split at h
  · cases h
  · split at h
    · cases h
    · split at h <;> cases h
      exact words

/-- One listener is told. -/
theorem tell_projects {deliver : Session → String → Event → Session}
    (hdeliver : ∀ registry event, Projects (deliver · registry event)) (event : Event)
    (name : String) : Projects (tell deliver · event name) := by
  constructor
  · intro s words
    simp only [tell]
    cases hreact : (s.note (.heard name event)).react name event with
    | none => exact words
    | some p =>
      have hp := namesAreWords_react (s := s.note (.heard name event)) words hreact
      have hact := namesAreWords_act hp name p.1.registry p.2.1
      dsimp only
      cases (p.2.2.act name p.1.registry p.2.1).2.2 with
      | none => exact hact
      | some caused => exact (hdeliver p.1.registry caused).words hact
  · intro s words
    have hreact := (s.note (.heard name event)).react_uncached name event
    have hnote : s.uncached.note (.heard name event) = (s.note (.heard name event)).uncached := rfl
    simp only [tell, hnote, hreact]
    cases hfound : (s.note (.heard name event)).react name event with
    | none => rfl
    | some p =>
      have hp := namesAreWords_react (s := s.note (.heard name event)) words hfound
      have hact := namesAreWords_act hp name p.1.registry p.2.1
      simp only [Option.map_some, act_uncached hp]
      cases (p.2.2.act name p.1.registry p.2.1).2.2 with
      | none => rfl
      | some caused =>
        dsimp only
        rw [(hdeliver p.1.registry caused).uncached hact]
        rfl

/-- **All who listen are told in the projection as in the session**, however deep their
reactions nest. -/
theorem deliverWith_projects (fuel : ℕ) (registry : String) (event : Event) :
    Projects (deliverWith fuel · registry event) := by
  induction fuel generalizing registry event with
  | zero => exact ⟨fun words => words, fun _ => rfl⟩
  | succ fuel ih =>
    have hfold := fun names : List String => Projects.foldl (tell_projects ih event) names
    constructor
    · intro s words
      simp only [deliverWith]
      exact (hfold _).words ((hfold _).words words)
    · intro s words
      have hsetting := hfold ((s.registry registry).settingListeners event.key).names
      simp only [deliverWith, registry_uncached]
      rw [hsetting.uncached words, registry_uncached, (hfold _).uncached (hsetting.words words)]

theorem deliver_projects (registry : String) (event : Event) :
    Projects (deliver · registry event) := by
  refine ⟨fun {s} words => (deliverWith_projects _ registry event).words words,
    fun {s} words => ?_⟩
  have hbudget : s.uncached.budget = s.budget := rfl
  simp only [deliver, hbudget]
  exact (deliverWith_projects _ registry event).uncached words

theorem namesAreWords_perform (words : s.NamesAreWords) (registry : String) {c : RegistryCommand}
    (hc : c.NamesAreWords) : (s.perform registry c).2.NamesAreWords := by
  have hstep := namesAreWords_step words registry hc
  simp only [perform]
  split
  · exact hstep
  · exact (deliver_projects registry _).words hstep

theorem perform_uncached (words : s.NamesAreWords) (registry : String) {c : RegistryCommand}
    (hc : c.NamesAreWords) : s.uncached.perform registry c =
      ((s.perform registry c).1, (s.perform registry c).2.uncached) := by
  have hstep := namesAreWords_step words registry hc
  simp only [perform, step_uncached words]
  cases (s.step registry c).2.2 with
  | none => rfl
  | some event => exact Prod.ext rfl ((deliver_projects registry event).uncached hstep)

end Session
end TypedConfig
