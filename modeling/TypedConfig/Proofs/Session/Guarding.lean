/-
# Settings only ever hold and give valid values

A store starts without entries, and from then on entries are written through the settings
of one registry alone, by the caller or by listeners from inside a telling. Then the
registry guards the store at every point of the run (`Session.Guarded.after`): the entry of
a setting reads as a value that meets the constraints and can be written, reading the
setting gives such a value, and resetting it works while the store is open
(`Session.settings_valid`).

Key definitions: `SessionCommand.Within`, `Session.Guarded`.
Key theorems: `Session.Guarded.act`, `Session.Guarded.deliver`, `Session.Guarded.carryOut`,
`Session.settings_valid`.
-/
import Mathlib
import TypedConfig.Proofs.Registry.Guarding
import TypedConfig.Proofs.Session.Reading

namespace TypedConfig

/-- Whether an operation writes entries through the settings of one registry only, and the
listeners that come by it act on this registry too. -/
def SessionCommand.Within (name : String) : SessionCommand → Prop
  | .store c => c.AddsNothing
  | .registry target _ => target = name
  | .look _ => True
  | .isDefault _ _ _ => True
  | .listen target _ listener => target = name ∧ listener.registry = name
  | .unlisten target _ => target = name
  | .listenTo target _ _ _ listener => target = name ∧ listener.registry = name
  | .unlistenTo target _ _ _ => target = name
  | .failWrites _ => True
  | .reopen _ _ => False

namespace Session

/-- The registry of a name guards the store, and nobody who listens acts on another one. -/
structure Guarded (name : String) (s : Session) : Prop where
  guards : (s.registry name).Guards s.workspace.store
  named : (s.registry name).name = name
  within : ∀ who listener, s.listeners.get? who = some listener → listener.registry = name

namespace Guarded

variable {name : String} {s : Session}

/-- The registry is put back, grown or with other listeners, and the store has changed. -/
theorem setRegistry (guarded : s.Guarded name) {r : Registry} {w : Workspace}
    (guards : r.Guards w.store) (named : r.name = name) :
    ({ s with workspace := w }.setRegistry r).Guarded name := by
  have hregistry : ({ s with workspace := w }.setRegistry r).registry name = r := by
    simp only [Session.setRegistry, Session.registry, named, SortedMap.get?_insert_self,
      Option.getD_some]
  refine ⟨?_, ?_, guarded.within⟩
  · rw [hregistry]
    exact guards
  · rw [hregistry]
    exact named

theorem note (guarded : s.Guarded name) (record : Record) : (s.note record).Guarded name :=
  ⟨guarded.guards, guarded.named, guarded.within⟩

theorem acquaint (guarded : s.Guarded name) (who : String) {listener : Listener}
    (within : listener.registry = name) : (s.acquaint who listener).Guarded name := by
  unfold Session.acquaint
  split
  · exact guarded
  · refine ⟨guarded.guards, guarded.named, fun other found h => ?_⟩
    rw [SortedMap.get?_insert] at h
    split at h
    · cases h
      exact within
    · exact guarded.within other found h

theorem step (guarded : s.Guarded name) (c : RegistryCommand) :
    (s.step name c).2.1.Guarded name :=
  guarded.setRegistry (guarded.guards.perform c)
    (((s.registry name).perform_name s.workspace c).trans guarded.named)

theorem command (guarded : s.Guarded name) {c : StoreCommand} (hc : c.AddsNothing) :
    (s.command c).2.Guarded name :=
  ⟨guarded.guards.command hc, guarded.named, guarded.within⟩

theorem unlisten (guarded : s.Guarded name) (who : String) :
    (s.unlisten name who).2.Guarded name :=
  guarded.setRegistry (r := { s.registry name with
    listeners := ((s.registry name).listeners.remove who).2 }) guarded.guards guarded.named

/-- **What a listener does keeps the store guarded.** -/
theorem act (guarded : s.Guarded name) (who : String) (action : Action) :
    (s.act who name action).2.1.Guarded name := by
  cases action with
  | assignValue key value => exact guarded.step (.assignValue key value)
  | reset key => exact guarded.step (.reset key)
  | close => exact guarded.command (c := .close) trivial
  | clear =>
    have hclear := guarded.command (c := .clear) trivial
    simp only [Session.act]
    rcases hcommand : s.command .clear with ⟨reply, s'⟩
    rw [hcommand] at hclear
    cases reply <;> exact hclear
  | save =>
    have hsave := guarded.command (c := .save) trivial
    simp only [Session.act]
    rcases hcommand : s.command .save with ⟨reply, s'⟩
    rw [hcommand] at hsave
    cases reply <;> exact hsave
  | leave => exact guarded.unlisten who

theorem react (guarded : s.Guarded name) {who : String} {event : Event} {listener : Listener}
    {action : Action} {s' : Session} (h : s.react who event = some (listener, action, s')) :
    listener.registry = name ∧ s'.Guarded name := by
  unfold Session.react at h
  split at h
  · cases h
  rename_i found hfound
  split at h
  · cases h
  split at h
  · cases h
    have hregistry := guarded.within who found hfound
    refine ⟨hregistry, guarded.guards, guarded.named, fun other l hl => ?_⟩
    rw [SortedMap.get?_insert] at hl
    split at hl
    · cases hl
      exact hregistry
    · exact guarded.within other l hl
  · cases h

/-! ### Tellings -/

theorem tell {deliver : Session → String → Event → Session}
    (hdeliver : ∀ s event, s.Guarded name → (deliver s name event).Guarded name)
    (guarded : s.Guarded name) (event : Event) (who : String) :
    (Session.tell deliver s event who).Guarded name := by
  have hnoted := guarded.note (.heard who event)
  simp only [Session.tell]
  cases hreact : (s.note (.heard who event)).react who event with
  | none => exact hnoted
  | some reaction =>
    obtain ⟨listener, action, spent⟩ := reaction
    obtain ⟨hregistry, hspent⟩ := hnoted.react hreact
    -- the listener acts on the same registry, so what its action causes is told there too
    have hacted := hspent.act who action
    simp only [hregistry]
    rcases hact : spent.act who name action with ⟨reply, acted, event?⟩
    rw [hact] at hacted
    cases event? with
    | none => exact hacted.note _
    | some caused => exact (hdeliver acted caused hacted).note _

theorem foldl_tell {deliver : Session → String → Event → Session}
    (hdeliver : ∀ s event, s.Guarded name → (deliver s name event).Guarded name) (event : Event)
    (names : List String) (guarded : s.Guarded name) :
    (names.foldl (fun s who => Session.tell deliver s event who) s).Guarded name := by
  induction names generalizing s with
  | nil => exact guarded
  | cons who rest ih => exact ih (guarded.tell hdeliver event who)

theorem deliverWith (fuel : ℕ) (event : Event) (guarded : s.Guarded name) :
    (Session.deliverWith fuel s name event).Guarded name := by
  induction fuel generalizing s event with
  | zero => exact guarded
  | succ fuel ih =>
    have hdeliver : ∀ s event, Guarded name s →
        (Session.deliverWith fuel s name event).Guarded name := fun s event h => ih event h
    exact foldl_tell hdeliver event _ (guarded.foldl_tell hdeliver event _)

/-- **A telling keeps the store guarded, whatever the listeners do.** -/
theorem deliver (guarded : s.Guarded name) (event : Event) : (s.deliver name event).Guarded name :=
  guarded.deliverWith (s.budget + 1) event

theorem perform (guarded : s.Guarded name) (c : RegistryCommand) :
    (s.perform name c).2.Guarded name := by
  have hstep := guarded.step c
  simp only [Session.perform]
  rcases hdone : s.step name c with ⟨reply, s', event?⟩
  rw [hdone] at hstep
  cases event? with
  | none => exact hstep
  | some event => exact hstep.deliver event

/-! ### Runs -/

theorem listenTo (guarded : s.Guarded name) {t : SettingType} {key who : String} {s' : Session}
    (h : s.listenTo name t key who = .ok s') : s'.Guarded name := by
  simp only [Session.listenTo] at h
  cases hs : (s.registry name).setting t key with
  | error e =>
    rw [hs] at h
    cases h
  | ok setting =>
    rw [hs] at h
    cases h
    exact guarded.setRegistry (guarded.guards.mono (Registry.extends_place hs rfl)) guarded.named

theorem unlistenTo (guarded : s.Guarded name) {t : SettingType} {key who : String} {found : Bool}
    {s' : Session} (h : s.unlistenTo name t key who = .ok (found, s')) : s'.Guarded name := by
  simp only [Session.unlistenTo] at h
  cases hs : (s.registry name).setting t key with
  | error e =>
    rw [hs] at h
    cases h
  | ok setting =>
    rw [hs] at h
    cases h
    exact guarded.setRegistry (guarded.guards.mono (Registry.extends_place hs rfl)) guarded.named

/-- **An operation within the registry keeps the store guarded.** -/
theorem carryOut (guarded : s.Guarded name) {c : SessionCommand} (within : c.Within name) :
    (s.carryOut c).session.Guarded name := by
  cases c with
  | store c => exact guarded.command within
  | registry registry c =>
    cases within
    exact guarded.perform c
  | look key => exact guarded
  | isDefault registry t key =>
    simp only [Session.carryOut]
    cases (s.registry registry).setting t key <;> exact guarded
  | listen registry who listener =>
    obtain ⟨rfl, hlistener⟩ := within
    have hknown := guarded.acquaint who hlistener
    exact hknown.setRegistry hknown.guards hknown.named
  | unlisten registry who =>
    cases within
    exact guarded.unlisten who
  | listenTo registry t key who listener =>
    obtain ⟨rfl, hlistener⟩ := within
    have hknown := guarded.acquaint who hlistener
    simp only [Session.carryOut]
    cases hlisten : (s.acquaint who listener).listenTo registry t key who with
    | error e => exact hknown
    | ok s' => exact hknown.listenTo hlisten
  | unlistenTo registry t key who =>
    cases within
    simp only [Session.carryOut]
    cases hlisten : s.unlistenTo name t key who with
    | error e => exact guarded
    | ok p => exact guarded.unlistenTo hlisten
  | failWrites on => exact ⟨guarded.guards, guarded.named, guarded.within⟩
  | reopen o env => exact within.elim

/-- **Operations within the registry keep the store guarded.** -/
theorem after (guarded : s.Guarded name) {cs : List SessionCommand}
    (within : ∀ c ∈ cs, c.Within name) : (s.after cs).Guarded name := by
  induction cs generalizing s with
  | nil => exact guarded
  | cons c cs ih =>
    obtain ⟨hc, hrest⟩ := List.forall_mem_cons.mp within
    exact ih (guarded.carryOut hc) hrest

end Guarded

/-! ### What the settings hold and give -/

variable {s : Session} {name key : String} {t : SettingType} {setting : Setting t}

/-- A setting that stands at its default is said to, however the session came about. -/
theorem reply_isDefault {s' : Session}
    (registered : (s.registry name).setting t key = .ok setting)
    (hregistry : s'.registry name = s.registry name)
    (hdefault : setting.isDefault s'.workspace.store = true) :
    (s'.carryOut (.isDefault name t key)).reply = .answer true := by
  rw [← hregistry] at registered
  rw [carryOut_isDefault registered, hdefault]

/-- A reset of an open store is accepted, and the setting stands at its default when its event
goes out; it does so afterwards, if nobody who listens reacts. -/
theorem isDefault_of_reset {c : RegistryCommand}
    (registered : (s.registry name).setting t key = .ok setting)
    (hopen : s.workspace.store.closed = false)
    (h : (s.registry name).perform s.workspace c =
      (s.registry name).written s.workspace (setting.reset s.workspace.store)) :
    (s.carryOut (.registry name c)).reply = .registry .accepted ∧
      ((s.step name c).2.1.carryOut (.isDefault name t key)).reply = .answer true ∧
      (s.Quiet (s.audience name key) →
        ((s.carryOut (.registry name c)).session.carryOut (.isDefault name t key)).reply =
          .answer true) := by
  obtain ⟨stored, hreset, hdefault⟩ := setting.reset_of_open hopen
  rw [hreset] at h
  have hstep := step_written h
  refine ⟨?_, ?_, fun quiet => ?_⟩
  · simp only [carryOut, perform, hstep]
    rfl
  · rw [hstep]
    exact reply_isDefault registered (s.registry_withStore name stored) hdefault
  · obtain ⟨-, hworkspace, hregistry, -⟩ := told_of_written registered quiet rfl h rfl
    exact reply_isDefault registered hregistry (hworkspace ▸ hdefault)

/-- **Settings only hold and give valid values.** A store starts without entries, and all that is
written to it is written through the settings of one registry. Then at every point of the run the
entry of a setting reads as a value that meets the constraints and can be written; a read of the
setting answers such a value; and while the store is open a reset is accepted and puts the setting
at its default, where it stays unless somebody who listens reacts. -/
theorem settings_valid {w : Workspace} (blank : w.store.entries = SortedMap.empty) (name : String)
    {cs : List SessionCommand} (within : ∀ c ∈ cs, c.Within name) {t : SettingType} {key : String}
    {setting : Setting t} :
    let s := after { workspace := w } cs
    (s.registry name).setting t key = .ok setting →
      (∀ value, s.workspace.store.get? key = some value →
        ∃ v, t.fromValue value = .ok v ∧ setting.declaration.Accepts v) ∧
      (∃ v, (s.carryOut (.registry name (.read t key))).reply = .registry (.typed t v) ∧
        (s.carryOut (.registry name (.readValue key))).reply = .registry (.value (t.toValue v)) ∧
        setting.declaration.Accepts v) ∧
      (s.workspace.store.closed = false → ∀ c ∈ [RegistryCommand.resetTyped t key, .reset key],
        (s.carryOut (.registry name c)).reply = .registry .accepted ∧
          ((s.step name c).2.1.carryOut (.isDefault name t key)).reply = .answer true ∧
          (s.Quiet (s.audience name key) →
            ((s.carryOut (.registry name c)).session.carryOut (.isDefault name t key)).reply =
              .answer true)) := by
  intro s registered
  have guarded : s.Guarded name := by
    refine Guarded.after ⟨.of_empty _ blank, rfl, fun who listener h => ?_⟩ within
    cases h
  refine ⟨fun value found => guarded.guards.accepts_entry registered found,
    ⟨(setting.read s.workspace.store).1, ?_, ?_, guarded.guards.accepts_read registered⟩, ?_⟩
  · simp only [carryOut, perform, step, Registry.perform, registered]
  · simp only [carryOut, perform, step, Registry.perform, Registry.readValue,
      Registry.find_of_setting registered]
  · intro hopen c hc
    refine isDefault_of_reset registered hopen ?_
    rw [List.mem_cons, List.mem_singleton] at hc
    rcases hc with rfl | rfl
    · simp only [Registry.perform, registered]
    · simp only [Registry.perform, Registry.reset, Registry.find_of_setting registered]

/-- Ports are set, and somebody who listens resets them when others are rejected. -/
def guardedPorts : List SessionCommand :=
  [.registry "r" (.register (.array .integer) portsSetting.declaration),
    .listen "r" "one" { registry := "r", reaction? := some ⟨.rejected, .reset "ports", 1⟩ },
    .registry "r" (.assign (.array .integer) "ports" [443]),
    .registry "r" (.assign (.array .integer) "ports" [0]), .store .save]

/-- The ports that are read are valid ones, and they can be reset once more. -/
theorem settings_valid_guardedPorts :
    let s := after { workspace := Workspace.blank } guardedPorts
    (∀ c ∈ guardedPorts, c.Within "r") ∧
      s.workspace.store.get? "ports" = some (.array [.int 80]) ∧
      (∃ v, (s.carryOut (.registry "r" (.read (.array .integer) "ports"))).reply =
          .registry (.typed (.array .integer) v) ∧ portsSetting.declaration.Accepts v) ∧
      (s.carryOut (.registry "r" (.reset "ports"))).reply = .registry .accepted ∧
      ((s.step "r" (.reset "ports")).2.1.carryOut
        (.isDefault "r" (.array .integer) "ports")).reply = .answer true := by
  intro s
  have within : ∀ c ∈ guardedPorts, c.Within "r" := by
    intro c hc
    simp only [guardedPorts, List.mem_cons, List.not_mem_nil, or_false] at hc
    rcases hc with rfl | rfl | rfl | rfl | rfl
    · rfl
    · exact ⟨rfl, rfl⟩
    · rfl
    · rfl
    · trivial
  have registered : (s.registry "r").setting (.array .integer) "ports" =
      .ok { portsSetting with listeners := {} } := rfl
  obtain ⟨-, ⟨v, hread, -, accepts⟩, hreset⟩ :=
    settings_valid (w := Workspace.blank) rfl "r" within registered
  obtain ⟨haccepted, hdefault, -⟩ :=
    hreset rfl (.reset "ports") (List.mem_cons_of_mem _ List.mem_cons_self)
  exact ⟨within, rfl, ⟨v, hread, accepts⟩, haccepted, hdefault⟩

end Session
end TypedConfig
