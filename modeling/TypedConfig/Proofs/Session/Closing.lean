/-
# Closing is final

A store is not closed in one place: each operation asks for itself whether it may still
write, and so do the two writes that hide in a read. None of them forgets to. An operation
on a closed store is refused or answers the default, and leaves the entries as they stand
in memory, the marks and the media (`Workspace.perform_rests`).

So do the operations on a registry, which report nothing but refusals and declarations
(`Registry.perform_rests`), and so does a whole session with all who listen to it, whatever
they do when they are told (`Session.deliver_rests`, `Session.after_rests`). No update is
told of any more, however long the session goes on (`Session.closed_for_good`).

Key definitions: `Workspace.Rests`, `Event.IsUpdate`, `Session.Rests`,
`SessionCommand.IsOperation`, `Session.AnswersClosed`.
Key theorems: `Workspace.perform_rests`, `Registry.perform_rests`, `Session.deliver_rests`,
`Session.carryOut_rests`, `Session.after_rests`, `Session.closed_for_good`.
-/
import Mathlib
import TypedConfig.Proofs.Session.Reading

namespace TypedConfig

/-! ### Operations on a closed store -/

namespace Store

variable {s : Store} {t : SettingType} {key : String}

/-- Why a closed store does not let a key be written: an empty one is found first. -/
def closedReason (key : String) : StoreError := if key = "" then .emptyKey else .closed

theorem closedReason_of_ne (hkey : key ≠ "") : closedReason key = .closed := if_neg hkey

theorem get_of_closed (h : s.closed = true) (t : SettingType) (key : String) (default : t.Val) :
    s.get t key default = (default, s) := by
  unfold get
  rw [if_pos (.inr h)]

theorem checkWritable_of_closed (h : s.closed = true) (key : String) :
    s.checkWritable key = .error (closedReason key) := by
  unfold checkWritable closedReason
  rw [if_pos h]
  split <;> rfl

theorem putValue_of_closed (h : s.closed = true) (key : String) (value : Value) :
    s.putValue key value = .error (closedReason key) := by
  simp only [putValue, checkWritable_of_closed h]

theorem put_of_closed (h : s.closed = true) (key : String) (v : t.Val) :
    s.put t key v = .error (closedReason key) :=
  putValue_of_closed h key _

theorem remove_of_closed (h : s.closed = true) (key : String) :
    s.remove key = .error (closedReason key) := by
  simp only [remove, checkWritable_of_closed h]

theorem clear_of_closed (h : s.closed = true) : s.clear = .error .closed := if_pos h

end Store

/-- The store is closed, and entries, marks and media are what they were. -/
structure Workspace.Rests (before after : Workspace) : Prop where
  closed : after.store.closed = true
  entries : after.store.entries = before.store.entries
  marks : after.store.marks = before.store.marks
  media : after.media = before.media

namespace Workspace

variable {w : Workspace}

theorem Rests.refl (h : w.store.closed = true) : w.Rests w := ⟨h, rfl, rfl, rfl⟩

theorem Rests.trans {w' w'' : Workspace} (h : w.Rests w') (h' : w'.Rests w'') : w.Rests w'' :=
  ⟨h'.closed, h'.entries.trans h.entries, h'.marks.trans h.marks, h'.media.trans h.media⟩

theorem save_of_closed (h : w.store.closed = true) :
    w.save = (.error .closed, { w with nonces := w.nonces.next.2 }) := by
  simp only [save, Store.save_of_closed h]

theorem perform_save_of_closed (h : w.store.closed = true) :
    w.perform .save = (.refused .closed, { w with nonces := w.nonces.next.2 }) := by
  simp only [perform, save_of_closed h]

theorem perform_get_of_closed (h : w.store.closed = true) (t : SettingType) (key : String)
    (default : t.Val) : w.perform (.get t key default) = (.typed t default, w) := by
  simp only [perform, Store.get_of_closed h]

theorem perform_put_of_closed (h : w.store.closed = true) (t : SettingType) (key : String)
    (v : t.Val) : w.perform (.put t key v) = (.refused (Store.closedReason key), w) := by
  simp only [perform, Store.put_of_closed h, settled]

theorem perform_putValue_of_closed (h : w.store.closed = true) (key : String) (value : Value) :
    w.perform (.putValue key value) = (.refused (Store.closedReason key), w) := by
  simp only [perform, Store.putValue_of_closed h, settled]

theorem perform_remove_of_closed (h : w.store.closed = true) (key : String) :
    w.perform (.remove key) = (.refused (Store.closedReason key), w) := by
  simp only [perform, Store.remove_of_closed h, settled]

theorem perform_clear_of_closed (h : w.store.closed = true) :
    w.perform .clear = (.refused .closed, w) := by
  simp only [perform, Store.clear_of_closed h, settled, Except.map]

/-- **No operation moves a closed store.** -/
theorem perform_rests (h : w.store.closed = true) (c : StoreCommand) :
    w.Rests (w.perform c).2 := by
  cases c with
  | get t key default => rw [perform_get_of_closed h]; exact .refl h
  | put t key v => rw [perform_put_of_closed h]; exact .refl h
  | putValue key value => rw [perform_putValue_of_closed h]; exact .refl h
  | remove key => rw [perform_remove_of_closed h]; exact .refl h
  | clear => rw [perform_clear_of_closed h]; exact .refl h
  | save => rw [perform_save_of_closed h]; exact ⟨h, rfl, rfl, rfl⟩
  | close => exact ⟨rfl, rfl, rfl, rfl⟩
  | setAutoPopulate on => exact ⟨h, rfl, rfl, rfl⟩
  | setEnumCache on => exact ⟨h, rfl, rfl, rfl⟩

end Workspace

/-! ### Settings of a closed store -/

/-- Whether an event tells that a value was stored. -/
def Event.IsUpdate : Event → Prop
  | .updated _ _ _ _ => True
  | _ => False

/-- Where there is no event, no value was stored. -/
theorem Event.quiet_none (event : Event) (h : none = some event) : ¬ event.IsUpdate := by
  cases h

/-- A write came to nothing: it is refused, the store is as it was, and no update is reported. -/
structure WriteOutcome.IsIdle (o : WriteOutcome) (store : Store) : Prop where
  refused : ∃ e, o.result = .error e
  store : o.store = store
  quiet : ∀ event, o.event? = some event → ¬ event.IsUpdate

theorem WriteOutcome.IsIdle.of_error (e : SettingError) (store : Store) :
    ({ result := .error e, store := store } : WriteOutcome).IsIdle store :=
  ⟨⟨e, rfl⟩, rfl, Event.quiet_none⟩

namespace Setting

variable {t : SettingType} {store : Store}

theorem assign_isIdle (h : store.closed = true) (s : Setting t) (v : t.Val) :
    (s.assign store v).IsIdle store := by
  unfold assign
  cases s.validate v with
  | error reason =>
    refine ⟨⟨_, rfl⟩, rfl, fun event hevent => ?_⟩
    cases hevent
    exact id
  | ok _ =>
    simp only [Store.put_of_closed h]
    exact .of_error _ store

theorem assignValue_isIdle (h : store.closed = true) (s : Setting t) (value : Value) :
    (s.assignValue store value).IsIdle store := by
  unfold assignValue
  cases t.fromValue value with
  | error reason => exact .of_error _ store
  | ok v => exact s.assign_isIdle h v

end Setting

namespace Registry

variable {r : Registry} {w : Workspace}

/-- A step of an operation that leaves the store at rest, and reports no update. -/
structure Resting (w : Workspace) (done : RegistryStep) : Prop where
  rests : w.Rests done.workspace
  quiet : ∀ event, done.event? = some event → ¬ event.IsUpdate

theorem resting_refused (h : w.store.closed = true) (r : Registry) (e : SettingError) :
    Resting w (r.refused w e) :=
  ⟨.refl h, Event.quiet_none⟩

theorem resting_written (h : w.store.closed = true) (r : Registry) {o : WriteOutcome}
    (idle : o.IsIdle w.store) : Resting w (r.written w o) := by
  refine ⟨?_, idle.quiet⟩
  show w.Rests { w with store := o.store }
  rw [idle.store]
  exact .refl h

theorem assign_isIdle (h : w.store.closed = true) (r : Registry) (t : SettingType) (key : String)
    (v : t.Val) : (r.assign w.store t key v).IsIdle w.store := by
  unfold assign
  cases r.setting t key with
  | error e => exact .of_error e w.store
  | ok s => exact s.assign_isIdle h v

theorem assignValue_isIdle (h : w.store.closed = true) (r : Registry) (key : String)
    (value : Value) : (r.assignValue w.store key value).IsIdle w.store := by
  unfold assignValue
  cases r.find key with
  | error e => exact .of_error e w.store
  | ok s => exact s.setting.assignValue_isIdle h value

theorem reset_isIdle (h : w.store.closed = true) (r : Registry) (key : String) :
    (r.reset w.store key).IsIdle w.store := by
  unfold reset
  cases r.find key with
  | error e => exact .of_error e w.store
  | ok s => exact s.setting.assign_isIdle h s.setting.default

/-- The event of setting up is no update. -/
theorem not_isUpdate_of_initializing {t : SettingType} (s : Setting t) :
    ∀ event, s.initializing.1 = some event → ¬ event.IsUpdate := by
  intro event hevent
  unfold Setting.initializing at hevent
  split at hevent <;> cases hevent
  exact id

/-- **No operation on a registry moves a closed store**, and none reports an update. -/
theorem perform_rests (h : w.store.closed = true) (r : Registry) (c : RegistryCommand) :
    Resting w (r.perform w c) := by
  cases c with
  | register t d =>
    simp only [perform]
    cases r.register d with
    | error e => exact ⟨.refl h, Event.quiet_none⟩
    | ok p => exact ⟨.refl h, not_isUpdate_of_initializing p.1⟩
  | initializing t key =>
    simp only [perform]
    cases r.setting t key with
    | error e => exact resting_refused h r e
    | ok s => exact ⟨.refl h, not_isUpdate_of_initializing s⟩
  | read t key =>
    simp only [perform]
    cases r.setting t key with
    | error e => exact resting_refused h r e
    | ok s =>
      simp only [s.read_of_closed h]
      exact ⟨.refl h, Event.quiet_none⟩
  | assign t key v => exact resting_written h r (r.assign_isIdle h t key v)
  | resetTyped t key =>
    simp only [perform]
    cases r.setting t key with
    | error e => exact resting_refused h r e
    | ok s => exact resting_written h r (s.assign_isIdle h s.default)
  | readValue key =>
    simp only [perform, readValue]
    cases r.find key with
    | error e => exact resting_refused h r e
    | ok s =>
      simp only [s.setting.read_of_closed h]
      exact ⟨.refl h, Event.quiet_none⟩
  | assignValue key value => exact resting_written h r (r.assignValue_isIdle h key value)
  | reset key => exact resting_written h r (r.reset_isIdle h key)
  | save =>
    simp only [perform, Workspace.save_of_closed h]
    exact ⟨⟨h, rfl, rfl, rfl⟩, Event.quiet_none⟩

end Registry

/-! ### Sessions over a closed store -/

/-- Whether a record is of hearing that a value was stored. -/
def Record.TellsUpdate : Record → Prop
  | .heard _ event => event.IsUpdate
  | .reacted _ _ => False

namespace Session

/-- The store is at rest, and nobody was told of an update. -/
structure Rests (before after : Session) : Prop where
  workspace : before.workspace.Rests after.workspace
  records : ∃ news, after.records = before.records ++ news ∧
    ∀ record ∈ news, ¬ record.TellsUpdate

variable {s s' : Session}

/-- Where nothing was recorded, only the store counts. -/
theorem Rests.of_workspace (h : s.workspace.Rests s'.workspace) (records : s'.records = s.records) :
    s.Rests s' :=
  ⟨h, [], records.trans (List.append_nil _).symm, fun _ hnone => absurd hnone List.not_mem_nil⟩

theorem Rests.refl (h : s.workspace.store.closed = true) : s.Rests s :=
  .of_workspace (.refl h) rfl

theorem Rests.trans {s'' : Session} (h : s.Rests s') (h' : s'.Rests s'') : s.Rests s'' := by
  obtain ⟨news, hrecords, hquiet⟩ := h.records
  obtain ⟨more, hrecords', hquiet'⟩ := h'.records
  refine ⟨h.workspace.trans h'.workspace, news ++ more, ?_, fun record hrecord => ?_⟩
  · rw [hrecords', hrecords, List.append_assoc]
  · exact (List.mem_append.mp hrecord).elim (hquiet record) (hquiet' record)

theorem note_rests (h : s.workspace.store.closed = true) {record : Record}
    (quiet : ¬ record.TellsUpdate) : s.Rests (s.note record) :=
  ⟨.refl h, [record], rfl, fun _ hmem => List.mem_singleton.mp hmem ▸ quiet⟩

/-- What a session comes to, with the event that it has to tell of. -/
structure Resting (s s' : Session) (event? : Option Event) : Prop where
  rests : s.Rests s'
  quiet : ∀ event, event? = some event → ¬ event.IsUpdate

theorem step_resting (h : s.workspace.store.closed = true) (name : String) (c : RegistryCommand) :
    s.Resting (s.step name c).2.1 (s.step name c).2.2 := by
  have hdone := Registry.perform_rests h (s.registry name) c
  exact ⟨.of_workspace hdone.rests rfl, hdone.quiet⟩

theorem command_rests (h : s.workspace.store.closed = true) (c : StoreCommand) :
    s.Rests (s.command c).2 :=
  .of_workspace (Workspace.perform_rests h c) rfl

theorem unlisten_rests (h : s.workspace.store.closed = true) (registry name : String) :
    s.Rests (s.unlisten registry name).2 :=
  .of_workspace (.refl h) rfl

theorem act_resting (h : s.workspace.store.closed = true) (name registry : String)
    (action : Action) :
    s.Resting (s.act name registry action).2.1 (s.act name registry action).2.2 := by
  cases action with
  | assignValue key value => exact step_resting h registry (.assignValue key value)
  | reset key => exact step_resting h registry (.reset key)
  | close => exact ⟨command_rests h .close, Event.quiet_none⟩
  | clear =>
    have hclear := command_rests h .clear
    simp only [act]
    rcases hcommand : s.command .clear with ⟨reply, s'⟩
    rw [hcommand] at hclear
    cases reply <;> exact ⟨hclear, Event.quiet_none⟩
  | save =>
    have hsave := command_rests h .save
    simp only [act]
    rcases hcommand : s.command .save with ⟨reply, s'⟩
    rw [hcommand] at hsave
    cases reply <;> exact ⟨hsave, Event.quiet_none⟩
  | leave => exact ⟨unlisten_rests h registry name, Event.quiet_none⟩

theorem react_rests (h : s.workspace.store.closed = true) {name : String} {event : Event}
    {listener : Listener} {action : Action}
    (hreact : s.react name event = some (listener, action, s')) : s.Rests s' := by
  unfold react at hreact
  split at hreact
  · cases hreact
  split at hreact
  · cases hreact
  split at hreact
  · cases hreact
    exact .of_workspace (.refl h) rfl
  · cases hreact

/-! ### Tellings -/

/-- A way to tell of events keeps closed stores at rest: no update is told of if none happened. -/
def KeepsRest (deliver : Session → String → Event → Session) : Prop :=
  ∀ (s : Session) (registry : String) (event : Event), s.workspace.store.closed = true →
    ¬ event.IsUpdate → s.Rests (deliver s registry event)

variable {deliver : Session → String → Event → Session}

theorem tell_rests (keeps : KeepsRest deliver) (h : s.workspace.store.closed = true)
    {event : Event} (quiet : ¬ event.IsUpdate) (name : String) :
    s.Rests (tell deliver s event name) := by
  have hnoted : s.Rests (s.note (.heard name event)) := note_rests h quiet
  simp only [tell]
  cases hreact : (s.note (.heard name event)).react name event with
  | none => exact hnoted
  | some reaction =>
    obtain ⟨listener, action, spent⟩ := reaction
    have hspent := hnoted.trans (react_rests hnoted.workspace.closed hreact)
    -- what the action causes is told before the reaction is recorded
    have hacted := act_resting hspent.workspace.closed name listener.registry action
    rcases hact : spent.act name listener.registry action with ⟨reply, acted, event?⟩
    rw [hact] at hacted
    simp only [hact]
    have hrests : s.Rests acted := hspent.trans hacted.rests
    cases event? with
    | none => exact hrests.trans (note_rests hrests.workspace.closed id)
    | some caused =>
      have htold := hrests.trans
        (keeps acted listener.registry caused hrests.workspace.closed (hacted.quiet caused rfl))
      exact htold.trans (note_rests htold.workspace.closed id)

theorem foldl_tell_rests (keeps : KeepsRest deliver) {event : Event} (quiet : ¬ event.IsUpdate)
    (names : List String) (h : s.workspace.store.closed = true) :
    s.Rests (names.foldl (fun s name => tell deliver s event name) s) := by
  induction names generalizing s with
  | nil => exact .refl h
  | cons name rest ih =>
    have hfirst := tell_rests keeps h quiet name
    exact hfirst.trans (ih hfirst.workspace.closed)

theorem deliverWith_keepsRest : ∀ fuel, KeepsRest (deliverWith fuel)
  | 0 => fun _ _ _ h _ => .refl h
  | fuel + 1 => fun s registry event h quiet => by
    have keeps := deliverWith_keepsRest fuel
    have hfirst := foldl_tell_rests keeps quiet
      ((s.registry registry).settingListeners event.key).names h
    exact hfirst.trans (foldl_tell_rests keeps quiet _ hfirst.workspace.closed)

/-- **A telling leaves a closed store at rest, whatever the listeners do.** -/
theorem deliver_rests (h : s.workspace.store.closed = true) (registry : String) {event : Event}
    (quiet : ¬ event.IsUpdate) : s.Rests (s.deliver registry event) :=
  deliverWith_keepsRest (s.budget + 1) s registry event h quiet

theorem perform_rests (h : s.workspace.store.closed = true) (name : String)
    (c : RegistryCommand) : s.Rests (s.perform name c).2 := by
  have hstep := step_resting h name c
  simp only [perform]
  rcases hdone : s.step name c with ⟨reply, s', event?⟩
  rw [hdone] at hstep
  cases event? with
  | none => exact hstep.rests
  | some event =>
    exact hstep.rests.trans
      (deliver_rests hstep.rests.workspace.closed name (hstep.quiet event rfl))

end Session

/-! ### Runs after the close -/

/-- Whether a command goes to the store and the registries that are there: no other store is
opened, and the medium works on as it does. -/
def SessionCommand.IsOperation : SessionCommand → Prop
  | .failWrites _ => False
  | .reopen _ _ => False
  | _ => True

namespace Session

variable {s s' : Session}

theorem acquaint_rests (h : s.workspace.store.closed = true) (who : String) (listener : Listener) :
    s.Rests (s.acquaint who listener) := by
  unfold acquaint
  split
  · exact .refl h
  · exact .of_workspace (.refl h) rfl

theorem listenTo_rests (h : s.workspace.store.closed = true) {registry key who : String}
    {t : SettingType} (hlisten : s.listenTo registry t key who = .ok s') : s.Rests s' := by
  simp only [listenTo] at hlisten
  cases hs : (s.registry registry).setting t key <;> rw [hs] at hlisten <;> cases hlisten
  exact .of_workspace (.refl h) rfl

theorem unlistenTo_rests (h : s.workspace.store.closed = true) {registry key who : String}
    {t : SettingType} {found : Bool}
    (hlisten : s.unlistenTo registry t key who = .ok (found, s')) : s.Rests s' := by
  simp only [unlistenTo] at hlisten
  cases hs : (s.registry registry).setting t key <;> rw [hs] at hlisten <;> cases hlisten
  exact .of_workspace (.refl h) rfl

/-- **An operation leaves a closed store at rest**, and reports no update. -/
theorem carryOut_rests (h : s.workspace.store.closed = true) {c : SessionCommand}
    (operation : c.IsOperation) :
    s.Resting (s.carryOut c).session (s.carryOut c).event? := by
  cases c with
  | store c => exact ⟨command_rests h c, Event.quiet_none⟩
  | registry name c => exact ⟨perform_rests h name c, (step_resting h name c).quiet⟩
  | look key => exact ⟨.refl h, Event.quiet_none⟩
  | isDefault registry t key =>
    simp only [carryOut]
    cases (s.registry registry).setting t key <;> exact ⟨.refl h, Event.quiet_none⟩
  | listen registry who listener =>
    exact ⟨.of_workspace (acquaint_rests h who listener).workspace
      (by simp only [carryOut, listen, setRegistry, acquaint]; split <;> rfl), Event.quiet_none⟩
  | unlisten registry who => exact ⟨unlisten_rests h registry who, Event.quiet_none⟩
  | listenTo registry t key who listener =>
    have hknown := acquaint_rests h who listener
    simp only [carryOut]
    cases hlisten : (s.acquaint who listener).listenTo registry t key who with
    | error e => exact ⟨hknown, Event.quiet_none⟩
    | ok s' =>
      exact ⟨hknown.trans (listenTo_rests hknown.workspace.closed hlisten), Event.quiet_none⟩
  | unlistenTo registry t key who =>
    simp only [carryOut]
    cases hlisten : s.unlistenTo registry t key who with
    | error e => exact ⟨.refl h, Event.quiet_none⟩
    | ok p => exact ⟨unlistenTo_rests h hlisten, Event.quiet_none⟩
  | failWrites on => exact operation.elim
  | reopen o env => exact operation.elim

/-- **So does any number of them.** -/
theorem after_rests (h : s.workspace.store.closed = true) {cs : List SessionCommand}
    (operations : ∀ c ∈ cs, c.IsOperation) :
    s.Rests (s.after cs) ∧
      ∀ done ∈ s.steps cs, ∀ event, done.event? = some event → ¬ event.IsUpdate := by
  induction cs generalizing s with
  | nil => exact ⟨.refl h, fun done hdone => (List.not_mem_nil hdone).elim⟩
  | cons c cs ih =>
    obtain ⟨hc, hrest⟩ := List.forall_mem_cons.mp operations
    have hfirst := carryOut_rests h hc
    obtain ⟨hafter, hsteps⟩ := ih hfirst.rests.workspace.closed hrest
    refine ⟨hfirst.rests.trans hafter, fun done hdone => ?_⟩
    rw [steps, List.mem_cons] at hdone
    rcases hdone with rfl | hdone
    · exact hfirst.quiet
    · exact hsteps done hdone

/-! ### What a closed store answers -/

/-- What the operations answer once the store is closed. -/
structure AnswersClosed (s : Session) : Prop where
  put : ∀ (t : SettingType) key (v : t.Val), key ≠ "" →
    (s.carryOut (.store (.put t key v))).reply = .store (.refused .closed)
  putValue : ∀ key value, key ≠ "" →
    (s.carryOut (.store (.putValue key value))).reply = .store (.refused .closed)
  remove : ∀ key, key ≠ "" →
    (s.carryOut (.store (.remove key))).reply = .store (.refused .closed)
  clear : (s.carryOut (.store .clear)).reply = .store (.refused .closed)
  save : (s.carryOut (.store .save)).reply = .store (.refused .closed)
  saveRegistry : ∀ name,
    (s.carryOut (.registry name .save)).reply = .registry (.refused (.store .closed))
  get : ∀ (t : SettingType) key (default : t.Val),
    (s.carryOut (.store (.get t key default))).reply = .store (.typed t default)
  /-- A registered setting is read as its default, typed or not. -/
  read : ∀ name (t : SettingType) key setting, (s.registry name).setting t key = .ok setting →
    (s.carryOut (.registry name (.read t key))).reply = .registry (.typed t setting.default) ∧
    (s.carryOut (.registry name (.readValue key))).reply =
      .registry (.value (t.toValue setting.default))
  /-- No write to a setting is accepted. -/
  write : ∀ name (t : SettingType) key (v : t.Val) value,
    ∀ c ∈ [RegistryCommand.assign t key v, .assignValue key value, .resetTyped t key, .reset key],
      ∃ e, (s.carryOut (.registry name c)).reply = .registry (.refused e)

theorem reply_registry (s : Session) (name : String) (c : RegistryCommand) :
    (s.carryOut (.registry name c)).reply =
      .registry ((s.registry name).perform s.workspace c).reply := by
  simp only [carryOut, perform, step]
  cases ((s.registry name).perform s.workspace c).event? <;> rfl

/-- A write that came to nothing is answered with a refusal. -/
theorem exists_refused_of_isIdle {r : Registry} {w : Workspace} {o : WriteOutcome}
    (idle : o.IsIdle w.store) : ∃ e, (r.written w o).reply = .refused e := by
  obtain ⟨e, he⟩ := idle.refused
  exact ⟨e, by simp only [Registry.written, he]⟩

/-- **A closed store refuses or answers the default.** -/
theorem answersClosed (h : s.workspace.store.closed = true) : s.AnswersClosed where
  put t key v hkey := by
    simp only [carryOut, command, Workspace.perform_put_of_closed h,
      Store.closedReason_of_ne hkey]
  putValue key value hkey := by
    simp only [carryOut, command, Workspace.perform_putValue_of_closed h,
      Store.closedReason_of_ne hkey]
  remove key hkey := by
    simp only [carryOut, command, Workspace.perform_remove_of_closed h,
      Store.closedReason_of_ne hkey]
  clear := by simp only [carryOut, command, Workspace.perform_clear_of_closed h]
  save := by simp only [carryOut, command, Workspace.perform_save_of_closed h]
  saveRegistry name := by
    rw [reply_registry]
    simp only [Registry.perform, Workspace.save_of_closed h]
    rfl
  get t key default := by
    simp only [carryOut, command, Workspace.perform_get_of_closed h]
  read name t key setting registered := by
    have hfind := Registry.find_of_setting registered
    rw [reply_registry, reply_registry]
    simp only [Registry.perform, Registry.readValue, registered, hfind, setting.read_of_closed h,
      and_self]
  write name t key v value c hc := by
    rw [reply_registry]
    suffices hrefused : ∃ e, ((s.registry name).perform s.workspace c).reply = .refused e from
      hrefused.imp fun e he => congrArg SessionReply.registry he
    simp only [List.mem_cons, List.not_mem_nil, or_false] at hc
    rcases hc with rfl | rfl | rfl | rfl
    · exact exists_refused_of_isIdle (Registry.assign_isIdle h _ t key v)
    · exact exists_refused_of_isIdle (Registry.assignValue_isIdle h _ key value)
    · simp only [Registry.perform]
      cases (s.registry name).setting t key with
      | error e => exact ⟨e, rfl⟩
      | ok setting => exact exists_refused_of_isIdle (setting.assign_isIdle h setting.default)
    · exact exists_refused_of_isIdle (Registry.reset_isIdle h _ key)

/-- **Closing is final.** However a session came about, once its store is closed no sequence of
operations on the store and on its registries, with whoever listens and whatever they do, opens it
again or moves an entry as it stands in memory, a mark or a medium. All along no operation reports
an update, and nobody is told of one. At every point the store refuses to be written, cleared or
saved, a read answers the default, and no write to a setting is accepted. -/
theorem closed_for_good (s : Session) {cs : List SessionCommand}
    (operations : ∀ c ∈ cs, c.IsOperation) :
    let closed := (s.carryOut (.store .close)).session
    let later := closed.after cs
    (later.workspace.store.closed = true ∧
      later.workspace.store.entries = s.workspace.store.entries ∧
      later.workspace.store.marks = s.workspace.store.marks ∧
      later.workspace.media = s.workspace.media) ∧
    (∀ done ∈ closed.steps cs, ∀ event, done.event? = some event → ¬ event.IsUpdate) ∧
    (∃ news, later.records = s.records ++ news ∧ ∀ record ∈ news, ¬ record.TellsUpdate) ∧
    later.AnswersClosed := by
  intro closed later
  have hclosed : closed.workspace.store.closed = true := rfl
  obtain ⟨hrests, hsteps⟩ := after_rests hclosed operations
  exact ⟨⟨hrests.workspace.closed, hrests.workspace.entries, hrests.workspace.marks,
    hrests.workspace.media⟩, hsteps, hrests.records, answersClosed hrests.workspace.closed⟩

/-- Other ports were set, and nothing was saved. -/
def unsavedPorts : Session :=
  after { workspace := Workspace.blank }
    [.registry "r" (.register (.array .integer) portsSetting.declaration),
      .registry "r" (.assign (.array .integer) "ports" [443])]

/-- Both hidden writes are switched on, somebody resets the ports when others are rejected, and
then a key is read that is missing, one is put, and the store is saved. -/
def lateAttempts : List SessionCommand :=
  [.store (.setAutoPopulate true), .store (.setEnumCache true),
    .listen "r" "one" { registry := "r", reaction? := some ⟨.rejected, .reset "ports", 1⟩ },
    .registry "r" (.assign (.array .integer) "ports" [0]),
    .store (.get .integer "new" 3), .store (.putValue "k" (.int 1)), .store .save]

/-- Nothing comes of them: the change that was not saved stays so. -/
theorem closed_for_good_unsavedPorts :
    let later := (unsavedPorts.carryOut (.store .close)).session.after lateAttempts
    (∀ c ∈ lateAttempts, c.IsOperation) ∧
      later.workspace.store.get? "ports" = some (.array [.int 443]) ∧
      later.workspace.store.get? "new" = none ∧
      later.workspace.store.marks = ⟨1, 0⟩ ∧ later.workspace.media.memory.writes = 0 ∧
      (later.carryOut (.store .save)).reply = .store (.refused .closed) ∧
      (later.carryOut (.registry "r" (.read (.array .integer) "ports"))).reply =
        .registry (.typed (.array .integer) [80]) := by
  intro later
  have operations : ∀ c ∈ lateAttempts, c.IsOperation := by
    intro c hc
    simp only [lateAttempts, List.mem_cons, List.not_mem_nil, or_false] at hc
    rcases hc with rfl | rfl | rfl | rfl | rfl | rfl | rfl <;> trivial
  obtain ⟨⟨-, entries, marks, media⟩, -, -, answers⟩ := closed_for_good unsavedPorts operations
  have registered : (later.registry "r").setting (.array .integer) "ports" =
      .ok { portsSetting with listeners := {} } := rfl
  refine ⟨operations, ?_, ?_, marks, ?_, answers.save, ?_⟩
  · exact congrArg (fun d : Document => d.get? "ports") entries
  · exact congrArg (fun d : Document => d.get? "new") entries
  · exact congrArg (fun m : Media => m.memory.writes) media
  · exact (answers.read "r" (.array .integer) "ports" _ registered).1

end Session
end TypedConfig
