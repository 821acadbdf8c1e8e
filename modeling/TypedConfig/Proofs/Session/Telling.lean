/-
# A write is whole, and is told of

A write to a setting changes nothing at all, or puts the one entry of the setting. What
became of it is told in one event or none: a rejected value and a stored one are told of,
a refused one is not. If nobody who listens reacts, an event is heard by those who listen
to the setting and then by those who listen to its registry, each as often and in the
order in which they were added, and nothing else comes of it (`Session.deliver_of_quiet`).

Key definitions: `Session.audience`, `Session.Quiet`, `Session.Told`, `Session.Stored`,
`Session.Wrote`.
Key theorems: `Session.deliver_of_quiet`, `Session.carryOut_written`,
`Session.write_whole_and_told`.
-/
import Mathlib
import TypedConfig.Proofs.Registry.Writing
import TypedConfig.Proofs.Store.Reopening
import TypedConfig.Session.Command

namespace TypedConfig
namespace Session

variable {s : Session}

/-! ### Listeners that only listen -/

/-- Who hears of the events of a setting, in the order of the telling. -/
def audience (s : Session) (registry key : String) : List String :=
  ((s.registry registry).settingListeners key).names ++ (s.registry registry).listeners.names

/-- Nobody of these reacts to anything. -/
def Quiet (s : Session) (names : List String) : Prop :=
  ∀ name ∈ names, ∀ event, s.react name event = none

/-- Whether somebody reacts is a matter of the listeners. -/
theorem react_eq_none_of_listeners {s' : Session} {name : String} {event : Event}
    (h : s.react name event = none) (listeners : s'.listeners = s.listeners) :
    s'.react name event = none := by
  unfold react at h ⊢
  rw [listeners]
  cases hget : s.listeners.get? name with
  | none => rfl
  | some listener =>
    simp only [hget] at h ⊢
    cases hreaction : listener.reaction? with
    | none => rfl
    | some reaction =>
      simp only [hreaction] at h ⊢
      split at h
      · cases h
      · rename_i hidle
        rw [if_neg hidle]

theorem tell_of_quiet (deliver : Session → String → Event → Session) {name : String}
    {event : Event} (h : s.react name event = none) :
    tell deliver s event name = s.note (.heard name event) := by
  have hnoted : (s.note (.heard name event)).react name event = none :=
    react_eq_none_of_listeners h rfl
  simp only [tell, hnoted]

/-- Those who only listen get their records, in order. -/
theorem foldl_tell_of_quiet (deliver : Session → String → Event → Session) (event : Event)
    (names : List String) (quiet : s.Quiet names) :
    names.foldl (fun s name => tell deliver s event name) s =
      { s with records := s.records ++ names.map (Record.heard · event) } := by
  induction names generalizing s with
  | nil => simp
  | cons name rest ih =>
    rw [List.foldl_cons, tell_of_quiet deliver (quiet name List.mem_cons_self event)]
    have hrest : (s.note (.heard name event)).Quiet rest := fun other hother event' =>
      react_eq_none_of_listeners (quiet other (List.mem_cons_of_mem _ hother) event') rfl
    rw [ih hrest]
    simp [note]

/-- **An event that nobody reacts to is heard by its audience, and nothing else comes of it.** -/
theorem deliver_of_quiet (registry : String) (event : Event)
    (quiet : s.Quiet (s.audience registry event.key)) :
    s.deliver registry event =
      { s with records :=
          s.records ++ (s.audience registry event.key).map (Record.heard · event) } := by
  have hfirst : s.Quiet ((s.registry registry).settingListeners event.key).names :=
    fun name hname => quiet name (List.mem_append_left _ hname)
  rw [deliver, deliverWith, foldl_tell_of_quiet _ event _ hfirst]
  refine (foldl_tell_of_quiet _ event _ fun name hname event' => ?_).trans ?_
  · exact react_eq_none_of_listeners (quiet name (List.mem_append_right _ hname) event') rfl
  · simp only [audience, List.map_append, List.append_assoc]
    rfl

/-! ### Writes -/

/-- The session with another store, before anyone is told of it. -/
def withStore (s : Session) (name : String) (store : Store) : Session :=
  { s with workspace := { s.workspace with store } }.setRegistry (s.registry name)

/-- Putting the registry back where it was found leaves it there. -/
theorem registry_withStore (s : Session) (name : String) (store : Store) :
    (s.withStore name store).registry name = s.registry name := by
  unfold withStore setRegistry registry
  cases hget : s.registries.get? name with
  | none => simp
  | some r =>
    simp only [Option.getD_some, SortedMap.get?_insert]
    split
    · rfl
    · rw [hget]
      rfl

theorem audience_withStore (s : Session) (name key : String) (store : Store) :
    (s.withStore name store).audience name key = s.audience name key := by
  simp only [audience, registry_withStore]

variable {name key : String} {c : RegistryCommand} {o : WriteOutcome}

theorem step_written
    (h : (s.registry name).perform s.workspace c = (s.registry name).written s.workspace o) :
    s.step name c =
      (((s.registry name).written s.workspace o).reply, s.withStore name o.store, o.event?) := by
  simp only [step, h]
  rfl

/-- **What a session comes to by a write.** -/
theorem carryOut_written
    (h : (s.registry name).perform s.workspace c = (s.registry name).written s.workspace o)
    (quiet : ∀ event, o.event? = some event → s.Quiet (s.audience name event.key)) :
    let done := s.carryOut (.registry name c)
    done.reply = .registry ((s.registry name).written s.workspace o).reply ∧
      done.session.workspace = { s.workspace with store := o.store } ∧
      done.session.registry name = s.registry name ∧
      done.event? = o.event? ∧
      done.session.records = s.records ++ o.event?.elim []
        fun event => (s.audience name event.key).map (Record.heard · event) := by
  have hstep := step_written h
  have hregistry := s.registry_withStore name o.store
  intro done
  cases hevent : o.event? with
  | none =>
    have hperform : s.perform name c =
        (((s.registry name).written s.workspace o).reply, s.withStore name o.store) := by
      simp only [perform, hstep, hevent]
    have hdone : done = ⟨.registry ((s.registry name).written s.workspace o).reply,
        s.withStore name o.store, none⟩ := by
      simp only [done, carryOut, hperform, hstep, hevent]
    rw [hdone]
    exact ⟨rfl, rfl, hregistry, rfl, (List.append_nil _).symm⟩
  | some event =>
    have hquiet : (s.withStore name o.store).Quiet
        ((s.withStore name o.store).audience name event.key) := by
      rw [audience_withStore]
      exact fun other hother event' =>
        react_eq_none_of_listeners (quiet event hevent other hother event') rfl
    have hperform : s.perform name c = (((s.registry name).written s.workspace o).reply,
        (s.withStore name o.store).deliver name event) := by
      simp only [perform, hstep, hevent]
    have hdone : done = ⟨.registry ((s.registry name).written s.workspace o).reply,
        (s.withStore name o.store).deliver name event, some event⟩ := by
      simp only [done, carryOut, hperform, hstep, hevent]
    rw [hdone, deliver_of_quiet name event hquiet, audience_withStore]
    exact ⟨rfl, rfl, hregistry, rfl, rfl⟩

/-! ### The outcomes of a write -/

variable {t : SettingType} {setting : Setting t}

/-- One event went out, to those who listen to the setting and then to those who listen to its
registry. -/
structure Told (s : Session) (name : String) (setting : Setting t) (event : Event)
    (done : SessionStep) : Prop where
  reported : done.event? = some event
  records : done.session.records = s.records ++
    (setting.listeners.names ++ (s.registry name).listeners.names).map (Record.heard · event)

/-- The error was answered, no event went out, and nothing changed. -/
structure Refused (s : Session) (e : SettingError) (done : SessionStep) : Prop where
  reply : done.reply = .registry (.refused e)
  workspace : done.session.workspace = s.workspace
  unreported : done.event? = none
  records : done.session.records = s.records

/-- The entry of the setting is written like the value and all else is as it was; a change of its
persisted form was counted, and the event tells what was read before and what is read now. -/
structure Stored (s : Session) (name : String) (setting : Setting t) (v : t.Val)
    (done : SessionStep) : Prop where
  reply : done.reply = .registry .accepted
  entry : ∃ value, done.session.workspace.store.get? setting.key = some value ∧
    value.samePersisted (t.toValue v) = true
  others : ∀ key, key ≠ setting.key →
    done.session.workspace.store.get? key = s.workspace.store.get? key
  kept : (s.workspace.store.get? setting.key).map Value.persisted = some (t.toValue v) →
    done.session.workspace.store.marks = s.workspace.store.marks
  counted : (s.workspace.store.get? setting.key).map Value.persisted ≠ some (t.toValue v) →
    done.session.workspace.store.marks = s.workspace.store.marks.markDirty
  media : done.session.workspace.media = s.workspace.media
  registry : done.session.registry name = s.registry name
  reads : (setting.read done.session.workspace.store).1 = v
  told : s.Told name setting (.updated setting.key t.variant
    (t.toValue (setting.read s.workspace.store).1)
    (t.toValue (setting.read done.session.workspace.store).1)) done

/-- What becomes of a write of a value to a setting. -/
structure Wrote (s : Session) (name : String) (setting : Setting t) (v : t.Val)
    (done : SessionStep) : Prop where
  /-- A constraint rejects it: this is told, and nothing changed. -/
  rejected : (∃ c ∈ setting.declaration.constraints, ∃ e, t.validate c v = .error e) →
    ∃ c ∈ setting.declaration.constraints, ∃ reason, t.validate c v = .error reason ∧
      done.reply = .registry (.refused (.validation setting.key reason)) ∧
      done.session.workspace = s.workspace ∧
      s.Told name setting (.rejected setting.key t.variant (t.toValue v) reason) done
  /-- The store refuses it. -/
  refused : (∀ c ∈ setting.declaration.constraints, t.validate c v = .ok ()) →
    ∀ e, s.workspace.store.put t setting.key v = .error e → s.Refused (.store e) done
  /-- Otherwise it is stored. -/
  stored : (∀ c ∈ setting.declaration.constraints, t.validate c v = .ok ()) →
    ∀ p, s.workspace.store.put t setting.key v = .ok p → s.Stored name setting v done

/-- A write that reports nothing is refused. -/
theorem refused_of_written {e : SettingError}
    (h : (s.registry name).perform s.workspace c = (s.registry name).written s.workspace
      { result := .error e, store := s.workspace.store }) :
    s.Refused e (s.carryOut (.registry name c)) := by
  obtain ⟨hreply, hworkspace, -, hevent, hrecords⟩ := carryOut_written h nofun
  exact ⟨hreply, hworkspace, hevent, hrecords.trans (List.append_nil _)⟩

/-- A write that reports an event of the setting is told of. -/
theorem told_of_written {event : Event}
    (registered : (s.registry name).setting t key = .ok setting)
    (quiet : s.Quiet (s.audience name key)) (hkey : event.key = setting.key)
    (h : (s.registry name).perform s.workspace c = (s.registry name).written s.workspace o)
    (hevent : o.event? = some event) :
    let done := s.carryOut (.registry name c)
    done.reply = .registry ((s.registry name).written s.workspace o).reply ∧
      done.session.workspace = { s.workspace with store := o.store } ∧
      done.session.registry name = s.registry name ∧ s.Told name setting event done := by
  have hkey : event.key = key := hkey.trans (Registry.key_of_setting registered)
  have hquiet : ∀ event', o.event? = some event' → s.Quiet (s.audience name event'.key) := by
    intro event' hevent'
    rw [hevent, Option.some.injEq] at hevent'
    rw [← hevent', hkey]
    exact quiet
  obtain ⟨hreply, hworkspace, hregistry, hreported, hrecords⟩ := carryOut_written h hquiet
  refine ⟨hreply, hworkspace, hregistry, hreported.trans hevent, ?_⟩
  rw [hrecords, hevent, Option.elim_some, hkey, audience,
    Registry.settingListeners_of_setting registered]

/-- **A command that writes a value to a setting does so wholly or not at all.** -/
theorem wrote_of_written {v : t.Val}
    (registered : (s.registry name).setting t key = .ok setting)
    (quiet : s.Quiet (s.audience name key))
    (h : (s.registry name).perform s.workspace c =
      (s.registry name).written s.workspace (setting.assign s.workspace.store v)) :
    s.Wrote name setting v (s.carryOut (.registry name c)) := by
  refine ⟨fun hrejected => ?_, fun valid e hrefused => ?_, fun valid p hstored => ?_⟩
  · obtain ⟨constraint, hmem, reason, hreason, hassign⟩ :=
      Setting.assign_of_rejected s.workspace.store hrejected
    rw [hassign] at h
    obtain ⟨hreply, hworkspace, -, told⟩ := told_of_written registered quiet rfl h rfl
    exact ⟨constraint, hmem, reason, hreason, hreply, hworkspace, told⟩
  · rw [Setting.assign_of_refused valid hrefused] at h
    exact refused_of_written h
  · obtain ⟨changed, after⟩ := p
    rw [Setting.assign_of_stored valid hstored] at h
    obtain ⟨hreply, hworkspace, hregistry, told⟩ := told_of_written registered quiet rfl h rfl
    have hreads := Setting.read_of_stored valid hstored
    obtain ⟨hkept, hcounted⟩ := Store.marks_of_put hstored
    rw [← setting.read_eq_current (Store.closed_of_put hstored).1, ← hreads] at told
    have hentry : after.get? setting.key = some (s.workspace.store.memoryForm t v) := by
      rw [Store.get?_of_put hstored, if_pos rfl]
    have hsame : (s.workspace.store.memoryForm t v).samePersisted (t.toValue v) = true := by
      rw [Value.samePersisted_iff, s.workspace.store.memoryForm_persisted, t.toValue_persisted]
    have hothers : ∀ other, other ≠ setting.key →
        after.get? other = s.workspace.store.get? other := by
      intro other hother
      rw [Store.get?_of_put hstored, if_neg (Ne.symm hother)]
    exact ⟨hreply, hworkspace ▸ ⟨_, hentry, hsame⟩, hworkspace ▸ hothers, hworkspace ▸ hkept,
      hworkspace ▸ hcounted, hworkspace ▸ rfl, hregistry, hworkspace ▸ hreads, hworkspace ▸ told⟩

/-- **A write is whole, and is told of.** Where nobody who listens reacts, a write of a typed
value to a registered setting is rejected by a constraint, which is told, or refused by the store,
which is not, and leaves all as it was; or the value is stored, and its event tells the values
read before and after. A value of any other form is first read at the type of the setting, and if
this fails, all is left as it was and nothing is told. -/
theorem write_whole_and_told (s : Session) {name key : String} {t : SettingType}
    {setting : Setting t} (registered : (s.registry name).setting t key = .ok setting)
    (quiet : s.Quiet (s.audience name key)) :
    (∀ v, s.Wrote name setting v (s.carryOut (.registry name (.assign t key v)))) ∧
      ∀ value,
        (∀ e, t.fromValue value = .error e → s.Refused (.conversion setting.key e)
          (s.carryOut (.registry name (.assignValue key value)))) ∧
        ∀ v, t.fromValue value = .ok v →
          s.Wrote name setting v (s.carryOut (.registry name (.assignValue key value))) := by
  have hfind := Registry.find_of_setting registered
  refine ⟨fun v => ?_, fun value => ⟨fun e he => ?_, fun v hv => ?_⟩⟩
  · refine wrote_of_written registered quiet ?_
    simp only [Registry.perform, Registry.assign, registered]
  · refine refused_of_written ?_
    simp only [Registry.perform, Registry.assignValue, hfind, Setting.assignValue, he]
  · refine wrote_of_written registered quiet ?_
    simp only [Registry.perform, Registry.assignValue, hfind, Setting.assignValue, hv]

/-- Ports from 1 to 1024. -/
def portsSetting : Setting (.array .integer) :=
  { declaration :=
      { key := "ports", default? := some [80], constraints := [.int ⟨1, 1024, 1⟩] }
    sound := rfl
    initialized := true
    listeners := ⟨["one"]⟩ }

/-- A session with the ports, to which `one` listens, and `all` listens twice to whatever
happens. -/
def portsSession : Session :=
  after { workspace := Workspace.blank }
    [.registry "r" (.register (.array .integer) portsSetting.declaration),
      .listen "r" "all" { registry := "r" },
      .listenTo "r" (.array .integer) "ports" "one" { registry := "r" },
      .listen "r" "all" { registry := "r" }]

/-- A new list of ports is stored and told of three times; one with a port that is too low is
told of and not stored; and a word is no list of ports. -/
theorem write_whole_and_told_ports :
    let stored := portsSession.carryOut (.registry "r" (.assign (.array .integer) "ports" [443]))
    let rejected :=
      portsSession.carryOut (.registry "r" (.assignValue "ports" (.array [.int 443, .int 0])))
    let refused := portsSession.carryOut (.registry "r" (.assignValue "ports" (.string "http")))
    let updated := Event.updated "ports" .array (.array [.int 80]) (.array [.int 443])
    stored.reply = .registry .accepted ∧
      stored.session.records = [.heard "one" updated, .heard "all" updated, .heard "all" updated] ∧
      stored.session.workspace.store.marks.set = 1 ∧
      rejected.session.workspace = portsSession.workspace ∧ rejected.session.records.length = 3 ∧
      refused.session.records = [] := by
  intro stored rejected refused updated
  have registered : (portsSession.registry "r").setting (.array .integer) "ports" =
      .ok portsSetting := rfl
  have quiet : portsSession.Quiet (portsSession.audience "r" "ports") := by
    have haudience : portsSession.audience "r" "ports" = ["one", "all", "all"] := rfl
    rw [haudience]
    intro name hname event
    simp only [List.mem_cons, List.not_mem_nil, or_false] at hname
    rcases hname with rfl | rfl | rfl <;> rfl
  have hworkspace : portsSession.workspace = Workspace.blank := rfl
  have hrecords : portsSession.records = [] := rfl
  have hnames : portsSetting.listeners.names ++ (portsSession.registry "r").listeners.names =
      ["one", "all", "all"] := rfl
  obtain ⟨htyped, huntyped⟩ := write_whole_and_told portsSession registered quiet
  have hvalid : ∀ c ∈ portsSetting.declaration.constraints,
      SettingType.validate (.array .integer) c ([443] : List Int32) = .ok () := by
    intro c hc
    rw [List.mem_singleton.mp hc]
    rfl
  have hput : portsSession.workspace.store.put (.array .integer) portsSetting.key [443] =
      .ok (Workspace.blank.store.setEntry "ports" (.array [.int 443])) := rfl
  have hstored := (htyped [443]).stored hvalid _ hput
  have htold := hstored.told.records
  rw [hstored.reads, hrecords, hnames] at htold
  obtain ⟨-, -, reason, -, -, hkept, hreported⟩ :=
    ((huntyped (.array [.int 443, .int 0])).2 [443, 0] rfl).rejected
      ⟨_, List.mem_singleton_self _, _, rfl⟩
  have hheard := hreported.records
  rw [hrecords, hnames] at hheard
  refine ⟨hstored.reply, htold, ?_, hkept, ?_, ?_⟩
  · rw [hstored.counted nofun]
    rfl
  · rw [hheard]
    rfl
  · exact ((huntyped (.string "http")).1 _ rfl).records.trans hrecords

end Session
end TypedConfig
