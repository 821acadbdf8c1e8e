/-
# The cache is invisible

Every operation on a session is that on its projection, and turning the cache on or off is
none (`Session.carryOut_uncached`, `Session.carryOut_of_toggle`). So two runs of the same
operations that differ in the cache alone have one projection, and nothing that they
answer, report, count or write tells them apart (`Session.cache_invisible`).

Key definitions: `SessionCommand.withoutCache?`, `Session.observed`, `SessionReply.Alike`,
`Session.Alike`, `SessionStep.Alike`.
Key theorems: `Session.carryOut_uncached`, `Session.observed_uncached`,
`Session.cache_invisible`.
-/
import Mathlib
import TypedConfig.Proofs.Session.Uncached
import TypedConfig.Session.Command

namespace TypedConfig

/-! ### Operations apart from the cache -/

/-- Whether a command turns the cache on or off. -/
def StoreCommand.togglesCache : StoreCommand → Bool
  | .setEnumCache _ => true
  | _ => false

/-- The options with the cache off. -/
def OpenOptions.withoutCache (o : OpenOptions) : OpenOptions :=
  { o with settings.enumCache := false }

namespace SessionCommand

/-- The operation apart from the cache: turning the cache on or off is none, and a store is opened
with the cache off. -/
def withoutCache? : SessionCommand → Option SessionCommand
  | .store c => if c.togglesCache then none else some (.store c)
  | .reopen o env => some (.reopen o.withoutCache env)
  | c => some c

/-- No constant of the types in an operation has a name that spells an integer. -/
def NamesAreWords : SessionCommand → Prop
  | .store c => c.NamesAreWords
  | .registry _ c => c.NamesAreWords
  | _ => True

/-- The operation on projected values. -/
def uncached : SessionCommand → SessionCommand
  | .store c => .store c.uncached
  | c => c

theorem withoutCache?_store {c : StoreCommand} {d : SessionCommand}
    (h : (store c).withoutCache? = some d) : c.togglesCache = false ∧ d = store c := by
  cases htoggle : c.togglesCache with
  | true => simp [withoutCache?, htoggle] at h
  | false =>
    simp only [withoutCache?, htoggle, Bool.false_eq_true, if_false, Option.some.injEq] at h
    exact ⟨rfl, h.symm⟩

theorem namesAreWords_of_withoutCache? {c d : SessionCommand} (h : c.withoutCache? = some d) :
    d.NamesAreWords ↔ c.NamesAreWords := by
  cases c with
  | store c =>
    obtain ⟨-, rfl⟩ := withoutCache?_store h
    exact .rfl
  | _ =>
    cases h
    exact .rfl

theorem namesAreWords_of_toggle {c : SessionCommand} (h : c.withoutCache? = none) :
    c.NamesAreWords := by
  cases c with
  | store c => cases c <;> trivial
  | _ => cases h

/-- Operations that are the same apart from the cache have the same types. -/
theorem namesAreWords_of_filterMap_eq {cs cs' : List SessionCommand}
    (same : cs.filterMap withoutCache? = cs'.filterMap withoutCache?)
    (words : ∀ c ∈ cs, c.NamesAreWords) : ∀ c ∈ cs', c.NamesAreWords := by
  intro c' hc'
  cases h' : c'.withoutCache? with
  | none => exact namesAreWords_of_toggle h'
  | some d =>
    have hd : d ∈ cs.filterMap withoutCache? := by
      rw [same]
      exact List.mem_filterMap.mpr ⟨c', hc', h'⟩
    obtain ⟨c, hc, h⟩ := List.mem_filterMap.mp hd
    rw [← namesAreWords_of_withoutCache? h', namesAreWords_of_withoutCache? h]
    exact words c hc

end SessionCommand

/-- The answer with a raw value projected. -/
def SessionReply.uncached : SessionReply → SessionReply
  | .store reply => .store reply.uncached
  | .value value? => .value (value?.map Value.uncached)
  | reply => reply

/-- The step in the projection of the session. -/
def SessionStep.uncached (step : SessionStep) : SessionStep :=
  { step with reply := step.reply.uncached, session := step.session.uncached }

/-! ### Opening -/

/-- A store that is opened without the cache is the projection of one that is opened with it:
what is read holds no constant. -/
theorem Store.load_uncached (o : OpenOptions) (location : Location) (stored? : Option Bytes) :
    (load o location stored?).uncached = load o.withoutCache location stored? := by
  have hentries : Document.uncached
      ((o.encoding.documentOrEmpty o.seed?).merge (o.encoding.documentOrEmpty stored?)) =
      (o.encoding.documentOrEmpty o.seed?).merge (o.encoding.documentOrEmpty stored?) := by
    rw [← o.encoding.documentOrEmpty_persisted o.seed?,
      ← o.encoding.documentOrEmpty_persisted stored?, ← Document.persisted_merge,
      Document.uncached_persisted]
  simp only [uncached, load, hentries]
  rfl

theorem Store.opened_uncached (o : OpenOptions) (env : Environment) (media : Media) :
    opened o.withoutCache env media = (opened o env media).map uncached := by
  have hlocation : o.withoutCache.location env = o.location env := by
    unfold OpenOptions.location OpenOptions.withoutCache
    cases o.address <;> rfl
  simp only [opened, hlocation]
  cases o.location env with
  | error e => rfl
  | ok location =>
    dsimp only
    cases media.read location with
    | error e => rfl
    | ok stored? => exact congrArg Except.ok (load_uncached o location stored?).symm

namespace Session

theorem opened_uncached (o : OpenOptions) (env : Environment) (media : Media)
    (nonces : NonceSupply) :
    opened o.withoutCache env media nonces = (opened o env media nonces).map uncached := by
  simp only [opened, Workspace.opened, Store.opened_uncached]
  cases Store.opened o env media <;> rfl

theorem namesAreWords_of_opened {o : OpenOptions} {env : Environment} {media : Media}
    {nonces : NonceSupply} {s : Session} (h : opened o env media nonces = .ok s) :
    s.NamesAreWords := by
  unfold opened at h
  cases hopened : Workspace.opened o env media nonces with
  | error e =>
    rw [hopened] at h
    cases h
  | ok w =>
    rw [hopened] at h
    cases h
    intro name r hr
    simp at hr

/-! ### One operation -/

variable {s : Session}

theorem namesAreWords_carryOut (words : s.NamesAreWords) {c : SessionCommand}
    (hc : c.NamesAreWords) : (s.carryOut c).session.NamesAreWords := by
  cases c with
  | store c => exact namesAreWords_command words c
  | registry name c => exact namesAreWords_perform words name hc
  | look key => exact words
  | isDefault registry t key =>
    simp only [carryOut]
    split <;> exact words
  | listen registry name listener =>
    exact namesAreWords_listen (namesAreWords_acquaint words name listener) registry name
  | unlisten registry name => exact namesAreWords_unlisten words registry name
  | listenTo registry t key name listener =>
    have hacquaint := namesAreWords_acquaint words name listener
    simp only [carryOut]
    split
    · exact hacquaint
    · rename_i h
      exact namesAreWords_listenTo hacquaint h
  | unlistenTo registry t key name =>
    simp only [carryOut]
    split
    · exact words
    · rename_i h
      exact namesAreWords_unlistenTo words h
  | failWrites on => exact words
  | reopen o env =>
    simp only [carryOut]
    split
    · exact words
    · rename_i h
      exact namesAreWords_of_opened h

/-- Turning the cache on or off is not seen in the projection. -/
theorem carryOut_of_toggle {c : SessionCommand} (h : c.withoutCache? = none) :
    (s.carryOut c).session.uncached = s.uncached := by
  cases c with
  | store c => cases c <;> first | rfl | cases h
  | _ => cases h

/-- **An operation on a session is that on its projection.** -/
theorem carryOut_uncached (words : s.NamesAreWords) {c d : SessionCommand}
    (hc : c.NamesAreWords) (h : c.withoutCache? = some d) :
    s.uncached.carryOut d.uncached = (s.carryOut c).uncached := by
  cases c with
  | store c =>
    obtain ⟨htoggle, rfl⟩ := SessionCommand.withoutCache?_store h
    have hcommand := s.command_uncached hc fun on heq => by
      rw [heq] at htoggle
      cases htoggle
    simp only [SessionCommand.uncached, carryOut, hcommand]
    rfl
  | registry name c =>
    cases h
    simp only [SessionCommand.uncached, carryOut, perform_uncached words name hc,
      step_uncached words]
    rfl
  | look key =>
    cases h
    have hget := s.workspace.store.get?_uncached key
    simp only [SessionCommand.uncached, carryOut]
    exact congrArg (fun v? => { reply := .value v?, session := s.uncached : SessionStep }) hget
  | isDefault registry t key =>
    cases h
    simp only [SessionCommand.uncached, carryOut, registry_uncached]
    cases (s.registry registry).setting t key with
    | error e => rfl
    | ok setting =>
      have hdefault := setting.isDefault_uncached s.workspace.store
      exact congrArg (fun yes => { reply := .answer yes, session := s.uncached : SessionStep })
        hdefault
  | listen registry name listener =>
    cases h
    simp only [SessionCommand.uncached, carryOut, acquaint_uncached]
    rfl
  | unlisten registry name =>
    cases h
    rfl
  | listenTo registry t key name listener =>
    cases h
    simp only [SessionCommand.uncached, carryOut, acquaint_uncached, listenTo_uncached]
    cases (s.acquaint name listener).listenTo registry t key name <;> rfl
  | unlistenTo registry t key name =>
    cases h
    simp only [SessionCommand.uncached, carryOut, unlistenTo_uncached]
    cases s.unlistenTo registry t key name <;> rfl
  | failWrites on =>
    cases h
    rfl
  | reopen o env =>
    cases h
    have hopened := opened_uncached o env s.workspace.media s.workspace.nonces
    simp only [SessionCommand.uncached, carryOut, reopened]
    rw [show opened o.withoutCache env s.uncached.workspace.media s.uncached.workspace.nonces = _
      from hopened]
    cases opened o env s.workspace.media s.workspace.nonces <;> rfl

/-! ### Runs -/

/-- The steps of operations, one after another, without those that turn the cache on or off. -/
def observed : Session → List SessionCommand → List SessionStep
  | _, [] => []
  | s, c :: cs =>
    match c.withoutCache? with
    | none => (s.carryOut c).session.observed cs
    | some _ => s.carryOut c :: (s.carryOut c).session.observed cs

/-- **A run is that of the projection**, in which the cache is never on. -/
theorem observed_uncached (words : s.NamesAreWords) {cs : List SessionCommand}
    (hcs : ∀ c ∈ cs, c.NamesAreWords) :
    (s.observed cs).map SessionStep.uncached = s.uncached.steps
      ((cs.filterMap SessionCommand.withoutCache?).map SessionCommand.uncached) ∧
    (s.after cs).uncached = s.uncached.after
      ((cs.filterMap SessionCommand.withoutCache?).map SessionCommand.uncached) := by
  induction cs generalizing s with
  | nil => exact ⟨rfl, rfl⟩
  | cons c cs ih =>
    have hc := hcs c List.mem_cons_self
    have hrest := ih (namesAreWords_carryOut words hc) fun c' hc' =>
      hcs c' (List.mem_cons_of_mem _ hc')
    rcases h : c.withoutCache? with _ | d
    · -- the projection does not move
      rw [carryOut_of_toggle h] at hrest
      rw [List.filterMap_cons_none h]
      simp only [observed, h]
      exact hrest
    · have hstep := carryOut_uncached words hc h
      have hsession : (s.uncached.carryOut d.uncached).session = (s.carryOut c).session.uncached :=
        congrArg SessionStep.session hstep
      rw [List.filterMap_cons_some h, List.map_cons]
      constructor
      · simp only [observed, h, List.map_cons, steps]
        rw [hrest.1, hstep]
        rfl
      · rw [after, after, List.foldl_cons, List.foldl_cons, hsession]
        exact hrest.2

end Session

/-! ### What is seen of two runs -/

/-- Two answers are the same, or are raw values that are written alike. -/
inductive SessionReply.Alike : SessionReply → SessionReply → Prop where
  | same (reply : SessionReply) : Alike reply reply
  | removed {v v' : Value} (h : v.samePersisted v' = true) :
    Alike (.store (.removed (some v))) (.store (.removed (some v')))
  | value {v v' : Value} (h : v.samePersisted v' = true) :
    Alike (.value (some v)) (.value (some v'))

/-- Two sessions have entries that are written alike, and the same marks, media and records. -/
structure Session.Alike (s s' : Session) : Prop where
  entries : s.workspace.store.entries.WrittenAlike s'.workspace.store.entries
  marks : s.workspace.store.marks = s'.workspace.store.marks
  media : s.workspace.media = s'.workspace.media
  records : s.records = s'.records

/-- Two steps have answers and sessions that are alike, and the same event. -/
structure SessionStep.Alike (step step' : SessionStep) : Prop where
  reply : step.reply.Alike step'.reply
  session : step.session.Alike step'.session
  event : step.event? = step'.event?

theorem SessionReply.alike_of_removed {v? v'? : Option Value}
    (h : v?.map Value.uncached = v'?.map Value.uncached) :
    Alike (.store (.removed v?)) (.store (.removed v'?)) := by
  cases v? <;> cases v'? <;> simp only [Option.map_none, Option.map_some, reduceCtorEq,
    Option.some.injEq] at h
  · exact .same _
  · exact .removed (Value.samePersisted_of_uncached_eq h)

theorem SessionReply.alike_of_value {v? v'? : Option Value}
    (h : v?.map Value.uncached = v'?.map Value.uncached) : Alike (.value v?) (.value v'?) := by
  cases v? <;> cases v'? <;> simp only [Option.map_none, Option.map_some, reduceCtorEq,
    Option.some.injEq] at h
  · exact .same _
  · exact .value (Value.samePersisted_of_uncached_eq h)

theorem SessionReply.alike_of_store {r r' : StoreReply} (h : r.uncached = r'.uncached) :
    Alike (.store r) (.store r') := by
  cases r with
  | removed v? =>
    cases r' with
    | removed v'? => exact alike_of_removed (StoreReply.removed.inj h)
    | _ => cases h
  | _ =>
    cases r' <;> cases h
    exact .same _

theorem SessionReply.alike_of_uncached_eq {a b : SessionReply} (h : a.uncached = b.uncached) :
    a.Alike b := by
  cases a with
  | store r =>
    cases b with
    | store r' => exact alike_of_store (SessionReply.store.inj h)
    | _ => cases h
  | value v? =>
    cases b with
    | value v'? => exact alike_of_value (SessionReply.value.inj h)
    | _ => cases h
  | _ =>
    cases b <;> cases h
    exact .same _

theorem Session.alike_of_uncached_eq {s s' : Session} (h : s.uncached = s'.uncached) :
    s.Alike s' :=
  ⟨Document.writtenAlike_of_uncached_eq (congrArg (·.workspace.store.entries) h),
    congrArg (·.workspace.store.marks) h, congrArg (·.workspace.media) h,
    congrArg (·.records) h⟩

theorem SessionStep.alike_of_uncached_eq {step step' : SessionStep}
    (h : step.uncached = step'.uncached) : step.Alike step' := by
  have hreply := congrArg SessionStep.reply h
  have hsession := congrArg SessionStep.session h
  have hevent := congrArg SessionStep.event? h
  exact ⟨SessionReply.alike_of_uncached_eq hreply, Session.alike_of_uncached_eq hsession, hevent⟩

/-- **The cache is invisible.** Two sessions are opened with the same options and on the same
media, and see the same operations, but for the cache, which is on or off from the start or is
turned on and off on the way. Then either both or none is opened; each operation has the same
answer, but for raw values, which are written alike, and the same event; after it the entries are
written alike, and the marks, the media and what listeners heard are the same. -/
theorem Session.cache_invisible (env : Environment) (media : Media) (nonces : NonceSupply)
    {o o' : OpenOptions} {cs cs' : List SessionCommand}
    (sameOptions : o.withoutCache = o'.withoutCache)
    (sameCommands : cs.filterMap SessionCommand.withoutCache? =
      cs'.filterMap SessionCommand.withoutCache?)
    (words : ∀ c ∈ cs, c.NamesAreWords) :
    (∀ e, opened o env media nonces = .error e ↔ opened o' env media nonces = .error e) ∧
    ∀ s s', opened o env media nonces = .ok s → opened o' env media nonces = .ok s' →
      List.Forall₂ SessionStep.Alike (s.observed cs) (s'.observed cs') ∧
        (s.after cs).Alike (s'.after cs') := by
  have hopened := opened_uncached o env media nonces
  rw [sameOptions, opened_uncached] at hopened
  constructor
  · intro e
    cases h : opened o env media nonces with
    | error e₁ =>
      cases h' : opened o' env media nonces with
      | error e₂ =>
        rw [h, h'] at hopened
        rw [show e₂ = e₁ from Except.error.inj hopened]
      | ok s' =>
        rw [h, h'] at hopened
        cases hopened
    | ok s =>
      cases h' : opened o' env media nonces with
      | error e₂ =>
        rw [h, h'] at hopened
        cases hopened
      | ok s' => exact ⟨nofun, nofun⟩
  · intro s s' hs hs'
    rw [hs, hs'] at hopened
    have hstart : s'.uncached = s.uncached := Except.ok.inj hopened
    have words' := SessionCommand.namesAreWords_of_filterMap_eq sameCommands words
    have hrun := observed_uncached (namesAreWords_of_opened hs) words
    have hrun' := observed_uncached (namesAreWords_of_opened hs') words'
    rw [← sameCommands, hstart] at hrun'
    refine ⟨?_, alike_of_uncached_eq (hrun.2.trans hrun'.2.symm)⟩
    have hsteps := hrun.1.trans hrun'.1.symm
    rw [← List.forall₂_eq_eq_eq, List.forall₂_map_left_iff, List.forall₂_map_right_iff] at hsteps
    exact hsteps.imp fun _ _ => SessionStep.alike_of_uncached_eq

/-- An enumeration of two constants. -/
def Enumeration.speed : Enumeration :=
  { fullName := "app::Speed", shortName := "Speed", first := "Fast", others := ["Slow"] }

/-- Storing a constant, looking at it, and saving. -/
def Session.speedRun : List SessionCommand :=
  [.store (.put (.enumeration .speed) "k" ⟨1, by decide⟩), .look "k", .store .save]

/-- With the cache the constant stands resolved in memory and without it by its name, and both
runs look the same. -/
theorem Session.cache_invisible_speedRun :
    ∃ s, opened { address := .named "s", inMemory := true } {}
        { memory := {}, files := { root := "/r" } } {} = .ok s ∧
      (s.after (.store (.setEnumCache true) :: speedRun)).workspace.store.get? "k" =
        some (.constant ⟨"app::Speed", "Slow", 1⟩) ∧
      (s.after speedRun).workspace.store.get? "k" = some (.string "Slow") ∧
      List.Forall₂ SessionStep.Alike (s.observed (.store (.setEnumCache true) :: speedRun))
        (s.observed speedRun) ∧ (s.observed speedRun).length = 3 := by
  have words : ∀ c ∈ SessionCommand.store (.setEnumCache true) :: speedRun,
      c.NamesAreWords := by
    have hspeed : (SettingType.enumeration .speed).NamesAreWords := by
      show ∀ i, readInteger? (Enumeration.speed.name i) = none
      decide
    intro c hc
    simp only [speedRun, List.mem_cons, List.not_mem_nil, or_false] at hc
    rcases hc with rfl | rfl | rfl | rfl
    · trivial
    · exact hspeed
    · trivial
    · trivial
  have same : List.filterMap SessionCommand.withoutCache?
      (.store (.setEnumCache true) :: speedRun) =
        List.filterMap SessionCommand.withoutCache? speedRun := rfl
  obtain ⟨s, hs⟩ : ∃ s, opened { address := .named "s", inMemory := true } {}
      { memory := {}, files := { root := "/r" } } {} = .ok s := ⟨_, rfl⟩
  have h := (cache_invisible {} { memory := {}, files := { root := "/r" } } {} rfl same words).2
    s s hs hs
  cases hs
  exact ⟨_, rfl, rfl, rfl, h.1, rfl⟩

end TypedConfig
