/-
# Settings are registered once and set up once

Of the calls on one key that are noted, the first is a registration that takes its declaration
in, the second marks the setting as set up, and the third tells this; the last two are of one
call, which is the registration itself or one that found its setting. There are no more
(`SharedRegistry.KeyState`). What a call may still do, and what it answered, goes with that
(`SharedRegistry.CallState`). Every step keeps both (`SharedRegistry.Consistent.step`), and so
does every run from a registry without settings (`SharedRegistry.Run.consistent`).

So each key is won by one registration at most, and is then found with its type only; the others
are refused. When no call is in progress, every setting was set up once, and this was told once
(`SharedRegistry.registered_once`).

Key definitions: `SharedRegistry.notesOn`, `SharedRegistry.Holds`, `SharedRegistry.KeyState`,
`SharedRegistry.CallState`, `SharedRegistry.Consistent`.
Key theorems: `SharedRegistry.Consistent.step`, `SharedRegistry.Run.consistent`,
`SharedRegistry.Consistent.exists_step`, `SharedRegistry.registered_once`.
-/
import Mathlib
import TypedConfig.Proofs.Sharing.Registering

namespace TypedConfig

/-- A call at this phase is at work on its setting, which it has not marked. -/
def CallPhase.IsSettingUp : CallPhase → Prop
  | .asking => True
  | .checking => True
  | .claiming => True
  | _ => False

/-- How many steps a call takes at most from here on. -/
@[simp] def CallPhase.left : CallPhase → ℕ
  | .waiting => 6
  | .inserting => 5
  | .asking => 4
  | .checking => 3
  | .claiming => 2
  | .telling _ => 1
  | .returned _ => 0

namespace SharedRegistry

variable {calls : ℕ → RegistryCall} {s s' : SharedRegistry} {notes notes' : List (ℕ × Note)}
  {r r' : Registry} {key : String} {n m : ℕ}

/-! ### What is noted -/

/-- What is noted of the calls on a key. -/
def notesOn (calls : ℕ → RegistryCall) (key : String) (notes : List (ℕ × Note)) :
    List (ℕ × Note) :=
  notes.filter fun e => (calls e.1).key = key

theorem mem_notesOn {note : Note} :
    (n, note) ∈ notesOn calls key notes ↔ (n, note) ∈ notes ∧ (calls n).key = key := by
  simp [notesOn]

theorem notesOn_cons_self (note : Note) :
    notesOn calls (calls n).key ((n, note) :: notes) =
      (n, note) :: notesOn calls (calls n).key notes := by
  simp [notesOn]

theorem notesOn_append_of_ne {step : CallStep} (h : key ≠ (calls n).key) :
    notesOn calls key (notesOf n step ++ notes) = notesOn calls key notes := by
  cases hnote : step.note? <;> simp [notesOn, notesOf, hnote, Ne.symm h]

theorem mem_notesOf_append {step : CallStep} (h : m ≠ n) {note : Note} :
    (m, note) ∈ notesOf n step ++ notes ↔ (m, note) ∈ notes := by
  cases hnote : step.note? <;> simp [notesOf, hnote, h]

/-- Nothing is noted of a call. -/
def IsSilent (n : ℕ) (notes : List (ℕ × Note)) : Prop := ∀ note, (n, note) ∉ notes

/-! ### Keys and calls -/

/-- Call `n` has taken in the declaration of the setting of a key. -/
structure Holds (calls : ℕ → RegistryCall) (r : Registry) (key : String) (n : ℕ)
    (t : SettingType) (set : Setting t) : Prop where
  winner : calls n = .register t set.declaration
  stored : r.settings.get? key = some ⟨t, set⟩

/-- How far a key has come, and what is noted of the calls on it. -/
inductive KeyState (calls : ℕ → RegistryCall) (s : SharedRegistry) (key : String) :
    List (ℕ × Note) → Prop
  | free (absent : s.registry.settings.get? key = none) : KeyState calls s key []
  /-- It was won, and the winner is about to set it up. -/
  | won {n : ℕ} {t : SettingType} {set : Setting t} (holds : Holds calls s.registry key n t set)
    (down : set.initialized = false) (atWork : (s.phase n).IsSettingUp) :
    KeyState calls s key [(n, .won)]
  /-- A call has set it up, and is about to tell this. -/
  | raised {n m : ℕ} {t : SettingType} {set : Setting t}
    (holds : Holds calls s.registry key n t set) (up : set.initialized = true)
    (raiser : m = n ∨ calls m = .setUp t key)
    (telling : s.phase m = .telling (.initialized key t.variant)) :
    KeyState calls s key [(m, .raised), (n, .won)]
  | told {n m : ℕ} {t : SettingType} {set : Setting t}
    (holds : Holds calls s.registry key n t set) (up : set.initialized = true)
    (raiser : m = n ∨ calls m = .setUp t key) :
    KeyState calls s key [(m, .told (.initialized key t.variant)), (m, .raised), (n, .won)]

/-- The setting of a call is there, and the call has won it if it is a registration. -/
structure HasSetting (calls : ℕ → RegistryCall) (r : Registry) (notes : List (ℕ × Note))
    (n : ℕ) : Prop where
  stored : ∃ set, r.settings.get? (calls n).key = some ⟨(calls n).type, set⟩
  won : ∀ t d, calls n = .register t d → (n, .won) ∈ notes

/-- What holds of a call when it has come this far. -/
inductive CallState (calls : ℕ → RegistryCall) (r : Registry) (notes : List (ℕ × Note)) (n : ℕ) :
    CallPhase → Prop
  | waiting (silent : IsSilent n notes) : CallState calls r notes n .waiting
  | inserting {t : SettingType} {d : Declaration t} (call : calls n = .register t d)
    (sound : d.check = .ok ()) (silent : IsSilent n notes) : CallState calls r notes n .inserting
  | settingUp {p : CallPhase} (atWork : p.IsSettingUp) (has : HasSetting calls r notes n) :
    CallState calls r notes n p
  | telling {event : Event} (has : HasSetting calls r notes n) (raised : (n, .raised) ∈ notes)
    (untold : ∀ e, (n, .told e) ∉ notes) : CallState calls r notes n (.telling event)
  | unsound {t : SettingType} {d : Declaration t} {e : SchemaError}
    (call : calls n = .register t d) (unsound : d.check = .error e) (silent : IsSilent n notes) :
    CallState calls r notes n (.returned (.unsound e))
  /-- Another call has won the key. -/
  | taken {t : SettingType} {d : Declaration t} {m : ℕ} (call : calls n = .register t d)
    (sound : d.check = .ok ()) (silent : IsSilent n notes) (won : (m, .won) ∈ notes)
    (same : (calls m).key = d.key) :
    CallState calls r notes n (.returned (.unsound (.duplicateKey d.key)))
  | registered {t : SettingType} {set : Setting t} (call : calls n = .register t set.declaration)
    (won : (n, .won) ∈ notes) (up : set.initialized = true) :
    CallState calls r notes n (.returned (.registered t set))
  | accepted {t : SettingType} {key : String} (call : calls n = .setUp t key) :
    CallState calls r notes n (.returned .accepted)
  | refused {t : SettingType} {key : String} {e : SettingError} (call : calls n = .setUp t key) :
    CallState calls r notes n (.returned (.refused e))

/-- Keys and calls have come as far as is noted. -/
structure Consistent (calls : ℕ → RegistryCall) (notes : List (ℕ × Note)) (s : SharedRegistry) :
    Prop where
  keys : ∀ key, KeyState calls s key (notesOn calls key notes)
  phases : ∀ n, CallState calls s.registry notes n (s.phase n)

/-! ### What other calls leave alone -/

theorem Holds.key_eq {t : SettingType} {set : Setting t} (h : Holds calls r key n t set) :
    (calls n).key = key := by
  rw [h.winner]
  exact r.keyed key ⟨t, set⟩ h.stored

theorem Holds.of_stored {t u : SettingType} {set : Setting t} {found : Setting u}
    (h : Holds calls r key n t set) (stored : r.settings.get? key = some ⟨u, found⟩) :
    Holds calls r key n u found := by
  cases stored.symm.trans h.stored
  exact h

theorem key_of_raiser {t : SettingType} {set : Setting t} (h : Holds calls r key n t set)
    (raiser : m = n ∨ calls m = .setUp t key) : (calls m).key = key := by
  rcases raiser with rfl | hm
  · exact h.key_eq
  · rw [hm]
    rfl

/-- A key stays as it is while its setting, and the calls that are at work on it, do. -/
theorem KeyState.congr {noted : List (ℕ × Note)} (h : KeyState calls s key noted)
    (registry : s'.registry.settings.get? key = s.registry.settings.get? key)
    (atWork : ∀ n t (set : Setting t), (calls n).key = key →
      s.registry.settings.get? key = some ⟨t, set⟩ → set.initialized = false →
      (s.phase n).IsSettingUp → (s'.phase n).IsSettingUp)
    (telling : ∀ n event, (calls n).key = key → s.phase n = .telling event →
      s'.phase n = .telling event) : KeyState calls s' key noted := by
  cases h with
  | free absent => exact .free (registry.trans absent)
  | won holds down work =>
    exact .won ⟨holds.winner, registry.trans holds.stored⟩ down
      (atWork _ _ _ holds.key_eq holds.stored down work)
  | raised holds up raiser tells =>
    exact .raised ⟨holds.winner, registry.trans holds.stored⟩ up raiser
      (telling _ _ (key_of_raiser holds raiser) tells)
  | told holds up raiser => exact .told ⟨holds.winner, registry.trans holds.stored⟩ up raiser

/-- A registry that changes at one key only, and keeps the type of a setting there. -/
structure GrowsAt (key : String) (r r' : Registry) : Prop where
  others : ∀ other, other ≠ key → r'.settings.get? other = r.settings.get? other
  kept : ∀ t set, r.settings.get? key = some ⟨t, set⟩ →
    ∃ set', r'.settings.get? key = some ⟨t, set'⟩

theorem GrowsAt.refl (key : String) (r : Registry) : GrowsAt key r r :=
  ⟨fun _ _ => rfl, fun _ set h => ⟨set, h⟩⟩

/-- A setting is placed under its key, where there is none or one of its type. -/
theorem GrowsAt.place {t : SettingType} {set : Setting t} (hkey : set.key = key)
    (sameType : ∀ u found, r.settings.get? key = some ⟨u, found⟩ → u = t) :
    GrowsAt key r (r.place ⟨t, set⟩) := by
  subst hkey
  refine ⟨fun other hne => ?_, fun u found h => ?_⟩
  · exact (r.settings.get?_insert set.key other ⟨t, set⟩).trans (if_neg (Ne.symm hne))
  · obtain rfl := sameType u found h
    exact ⟨set, r.settings.get?_insert_self set.key ⟨u, set⟩⟩

theorem HasSetting.mono (h : HasSetting calls r notes n) (grows : GrowsAt key r r')
    (more : ∀ e ∈ notes, e ∈ notes') : HasSetting calls r' notes' n := by
  obtain ⟨set, hset⟩ := h.stored
  refine ⟨?_, fun t d hcall => more _ (h.won t d hcall)⟩
  by_cases hkey : (calls n).key = key
  · rw [hkey] at hset ⊢
    exact grows.kept _ set hset
  · exact ⟨set, (grows.others _ hkey).trans hset⟩

/-- A call stays as it is while others take their steps. -/
theorem CallState.mono {p : CallPhase} (h : CallState calls r notes m p)
    (grows : GrowsAt key r r') {step : CallStep} (hne : m ≠ n) :
    CallState calls r' (notesOf n step ++ notes) m p := by
  have hmem : ∀ {note}, (m, note) ∈ notesOf n step ++ notes ↔ (m, note) ∈ notes :=
    mem_notesOf_append hne
  have hmore : ∀ e ∈ notes, e ∈ notesOf n step ++ notes := fun e he => List.mem_append_right _ he
  have hsilent : IsSilent m notes → IsSilent m (notesOf n step ++ notes) :=
    fun silent note hnote => silent note (hmem.mp hnote)
  cases h with
  | waiting silent => exact .waiting (hsilent silent)
  | inserting call sound silent => exact .inserting call sound (hsilent silent)
  | settingUp atWork has => exact .settingUp atWork (has.mono grows hmore)
  | telling has raised untold =>
    exact .telling (has.mono grows hmore) (hmore _ raised) fun e he => untold e (hmem.mp he)
  | unsound call unsound silent => exact .unsound call unsound (hsilent silent)
  | taken call sound silent won same =>
    exact .taken call sound (hsilent silent) (hmore _ won) same
  | registered call won up => exact .registered call (hmore _ won) up
  | accepted call => exact .accepted call
  | refused call => exact .refused call

/-! ### What a call leads to -/

/-- Who is noted to have won a key holds it. -/
theorem KeyState.holds_of_won {noted : List (ℕ × Note)} (h : KeyState calls s key noted)
    (won : (n, .won) ∈ noted) : ∃ t set, Holds calls s.registry key n t set := by
  cases h <;> simp at won <;> subst won <;> exact ⟨_, _, ‹_›⟩

/-- Nothing is noted of the calls on a free key. -/
theorem KeyState.eq_nil_of_free {noted : List (ℕ × Note)} (h : KeyState calls s key noted)
    (free : s.registry.settings.get? key = none) : noted = [] := by
  cases h with
  | free absent => rfl
  | won holds => cases free.symm.trans holds.stored
  | raised holds => cases free.symm.trans holds.stored
  | told holds => cases free.symm.trans holds.stored

/-- A setting was taken in by the call that is noted to have won its key. -/
theorem KeyState.exists_won {noted : List (ℕ × Note)} (h : KeyState calls s key noted)
    {t : SettingType} {set : Setting t}
    (stored : s.registry.settings.get? key = some ⟨t, set⟩) :
    ∃ n, (n, .won) ∈ noted ∧ Holds calls s.registry key n t set := by
  cases h with
  | free absent =>
    rw [stored] at absent
    cases absent
  | won holds => exact ⟨_, by simp, holds.of_stored stored⟩
  | raised holds => exact ⟨_, by simp, holds.of_stored stored⟩
  | told holds => exact ⟨_, by simp, holds.of_stored stored⟩

/-- While a setting is not marked, all that is noted of its key is who won it. -/
theorem KeyState.eq_of_down {noted : List (ℕ × Note)} (h : KeyState calls s key noted)
    {t : SettingType} {set : Setting t}
    (stored : s.registry.settings.get? key = some ⟨t, set⟩) (down : set.initialized = false) :
    ∃ n, noted = [(n, .won)] ∧ Holds calls s.registry key n t set := by
  have hup : ∀ {n u} {found : Setting u}, Holds calls s.registry key n u found →
      found.initialized = true → False := by
    intro n u found holds up
    cases stored.symm.trans holds.stored
    rw [down] at up
    cases up
  cases h with
  | free absent =>
    rw [stored] at absent
    cases absent
  | won holds => exact ⟨_, rfl, holds.of_stored stored⟩
  | raised holds up => exact (hup holds up).elim
  | told holds up => exact (hup holds up).elim

/-- A call that is noted to have marked the setting of a key, but not to have told it, is about to
tell. -/
theorem KeyState.eq_of_raised {noted : List (ℕ × Note)} (h : KeyState calls s key noted)
    (raised : (n, .raised) ∈ noted) (untold : ∀ e, (n, .told e) ∉ noted) {t : SettingType}
    {set : Setting t} (stored : s.registry.settings.get? key = some ⟨t, set⟩) :
    ∃ m, noted = [(n, .raised), (m, .won)] ∧ Holds calls s.registry key m t set ∧
      set.initialized = true ∧ (n = m ∨ calls n = .setUp t key) ∧
      s.phase n = .telling (.initialized key t.variant) := by
  cases h with
  | free absent => cases raised
  | won holds => simp at raised
  | @raised m k u found holds up raiser telling =>
    have hn : n = k := by simpa using raised
    subst hn
    cases stored.symm.trans holds.stored
    exact ⟨m, rfl, holds, up, raiser, telling⟩
  | told holds up raiser =>
    simp at raised
    subst raised
    exact absurd List.mem_cons_self (untold _)

/-- Where a call begins. -/
theorem CallState.begin (silent : IsSilent n notes) :
    CallState calls r notes n ((calls n).begin r) := by
  cases hcall : calls n with
  | register t d =>
    rw [RegistryCall.begin]
    cases hcheck : d.check with
    | error e => exact .unsound hcall hcheck silent
    | ok u => exact .inserting hcall hcheck silent
  | setUp t key =>
    rw [RegistryCall.begin]
    cases hfound : r.setting t key with
    | error e => exact .refused hcall
    | ok set =>
      refine .settingUp trivial ⟨?_, fun t d h => by rw [hcall] at h; cases h⟩
      rw [hcall]
      exact ⟨set, Registry.setting_eq_ok_iff.mp hfound⟩

theorem CallState.hasSetting {p : CallPhase} (h : CallState calls r notes n p)
    (atWork : p.IsSettingUp) : HasSetting calls r notes n := by
  cases h with
  | settingUp _ has => exact has
  | _ => exact atWork.elim

/-- How a call ends that finds its setting set up. -/
theorem CallState.answered {c : RegistryCall} (call : calls n = c)
    (won : ∀ t d, calls n = .register t d → (n, .won) ∈ notes) {set : Setting c.type}
    (holds : ∀ t d, calls n = .register t d → Holds calls r c.key n c.type set)
    (up : set.initialized = true) :
    CallState calls r notes n (.returned (c.answer set)) := by
  cases c with
  | register t d => exact .registered (holds t d call).winner (won t d call) up
  | setUp t key => exact .accepted call

/-- Who has won a key has taken in the setting that is there. -/
theorem Consistent.holds_of_won (inv : Consistent calls notes s) (won : (n, .won) ∈ notes)
    {t : SettingType} {set : Setting t}
    (stored : s.registry.settings.get? (calls n).key = some ⟨t, set⟩) :
    Holds calls s.registry (calls n).key n t set := by
  obtain ⟨u, found, holds⟩ := (inv.keys _).holds_of_won (mem_notesOn.mpr ⟨won, rfl⟩)
  exact holds.of_stored stored

/-! ### Steps -/

/-- A step keeps keys and calls consistent if it does so for its own. -/
theorem Consistent.of_step (inv : Consistent calls notes s) (step : CallStep)
    (grows : GrowsAt (calls n).key s.registry step.registry)
    (ownKey : KeyState calls (s.after n step) (calls n).key
      (notesOn calls (calls n).key (notesOf n step ++ notes)))
    (own : CallState calls step.registry (notesOf n step ++ notes) n step.phase) :
    Consistent calls (notesOf n step ++ notes) (s.after n step) where
  keys key := by
    by_cases hkey : key = (calls n).key
    · exact hkey ▸ ownKey
    have hne : ∀ m, (calls m).key = key → m ≠ n := by
      rintro m hm rfl
      exact hkey hm.symm
    rw [notesOn_append_of_ne hkey]
    refine (inv.keys key).congr (grows.others key hkey) ?_ ?_
    · intro m t set hm _ _ hwork
      rwa [after_phase_of_ne s (hne m hm)]
    · intro m event hm htells
      rwa [after_phase_of_ne s (hne m hm)]
  phases m := by
    by_cases hm : m = n
    · subst hm
      rw [after_phase]
      exact own
    · rw [after_phase_of_ne s hm]
      exact (inv.phases m).mono grows hm

/-- A step that is not noted, of a call that is not about to tell. If the call then is no longer at
work on its setting, this is set up. -/
theorem Consistent.move (inv : Consistent calls notes s) {p q : CallPhase} (phase : s.phase n = p)
    (own : CallState calls s.registry notes n q) (quiet : ∀ event, p ≠ .telling event)
    (atWork : p.IsSettingUp → ¬ q.IsSettingUp → ∀ t set,
      s.registry.settings.get? (calls n).key = some ⟨t, set⟩ → set.initialized = true) :
    Consistent calls notes (s.after n { registry := s.registry, phase := q }) := by
  subst phase
  refine inv.of_step { registry := s.registry, phase := q } (.refl _ _) ?_ own
  refine (inv.keys _).congr rfl ?_ ?_
  · intro m t set _ hset hdown hwork
    by_cases hm : m = n
    · subst hm
      rw [after_phase]
      by_contra hq
      rw [atWork hwork hq t set hset] at hdown
      cases hdown
    · rwa [after_phase_of_ne s hm]
  · intro m event _ htells
    have hm : m ≠ n := by
      rintro rfl
      exact quiet event htells
    rwa [after_phase_of_ne s hm]

/-- A registration wins its key. -/
theorem Consistent.win (inv : Consistent calls notes s) {t : SettingType} {set : Setting t}
    (call : calls n = .register t set.declaration) (down : set.initialized = false)
    (free : s.registry.settings.get? set.key = none) :
    Consistent calls ((n, .won) :: notes)
      (s.after n
        { note? := some .won, registry := s.registry.place ⟨t, set⟩, phase := .asking }) := by
  have hkey : (calls n).key = set.key := by
    rw [call]
    rfl
  have hset : (s.registry.place ⟨t, set⟩).settings.get? set.key = some ⟨t, set⟩ :=
    s.registry.settings.get?_insert_self set.key ⟨t, set⟩
  let step : CallStep :=
    { note? := some .won, registry := s.registry.place ⟨t, set⟩, phase := .asking }
  refine inv.of_step step (.place hkey.symm fun u found h => ?_) ?_ ?_
  · rw [hkey, free] at h
    cases h
  · show KeyState _ _ _ (notesOn calls (calls n).key ((n, .won) :: notes))
    rw [notesOn_cons_self, hkey, (inv.keys set.key).eq_nil_of_free free]
    have hholds : Holds calls (s.after n step).registry set.key n t set := ⟨call, hset⟩
    exact .won hholds down (by rw [after_phase]; trivial)
  · refine .settingUp trivial ⟨?_, fun _ _ _ => List.mem_cons_self⟩
    rw [call]
    exact ⟨set, hset⟩

/-- A registration takes its declaration in, unless its key is taken. -/
theorem Consistent.insert (inv : Consistent calls notes s) {step : CallStep}
    (phase : s.phase n = .inserting) (next : (calls n).insert s.registry = some step) :
    Consistent calls (notesOf n step ++ notes) (s.after n step) := by
  have hcall := inv.phases n
  rw [phase] at hcall
  cases hcall with
  | settingUp atWork => exact atWork.elim
  | @inserting t d call sound silent =>
    rw [call, RegistryCall.insert] at next
    cases hfound : s.registry.settings.get? d.key with
    | some found =>
      have taken : s.registry.register d = .error (.duplicateKey d.key) :=
        Registry.register_of_taken sound (by rw [hfound]; exact Option.some_ne_none found)
      rw [taken] at next
      cases next
      obtain ⟨m, hnoted, -⟩ := (inv.keys d.key).exists_won hfound
      obtain ⟨hwon, hkey⟩ := mem_notesOn.mp hnoted
      refine inv.move phase (.taken call sound silent hwon hkey) (fun event h => ?_) fun h => h.elim
      cases h
    | none =>
      rw [Registry.register_of_free sound hfound] at next
      cases next
      let set : Setting t := { declaration := d, sound }
      have hset : calls n = .register t set.declaration := call
      exact inv.win hset rfl hfound

/-- A call marks its setting as set up. -/
theorem Consistent.raise (inv : Consistent calls notes s)
    (has : HasSetting calls s.registry notes n) {set : Setting (calls n).type}
    (stored : s.registry.settings.get? (calls n).key = some ⟨(calls n).type, set⟩)
    (down : set.initialized = false) :
    Consistent calls ((n, .raised) :: notes)
      (s.after n
        { note? := some .raised
          registry := s.registry.place ⟨(calls n).type, { set with initialized := true }⟩
          phase := .telling (.initialized (calls n).key (calls n).type.variant) }) := by
  let raised : Setting (calls n).type := { set with initialized := true }
  have hkey : set.key = (calls n).key := s.registry.keyed _ _ stored
  have hraised : (s.registry.place ⟨_, raised⟩).settings.get? (calls n).key = some ⟨_, raised⟩ := by
    rw [← hkey]
    exact s.registry.settings.get?_insert_self _ _
  -- the setting is not marked, so all that is noted of its key is who won it
  obtain ⟨m, hnoted, holds⟩ := (inv.keys _).eq_of_down stored down
  have hmem : ∀ {note}, (n, note) ∈ notes → (n, note) = (m, .won) := fun h =>
    List.mem_singleton.mp (hnoted ▸ mem_notesOn.mpr ⟨h, rfl⟩)
  have hraiser : n = m ∨ calls n = .setUp (calls n).type (calls n).key := by
    cases hcall : calls n with
    | register t d => exact .inl (congrArg Prod.fst (hmem (has.won t d hcall)))
    | setUp t key => exact .inr rfl
  refine inv.of_step
    { note? := some .raised, registry := s.registry.place ⟨_, raised⟩, phase := .telling _ }
    (.place hkey fun u found h => ?_) ?_ ?_
  · cases stored.symm.trans h
    rfl
  · show KeyState _ _ _ (notesOn calls (calls n).key ((n, .raised) :: notes))
    rw [notesOn_cons_self, hnoted]
    have hholds : Holds calls (s.registry.place ⟨_, raised⟩) _ m _ raised :=
      ⟨holds.winner, hraised⟩
    exact .raised hholds rfl hraiser (by rw [after_phase])
  · refine .telling ⟨⟨raised, hraised⟩, fun t d h => ?_⟩ List.mem_cons_self fun e he => ?_
    · exact List.mem_cons_of_mem _ (has.won t d h)
    · rcases List.mem_cons.mp he with h | h
      · cases h
      · cases hmem h

/-- A call tells that it has set its setting up. -/
theorem Consistent.tell (inv : Consistent calls notes s) {event : Event}
    (phase : s.phase n = .telling event) (has : HasSetting calls s.registry notes n)
    (raised : (n, .raised) ∈ notes) (untold : ∀ e, (n, .told e) ∉ notes)
    {set : Setting (calls n).type}
    (stored : s.registry.settings.get? (calls n).key = some ⟨(calls n).type, set⟩) :
    Consistent calls ((n, .told event) :: notes)
      (s.after n
        { note? := some (.told event)
          registry := s.registry
          phase := .returned ((calls n).answer set) }) := by
  have hraised : (n, .raised) ∈ notesOn calls (calls n).key notes := mem_notesOn.mpr ⟨raised, rfl⟩
  have huntold : ∀ e, (n, .told e) ∉ notesOn calls (calls n).key notes :=
    fun e he => untold e (mem_notesOn.mp he).1
  obtain ⟨m, hnoted, holds, up, raiser, htelling⟩ :=
    (inv.keys _).eq_of_raised hraised huntold stored
  have hevent : event = .initialized (calls n).key (calls n).type.variant := by
    rw [phase] at htelling
    exact CallPhase.telling.inj htelling
  subst hevent
  let step : CallStep :=
    { note? := some (.told (.initialized (calls n).key (calls n).type.variant))
      registry := s.registry
      phase := .returned ((calls n).answer set) }
  have hholds : Holds calls (s.after n step).registry (calls n).key m (calls n).type set := holds
  refine inv.of_step step (.refl _ _) ?_ ?_
  · show KeyState _ _ _ (notesOn calls (calls n).key ((n, .told _) :: notes))
    rw [notesOn_cons_self, hnoted]
    exact .told hholds up raiser
  · exact .answered rfl (fun t d h => List.mem_cons_of_mem _ (has.won t d h))
      (fun t d h => inv.holds_of_won (has.won t d h) stored) up

/-- A call at work returns once it finds its setting set up. -/
theorem Consistent.answer (inv : Consistent calls notes s) {p : CallPhase} (phase : s.phase n = p)
    (atWork : p.IsSettingUp) (has : HasSetting calls s.registry notes n)
    {set : Setting (calls n).type}
    (stored : s.registry.settings.get? (calls n).key = some ⟨(calls n).type, set⟩)
    (up : set.initialized = true) :
    Consistent calls notes
      (s.after n { registry := s.registry, phase := .returned ((calls n).answer set) }) := by
  have hquiet : ∀ event, p ≠ .telling event := by
    rintro event rfl
    exact atWork
  refine inv.move phase ?_ hquiet fun _ _ u found h => ?_
  · exact .answered rfl has.won (fun t d h => inv.holds_of_won (has.won t d h) stored) up
  · cases stored.symm.trans h
    exact up

/-- **Every step keeps keys and calls consistent.** -/
theorem Consistent.step (inv : Consistent calls notes s) {step : CallStep}
    (next : (calls n).advance s.registry (s.phase n) = some step) :
    Consistent calls (notesOf n step ++ notes) (s.after n step) := by
  have hcall := inv.phases n
  have hfound : ∀ {set}, s.registry.settings.get? (calls n).key = some ⟨(calls n).type, set⟩ →
      s.registry.setting (calls n).type (calls n).key = .ok set :=
    fun h => Registry.setting_eq_ok_iff.mpr h
  cases hphase : s.phase n with
  | waiting =>
    rw [hphase] at next hcall
    cases next
    cases hcall with
    | settingUp atWork => exact atWork.elim
    | waiting silent => exact inv.move hphase (.begin silent) nofun fun h => h.elim
  | inserting =>
    rw [hphase] at next
    exact inv.insert hphase next
  | asking =>
    rw [hphase] at next hcall
    have has := hcall.hasSetting trivial
    obtain ⟨set, stored⟩ := has.stored
    cases hup : set.initialized with
    | true =>
      rw [RegistryCall.advance_asking_up (hfound stored) hup] at next
      cases next
      exact inv.answer hphase trivial has stored hup
    | false =>
      rw [RegistryCall.advance_asking_down (hfound stored) hup] at next
      cases next
      exact inv.move hphase (.settingUp trivial has) nofun fun _ h => absurd trivial h
  | checking =>
    rw [hphase] at next hcall
    have has := hcall.hasSetting trivial
    obtain ⟨set, stored⟩ := has.stored
    rw [RegistryCall.advance_checking (hfound stored)] at next
    cases next
    exact inv.move hphase (.settingUp trivial has) nofun fun _ h => absurd trivial h
  | claiming =>
    rw [hphase] at next hcall
    have has := hcall.hasSetting trivial
    obtain ⟨set, stored⟩ := has.stored
    cases hup : set.initialized with
    | true =>
      rw [RegistryCall.advance_claiming_up (hfound stored) hup] at next
      cases next
      exact inv.answer hphase trivial has stored hup
    | false =>
      rw [RegistryCall.advance_claiming_down (hfound stored) hup] at next
      cases next
      exact inv.raise has stored hup
  | telling event =>
    rw [hphase] at next hcall
    cases hcall with
    | settingUp atWork => exact atWork.elim
    | telling has raised untold =>
      obtain ⟨set, stored⟩ := has.stored
      rw [RegistryCall.advance_telling (hfound stored)] at next
      cases next
      exact inv.tell hphase has raised untold stored
  | returned reply =>
    rw [hphase] at next
    cases next

/-- **Keys and calls are consistent after every run from a registry without settings.** -/
theorem Run.consistent {start : SharedRegistry} (fresh : start.IsFresh)
    (run : Run calls start notes s) : Consistent calls notes s := by
  induction run with
  | start =>
    refine ⟨fun key => .free ?_, fun n => ?_⟩
    · rw [fresh.empty]
      rfl
    · rw [fresh.waiting]
      exact .waiting nofun
  | step run next ih => exact ih.step next

/-! ### No call gets stuck -/

/-- **A call that has not returned can take a step, and has fewer steps left then.** -/
theorem Consistent.exists_step (inv : Consistent calls notes s)
    (unreturned : ∀ reply, s.phase n ≠ .returned reply) :
    ∃ step, (calls n).advance s.registry (s.phase n) = some step ∧
      step.phase.left < (s.phase n).left := by
  have hcall := inv.phases n
  have hfound : HasSetting calls s.registry notes n →
      ∃ set, s.registry.setting (calls n).type (calls n).key = .ok set := fun has =>
    has.stored.imp fun _ h => Registry.setting_eq_ok_iff.mpr h
  cases hphase : s.phase n with
  | waiting =>
    refine ⟨_, rfl, ?_⟩
    cases hn : calls n with
    | register t d => simp only [RegistryCall.begin]; split <;> simp
    | setUp t key => simp only [RegistryCall.begin]; split <;> simp
  | inserting =>
    rw [hphase] at hcall
    cases hcall with
    | settingUp atWork => exact atWork.elim
    | inserting call =>
      simp only [RegistryCall.advance, call, RegistryCall.insert]
      split <;> exact ⟨_, rfl, by simp⟩
  | asking =>
    rw [hphase] at hcall
    obtain ⟨set, hset⟩ := hfound (hcall.hasSetting trivial)
    cases hup : set.initialized with
    | true => exact ⟨_, RegistryCall.advance_asking_up hset hup, by simp⟩
    | false => exact ⟨_, RegistryCall.advance_asking_down hset hup, by simp⟩
  | checking =>
    rw [hphase] at hcall
    obtain ⟨set, hset⟩ := hfound (hcall.hasSetting trivial)
    exact ⟨_, RegistryCall.advance_checking hset, by simp⟩
  | claiming =>
    rw [hphase] at hcall
    obtain ⟨set, hset⟩ := hfound (hcall.hasSetting trivial)
    cases hup : set.initialized with
    | true => exact ⟨_, RegistryCall.advance_claiming_up hset hup, by simp⟩
    | false => exact ⟨_, RegistryCall.advance_claiming_down hset hup, by simp⟩
  | telling event =>
    rw [hphase] at hcall
    cases hcall with
    | settingUp atWork => exact atWork.elim
    | telling has =>
      obtain ⟨set, hset⟩ := hfound has
      exact ⟨_, RegistryCall.advance_telling hset event, by simp⟩
  | returned reply => exact absurd hphase (unreturned reply)

/-! ### What comes of it -/

/-- A setting is found with its own type only. -/
theorem Holds.exists_setting_iff {t : SettingType} {set : Setting t}
    (h : Holds calls r key n t set) (u : SettingType) :
    (∃ found, r.setting u key = .ok found) ↔ u = t := by
  constructor
  · rintro ⟨found, hfound⟩
    cases h.stored.symm.trans (Registry.setting_eq_ok_iff.mp hfound)
    rfl
  · rintro rfl
    exact ⟨set, Registry.setting_eq_ok_iff.mpr h.stored⟩

/-- A key is free, or was won, and then at most set up once and told of once, in this order. -/
theorem KeyState.history {noted : List (ℕ × Note)} (h : KeyState calls s key noted) :
    (noted = [] ∧ s.registry.settings.get? key = none) ∨
      ∃ n t set m, Holds calls s.registry key n t set ∧ (m = n ∨ calls m = .setUp t key) ∧
        noted ≠ [] ∧
        noted <:+ [(m, .told (.initialized key t.variant)), (m, .raised), (n, .won)] := by
  cases h with
  | free absent => exact .inl ⟨rfl, absent⟩
  | won holds =>
    exact .inr ⟨_, _, _, _, holds, .inl rfl, nofun, List.suffix_append [_, _] [_]⟩
  | raised holds _ raiser =>
    exact .inr ⟨_, _, _, _, holds, raiser, nofun, List.suffix_append [_] [_, _]⟩
  | told holds _ raiser => exact .inr ⟨_, _, _, _, holds, raiser, nofun, List.suffix_refl _⟩

/-- When no call is in progress, a setting was set up, and this was told. -/
theorem KeyState.told_of_quiet {noted : List (ℕ × Note)} (h : KeyState calls s key noted)
    (quiet : s.IsQuiet) {t : SettingType} {set : Setting t}
    (stored : s.registry.settings.get? key = some ⟨t, set⟩) :
    set.initialized = true ∧ ∃ n m, calls n = .register t set.declaration ∧
      (m = n ∨ calls m = .setUp t key) ∧
      noted = [(m, .told (.initialized key t.variant)), (m, .raised), (n, .won)] := by
  cases h with
  | free absent =>
    rw [stored] at absent
    cases absent
  | @won n _ _ holds _ atWork =>
    rcases quiet n with hn | ⟨reply, hn⟩ <;> rw [hn] at atWork <;> exact atWork.elim
  | @raised _ m _ _ holds _ _ telling =>
    rcases quiet m with hm | ⟨reply, hm⟩ <;> rw [hm] at telling <;> cases telling
  | told holds up raiser =>
    cases stored.symm.trans holds.stored
    exact ⟨up, _, _, holds.winner, raiser, rfl⟩

theorem KeyState.won_unique {noted : List (ℕ × Note)} (h : KeyState calls s key noted)
    (hn : (n, .won) ∈ noted) (hm : (m, .won) ∈ noted) : m = n := by
  cases h <;> simp at hn hm <;> exact hm.trans hn.symm

/-- A registration that has returned was not sound, has won its key, or was refused because
another call has won it. -/
theorem CallState.outcome {reply : RegistryReply} (h : CallState calls r notes n (.returned reply))
    {t : SettingType} {d : Declaration t} (call : calls n = .register t d) :
    (¬ d.IsSound ∧ IsSilent n notes ∧ ∃ e, d.check = .error e ∧ reply = .unsound e) ∨
    (d.IsSound ∧ (n, .won) ∈ notes ∧ ∃ set, set.declaration = d ∧ set.initialized = true ∧
      reply = .registered t set) ∨
    (d.IsSound ∧ IsSilent n notes ∧ reply = .unsound (.duplicateKey d.key) ∧
      ∃ m, m ≠ n ∧ (m, .won) ∈ notesOn calls d.key notes) := by
  cases h with
  | settingUp atWork => exact atWork.elim
  | @unsound _ _ e call' unsound silent =>
    cases call'.symm.trans call
    refine .inl ⟨fun hsound => ?_, silent, e, unsound, rfl⟩
    rw [d.check_eq_ok_iff.mpr hsound] at unsound
    cases unsound
  | @taken _ _ m call' sound silent won same =>
    cases call'.symm.trans call
    have hm : m ≠ n := by
      rintro rfl
      exact silent _ won
    exact .inr (.inr ⟨d.check_eq_ok_iff.mp sound, silent, rfl, m, hm, mem_notesOn.mpr ⟨won, same⟩⟩)
  | @registered _ set call' won up =>
    cases call'.symm.trans call
    exact .inr (.inl ⟨set.isSound, won, set, rfl, up, rfl⟩)
  | accepted call' => cases call'.symm.trans call
  | refused call' => cases call'.symm.trans call

/-- When no call is in progress, the key of a sound registration that was made has one winner. -/
theorem Consistent.existsUnique_won (inv : Consistent calls notes s) (quiet : s.IsQuiet)
    {t : SettingType} {d : Declaration t} (call : calls n = .register t d) (sound : d.IsSound)
    (made : s.phase n ≠ .waiting) : ∃! m, (m, .won) ∈ notesOn calls d.key notes := by
  obtain ⟨reply, hphase⟩ := (quiet n).resolve_left made
  have hcall := inv.phases n
  rw [hphase] at hcall
  obtain ⟨m, hm⟩ : ∃ m, (m, .won) ∈ notesOn calls d.key notes := by
    rcases hcall.outcome call with ⟨hunsound, -⟩ | ⟨-, hwon, -⟩ | ⟨-, -, -, m, -, hwon⟩
    · exact absurd sound hunsound
    · exact ⟨n, mem_notesOn.mpr ⟨hwon, by rw [call]; rfl⟩⟩
    · exact ⟨m, hwon⟩
  exact ⟨m, hm, fun other hother => (inv.keys d.key).won_unique hm hother⟩

/-- **Registrations are exact, and what they take in is set up and told of once.** A registration
that nothing comes between succeeds exactly if its declaration is sound and its key is free, and
changes and tells nothing otherwise.

Whatever calls come between, of those on a key one at most takes its declaration in, one sets the
setting up, and this one tells it; from the first of these on, the setting is found with the type
of the winner only. A registration that returns was not sound, or has won, or was refused since
another one has won, and nothing is noted of one that is refused. When no call is in progress, a
key with a sound registration has been won, and every setting has been set up and told of once. -/
theorem registered_once :
    (∀ (r : Registry) (w : Workspace) (t : SettingType) (d : Declaration t),
      ((∃ set, (r.perform w (.register t d)).reply = .registered t set) ↔
        d.IsSound ∧ r.settings.get? d.key = none) ∧
      (∀ set, (r.perform w (.register t d)).reply = .registered t set →
        set.declaration = d ∧ (r.perform w (.register t d)).registry.setting t d.key = .ok set ∧
        (r.perform w (.register t d)).event? = some (.initialized d.key t.variant)) ∧
      ((∀ set, (r.perform w (.register t d)).reply ≠ .registered t set) →
        ∃ e, r.perform w (.register t d) = { reply := .unsound e, registry := r, workspace := w })) ∧
    ∀ (calls : ℕ → RegistryCall) (start s : SharedRegistry) (notes : List (ℕ × Note)),
      start.IsFresh → Run calls start notes s →
      (∀ key, (notesOn calls key notes = [] ∧ s.registry.settings.get? key = none) ∨
        ∃ n t d m, calls n = .register t d ∧ d.key = key ∧ d.IsSound ∧
          (m = n ∨ calls m = .setUp t key) ∧ notesOn calls key notes ≠ [] ∧
          notesOn calls key notes <:+
            [(m, .told (.initialized key t.variant)), (m, .raised), (n, .won)] ∧
          ∀ u, (∃ set, s.registry.setting u key = .ok set) ↔ u = t) ∧
      (∀ n t d reply, calls n = .register t d → s.phase n = .returned reply →
        (¬ d.IsSound ∧ IsSilent n notes ∧ ∃ e, d.check = .error e ∧ reply = .unsound e) ∨
        (d.IsSound ∧ (n, .won) ∈ notes ∧ ∃ set, set.declaration = d ∧ set.initialized = true ∧
          reply = .registered t set) ∨
        (d.IsSound ∧ IsSilent n notes ∧ reply = .unsound (.duplicateKey d.key) ∧
          ∃ m, m ≠ n ∧ (m, .won) ∈ notesOn calls d.key notes)) ∧
      (s.IsQuiet →
        (∀ n t d, calls n = .register t d → d.IsSound → s.phase n ≠ .waiting →
          ∃! m, (m, .won) ∈ notesOn calls d.key notes) ∧
        ∀ key t set, s.registry.setting t key = .ok set → set.initialized = true ∧
          ∃ n m, calls n = .register t set.declaration ∧ (m = n ∨ calls m = .setUp t key) ∧
            notesOn calls key notes =
              [(m, .told (.initialized key t.variant)), (m, .raised), (n, .won)]) := by
  refine ⟨fun r w t d => ?_, fun calls start s notes fresh run => ?_⟩
  · rcases r.perform_register w d with
      ⟨hsound, set, after, hperform, hset, hdeclared, -⟩ | ⟨hrefused, e, hperform⟩
    · rw [hperform]
      refine ⟨iff_of_true ⟨set, rfl⟩ hsound, fun found h => ?_, fun h => absurd rfl (h set)⟩
      cases h
      exact ⟨hdeclared, hset, rfl⟩
    · rw [hperform]
      exact ⟨iff_of_false (fun ⟨_, h⟩ => nomatch h) hrefused, fun _ h => (nomatch h),
        fun _ => ⟨e, rfl⟩⟩
  have inv := run.consistent fresh
  refine ⟨fun key => ?_, fun n t d reply call hphase => ?_, fun quiet =>
    ⟨fun n t d call => inv.existsUnique_won quiet call, fun key t set hset => ?_⟩⟩
  · refine (inv.keys key).history.imp_right ?_
    rintro ⟨n, t, set, m, holds, raiser, hne, hsuffix⟩
    have hkey : set.declaration.key = key := s.registry.keyed _ _ holds.stored
    exact ⟨n, t, set.declaration, m, holds.winner, hkey, set.isSound, raiser, hne, hsuffix,
      holds.exists_setting_iff⟩
  · have hcall := inv.phases n
    rw [hphase] at hcall
    exact hcall.outcome call
  · exact (inv.keys key).told_of_quiet quiet (Registry.setting_eq_ok_iff.mp hset)

/-- Two registrations of one key, and calls that set the first one's setting up. -/
def race : ℕ → RegistryCall
  | 0 => .register .integer { key := "k" }
  | 1 => .register .boolean { key := "k" }
  | _ => .setUp .integer "k"

/-- The second registration loses, and a third call sets the setting up before the winner does. -/
theorem registered_once_race : ∃ notes s,
    Run race { registry := { name := "s" }, phase := fun _ => .waiting } notes s ∧ s.IsQuiet ∧
      (∃! n, (n, .won) ∈ notesOn race "k" notes) ∧
      ∃ n m, notesOn race "k" notes =
        [(m, .told (.initialized "k" .integer)), (m, .raised), (n, .won)] := by
  let start : SharedRegistry := { registry := { name := "s" }, phase := fun _ => .waiting }
  have fresh : start.IsFresh := ⟨rfl, fun _ => rfl⟩
  have admitted : Run race start _ _ := .step (n := 1) (.step (n := 0) .start rfl) rfl
  have inserted : Run race start _ _ := .step (n := 1) (.step (n := 0) admitted rfl) rfl
  have found : Run race start _ _ :=
    .step (n := 2) (.step (n := 2) (.step (n := 2) inserted rfl) rfl) rfl
  have late : Run race start _ _ := .step (n := 0) (.step (n := 0) found rfl) rfl
  have raised : Run race start _ _ := .step (n := 0) (.step (n := 2) late rfl) rfl
  have told : Run race start _ _ := .step (n := 2) raised rfl
  have sound : ({ key := "k" } : Declaration .integer).IsSound :=
    (Declaration.check_eq_ok_iff _).mp rfl
  have settles : ∀ {notes s}, Run race start notes s → s.IsQuiet → s.phase 0 ≠ .waiting →
      (∃ set, s.registry.setting .integer "k" = .ok set) → ∃ notes s,
        Run race start notes s ∧ s.IsQuiet ∧ (∃! n, (n, .won) ∈ notesOn race "k" notes) ∧
        ∃ n m, notesOn race "k" notes =
          [(m, .told (.initialized "k" .integer)), (m, .raised), (n, .won)] := by
    rintro notes s run quiet made ⟨set, hset⟩
    obtain ⟨hwon, htold⟩ := (registered_once.2 race start s notes fresh run).2.2 quiet
    obtain ⟨-, n, m, -, -, hnotes⟩ := htold "k" .integer set hset
    exact ⟨notes, s, run, quiet, hwon 0 .integer { key := "k" } rfl sound made, n, m, hnotes⟩
  refine settles told (fun n => ?_) nofun ⟨_, rfl⟩
  match n with
  | 0 => exact .inr ⟨_, rfl⟩
  | 1 => exact .inr ⟨_, rfl⟩
  | 2 => exact .inr ⟨_, rfl⟩
  | k + 3 => exact .inl rfl

end SharedRegistry
end TypedConfig
