import UsageBilling.Proofs.Period.Restoring
import UsageBilling.Proofs.Reconciler.Covering

/-!
Contract: runs that share a store, each of their loads and saves a step of its own.

Owns:
- what a run has left to do with the store, and its next step;
- runs that take steps in any order, and that a run without others between its steps
  does what reconciling does;
- a second that is stored, and that all runs cover which hold the key, stays so;
- which runs lose nothing: those that save a key while no other run holds it. That
  is every run if they take turns on the key, and in any order the one that saves last.

A run holds a key from when it has loaded it until it has saved it. What another
run saves meanwhile is not seen, and is replaced.

Does not own: stores that fail, or lose what they hold.
-/

namespace UsageBilling

open BillingService (keyUnits orderedKeys overlay recordAll recordsWithUnits restoreKey
  restoreKeys saveKey saveKeys)
open Coverage (TextCovers)

variable {ι σ : Type} {store : SnapshotStore σ} {stored : σ} {held : UsageKey → Option String}
  {key : UsageKey} {second : Int}

/-- What a run brings to a store: the deviation of its service, its tenant, and what
it has metered. -/
structure MeteredRun where
  deviation : Nat
  tenant : String
  metered : List MeteredJob

/-- What a run has left to do: load keys, then record and save, or nothing as it has
failed to record. -/
inductive Progress where
  | loading (left : List (UsageKey × RateUnit))
  | saving (left : List UsageKey)
  | failed (error : BillingError)
deriving DecidableEq, Repr

structure Session where
  progress : Progress
  reconciler : Reconciler

namespace MeteredRun

def keys (run : MeteredRun) : List (UsageKey × RateUnit) :=
  orderedKeys (keyUnits run.tenant run.metered)

def records (run : MeteredRun) : List (UsageRecord × RateUnit) :=
  recordsWithUnits run.metered

/-- Whether a run meters a second for a key. -/
def Meters (run : MeteredRun) (key : UsageKey) (second : Int) : Prop :=
  ∃ u ∈ run.records, UsageKey.ofRecord run.tenant u.1 = key ∧ u.1.Holds second

/-- What a service brings to its store for a tenant. -/
def ofService (service : BillingService σ) (tenant : String) (metered : List MeteredJob) :
    MeteredRun :=
  ⟨service.settings.metering.deviation, tenant, metered⟩

def begin (run : MeteredRun) : Session :=
  ⟨.loading run.keys, Reconciler.empty run.deviation⟩

/-- The next step of a run. -/
def step (run : MeteredRun) (store : SnapshotStore σ) : Session → σ → Session × σ
  | ⟨.loading ((key, unit) :: rest), r⟩, stored =>
    let (restored, after) := restoreKey store key unit r stored
    (⟨.loading rest, restored⟩, after)
  | ⟨.loading [], r⟩, stored =>
    match recordAll run.tenant run.records r with
    | .ok recorded => (⟨.saving (run.keys.map Prod.fst), recorded⟩, stored)
    | .error error => (⟨.failed error, r⟩, stored)
  | ⟨.saving (key :: rest), r⟩, stored => (⟨.saving rest, r⟩, saveKey store key r stored)
  | session, stored => (session, stored)

/-- A run that has loaded its keys records all that it has metered, or fails. -/
theorem step_loaded
    (run : MeteredRun)
    (store : SnapshotStore σ)
    (r : Reconciler)
    (stored : σ) :
    (∃ error, run.step store ⟨.loading [], r⟩ stored = (⟨.failed error, r⟩, stored)) ∨
      (∀ u ∈ run.records, Reconciler.Recordable u) ∧
        run.step store ⟨.loading [], r⟩ stored =
          (⟨.saving (run.keys.map Prod.fst), r.takeAll run.tenant run.records⟩, stored) := by
  unfold step
  dsimp only
  rw [BillingService.recordAll_eq_takeAll]
  by_cases recordable : ∀ u ∈ run.records, Reconciler.Recordable u
  · rw [if_pos recordable]
    exact Or.inr ⟨recordable, rfl⟩
  · rw [if_neg recordable]
    exact Or.inl ⟨_, rfl⟩

end MeteredRun

namespace Session

/-- Whether a run has saved all its keys. -/
def Done (session : Session) : Prop :=
  session.progress = .saving []

instance (session : Session) : Decidable session.Done :=
  inferInstanceAs (Decidable (_ = _))

/-- The key that the next step of a run saves, if it saves one. -/
def saving? (session : Session) : Option UsageKey :=
  match session.progress with
  | .saving (key :: _) => some key
  | _ => none

/-- Whether a run is yet to save a key. -/
def Owes (run : MeteredRun) (key : UsageKey) (session : Session) : Prop :=
  match session.progress with
  | .saving left => key ∈ left
  | _ => key ∈ run.keys.map Prod.fst

/-- Whether a run has loaded a key and is yet to save it. -/
def Holding (run : MeteredRun) (key : UsageKey) (session : Session) : Prop :=
  match session.progress with
  | .loading left => key ∈ run.keys.map Prod.fst ∧ key ∉ left.map Prod.fst
  | .saving left => key ∈ left
  | .failed _ => False

instance (run : MeteredRun) (key : UsageKey) (session : Session) :
    Decidable (session.Holding run key) :=
  match session with
  | ⟨.loading _, _⟩ => inferInstanceAs (Decidable (_ ∧ _))
  | ⟨.saving _, _⟩ => inferInstanceAs (Decidable (_ ∈ _))
  | ⟨.failed _, _⟩ => inferInstanceAs (Decidable False)

/-- The texts held once a run takes its next step. -/
def leaves (session : Session) (held : UsageKey → Option String) : UsageKey → Option String :=
  match session.progress with
  | .saving (key :: _) => overlay [key] session.reconciler.snapshot held
  | _ => held

/-- A run that can be restored, and has recorded what it has metered before it saves. -/
structure Sound (run : MeteredRun) (session : Session) : Prop where
  restorable : session.reconciler.Restorable
  recorded : ∀ left, session.progress = .saving left →
    ∀ key second, run.Meters key second → session.reconciler.Covers key second

variable {run : MeteredRun} {session : Session}

theorem Holding.owes
    (holding : session.Holding run key) :
    session.Owes run key := by
  match session with
  | ⟨.loading left, r⟩ => exact holding.1
  | ⟨.saving left, r⟩ => exact holding
  | ⟨.failed error, r⟩ => cases holding

theorem exists_saving
    (saves : session.saving? = some key) :
    ∃ rest, session.progress = .saving (key :: rest) := by
  unfold saving? at saves
  split at saves
  · rename_i next rest saving
    cases saves
    exact ⟨rest, saving⟩
  · cases saves

theorem holding_of_saves
    (saves : session.saving? = some key)
    (run : MeteredRun) :
    session.Holding run key := by
  have ⟨rest, saving⟩ := exists_saving saves
  rw [Holding, saving]
  exact List.mem_cons_self

/-! ## A step of one run -/

theorem sound_begin
    (run : MeteredRun) :
    run.begin.Sound run := by
  refine ⟨Reconciler.restorable_empty run.deviation, ?_⟩
  intro left saving
  cases saving

theorem Sound.step
    (sound : session.Sound run)
    (store : SnapshotStore σ)
    (stored : σ) :
    (run.step store session stored).1.Sound run := by
  match session with
  | ⟨.loading ((key, unit) :: rest), r⟩ =>
    refine ⟨BillingService.restorable_restoreKeys sound.restorable store [(key, unit)] stored, ?_⟩
    intro left saving
    cases saving
  | ⟨.loading [], r⟩ =>
    rcases run.step_loaded store r stored with ⟨error, fails⟩ | ⟨recordable, records⟩
    · rw [fails]
      refine ⟨sound.restorable, ?_⟩
      intro left saving
      cases saving
    · rw [records]
      refine ⟨sound.restorable.takeAll run.tenant run.records, ?_⟩
      intro left _ key second ⟨u, member, ofKey, holds⟩
      exact ofKey ▸ Reconciler.covers_takeAll_of_holds sound.restorable.sound member
        (recordable u member) holds run.tenant
  | ⟨.saving (key :: rest), r⟩ => exact ⟨sound.restorable, fun _ _ => sound.recorded _ rfl⟩
  | ⟨.saving [], r⟩ => exact sound
  | ⟨.failed error, r⟩ => exact sound

/-- A step leaves in the store what the run saves over what was held. -/
theorem follows_step
    {fact : (UsageKey → Option String) → σ → Prop}
    (follows : store.Follows fact)
    (run : MeteredRun)
    (session : Session)
    (holds : fact held stored) :
    fact (session.leaves held) (run.step store session stored).2 := by
  match session with
  | ⟨.loading ((key, unit) :: rest), r⟩ =>
    exact BillingService.follows_restoreKeys follows [(key, unit)] r holds
  | ⟨.loading [], r⟩ =>
    rcases run.step_loaded store r stored with ⟨error, fails⟩ | ⟨_, records⟩
    · rw [fails]
      exact holds
    · rw [records]
      exact holds
  | ⟨.saving (key :: rest), r⟩ => exact BillingService.follows_saveKey follows key r holds
  | ⟨.saving [], r⟩ => exact holds
  | ⟨.failed error, r⟩ => exact holds

theorem leaves_of_not_saves
    (notSaves : session.saving? ≠ some key)
    (held : UsageKey → Option String) :
    session.leaves held key = held key := by
  match session with
  | ⟨.loading left, r⟩ => rfl
  | ⟨.saving (next :: rest), r⟩ =>
    have differ : key ≠ next := fun same => notSaves (congrArg some same.symm)
    exact (BillingService.overlay_singleton next r.snapshot held key).trans (if_neg differ)
  | ⟨.saving [], r⟩ => rfl
  | ⟨.failed error, r⟩ => rfl

theorem leaves_of_saves
    {text : String}
    (saves : session.saving? = some key)
    (taken : session.reconciler.snapshot key = some text)
    (held : UsageKey → Option String) :
    session.leaves held key = some text := by
  have ⟨rest, saving⟩ := exists_saving saves
  simp only [leaves, saving]
  rw [BillingService.overlay_singleton, if_pos rfl, taken, Option.some_or]

/-- A run is yet to save a key until it saves it. -/
theorem Owes.step
    (owes : session.Owes run key)
    (notSaves : session.saving? ≠ some key)
    (store : SnapshotStore σ)
    (stored : σ) :
    (run.step store session stored).1.Owes run key := by
  match session with
  | ⟨.loading ((key, unit) :: rest), r⟩ => exact owes
  | ⟨.loading [], r⟩ =>
    rcases run.step_loaded store r stored with ⟨error, fails⟩ | ⟨_, records⟩
    · rw [fails]
      exact owes
    · rw [records]
      exact owes
  | ⟨.saving (next :: rest), r⟩ =>
    exact (List.mem_cons.mp owes).resolve_left fun same => notSaves (congrArg some same.symm)
  | ⟨.saving [], r⟩ => exact owes
  | ⟨.failed error, r⟩ => exact owes

theorem Owes.not_done
    (owes : session.Owes run key) :
    ¬ session.Done := by
  intro done
  rw [Owes, done] at owes
  cases owes

/-- A run comes to hold a key by loading it. -/
theorem holding_or_loading_of_step
    (holding : (run.step store session stored).1.Holding run key) :
    session.Holding run key ∨
      ∃ unit rest, session.progress = .loading ((key, unit) :: rest) := by
  match session with
  | ⟨.loading ((next, unit) :: rest), r⟩ =>
    have ⟨ofRun, notLeft⟩ := holding
    by_cases same : key = next
    · exact Or.inr ⟨unit, rest, same ▸ rfl⟩
    · refine Or.inl ⟨ofRun, ?_⟩
      intro inLeft
      exact (List.mem_cons.mp inLeft).elim same notLeft
  | ⟨.loading [], r⟩ =>
    rcases run.step_loaded store r stored with ⟨error, fails⟩ | ⟨_, records⟩
    · rw [fails] at holding
      cases holding
    · rw [records] at holding
      exact Or.inl ⟨holding, List.not_mem_nil⟩
  | ⟨.saving (next :: rest), r⟩ => exact Or.inl (List.mem_cons_of_mem next holding)
  | ⟨.saving [], r⟩ => exact Or.inl holding
  | ⟨.failed error, r⟩ => exact Or.inl holding

/-- A run that holds a key uncovers no second of it. -/
theorem covers_step_of_holding
    (sound : session.Sound run)
    (holding : session.Holding run key)
    (covers : session.reconciler.Covers key second)
    (store : SnapshotStore σ)
    (stored : σ) :
    (run.step store session stored).1.reconciler.Covers key second := by
  match session with
  | ⟨.loading ((next, unit) :: rest), r⟩ =>
    have differ : key ≠ next := fun same => holding.2 (same ▸ List.mem_cons_self)
    show (restoreKey store next unit r stored).1.Covers key second
    unfold restoreKey
    split
    · exact (Reconciler.covers_restore_iff_of_ne differ r _ unit).mpr covers
    · exact covers
  | ⟨.loading [], r⟩ =>
    rcases run.step_loaded store r stored with ⟨error, fails⟩ | ⟨_, records⟩
    · rw [fails]
      exact covers
    · rw [records]
      exact covers.takeAll sound.restorable.sound run.tenant run.records
  | ⟨.saving (next :: rest), r⟩ => exact covers
  | ⟨.saving [], r⟩ => exact covers
  | ⟨.failed error, r⟩ => exact covers

/-- A run that loads a key covers what is stored for it. -/
theorem covers_step_of_loading
    {unit : RateUnit}
    {rest : List (UsageKey × RateUnit)}
    {text : String}
    (loading : session.progress = .loading ((key, unit) :: rest))
    (keeps : store.Keeps held stored)
    (inStore : held key = some text)
    (covers : TextCovers text second)
    (run : MeteredRun) :
    (run.step store session stored).1.reconciler.Covers key second := by
  have ⟨progress, r⟩ := session
  cases loading
  show (restoreKey store key unit r stored).1.Covers key second
  rw [BillingService.restoreKey_of_keeps keeps, BillingService.restoreHeld, inStore]
  exact Reconciler.covers_restore covers r key unit

end Session

/-! ## Steps in any order -/

/-- Runs that share a store. -/
structure Sharing (ι σ : Type) where
  sessions : ι → Session
  stored : σ

namespace Sharing

variable {runs : ι → MeteredRun} {s : Sharing ι σ} {i : ι} {schedule : List ι}

def begin (runs : ι → MeteredRun) (stored : σ) : Sharing ι σ :=
  ⟨fun i => (runs i).begin, stored⟩

/-- Sound runs, and a store that keeps what it holds. -/
structure Sound (store : SnapshotStore σ) (runs : ι → MeteredRun) (s : Sharing ι σ) : Prop where
  sessions : ∀ i, (s.sessions i).Sound (runs i)
  keeps : ∃ held, store.Keeps held s.stored

theorem sound_begin
    (keeps : store.Keeps held stored)
    (runs : ι → MeteredRun) :
    (begin runs stored).Sound store runs :=
  ⟨fun i => Session.sound_begin (runs i), held, keeps⟩

/-- Whether a store answers for a key with a text that covers a second. -/
def StoredCovers (store : SnapshotStore σ) (key : UsageKey) (second : Int) (stored : σ) : Prop :=
  ∃ text, (store.load key stored).1 = .ok (some text) ∧ TextCovers text second

/-- A second of a key that is stored, and that all runs cover which hold the key. -/
structure Carries (store : SnapshotStore σ) (runs : ι → MeteredRun) (key : UsageKey)
    (second : Int) (s : Sharing ι σ) : Prop where
  stored : ∃ held text, store.Keeps held s.stored ∧ held key = some text ∧ TextCovers text second
  covered : ∀ i, (s.sessions i).Holding (runs i) key → (s.sessions i).reconciler.Covers key second

theorem Carries.storedCovers
    (carries : s.Carries store runs key second) :
    StoredCovers store key second s.stored := by
  have ⟨held, text, keeps, inStore, textCovers⟩ := carries.stored
  refine ⟨text, ?_, textCovers⟩
  rw [keeps.load_eq, inStore]

variable [DecidableEq ι]

def put (s : Sharing ι σ) (i : ι) (session : Session) (stored : σ) : Sharing ι σ :=
  ⟨fun j => if j = i then session else s.sessions j, stored⟩

/-- A run takes its next step. -/
def step (store : SnapshotStore σ) (runs : ι → MeteredRun) (s : Sharing ι σ) (i : ι) :
    Sharing ι σ :=
  let (session, stored) := (runs i).step store (s.sessions i) s.stored
  s.put i session stored

/-- Runs take steps in the order of a schedule. -/
def after (store : SnapshotStore σ) (runs : ι → MeteredRun) (schedule : List ι)
    (s : Sharing ι σ) : Sharing ι σ :=
  schedule.foldl (step store runs) s

/-- Whether a run saves a key at some time. -/
def Saves (store : SnapshotStore σ) (runs : ι → MeteredRun) (key : UsageKey) (i : ι) :
    List ι → Sharing ι σ → Prop
  | [], _ => False
  | next :: rest, s =>
    (next = i ∧ (s.sessions i).saving? = some key) ∨
      Saves store runs key i rest (s.step store runs next)

/-- Whether a run saves a key, and no run saves it again after that. -/
def SavesLast (store : SnapshotStore σ) (runs : ι → MeteredRun) (key : UsageKey) (i : ι) :
    List ι → Sharing ι σ → Prop
  | [], _ => False
  | next :: rest, s =>
    (next = i ∧ (s.sessions i).saving? = some key ∧
        ∀ j, ¬ Saves store runs key j rest (s.step store runs next)) ∨
      SavesLast store runs key i rest (s.step store runs next)

/-- Whether a run saves a key at some time when no other run holds it. -/
def SavesAlone (store : SnapshotStore σ) (runs : ι → MeteredRun) (key : UsageKey) (i : ι) :
    List ι → Sharing ι σ → Prop
  | [], _ => False
  | next :: rest, s =>
    (next = i ∧ (s.sessions i).saving? = some key ∧
        ∀ j, j ≠ i → ¬ (s.sessions j).Holding (runs j) key) ∨
      SavesAlone store runs key i rest (s.step store runs next)

/-- Whether no two runs hold a key at any time. -/
def TakesTurns (store : SnapshotStore σ) (runs : ι → MeteredRun) (key : UsageKey) :
    List ι → Sharing ι σ → Prop
  | [], _ => True
  | next :: rest, s =>
    (∀ i j, (s.sessions i).Holding (runs i) key → (s.sessions j).Holding (runs j) key → i = j) ∧
      TakesTurns store runs key rest (s.step store runs next)

theorem sessions_step_self
    (store : SnapshotStore σ)
    (runs : ι → MeteredRun)
    (s : Sharing ι σ)
    (i : ι) :
    (s.step store runs i).sessions i = ((runs i).step store (s.sessions i) s.stored).1 :=
  if_pos rfl

theorem sessions_step_of_ne
    {j : ι}
    (differ : j ≠ i)
    (store : SnapshotStore σ)
    (runs : ι → MeteredRun)
    (s : Sharing ι σ) :
    (s.step store runs i).sessions j = s.sessions j :=
  if_neg differ

/-! ## A run without others between its steps -/

theorem put_put
    (s : Sharing ι σ)
    (i : ι)
    (session next : Session)
    (stored after : σ) :
    (s.put i session stored).put i next after = s.put i next after := by
  unfold put
  congr 1
  funext j
  dsimp only
  split
  · rfl
  · rfl

theorem step_put
    (store : SnapshotStore σ)
    (runs : ι → MeteredRun)
    (s : Sharing ι σ)
    (i : ι)
    (session : Session)
    (stored : σ) :
    (s.put i session stored).step store runs i =
      s.put i ((runs i).step store session stored).1 ((runs i).step store session stored).2 := by
  have same : (s.put i session stored).sessions i = session := if_pos rfl
  rw [step, same]
  exact put_put s i session _ stored _

theorem after_append
    (store : SnapshotStore σ)
    (runs : ι → MeteredRun)
    (first second : List ι)
    (s : Sharing ι σ) :
    s.after store runs (first ++ second) = (s.after store runs first).after store runs second :=
  List.foldl_append

theorem after_loading
    (store : SnapshotStore σ)
    (runs : ι → MeteredRun)
    (s : Sharing ι σ)
    (i : ι)
    (keys : List (UsageKey × RateUnit))
    (r : Reconciler)
    (stored : σ) :
    (s.put i ⟨.loading keys, r⟩ stored).after store runs (List.replicate keys.length i) =
      s.put i ⟨.loading [], (restoreKeys store keys r stored).1⟩
        (restoreKeys store keys r stored).2 := by
  induction keys generalizing r stored with
  | nil => rfl
  | cons entry rest inductionHypothesis =>
    rw [List.length_cons, List.replicate_succ, after, List.foldl_cons, step_put]
    exact inductionHypothesis _ _

theorem after_saving
    (store : SnapshotStore σ)
    (runs : ι → MeteredRun)
    (s : Sharing ι σ)
    (i : ι)
    (keys : List UsageKey)
    (r : Reconciler)
    (stored : σ) :
    (s.put i ⟨.saving keys, r⟩ stored).after store runs (List.replicate keys.length i) =
      s.put i ⟨.saving [], r⟩ (saveKeys store keys r stored) := by
  induction keys generalizing stored with
  | nil => rfl
  | cons key rest inductionHypothesis =>
    rw [List.length_cons, List.replicate_succ, after, List.foldl_cons, step_put]
    exact inductionHypothesis _

/-- A run that takes its steps without others between them does what reconciling
does: it is done if its usage is recorded, and otherwise has failed. -/
theorem after_replicate_eq_reconcile
    (service : BillingService σ)
    (ofStore : service.store = some store)
    {tenant : String}
    {metered : List MeteredJob}
    (ofService : runs i = .ofService service tenant metered)
    (s : Sharing ι σ) :
    ∃ count, (s.put i (runs i).begin service.stored).after store runs (List.replicate count i) =
      s.put i
        (match service.reconcile tenant metered with
          | (.ok r, _) => ⟨.saving [], r⟩
          | (.error error, _) => ⟨.failed error, (service.restored (runs i).keys).1⟩)
        (service.reconcile tenant metered).2.stored := by
  have loaded := after_loading store runs s i (runs i).keys
    (Reconciler.empty service.settings.metering.deviation) service.stored
  have restored : service.restored (runs i).keys = restoreKeys store (runs i).keys
      (Reconciler.empty service.settings.metering.deviation) service.stored := by
    rw [BillingService.restored, ofStore]
  have sameKeys : orderedKeys (keyUnits tenant metered) = (runs i).keys := by
    rw [ofService]
    rfl
  have sameBegin : (runs i).begin =
      ⟨.loading (runs i).keys, Reconciler.empty service.settings.metering.deviation⟩ := by
    rw [ofService]
    rfl
  have sameRecords : recordAll tenant (recordsWithUnits metered) =
      recordAll (runs i).tenant (runs i).records := by
    rw [ofService]
    rfl
  rw [← restored, ← sameBegin] at loaded
  rw [BillingService.reconcile_eq, sameKeys, sameRecords]
  dsimp only
  cases recorded : recordAll (runs i).tenant (runs i).records
      (service.restored (runs i).keys).1 with
  | error error =>
    refine ⟨(runs i).keys.length + 1, ?_⟩
    rw [List.replicate_succ', after_append, loaded]
    show step store runs _ i = _
    rw [step_put, MeteredRun.step, recorded]
  | ok r =>
    have saved := after_saving store runs s i ((runs i).keys.map Prod.fst) r
      (service.restored (runs i).keys).2
    refine ⟨(runs i).keys.length + (1 + ((runs i).keys.map Prod.fst).length), ?_⟩
    rw [List.replicate_add, List.replicate_add, after_append, after_append, loaded]
    show after store runs _ (step store runs _ i) = _
    rw [step_put, MeteredRun.step, recorded]
    dsimp only
    rw [saved, BillingService.saved, ofStore]

/-! ## Sound runs -/

theorem Sound.step
    (sound : s.Sound store runs)
    (i : ι) :
    (s.step store runs i).Sound store runs := by
  have ⟨held, keeps⟩ := sound.keeps
  refine ⟨?_, _, Session.follows_step store.follows_keeps (runs i) (s.sessions i) keeps⟩
  intro j
  by_cases isNext : j = i
  · rw [isNext, sessions_step_self]
    exact (sound.sessions i).step store s.stored
  · rw [sessions_step_of_ne isNext]
    exact sound.sessions j

/-! ## What is not lost -/

/-- A run that holds a key and covers a second of it may save: then the second is
stored. -/
theorem exists_stored_step
    (sound : s.Sound store runs)
    (saves : (s.sessions i).saving? = some key)
    (covers : (s.sessions i).reconciler.Covers key second) :
    ∃ held text, store.Keeps held (s.step store runs i).stored ∧ held key = some text ∧
      TextCovers text second := by
  have ⟨held, keeps⟩ := sound.keeps
  have ⟨text, taken, textCovers⟩ :=
    (sound.sessions i).restorable.exists_snapshot_of_covers covers
  exact ⟨_, text, Session.follows_step store.follows_keeps (runs i) (s.sessions i) keeps,
    Session.leaves_of_saves saves taken held, textCovers⟩

/-- What is carried stays so: a run that saves the key has held it, and a run that
loads it takes over what is stored. -/
theorem Carries.step
    (carries : s.Carries store runs key second)
    (sound : s.Sound store runs)
    (i : ι) :
    (s.step store runs i).Carries store runs key second := by
  have ⟨held, text, keeps, inStore, textCovers⟩ := carries.stored
  constructor
  · by_cases saves : (s.sessions i).saving? = some key
    · have holding := Session.holding_of_saves saves (runs i)
      exact exists_stored_step sound saves (carries.covered i holding)
    · refine ⟨_, text,
        Session.follows_step store.follows_keeps (runs i) (s.sessions i) keeps, ?_, textCovers⟩
      rw [Session.leaves_of_not_saves saves]
      exact inStore
  · intro j holding
    by_cases isNext : j = i
    · rw [isNext, sessions_step_self] at holding ⊢
      rcases Session.holding_or_loading_of_step holding with before | ⟨unit, rest, loading⟩
      · exact Session.covers_step_of_holding (sound.sessions i) before (carries.covered i before)
          store s.stored
      · exact Session.covers_step_of_loading loading keeps inStore textCovers (runs i)
    · rw [sessions_step_of_ne isNext] at holding ⊢
      exact carries.covered j holding

theorem Carries.after
    (carries : s.Carries store runs key second)
    (sound : s.Sound store runs)
    (schedule : List ι) :
    (s.after store runs schedule).Carries store runs key second := by
  induction schedule generalizing s with
  | nil => exact carries
  | cons next rest inductionHypothesis =>
    exact inductionHypothesis (carries.step sound next) (sound.step next)

/-- A run that saves a key while no other run holds it leaves what it has metered
carried. -/
theorem carries_step_of_alone
    (sound : s.Sound store runs)
    (saves : (s.sessions i).saving? = some key)
    (alone : ∀ j, j ≠ i → ¬ (s.sessions j).Holding (runs j) key)
    (meters : (runs i).Meters key second) :
    (s.step store runs i).Carries store runs key second := by
  have holding := Session.holding_of_saves saves (runs i)
  have covers : (s.sessions i).reconciler.Covers key second := by
    have ⟨rest, saving⟩ := Session.exists_saving saves
    exact (sound.sessions i).recorded _ saving key second meters
  refine ⟨exists_stored_step sound saves covers, ?_⟩
  intro j holdingAfter
  by_cases isNext : j = i
  · rw [isNext, sessions_step_self]
    exact Session.covers_step_of_holding (sound.sessions i) holding covers store s.stored
  · rw [sessions_step_of_ne isNext] at holdingAfter
    exact absurd holdingAfter (alone j isNext)

theorem carries_after_of_savesAlone
    (sound : s.Sound store runs)
    (alone : SavesAlone store runs key i schedule s)
    (meters : (runs i).Meters key second) :
    (s.after store runs schedule).Carries store runs key second := by
  induction schedule generalizing s with
  | nil => cases alone
  | cons next rest inductionHypothesis =>
    rcases alone with ⟨isNext, saves, alone⟩ | later
    · subst isNext
      exact (carries_step_of_alone sound saves alone meters).after (sound.step next) rest
    · exact inductionHypothesis (sound.step next) later

/-! ## Which runs save alone -/

/-- A run that is yet to save a key saves it before it is done. -/
theorem saves_of_owes
    (owes : (s.sessions i).Owes (runs i) key)
    (done : ((s.after store runs schedule).sessions i).Done) :
    Saves store runs key i schedule s := by
  induction schedule generalizing s with
  | nil => exact absurd done owes.not_done
  | cons next rest inductionHypothesis =>
    by_cases isNext : i = next
    · subst isNext
      by_cases saves : (s.sessions i).saving? = some key
      · exact Or.inl ⟨rfl, saves⟩
      · have stillOwes := owes.step saves store s.stored
        rw [← sessions_step_self] at stillOwes
        exact Or.inr (inductionHypothesis stillOwes done)
    · rw [← sessions_step_of_ne isNext store runs s] at owes
      exact Or.inr (inductionHypothesis owes done)

theorem savesAlone_of_takesTurns
    (turns : TakesTurns store runs key schedule s)
    (saves : Saves store runs key i schedule s) :
    SavesAlone store runs key i schedule s := by
  induction schedule generalizing s with
  | nil => cases saves
  | cons next rest inductionHypothesis =>
    have ⟨inTurn, restTurns⟩ := turns
    rcases saves with ⟨isNext, saves⟩ | later
    · refine Or.inl ⟨isNext, saves, ?_⟩
      intro j differ holding
      exact differ (inTurn j i holding (Session.holding_of_saves saves (runs i)))
    · exact Or.inr (inductionHypothesis restTurns later)

theorem exists_savesLast
    (saves : Saves store runs key i schedule s) :
    ∃ j, SavesLast store runs key j schedule s := by
  induction schedule generalizing s i with
  | nil => cases saves
  | cons next rest inductionHypothesis =>
    by_cases again : ∃ j, Saves store runs key j rest (s.step store runs next)
    · have ⟨j, savesAgain⟩ := again
      have ⟨last, savesLast⟩ := inductionHypothesis savesAgain
      exact ⟨last, Or.inr savesLast⟩
    · have notAgain := not_exists.mp again
      have ⟨isNext, saves⟩ := saves.resolve_right (notAgain i)
      exact ⟨i, Or.inl ⟨isNext, saves, notAgain⟩⟩

/-- The run that saves a key last saves it alone, as all others that have loaded the
key have saved it. -/
theorem savesAlone_of_savesLast
    (last : SavesLast store runs key i schedule s)
    (done : ∀ j, ((s.after store runs schedule).sessions j).Done) :
    SavesAlone store runs key i schedule s := by
  induction schedule generalizing s with
  | nil => cases last
  | cons next rest inductionHypothesis =>
    rcases last with ⟨isNext, saves, notAgain⟩ | later
    · subst isNext
      refine Or.inl ⟨rfl, saves, ?_⟩
      intro j differ holding
      have owes := holding.owes
      rw [← sessions_step_of_ne differ store runs s] at owes
      exact notAgain j (saves_of_owes owes (done j))
    · exact Or.inr (inductionHypothesis later done)

/-- Runs share a store that keeps what it holds, and take their steps in any order
until all have saved. For every key what is stored in the end covers each second that
was metered by a run which has saved the key while no other held it. Every run with
the key has done so if the runs take turns on it, and in any case the one that has saved
it last. -/
theorem storedCovers_of_savesAlone
    {store : SnapshotStore σ}
    {held : UsageKey → Option String}
    {stored : σ}
    (keeps : store.Keeps held stored)
    (runs : ι → MeteredRun)
    (schedule : List ι)
    (done : ∀ i, (((begin runs stored).after store runs schedule).sessions i).Done)
    (key : UsageKey) :
    (∀ i, SavesAlone store runs key i schedule (begin runs stored) →
        ∀ second, (runs i).Meters key second →
          StoredCovers store key second ((begin runs stored).after store runs schedule).stored) ∧
      (∀ i, SavesLast store runs key i schedule (begin runs stored) →
        SavesAlone store runs key i schedule (begin runs stored)) ∧
      ∀ i, key ∈ (runs i).keys.map Prod.fst →
        (TakesTurns store runs key schedule (begin runs stored) →
            SavesAlone store runs key i schedule (begin runs stored)) ∧
          ∃ last, SavesLast store runs key last schedule (begin runs stored) := by
  have sound := sound_begin keeps runs
  refine ⟨?_, fun i last => savesAlone_of_savesLast last done, ?_⟩
  · intro i alone second meters
    exact (carries_after_of_savesAlone sound alone meters).storedCovers
  · intro i ofRun
    have owes : ((begin runs stored).sessions i).Owes (runs i) key := ofRun
    have saves := saves_of_owes owes (done i)
    exact ⟨fun turns => savesAlone_of_takesTurns turns saves, exists_savesLast saves⟩

/-- A run that meters an instance from one second of the first day to another. -/
def instanceRun (start stop : Fin 86400) : MeteredRun :=
  ⟨1, "acme", [⟨.time, [⟨"m1.small", .ofSecond start, .ofSecond stop,
    .ofInt (stop.val - start.val), some "vm-1", none⟩]⟩]⟩

/-- Two runs of one instance, each with a part of its time. -/
def halves (start middle stop : Fin 86400) : Bool → MeteredRun
  | false => instanceRun start middle
  | true => instanceRun middle stop

def sharedInstance : UsageKey :=
  ⟨"acme", "vm-1", "m1.small"⟩

/-- The runs, with an empty map as their store, once they have taken steps. -/
def halvesAfter (start middle stop : Fin 86400) (schedule : List Bool) :
    Sharing Bool (Table UsageKey String) :=
  (begin (halves start middle stop) Table.empty).after .table (halves start middle stop) schedule

/-- One run loads, records and saves, and then the other. -/
def inTurn : List Bool :=
  [false, false, false, true, true, true]

/-- Both runs load, then both record, then both save. -/
def crossed : List Bool :=
  [false, true, false, true, false, true]

private theorem meters_halves :
    (halves 0 1800 3600 false).Meters sharedInstance 0 ∧
      (halves 0 1800 3600 true).Meters sharedInstance 1800 :=
  ⟨⟨_, List.mem_singleton_self _, rfl, by decide⟩, ⟨_, List.mem_singleton_self _, rfl, by decide⟩⟩

/-- One run after the other, both halves are stored. -/
theorem storedCovers_halves_inTurn :
    (∀ i, ((halvesAfter 0 1800 3600 inTurn).sessions i).Done) ∧
      StoredCovers .table sharedInstance 0 (halvesAfter 0 1800 3600 inTurn).stored ∧
      StoredCovers .table sharedInstance 1800 (halvesAfter 0 1800 3600 inTurn).stored := by
  have done : ∀ i, ((halvesAfter 0 1800 3600 inTurn).sessions i).Done := by
    decide +kernel
  have ⟨stored, _⟩ := storedCovers_of_savesAlone (SnapshotStore.keeps_table Table.empty)
    (halves 0 1800 3600) inTurn done sharedInstance
  refine ⟨done, ?_, ?_⟩
  · apply stored false _ 0 meters_halves.1
    exact Or.inr (Or.inr (Or.inl ⟨rfl, by decide +kernel, by decide +kernel⟩))
  · apply stored true _ 1800 meters_halves.2
    exact Or.inr (Or.inr (Or.inr (Or.inr (Or.inr (Or.inl
      ⟨rfl, by decide +kernel, by decide +kernel⟩)))))

/-- If each loads before the other saves, only the half that is saved last is
stored. -/
theorem not_storedCovers_halves_crossed :
    (∀ i, ((halvesAfter 0 1800 3600 crossed).sessions i).Done) ∧
      (halves 0 1800 3600 false).Meters sharedInstance 0 ∧
      ¬ StoredCovers .table sharedInstance 0 (halvesAfter 0 1800 3600 crossed).stored := by
  have loaded : (halvesAfter 0 1800 3600 crossed).stored.get? sharedInstance =
      some "1800:3599:1" := by
    decide +kernel
  refine ⟨?_, meters_halves.1, ?_⟩
  · decide +kernel
  · intro ⟨text, found, covers⟩
    have isLast : some text = some "1800:3599:1" := (Except.ok.inj found).symm.trans loaded
    cases isLast
    have ⟨weight, s, member, lower, upper, _⟩ := covers 1
    have read : (Coverage.ofText "1800:3599:1" 1).segments = [⟨1800, 3599, 1⟩] := by
      decide +kernel
    rw [read, List.mem_singleton] at member
    subst member
    exact absurd lower (by decide)

end Sharing

end UsageBilling
