import Mathlib.Logic.Function.Iterate
import UsageBilling.Proofs.Rating.Growth

/-!
Contract: metering workers that resolve profiles in one catalog, each access to the
catalog a step of its own.

Owns:
- a call as its steps: a lookup, and if that finds nothing the claim of the profile
  and then the provisional entry of its service; a worker alone resolves profiles as
  the catalog does;
- workers that take steps in any order: every call has an answer within three steps
  of its worker, and it is the one that the catalog began with, or the profile;
- the catalog that is left once all are done, which is the same for every order.

Between the lookup of one worker and its claim, others may claim the same profile, so
that several provision it. The catalog never takes a profile or an entry back.

Does not own: workers that set prices or profiles, or what is metered.
-/

namespace UsageBilling

/-- How far a call has come: there is none, its profile was not found and is about to
be claimed, or the service that it got is about to be provisioned. -/
inductive ProfileCall where
  | idle
  | claiming (profile : String)
  | provisioning (profile service : String)
deriving DecidableEq, Repr

/-- A worker: the call it is in, the profiles it is yet to ask for, and the service
that each call so far was answered with. -/
structure MeteringWorker where
  call : ProfileCall
  left : List String
  answers : List (String × String)
deriving DecidableEq, Repr

namespace MeteringWorker

/-- The next step of a worker, which is one access to the catalog. -/
def step : MeteringWorker → Catalog → MeteringWorker × Catalog
  | ⟨.idle, [], answers⟩, c => (⟨.idle, [], answers⟩, c)
  | ⟨.idle, profile :: rest, answers⟩, c =>
    match c.serviceOfProfile profile with
    | .ok service => (⟨.idle, rest, answers ++ [(profile, service)]⟩, c)
    | .error _ => (⟨.claiming profile, rest, answers⟩, c)
  | ⟨.claiming profile, left, answers⟩, c =>
    (⟨.provisioning profile (c.claimProfile profile).1, left, answers⟩,
      (c.claimProfile profile).2)
  | ⟨.provisioning profile service, left, answers⟩, c =>
    (⟨.idle, left, answers ++ [(profile, service)]⟩, c.claimProvisional service .time)

def Done (worker : MeteringWorker) : Prop :=
  worker.call = .idle ∧ worker.left = []

instance (worker : MeteringWorker) : Decidable worker.Done :=
  inferInstanceAs (Decidable (_ ∧ _))

/-- The profiles a worker has no answer for yet, in the order it asks for them. -/
def pending : MeteringWorker → List String
  | ⟨.idle, left, _⟩ => left
  | ⟨.claiming profile, left, _⟩ => profile :: left
  | ⟨.provisioning profile _, left, _⟩ => profile :: left

variable {base c after : Catalog} {asked : List String} {worker : MeteringWorker}
  {profile service : String} {left rest : List String} {answers : List (String × String)}

theorem step_of_found
    (found : c.profiles.get? profile = some service) :
    step ⟨.idle, profile :: rest, answers⟩ c =
      (⟨.idle, rest, answers ++ [(profile, service)]⟩, c) := by
  rw [step, Catalog.serviceOfProfile, found]

theorem step_of_missed
    (missed : c.profiles.get? profile = none) :
    step ⟨.idle, profile :: rest, answers⟩ c = (⟨.claiming profile, rest, answers⟩, c) := by
  rw [step, Catalog.serviceOfProfile, missed]

/-- A lookup leaves the catalog as it is, whatever it finds. -/
theorem catalog_step_idle
    (left : List String)
    (answers : List (String × String))
    (c : Catalog) :
    (step ⟨.idle, left, answers⟩ c).2 = c := by
  cases left with
  | nil => rfl
  | cons profile rest =>
    cases found : c.profiles.get? profile with
    | some service => rw [step_of_found found]
    | none => rw [step_of_missed found]

/-- A worker that nobody comes between resolves a profile in at most three steps, as
one operation of the catalog does. -/
theorem exists_steps_resolveProfile
    (c : Catalog)
    (profile : String)
    (rest : List String)
    (answers : List (String × String)) :
    ∃ steps ≤ 3, (Function.uncurry step)^[steps] (⟨.idle, profile :: rest, answers⟩, c) =
      (⟨.idle, rest, answers ++ [(profile, (c.resolveProfile profile).1)]⟩,
        (c.resolveProfile profile).2) := by
  cases found : c.profiles.get? profile with
  | some service =>
    refine ⟨1, by decide, ?_⟩
    rw [Function.iterate_one, Function.uncurry_apply_pair, step_of_found found,
      Catalog.resolveProfile, Catalog.serviceOfProfile, found]
  | none =>
    refine ⟨3, by decide, ?_⟩
    have resolved : c.resolveProfile profile = c.provision profile .time := by
      rw [Catalog.resolveProfile, Catalog.serviceOfProfile, found]
    rw [resolved, Function.iterate_succ_apply, Function.uncurry_apply_pair, step_of_missed found]
    rfl

/-! ## Steps left -/

/-- A bound on the steps that a worker is yet to take. -/
def stepsLeft (worker : MeteringWorker) : Nat :=
  3 * worker.left.length +
    match worker.call with
    | .idle => 0
    | .claiming _ => 2
    | .provisioning _ _ => 1

theorem stepsLeft_step
    (worker : MeteringWorker)
    (c : Catalog) :
    (worker.step c).1.stepsLeft ≤ worker.stepsLeft - 1 := by
  match worker with
  | ⟨.idle, [], answers⟩ => exact Nat.le_refl 0
  | ⟨.idle, profile :: rest, answers⟩ =>
    cases found : c.profiles.get? profile with
    | some service =>
      rw [step_of_found found]
      simp only [stepsLeft, List.length_cons]
      omega
    | none =>
      rw [step_of_missed found]
      simp only [stepsLeft, List.length_cons]
      omega
  | ⟨.claiming profile, left, answers⟩ =>
    simp only [step, stepsLeft]
    omega
  | ⟨.provisioning profile service, left, answers⟩ =>
    simp only [step, stepsLeft]
    omega

theorem done_of_stepsLeft
    (none : worker.stepsLeft = 0) :
    worker.Done := by
  match worker with
  | ⟨.idle, [], answers⟩ => exact ⟨rfl, rfl⟩
  | ⟨.idle, profile :: rest, answers⟩ =>
    simp only [stepsLeft, List.length_cons] at none
    omega
  | ⟨.claiming profile, left, answers⟩ =>
    simp only [stepsLeft] at none
    omega
  | ⟨.provisioning profile service, left, answers⟩ =>
    simp only [stepsLeft] at none
    omega

/-! ## What a worker has seen -/

/-- Whether a call fits a catalog that began as another: a call that missed its profile
is for one that the first catalog lacks, and was given the profile as its service. -/
def Fits (base c : Catalog) : ProfileCall → Prop
  | .idle => True
  | .claiming profile => base.profiles.get? profile = none
  | .provisioning profile service =>
    base.profiles.get? profile = none ∧ service = profile ∧
      c.profiles.get? profile = some profile

/-- Whether a worker was served as by the catalog that all began with: its calls are
those it was asked to make, each so far with the service that this catalog gives, and
with a profile in the catalog by now. -/
structure Served (base : Catalog) (asked : List String) (c : Catalog)
    (worker : MeteringWorker) : Prop where
  inOrder : worker.answers.map Prod.fst ++ worker.pending = asked
  answered : ∀ answer ∈ worker.answers, answer.2 = base.serviceFor answer.1
  claimed : ∀ answer ∈ worker.answers, ∃ service, c.profiles.get? answer.1 = some service
  fits : Fits base c worker.call

theorem served_idle
    (base : Catalog)
    (asked : List String) :
    Served base asked base ⟨.idle, asked, []⟩ where
  inOrder := rfl
  answered answer member := by cases member
  claimed answer member := by cases member
  fits := trivial

/-- A call for a profile with the service that a catalog gives it. -/
def answerFrom (base : Catalog) (profile : String) : String × String :=
  (profile, base.serviceFor profile)

theorem Served.answers_append
    (served : Served base asked c worker) :
    worker.answers ++ worker.pending.map (answerFrom base) = asked.map (answerFrom base) := by
  have ofBase : worker.answers.map (fun answer => answerFrom base answer.1) = worker.answers := by
    refine (List.map_congr_left ?_).trans (List.map_id worker.answers)
    intro answer member
    exact Prod.ext rfl (served.answered answer member).symm
  rw [← served.inOrder, List.map_append, List.map_map]
  exact congrArg (· ++ _) ofBase.symm

theorem pending_of_done
    (done : worker.Done) :
    worker.pending = [] := by
  match worker, done with
  | ⟨.idle, [], _⟩, _ => rfl

/-- What others do to the catalog does not matter for what a worker has seen. -/
theorem Served.extends
    (served : Served base asked c worker)
    (extended : c.Extends after) :
    Served base asked after worker where
  inOrder := served.inOrder
  answered := served.answered
  claimed answer member := by
    have ⟨service, held⟩ := served.claimed answer member
    exact ⟨service, extended.profiles answer.1 service held⟩
  fits := by
    have fits := served.fits
    cases call : worker.call with
    | idle => trivial
    | claiming profile =>
      rw [call] at fits
      exact fits
    | provisioning profile service =>
      rw [call] at fits
      have ⟨missed, itself, held⟩ := fits
      exact ⟨missed, itself, extended.profiles profile profile held⟩

/-- The same worker with one more answer. -/
theorem Served.answer
    (served : Served base asked c ⟨.idle, profile :: rest, answers⟩)
    (gives : service = base.serviceFor profile)
    (held : ∃ service, c.profiles.get? profile = some service) :
    Served base asked c ⟨.idle, rest, answers ++ [(profile, service)]⟩ where
  inOrder := by
    rw [← served.inOrder, List.map_append, List.append_assoc]
    rfl
  answered answer member := by
    rcases List.mem_append.mp member with before | last
    · exact served.answered answer before
    · rw [List.mem_singleton.mp last]
      exact gives
  claimed answer member := by
    rcases List.mem_append.mp member with before | last
    · exact served.claimed answer before
    · rw [List.mem_singleton.mp last]
      exact held
  fits := trivial

/-- A profile that the first catalog lacks is claimed as its own service. -/
theorem claimProfile_of_missed
    (extended : base.Extends c)
    (missed : base.profiles.get? profile = none) :
    (c.claimProfile profile).1 = profile ∧
      (c.claimProfile profile).2.profiles.get? profile = some profile := by
  have itself : c.serviceFor profile = profile := by
    rw [extended.serviceFor, Catalog.serviceFor, missed]
    rfl
  refine ⟨(c.claimProfile_eq profile).1.trans itself, ?_⟩
  rw [Catalog.get?_profiles_claimProfile, if_pos rfl]
  rw [Catalog.serviceFor] at itself
  cases held : c.profiles.get? profile with
  | none => rfl
  | some service =>
    rw [held] at itself
    exact congrArg some itself

theorem extends_step
    (served : Served base asked c worker) :
    c.Extends (worker.step c).2 := by
  match worker with
  | ⟨.idle, left, answers⟩ =>
    rw [catalog_step_idle]
    exact .refl c
  | ⟨.claiming profile, left, answers⟩ => exact c.extends_claimProfile profile
  | ⟨.provisioning profile service, left, answers⟩ =>
    have ⟨_, itself, held⟩ := served.fits
    have ofProfile : c.serviceFor profile = service := by
      rw [Catalog.serviceFor, held, itself]
      rfl
    exact Catalog.extends_claimProvisional ofProfile .time

theorem Served.step
    (served : Served base asked c worker)
    (extended : base.Extends c) :
    Served base asked (worker.step c).2 (worker.step c).1 := by
  have further := served.extends (extends_step served)
  match worker with
  | ⟨.idle, [], answers⟩ => exact served
  | ⟨.idle, profile :: rest, answers⟩ =>
    cases found : c.profiles.get? profile with
    | some service =>
      rw [step_of_found found]
      refine served.answer ?_ ⟨service, found⟩
      rw [← extended.serviceFor, Catalog.serviceFor, found]
      rfl
    | none =>
      rw [step_of_missed found]
      refine ⟨served.inOrder, served.answered, served.claimed, ?_⟩
      show base.profiles.get? profile = none
      rw [Option.eq_none_iff_forall_ne_some]
      intro service held
      rw [extended.profiles profile service held] at found
      cases found
  | ⟨.claiming profile, left, answers⟩ =>
    have missed : base.profiles.get? profile = none := served.fits
    obtain ⟨itself, held⟩ := claimProfile_of_missed extended missed
    exact ⟨served.inOrder, served.answered, further.claimed, missed, itself, held⟩
  | ⟨.provisioning profile service, left, answers⟩ =>
    obtain ⟨missed, itself, held⟩ := further.fits
    have asIdle : Served base asked (c.claimProvisional service .time)
        ⟨.idle, profile :: left, answers⟩ :=
      ⟨further.inOrder, further.answered, further.claimed, trivial⟩
    refine asIdle.answer ?_ ⟨profile, held⟩
    rw [itself, Catalog.serviceFor, missed]
    rfl

/-! ## What a step adds to the catalog -/

/-- A profile that a step adds is being provisioned by the worker. -/
theorem provisioning_of_step_adds
    (served : Served base asked c worker)
    (held : (worker.step c).2.profiles.get? profile = some service) :
    c.profiles.get? profile = some service ∨
      service = profile ∧ profile ∈ worker.pending ∧ base.profiles.get? profile = none ∧
        ∃ given, (worker.step c).1.call = .provisioning profile given := by
  match worker with
  | ⟨.idle, left, answers⟩ =>
    rw [catalog_step_idle] at held
    exact Or.inl held
  | ⟨.claiming next, left, answers⟩ =>
    have missed : base.profiles.get? next = none := served.fits
    rw [step, Catalog.get?_profiles_claimProfile, Option.or_eq_some_iff] at held
    rcases held with before | ⟨_, isNew⟩
    · exact Or.inl before
    · rw [Option.ite_none_right_eq_some] at isNew
      have ⟨same, given⟩ := isNew
      cases given
      subst same
      exact Or.inr ⟨rfl, List.mem_cons_self, missed, _, rfl⟩
  | ⟨.provisioning next given, left, answers⟩ => exact Or.inl held

/-- A provisional entry that a step adds is for the profile the worker provisions. -/
theorem provisioned_of_step_adds
    {entry : TariffEntry}
    (served : Served base asked c worker)
    (held : (worker.step c).2.provisional.get? service = some entry) :
    c.provisional.get? service = some entry ∨
      service ∈ worker.pending ∧ base.profiles.get? service = none ∧
        entry = TariffEntry.provisional service .time := by
  match worker with
  | ⟨.idle, left, answers⟩ =>
    rw [catalog_step_idle] at held
    exact Or.inl held
  | ⟨.claiming next, left, answers⟩ => exact Or.inl held
  | ⟨.provisioning next given, left, answers⟩ =>
    have ⟨missed, itself, _⟩ := served.fits
    rw [step, Catalog.get?_provisional_claimProvisional, Option.or_eq_some_iff] at held
    rcases held with before | ⟨_, isNew⟩
    · exact Or.inl before
    · rw [Option.ite_none_right_eq_some] at isNew
      have ⟨same, made⟩ := isNew
      cases made
      subst same itself
      exact Or.inr ⟨List.mem_cons_self, missed, rfl⟩

/-- A worker that provisions a profile leaves an entry for it. -/
theorem exists_provisional_step
    {given : String}
    (served : Served base asked c worker)
    (provisioning : worker.call = .provisioning profile given) :
    ∃ entry, (worker.step c).2.provisional.get? profile = some entry := by
  match worker with
  | ⟨.provisioning next service, left, answers⟩ =>
    cases provisioning
    have ⟨_, itself, _⟩ := served.fits
    rw [step, Catalog.get?_provisional_claimProvisional, if_pos itself.symm]
    cases c.provisional.get? profile with
    | some entry => exact ⟨entry, rfl⟩
    | none => exact ⟨_, rfl⟩

end MeteringWorker

/-! ## Workers that share a catalog -/

structure WorkerPool (ι : Type) where
  workers : ι → MeteringWorker
  catalog : Catalog

namespace WorkerPool

open MeteringWorker (Served)

variable {ι : Type} {base : Catalog} {asked : ι → List String} {pool : WorkerPool ι}

def begin (base : Catalog) (asked : ι → List String) : WorkerPool ι :=
  ⟨fun i => ⟨.idle, asked i, []⟩, base⟩

/-- Whether every call of every worker has been answered. -/
def Done (pool : WorkerPool ι) : Prop :=
  ∀ i, (pool.workers i).Done

/-- What all workers keep. A profile that is new is provisioned, or some worker is
about to do that. -/
structure Sound (base : Catalog) (asked : ι → List String) (pool : WorkerPool ι) : Prop where
  extended : base.Extends pool.catalog
  served : ∀ i, Served base (asked i) pool.catalog (pool.workers i)
  profilesAsked : ∀ profile service, pool.catalog.profiles.get? profile = some service →
    base.profiles.get? profile = some service ∨
      base.profiles.get? profile = none ∧ (∃ i, profile ∈ asked i) ∧ service = profile
  provisionalAsked : ∀ service entry, pool.catalog.provisional.get? service = some entry →
    base.provisional.get? service = some entry ∨
      base.profiles.get? service = none ∧ (∃ i, service ∈ asked i) ∧
        entry = TariffEntry.provisional service .time
  owed : ∀ profile service, base.profiles.get? profile = none →
    pool.catalog.profiles.get? profile = some service →
      (∃ entry, pool.catalog.provisional.get? profile = some entry) ∨
        ∃ i given, (pool.workers i).call = .provisioning profile given

theorem sound_begin
    (base : Catalog)
    (asked : ι → List String) :
    Sound base asked (begin base asked) where
  extended := .refl base
  served i := MeteringWorker.served_idle base (asked i)
  profilesAsked _ _ held := Or.inl held
  provisionalAsked _ _ held := Or.inl held
  owed profile service missing held := by
    rw [begin, missing] at held
    cases held

theorem Sound.mem_of_pending
    (sound : Sound base asked pool)
    {i : ι}
    {profile : String}
    (pending : profile ∈ (pool.workers i).pending) :
    ∃ i, profile ∈ asked i := by
  refine ⟨i, ?_⟩
  rw [← (sound.served i).inOrder]
  exact List.mem_append_right _ pending

/-- What is left once every call is answered: each worker has the services that the
first catalog gives; profiles that were asked for and lacked one are their own services
and provisioned for time; and nothing else has changed. -/
structure Resolved (base : Catalog) (asked : ι → List String) (pool : WorkerPool ι) :
    Prop where
  answers : ∀ i, (pool.workers i).answers = (asked i).map (MeteringWorker.answerFrom base)
  tariffs : pool.catalog.tariffs = base.tariffs
  profiles : ∀ profile service, pool.catalog.profiles.get? profile = some service ↔
    base.profiles.get? profile = some service ∨
      base.profiles.get? profile = none ∧ (∃ i, profile ∈ asked i) ∧ service = profile
  provisional : ∀ service entry, pool.catalog.provisional.get? service = some entry ↔
    base.provisional.get? service = some entry ∨
      base.provisional.get? service = none ∧ base.profiles.get? service = none ∧
        (∃ i, service ∈ asked i) ∧ entry = TariffEntry.provisional service .time

theorem Sound.answers_of_done
    (sound : Sound base asked pool)
    (done : pool.Done)
    (i : ι) :
    (pool.workers i).answers = (asked i).map (MeteringWorker.answerFrom base) := by
  have inOrder := (sound.served i).answers_append
  rwa [MeteringWorker.pending_of_done (done i), List.map_nil, List.append_nil] at inOrder

theorem Sound.resolved
    (sound : Sound base asked pool)
    (done : pool.Done) :
    Resolved base asked pool := by
  have claimed : ∀ profile, (∃ i, profile ∈ asked i) → base.profiles.get? profile = none →
      pool.catalog.profiles.get? profile = some profile := by
    intro profile ⟨i, inAsked⟩ missing
    have inAnswers : (profile, base.serviceFor profile) ∈ (pool.workers i).answers := by
      rw [sound.answers_of_done done i]
      exact List.mem_map_of_mem inAsked
    have ⟨service, held⟩ := (sound.served i).claimed _ inAnswers
    rcases sound.profilesAsked profile service held with before | ⟨_, _, itself⟩
    · rw [missing] at before
      cases before
    · rw [held, itself]
  constructor
  case answers => exact sound.answers_of_done done
  case tariffs => exact sound.extended.tariffs
  case profiles =>
    intro profile service
    refine ⟨sound.profilesAsked profile service, ?_⟩
    rintro (before | ⟨missing, wanted, itself⟩)
    · exact sound.extended.profiles profile service before
    · rw [itself]
      exact claimed profile wanted missing
  case provisional =>
    intro service entry
    constructor
    · intro held
      rcases sound.provisionalAsked service entry held with before | ⟨missing, wanted, made⟩
      · exact Or.inl before
      · cases before : base.provisional.get? service with
        | none => exact Or.inr ⟨rfl, missing, wanted, made⟩
        | some first =>
          rw [sound.extended.provisional service first before] at held
          exact Or.inl held
    · rintro (before | ⟨unprovisioned, missing, wanted, made⟩)
      · exact sound.extended.provisional service entry before
      · rcases sound.owed service service missing (claimed service wanted missing) with
          ⟨given, held⟩ | ⟨i, given, provisioning⟩
        · rcases sound.provisionalAsked service given held with before | ⟨_, _, isTime⟩
          · rw [unprovisioned] at before
            cases before
          · rw [held, isTime, made]
        · rw [(done i).1] at provisioning
          cases provisioning

variable [DecidableEq ι]

/-- One worker takes its next step. -/
def step (pool : WorkerPool ι) (i : ι) : WorkerPool ι :=
  ⟨Function.update pool.workers i ((pool.workers i).step pool.catalog).1,
    ((pool.workers i).step pool.catalog).2⟩

/-- The workers once they have taken steps in the given order. -/
def after (pool : WorkerPool ι) (schedule : List ι) : WorkerPool ι :=
  schedule.foldl step pool

theorem workers_step_self
    (pool : WorkerPool ι)
    (i : ι) :
    (pool.step i).workers i = ((pool.workers i).step pool.catalog).1 :=
  Function.update_self i _ pool.workers

theorem workers_step_of_ne
    (pool : WorkerPool ι)
    {i j : ι}
    (other : j ≠ i) :
    (pool.step i).workers j = pool.workers j :=
  Function.update_of_ne other _ pool.workers

theorem Sound.step
    (sound : Sound base asked pool)
    (i : ι) :
    Sound base asked (pool.step i) := by
  have served := sound.served i
  have extended := MeteringWorker.extends_step served
  constructor
  case extended => exact sound.extended.trans extended
  case served =>
    intro j
    by_cases same : j = i
    · subst same
      rw [workers_step_self]
      exact served.step sound.extended
    · rw [workers_step_of_ne pool same]
      exact (sound.served j).extends extended
  case profilesAsked =>
    intro profile service held
    rcases MeteringWorker.provisioning_of_step_adds served held with
      before | ⟨itself, pending, missing, _⟩
    · exact sound.profilesAsked profile service before
    · exact Or.inr ⟨missing, sound.mem_of_pending pending, itself⟩
  case provisionalAsked =>
    intro service entry held
    rcases MeteringWorker.provisioned_of_step_adds served held with
      before | ⟨pending, missing, made⟩
    · exact sound.provisionalAsked service entry before
    · exact Or.inr ⟨missing, sound.mem_of_pending pending, made⟩
  case owed =>
    intro profile service missing held
    rcases MeteringWorker.provisioning_of_step_adds served held with
      before | ⟨_, _, _, given, provisioning⟩
    · rcases sound.owed profile service missing before with
        ⟨entry, provisioned⟩ | ⟨j, given, provisioning⟩
      · exact Or.inl ⟨entry, extended.provisional profile entry provisioned⟩
      · by_cases same : j = i
        · subst same
          exact Or.inl (MeteringWorker.exists_provisional_step served provisioning)
        · refine Or.inr ⟨j, given, ?_⟩
          rw [workers_step_of_ne pool same]
          exact provisioning
    · refine Or.inr ⟨i, given, ?_⟩
      rw [workers_step_self]
      exact provisioning

theorem Sound.after
    (sound : Sound base asked pool)
    (schedule : List ι) :
    Sound base asked (pool.after schedule) := by
  induction schedule generalizing pool with
  | nil => exact sound
  | cons i rest inductionHypothesis => exact inductionHypothesis (sound.step i)

/-- A worker needs no more than its own steps, whatever others do. -/
theorem stepsLeft_after
    (pool : WorkerPool ι)
    (schedule : List ι)
    (i : ι) :
    ((pool.after schedule).workers i).stepsLeft ≤
      (pool.workers i).stepsLeft - schedule.count i := by
  induction schedule generalizing pool with
  | nil => exact Nat.le_refl _
  | cons j rest inductionHypothesis =>
    have later := inductionHypothesis (pool.step j)
    show (((pool.step j).after rest).workers i).stepsLeft ≤ _
    by_cases same : i = j
    · subst same
      have one := (pool.workers i).stepsLeft_step pool.catalog
      rw [workers_step_self] at later
      rw [List.count_cons_self]
      omega
    · rw [workers_step_of_ne pool same] at later
      rw [List.count_cons_of_ne (Ne.symm same)]
      exact later

/-- Workers that share a catalog do not disturb each other. In any order of steps, the
calls that are answered have the services that the first catalog gives their profiles,
and a worker is done after three steps a call. Once all are done, the catalog is that of the
profiles asked for alone, so that it is the same after any other order. -/
theorem resolved_after
    (base : Catalog)
    (asked : ι → List String)
    (schedule : List ι) :
    (∀ i, (((begin base asked).after schedule).workers i).answers <+:
      (asked i).map (MeteringWorker.answerFrom base)) ∧
    (∀ i, 3 * (asked i).length ≤ schedule.count i →
      (((begin base asked).after schedule).workers i).Done) ∧
    (((begin base asked).after schedule).Done →
      Resolved base asked ((begin base asked).after schedule) ∧
      ∀ other : List ι, ((begin base asked).after other).Done →
        (∀ profile, ((begin base asked).after other).catalog.profiles.get? profile =
          ((begin base asked).after schedule).catalog.profiles.get? profile) ∧
        ∀ service, ((begin base asked).after other).catalog.provisional.get? service =
          ((begin base asked).after schedule).catalog.provisional.get? service) := by
  have sound := (sound_begin base asked).after schedule
  refine ⟨fun i => ⟨_, (sound.served i).answers_append⟩, ?_, ?_⟩
  · intro i enough
    apply MeteringWorker.done_of_stepsLeft
    have bound := (begin base asked).stepsLeft_after schedule i
    simp only [begin, MeteringWorker.stepsLeft] at bound
    rw [MeteringWorker.stepsLeft, begin]
    omega
  · intro done
    have resolved := sound.resolved done
    refine ⟨resolved, ?_⟩
    intro other otherDone
    have otherResolved := ((sound_begin base asked).after other).resolved otherDone
    constructor
    · intro profile
      apply Option.ext
      intro service
      rw [otherResolved.profiles, resolved.profiles]
    · intro service
      apply Option.ext
      intro entry
      rw [otherResolved.provisional, resolved.provisional]

/-- A catalog with one profile. -/
def oneProfile : Catalog :=
  Catalog.empty.withProfile "vm" "m1.small"

/-- Two workers that ask for a profile that the catalog lacks, and for the other. -/
def bothAsk (_ : Bool) : List String :=
  ["gpu.a100", "vm"]

/-- The workers take turns. Both miss the first profile, both claim it, and both
provision its service. -/
def takingTurns : List Bool :=
  [false, true, false, true, false, true, false, true]

theorem resolved_taking_turns :
    ((begin oneProfile bothAsk).after takingTurns).Done ∧
      (∀ i, (((begin oneProfile bothAsk).after takingTurns).workers i).answers =
        [("gpu.a100", "gpu.a100"), ("vm", "m1.small")]) ∧
      ((begin oneProfile bothAsk).after takingTurns).catalog.profiles.get? "gpu.a100" =
        some "gpu.a100" := by
  have done : ((begin oneProfile bothAsk).after takingTurns).Done := by
    unfold Done
    decide +kernel
  have ⟨_, _, left⟩ := resolved_after oneProfile bothAsk takingTurns
  have ⟨resolved, _⟩ := left done
  refine ⟨done, resolved.answers, ?_⟩
  exact (resolved.profiles "gpu.a100" "gpu.a100").mpr (Or.inr ⟨rfl, ⟨false, by decide⟩, rfl⟩)

end WorkerPool

end UsageBilling
