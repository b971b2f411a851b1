import UsageBilling.Proofs.Period.Profiles
import UsageBilling.Proofs.Period.UptimeRuns

/-!
Contract: the service that an instance accrues at an instant.

Owns:
- the service at an instant as points show it: none unless the last point at or
  before the instant is active, otherwise that of the profile seen last;
- the service at an instant as phases have it;
- points in the order of time and their phases agree at every instant.

Does not own: for how long a service accrues.
-/

namespace UsageBilling.Uptime

variable {catalog : Catalog} {meterService : String} {seen current : Option String}
  {points : List (Instant × Sample)} {t : Instant}

/-! ## Points -/

/-- The last profile that a point names. -/
def lastProfile? (points : List (Instant × Sample)) : Option String :=
  (points.filterMap fun point => point.2.text? profileKeys).getLast?

/-- The service of a profile, or the meter's own without one. -/
def serviceNamed (catalog : Catalog) (meterService : String) : Option String → String
  | some profile => catalog.serviceFor profile
  | none => meterService

/-- What an active sample accrues, given the last profile. -/
def accruesFor (catalog : Catalog) (meterService : String) (profile : Option String)
    (sample : Sample) : Option String :=
  if PowerState.ofSample sample = .active then
    some (serviceNamed catalog meterService profile)
  else none

/-- The service that accrues at an instant, if any: that of the last profile so far,
if the last point at or before the instant is active. -/
def accruing? (catalog : Catalog) (meterService : String) (points : List (Instant × Sample))
    (t : Instant) : Option String :=
  let reached := points.filter fun point => point.1 ≤ t
  match reached.getLast? with
  | some (_, sample) => accruesFor catalog meterService (lastProfile? reached) sample
  | none => none

/-- What the last of some points accrues, given the profile seen before them. -/
def shown? (catalog : Catalog) (meterService : String) (seen : Option String)
    (points : List (Instant × Sample)) : Option (Option String) :=
  points.getLast?.map fun point =>
    accruesFor catalog meterService ((lastProfile? points).or seen) point.2

theorem accruing?_eq
    (catalog : Catalog)
    (meterService : String)
    (points : List (Instant × Sample))
    (t : Instant) :
    accruing? catalog meterService points t =
      (shown? catalog meterService none (points.filter fun point => point.1 ≤ t)).getD none := by
  rw [accruing?, shown?]
  cases (points.filter fun point => point.1 ≤ t).getLast? with
  | none => rfl
  | some point => simp only [Option.map_some, Option.getD_some, Option.or_none]

theorem or_lastProfile?_cons
    (point : Instant × Sample)
    (rest : List (Instant × Sample))
    (seen : Option String) :
    (lastProfile? (point :: rest)).or seen =
      (lastProfile? rest).or ((point.2.text? profileKeys).or seen) := by
  unfold lastProfile?
  cases named : point.2.text? profileKeys with
  | none => simp only [List.filterMap_cons, named, Option.none_or]
  | some profile =>
    simp only [List.filterMap_cons, named, List.getLast?_cons, Option.some_or]
    cases (rest.filterMap fun point => point.2.text? profileKeys).getLast? with
    | none => rfl
    | some later => rfl

theorem shown?_cons
    (point : Instant × Sample)
    (rest : List (Instant × Sample)) :
    shown? catalog meterService seen (point :: rest) =
      (shown? catalog meterService ((point.2.text? profileKeys).or seen) rest).or
        (some (accruesFor catalog meterService ((point.2.text? profileKeys).or seen) point.2)) := by
  rw [shown?, shown?, or_lastProfile?_cons]
  cases rest with
  | nil => rfl
  | cons next rest =>
    rw [List.getLast?_cons_cons]
    cases lastOf : (next :: rest).getLast? with
    | none => simp at lastOf
    | some last => rfl

/-! ## Phases -/

/-- The service that phases have at an instant, given the one before them. -/
def inForce (t : Instant) : Option String → List Phase → Option String
  | current, [] => current
  | current, phase :: rest =>
    inForce t (if phase.start ≤ t then phase.service else current) rest

theorem inForce_of_lt
    {timeline : List Phase}
    (later : ∀ phase ∈ timeline, t < phase.start) :
    inForce t current timeline = current := by
  induction timeline with
  | nil => rfl
  | cons phase rest inductionHypothesis =>
    have ⟨phaseLater, restLater⟩ := List.forall_mem_cons.mp later
    have unreached : ¬ phase.start ≤ t := Int.not_le.mpr phaseLater
    rw [inForce, if_neg unreached]
    exact inductionHypothesis restLater

theorem phases_cons
    (point : Instant × Sample)
    (rest : List (Instant × Sample)) :
    (phases meterService seen (point :: rest) catalog).1 =
      ⟨point.1, accruesFor catalog meterService ((point.2.text? profileKeys).or seen) point.2⟩ ::
        (phases meterService ((point.2.text? profileKeys).or seen) rest catalog).1 := by
  rw [phases, accruesFor]
  dsimp only
  rw [Option.orElse_eq_or]
  by_cases active : PowerState.ofSample point.2 = .active
  · have billable : (PowerState.ofSample point.2).isBillable = true := beq_iff_eq.mpr active
    rw [if_pos billable, if_pos active]
    have sees := seesServices_phases meterService ((point.2.text? profileKeys).or seen) rest
    generalize (point.2.text? profileKeys).or seen = profile at sees ⊢
    cases profile with
    | none => rfl
    | some profile =>
      obtain ⟨resolved, same⟩ := catalog.resolveProfile_eq profile
      show Phase.mk point.1 (some (catalog.resolveProfile profile).1) :: _ = _
      rw [resolved]
      exact congrArg (Phase.mk point.1 (some (catalog.serviceFor profile)) :: ·)
        (sees.result _ _ same)
  · have billable : ¬ (PowerState.ofSample point.2).isBillable = true := mt beq_iff_eq.mp active
    rw [if_neg billable, if_neg active]

/-- From the service in force before them on, phases have what the points that are
seen show. -/
theorem inForce_phases
    (ascending : points.Pairwise fun point later => point.1 ≤ later.1) :
    inForce t current (phases meterService seen points catalog).1 =
      (shown? catalog meterService seen (points.filter fun point => point.1 ≤ t)).getD
        current := by
  induction points generalizing seen current with
  | nil => rfl
  | cons point rest inductionHypothesis =>
    have ⟨fromPoint, restAscending⟩ := List.pairwise_cons.mp ascending
    by_cases reached : point.1 ≤ t
    · have seenFirst : (point :: rest).filter (fun other => other.1 ≤ t) =
          point :: rest.filter (fun other => other.1 ≤ t) :=
        List.filter_cons_of_pos (decide_eq_true reached)
      rw [phases_cons, inForce, if_pos reached, inductionHypothesis restAscending, seenFirst,
        shown?_cons]
      cases shown? catalog meterService ((point.2.text? profileKeys).or seen)
        (rest.filter fun point => point.1 ≤ t) with
      | none => rfl
      | some service => rfl
    · -- the points after this one are later still, so that no point is seen
      have pointLater : t < point.1 := Int.not_le.mp reached
      have allLater : ∀ other ∈ point :: rest, t < other.1 := by
        intro other member
        rcases List.mem_cons.mp member with rfl | inRest
        · exact pointLater
        · exact Int.lt_of_lt_of_le pointLater (fromPoint other inRest)
      have unseen : (point :: rest).filter (fun other => other.1 ≤ t) = [] := by
        rw [List.filter_eq_nil_iff]
        intro other member
        rw [decide_eq_true_eq]
        exact Int.not_le.mpr (allLater other member)
      rw [unseen, inForce_of_lt]
      · rfl
      · intro phase member
        have starts := List.mem_map_of_mem (f := Phase.start) member
        rw [map_start_phases] at starts
        have ⟨other, inPoints, isStart⟩ := List.mem_map.mp starts
        exact isStart ▸ allLater other inPoints

theorem accruing?_eq_inForce
    (ascending : points.Pairwise fun point later => point.1 ≤ later.1)
    (catalog : Catalog)
    (meterService : String)
    (t : Instant) :
    accruing? catalog meterService points t =
      inForce t none (phases meterService none points catalog).1 := by
  rw [accruing?_eq, inForce_phases ascending]

end UsageBilling.Uptime
