import UsageBilling.Proofs.Period.UptimePhases

/-!
Contract: usage by uptime as the maximal runs of one service.

Owns:
- runs of one service in a window that no longer run of it contains, where one begins
  or ends because the service changes, and where one fills the window;
- the usage of phases: a record for each maximal run of at least a second, in the order
  of time, and no two of one service that touch.

Does not own: how the service that accrues at an instant is told from samples.
-/

namespace UsageBilling

namespace Instant

variable {earlier later : Instant}

/-- Only after an instant do whole seconds pass since it. -/
theorem lt_of_secondsSince
    (lasts : 0 < later.secondsSince earlier) :
    earlier < later := by
  have second := le_of_tdiv_pos lasts
  have ⟨earlierBound, laterBound⟩ := And.intro earlier.nanos_lt later.nanos_lt
  have ⟨earlierSecond, laterSecond⟩ := And.intro earlier.second_lt later.second_lt
  simp only [nanosSince, leapBetween, Bool.and_eq_true, decide_eq_true_eq] at second
  show earlier.position < later.position
  simp only [position]
  simp only [timestamp, secondsPerDay, nanosPerSecond, Nat.cast_ofNat] at second ⊢
  split at second
  · -- the second counted for leaving a leap second is missing from the nanoseconds
    rename_i leaves
    have leap : 1000000000 ≤ earlier.nanos := of_decide_eq_true leaves.2
    omega
  · split at second
    · omega
    · omega

end Instant

namespace Uptime

variable {accrues accrues' : Instant → Option String} {current : Option String} {service : String}
  {opening middle closing start stop : Instant} {record : UsageRecord}

/-! ## Maximal runs -/

/-- Whether a service accrues at each instant of an interval. -/
def Steady (accrues : Instant → Option String) (service : String) (start stop : Instant) : Prop :=
  ∀ t, start ≤ t → t < stop → accrues t = some service

/-- An interval of a window on which one service accrues throughout, and which lies in
no other such interval. -/
structure MaximalRun (accrues : Instant → Option String) (opening closing : Instant)
    (service : String) (start stop : Instant) : Prop where
  opens : opening ≤ start
  inhabited : start < stop
  closes : stop ≤ closing
  steady : Steady accrues service start stop
  maximal : ∀ start' stop', opening ≤ start' → start' ≤ start → stop ≤ stop' → stop' ≤ closing →
    Steady accrues service start' stop' → start' = start ∧ stop' = stop

theorem Steady.congr
    (same : ∀ t, opening ≤ t → accrues t = accrues' t)
    (opens : opening ≤ start)
    (steady : Steady accrues service start stop) :
    Steady accrues' service start stop := by
  intro t from_ until_
  rw [← same t (Instant.le_trans opens from_)]
  exact steady t from_ until_

/-- Only what accrues in the window matters. -/
theorem MaximalRun.congr
    (same : ∀ t, opening ≤ t → accrues t = accrues' t)
    (run : MaximalRun accrues opening closing service start stop) :
    MaximalRun accrues' opening closing service start stop := by
  refine ⟨run.opens, run.inhabited, run.closes, run.steady.congr same run.opens, ?_⟩
  intro start' stop' opens before after closes steady
  exact run.maximal start' stop' opens before after closes
    (steady.congr (fun t from_ => (same t from_).symm) opens)

theorem maximalRun_congr
    (same : ∀ t, opening ≤ t → accrues t = accrues' t) :
    MaximalRun accrues opening closing service start stop ↔
      MaximalRun accrues' opening closing service start stop :=
  ⟨MaximalRun.congr same, MaximalRun.congr fun t from_ => (same t from_).symm⟩

/-- Where the same accrues throughout a window, the only run fills it. -/
theorem maximalRun_iff_of_constant
    (constant : ∀ t, opening ≤ t → t < closing → accrues t = current) :
    MaximalRun accrues opening closing service start stop ↔
      current = some service ∧ opening < closing ∧ start = opening ∧ stop = closing := by
  constructor
  · intro run
    have opens := run.opens
    have inhabited := run.inhabited
    have closes := run.closes
    have startsBefore : start < closing := Int.lt_of_lt_of_le inhabited closes
    have filled : opening < closing := Int.lt_of_le_of_lt opens startsBefore
    have same : current = some service :=
      (constant start opens startsBefore).symm.trans
        (run.steady start (Instant.le_refl start) inhabited)
    have throughout : Steady accrues service opening closing :=
      fun t from_ until_ => (constant t from_ until_).trans same
    have ⟨isOpening, isClosing⟩ := run.maximal opening closing (Instant.le_refl opening) opens
      closes (Instant.le_refl closing) throughout
    exact ⟨same, filled, isOpening.symm, isClosing.symm⟩
  · rintro ⟨same, filled, rfl, rfl⟩
    refine ⟨Instant.le_refl start, filled, Instant.le_refl stop, ?_, ?_⟩
    · exact fun t from_ until_ => (constant t from_ until_).trans same
    · intro start' stop' opens before after closes _
      exact ⟨Instant.le_antisymm before opens, Instant.le_antisymm closes after⟩

/-- Where what accrues changes for the first time in a window, a run has ended, and the
others begin there or later. -/
theorem maximalRun_iff_of_change
    (opens : opening ≤ middle)
    (closes : middle < closing)
    (before : ∀ t, opening ≤ t → t < middle → accrues t = current)
    (changes : accrues middle ≠ current) :
    MaximalRun accrues opening closing service start stop ↔
      (current = some service ∧ opening < middle ∧ start = opening ∧ stop = middle) ∨
        MaximalRun accrues middle closing service start stop := by
  constructor
  · intro run
    have inhabited := run.inhabited
    by_cases later : middle ≤ start
    · right
      refine ⟨later, inhabited, run.closes, run.steady, ?_⟩
      intro start' stop' opens' before' after' closes' steady
      exact run.maximal start' stop' (Instant.le_trans opens opens') before' after' closes' steady
    · left
      have earlier : start < middle := Int.not_le.mp later
      have same : current = some service :=
        (before start run.opens earlier).symm.trans
          (run.steady start (Instant.le_refl start) inhabited)
      have ends : stop ≤ middle := by
        apply Int.not_lt.mp
        intro passes
        exact changes ((run.steady middle (Int.le_of_lt earlier) passes).trans same.symm)
      have throughout : Steady accrues service opening middle :=
        fun t from_ until_ => (before t from_ until_).trans same
      have ⟨isOpening, isMiddle⟩ := run.maximal opening middle (Instant.le_refl opening) run.opens
        ends (Int.le_of_lt closes) throughout
      exact ⟨same, isOpening ▸ earlier, isOpening.symm, isMiddle.symm⟩
  · -- a longer run would pass the change
    have stays : ∀ {start' stop'}, current = some service → start' ≤ middle → middle < stop' →
        ¬ Steady accrues service start' stop' :=
      fun same from_ until_ steady => changes ((steady middle from_ until_).trans same.symm)
    rintro (⟨same, filled, rfl, rfl⟩ | run)
    · refine ⟨Instant.le_refl start, filled, Int.le_of_lt closes, ?_, ?_⟩
      · exact fun t from_ until_ => (before t from_ until_).trans same
      · intro start' stop' opens' before' after' closes' steady
        refine ⟨Instant.le_antisymm before' opens', Instant.le_antisymm ?_ after'⟩
        exact Int.not_lt.mp fun passes =>
          stays same (Instant.le_trans before' opens) passes steady
    · have startsLater := run.opens
      have inhabited := run.inhabited
      refine ⟨Instant.le_trans opens startsLater, inhabited, run.closes, run.steady, ?_⟩
      intro start' stop' opens' before' after' closes' steady
      refine run.maximal start' stop' (Int.not_lt.mp fun earlier => ?_) before' after' closes' steady
      have passes : middle < stop' :=
        Int.lt_of_le_of_lt startsLater (Int.lt_of_lt_of_le inhabited after')
      have earlierThanStop : start' < stop' := Int.lt_trans earlier passes
      have same : current = some service :=
        (before start' opens' earlier).symm.trans
          (steady start' (Instant.le_refl start') earlierThanStop)
      exact stays same (Int.le_of_lt earlier) passes steady

/-! ## Usage of phases -/

/-- A record of a maximal run of at least a second, metered for its whole seconds. -/
structure MetersRun (accrues : Instant → Option String) (opening closing : Instant)
    (record : UsageRecord) : Prop where
  maximal : MaximalRun accrues opening closing record.service record.start record.stop
  lasts : 1 ≤ record.duration
  metered : record =
    .ofService record.service record.start record.stop (Decimal.ofInt record.duration)

theorem metersRun_congr
    (same : ∀ t, opening ≤ t → accrues t = accrues' t) :
    MetersRun accrues opening closing record ↔ MetersRun accrues' opening closing record :=
  ⟨fun ⟨maximal, lasts, metered⟩ => ⟨(maximalRun_congr same).mp maximal, lasts, metered⟩,
    fun ⟨maximal, lasts, metered⟩ => ⟨(maximalRun_congr same).mpr maximal, lasts, metered⟩⟩

theorem mem_closeOpen_iff
    (run : Option Run)
    (stop : Instant) :
    record ∈ closeOpen run stop ↔
      (run = some ⟨record.service, record.start⟩ ∧ record.stop = stop) ∧ 1 ≤ record.duration ∧
        record = .ofService record.service record.start record.stop
          (Decimal.ofInt record.duration) := by
  cases run with
  | none => simp [closeOpen]
  | some begun =>
    rw [closeOpen, Run.close]
    constructor
    · intro member
      split at member
      · rename_i lasts
        rw [List.mem_singleton.mp member]
        exact ⟨⟨rfl, rfl⟩, lasts, rfl⟩
      · cases member
    · rintro ⟨⟨begins, rfl⟩, lasts, metered⟩
      have positive : 0 < record.stop.secondsSince record.start := lasts
      rw [Option.some.inj begins, if_pos positive]
      exact List.mem_singleton.mpr metered

/-- An open run leaves one record at most. -/
theorem pairwise_closeOpen
    {related : UsageRecord → UsageRecord → Prop}
    (run : Option Run)
    (stop : Instant) :
    (closeOpen run stop).Pairwise related := by
  cases run with
  | none => exact List.Pairwise.nil
  | some begun =>
    rw [closeOpen, Run.close]
    split
    · exact List.pairwise_singleton _ _
    · exact List.Pairwise.nil

/-- An open run goes on where its service does; otherwise it ends. -/
theorem accrue_cons
    (closing : Instant)
    (run : Option Run)
    (phase : Phase)
    (rest : List Phase) :
    accrue closing run (phase :: rest) =
      if run.map Run.service = phase.service then accrue closing run rest
      else closeOpen run phase.start ++
        accrue closing (phase.service.map fun service => ⟨service, phase.start⟩) rest := by
  rw [accrue]
  cases phase.service with
  | none =>
    cases run with
    | none => rfl
    | some begun => rfl
  | some service =>
    cases run with
    | none => rfl
    | some begun => simp

/-- A run that is open from an instant on, if any, and phases that begin one after
another. -/
structure Proceeds (opening : Instant) (run : Option Run) (timeline : List Phase)
    (closing : Instant) : Prop where
  ascending : timeline.Pairwise fun phase later => phase.start < later.start
  opens : ∀ phase ∈ timeline, opening ≤ phase.start
  closes : ∀ phase ∈ timeline, phase.start < closing
  begun : ∀ begun ∈ run, begun.start = opening

variable {run : Option Run} {phase : Phase} {rest timeline : List Phase}

theorem Proceeds.goesOn
    (proceeds : Proceeds opening run (phase :: rest) closing) :
    Proceeds opening run rest closing :=
  ⟨proceeds.ascending.of_cons, (List.forall_mem_cons.mp proceeds.opens).2,
    (List.forall_mem_cons.mp proceeds.closes).2, proceeds.begun⟩

theorem Proceeds.later
    (proceeds : Proceeds opening run (phase :: rest) closing) :
    ∀ next ∈ rest, phase.start < next.start :=
  (List.pairwise_cons.mp proceeds.ascending).1

theorem Proceeds.begins
    (proceeds : Proceeds opening run (phase :: rest) closing) :
    Proceeds phase.start (phase.service.map fun service => ⟨service, phase.start⟩) rest
      closing := by
  refine ⟨proceeds.goesOn.ascending, fun next member => Int.le_of_lt (proceeds.later next member),
    proceeds.goesOn.closes, ?_⟩
  intro begun isNew
  have ⟨_, _, made⟩ := Option.map_eq_some_iff.mp isNew
  rw [← made]

theorem map_service_begun
    (phase : Phase) :
    (phase.service.map fun service => (⟨service, phase.start⟩ : Run)).map Run.service =
      phase.service := by
  rw [Option.map_map]
  exact Option.map_id'

/-- What accrues by an open run and phases. -/
def accruesBy (run : Option Run) (timeline : List Phase) (t : Instant) : Option String :=
  inForce t (run.map Run.service) timeline

theorem accruesBy_cons_of_le
    {t : Instant}
    (reached : phase.start ≤ t) :
    accruesBy run (phase :: rest) t =
      accruesBy (phase.service.map fun service => ⟨service, phase.start⟩) rest t := by
  rw [accruesBy, accruesBy, map_service_begun, inForce, if_pos reached]

theorem Proceeds.accruesBy_cons_of_lt
    (proceeds : Proceeds opening run (phase :: rest) closing)
    {t : Instant}
    (early : t < phase.start) :
    accruesBy run (phase :: rest) t = run.map Run.service := by
  refine inForce_of_lt (List.forall_mem_cons.mpr ⟨early, ?_⟩)
  intro next member
  exact Int.lt_trans early (proceeds.later next member)

/-- The run that is open ends where the first phase changes the service. -/
theorem Proceeds.maximalRun_cons_iff
    (proceeds : Proceeds opening run (phase :: rest) closing)
    (changes : run.map Run.service ≠ phase.service) :
    MaximalRun (accruesBy run (phase :: rest)) opening closing service start stop ↔
      (run.map Run.service = some service ∧ opening < phase.start ∧ start = opening ∧
          stop = phase.start) ∨
        MaximalRun (accruesBy (phase.service.map fun service => ⟨service, phase.start⟩) rest)
          phase.start closing service start stop := by
  have changed : accruesBy run (phase :: rest) phase.start ≠ run.map Run.service := by
    rw [accruesBy_cons_of_le (Instant.le_refl phase.start), accruesBy, map_service_begun,
      inForce_of_lt proceeds.later]
    exact changes.symm
  rw [maximalRun_iff_of_change (proceeds.opens phase List.mem_cons_self)
    (proceeds.closes phase List.mem_cons_self)
    (fun _ _ early => proceeds.accruesBy_cons_of_lt early) changed,
    maximalRun_congr fun _ reached => accruesBy_cons_of_le reached]

theorem accruesBy_cons_of_same
    (same : run.map Run.service = phase.service) :
    accruesBy run (phase :: rest) = accruesBy run rest := by
  funext t
  rw [accruesBy, accruesBy, inForce, ← same, ite_self]

/-- A run that is open from an instant on is one of a service from there on. -/
theorem Proceeds.eq_some_iff
    (proceeds : Proceeds opening run timeline closing)
    (lasts : 1 ≤ record.duration) :
    (run = some ⟨record.service, record.start⟩ ∧ record.stop = stop) ↔
      run.map Run.service = some record.service ∧ opening < stop ∧ record.start = opening ∧
        record.stop = stop := by
  constructor
  · rintro ⟨begins, rfl⟩
    have starts : record.start = opening := proceeds.begun _ begins
    have passes : record.start < record.stop := Instant.lt_of_secondsSince lasts
    exact ⟨by rw [begins]; rfl, starts ▸ passes, starts, rfl⟩
  · rintro ⟨serves, _, starts, stops⟩
    obtain ⟨⟨service, from_⟩, rfl, rfl⟩ := Option.map_eq_some_iff.mp serves
    have isOpening : from_ = opening := proceeds.begun _ rfl
    exact ⟨by rw [isOpening, starts], stops⟩

/-- The usage of phases is that of the maximal runs. -/
theorem mem_accrue_iff
    (proceeds : Proceeds opening run timeline closing)
    (record : UsageRecord) :
    record ∈ accrue closing run timeline ↔
      MetersRun (accruesBy run timeline) opening closing record := by
  induction timeline generalizing opening run with
  | nil =>
    have constant : ∀ t, opening ≤ t → t < closing → accruesBy run [] t = run.map Run.service :=
      fun _ _ _ => rfl
    rw [accrue, mem_closeOpen_iff]
    constructor
    · rintro ⟨begins, lasts, metered⟩
      exact ⟨(maximalRun_iff_of_constant constant).mpr ((proceeds.eq_some_iff lasts).mp begins),
        lasts, metered⟩
    · rintro ⟨maximal, lasts, metered⟩
      exact ⟨(proceeds.eq_some_iff lasts).mpr ((maximalRun_iff_of_constant constant).mp maximal),
        lasts, metered⟩
  | cons phase rest inductionHypothesis =>
    rw [accrue_cons]
    by_cases same : run.map Run.service = phase.service
    · rw [if_pos same, accruesBy_cons_of_same same]
      exact inductionHypothesis proceeds.goesOn
    · rw [if_neg same, List.mem_append, inductionHypothesis proceeds.begins, mem_closeOpen_iff]
      constructor
      · rintro (⟨begins, lasts, metered⟩ | ⟨maximal, lasts, metered⟩)
        · exact ⟨(proceeds.maximalRun_cons_iff same).mpr
            (Or.inl ((proceeds.eq_some_iff lasts).mp begins)), lasts, metered⟩
        · exact ⟨(proceeds.maximalRun_cons_iff same).mpr (Or.inr maximal), lasts, metered⟩
      · rintro ⟨maximal, lasts, metered⟩
        exact ((proceeds.maximalRun_cons_iff same).mp maximal).imp
          (fun begins => ⟨(proceeds.eq_some_iff lasts).mpr begins, lasts, metered⟩)
          (fun later => ⟨later, lasts, metered⟩)

/-- The records of phases follow one another, and the service changes where they
touch. -/
theorem ascending_accrue
    (proceeds : Proceeds opening run timeline closing) :
    (accrue closing run timeline).Pairwise fun record later =>
      record.stop ≤ later.start ∧ (record.stop = later.start → record.service ≠ later.service) := by
  induction timeline generalizing opening run with
  | nil => exact pairwise_closeOpen run closing
  | cons phase rest inductionHypothesis =>
    rw [accrue_cons]
    by_cases same : run.map Run.service = phase.service
    · rw [if_pos same]
      exact inductionHypothesis proceeds.goesOn
    · rw [if_neg same, List.pairwise_append]
      refine ⟨pairwise_closeOpen run phase.start, inductionHypothesis proceeds.begins, ?_⟩
      intro record closed later member
      obtain ⟨⟨begins, stops⟩, _, _⟩ := (mem_closeOpen_iff run phase.start).mp closed
      obtain ⟨maximal, _, _⟩ := (mem_accrue_iff proceeds.begins later).mp member
      rw [stops]
      refine ⟨maximal.opens, ?_⟩
      intro touches sameService
      -- the later record has the service of the phase, which the open run has not
      have steady := maximal.steady later.start (Instant.le_refl later.start) maximal.inhabited
      rw [← touches, accruesBy, map_service_begun, inForce_of_lt proceeds.later] at steady
      rw [steady, begins] at same
      exact same (congrArg some sameService)

end Uptime

end UsageBilling
