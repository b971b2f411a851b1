import UsageBilling.Proofs.Reconciler.Commutation

/-!
Contract: what recording writes, and when.

Owns:
- recording as steps on a reconciler that an error does not take back: a track is put for
  the key, a name is written to it, then its coverage;
- that these steps end as recording does, and leave what recording returns;
- the errors of recording: a quantity that does not pack, and nothing else;
- that recording writes nothing if it ends in an error, or if usage does not reach into
  another second.

Does not own: usage that is recorded piece after piece.
-/

namespace UsageBilling.Reconciler

variable {usage : UsageRecord} {unit : RateUnit}

/-! ## Recording in steps -/

/-- Steps on a reconciler. What is written before an error stays written. -/
abbrev Steps (α : Type) :=
  ExceptT BillingError (StateM Reconciler) α

/-- How steps end, and the reconciler that they leave. -/
def Steps.on {α : Type} (steps : Steps α) (r : Reconciler) :
    Except BillingError α × Reconciler :=
  steps.run.run r

def writeTrack (key : UsageKey) (track : Track) : Steps Unit :=
  modify fun r => { r with tracks := r.tracks.insert key track }

/-- The track of a key. A new one is put for the key first if it has none. -/
def claimTrack (key : UsageKey) (unit : RateUnit) : Steps Track := do
  let r ← get
  let (track, tracks) := r.tracks.getOrInsert key ⟨Coverage.empty r.deviation, unit, none⟩
  set { r with tracks := tracks }
  pure track

/-- The track of a key once a name that is given is written to it. -/
def writeName (key : UsageKey) (track : Track) : Option String → Steps Track
  | none => pure track
  | some name => do
    let named := { track with resourceName := some name }
    writeTrack key named
    pure named

def recording (tenant : String) (usage : UsageRecord) (unit : RateUnit) : Steps Unit := do
  let first := usage.start.timestamp
  let last := usage.stop.timestamp - 1
  if last < first then pure ()
  else
    let weight ← MonadExcept.ofExcept (weightOf usage unit)
    let key := UsageKey.ofRecord tenant usage
    let track ← claimTrack key unit
    let named ← writeName key track usage.resourceName
    let coverage ← MonadExcept.ofExcept (named.coverage.insert first last weight)
    writeTrack key { named with coverage := coverage }

/-! ## What each step leaves -/

theorem on_bind_of_ok
    {α β : Type}
    {steps : Steps α}
    {r after : Reconciler}
    {value : α}
    (ends : steps.on r = (.ok value, after))
    (further : α → Steps β) :
    Steps.on (steps >>= further) r = (further value).on after := by
  simp only [Steps.on, ExceptT.run_bind, StateT.run_bind]
  rw [show steps.run.run r = (.ok value, after) from ends]
  rfl

theorem on_bind_of_error
    {α β : Type}
    {steps : Steps α}
    {r after : Reconciler}
    {error : BillingError}
    (ends : steps.on r = (.error error, after))
    (further : α → Steps β) :
    Steps.on (steps >>= further) r = (.error error, after) := by
  simp only [Steps.on, ExceptT.run_bind, StateT.run_bind]
  rw [show steps.run.run r = (.error error, after) from ends]
  rfl

theorem on_ofExcept
    {α : Type}
    (ended : Except BillingError α)
    (r : Reconciler) :
    Steps.on (MonadExcept.ofExcept ended) r = (ended, r) := by
  cases ended with
  | ok value => rfl
  | error error => rfl

/-- Two reconcilers alike but for the track of a key: one written there makes them equal. -/
structure AlikeBut (key : UsageKey) (r after : Reconciler) : Prop where
  deviation : after.deviation = r.deviation
  tracks : ∀ track, after.tracks.insert key track = r.tracks.insert key track

theorem on_claimTrack
    (key : UsageKey)
    (unit : RateUnit)
    (r : Reconciler) :
    ∃ after, (claimTrack key unit).on r = (.ok (r.trackOf key unit), after) ∧
      AlikeBut key r after := by
  let fresh : Track := ⟨Coverage.empty r.deviation, unit, none⟩
  refine ⟨{ r with tracks := (r.tracks.getOrInsert key fresh).2 }, ?_, rfl,
    Table.insert_getOrInsert r.tracks key fresh⟩
  rw [trackOf, ← Table.fst_getOrInsert]
  rfl

theorem on_writeName
    {key : UsageKey}
    {r before : Reconciler}
    (alike : AlikeBut key r before)
    (track : Track)
    (name : Option String) :
    ∃ after, (writeName key track name).on before =
        (.ok { track with resourceName := name.orElse fun _ => track.resourceName }, after) ∧
      AlikeBut key r after := by
  cases name with
  | none => exact ⟨before, rfl, alike⟩
  | some name =>
    refine ⟨_, rfl, alike.deviation, ?_⟩
    intro last
    exact (Table.insert_insert before.tracks key _ last).trans (alike.tracks last)

theorem on_writeTrack
    {key : UsageKey}
    {r before : Reconciler}
    (alike : AlikeBut key r before)
    (track : Track) :
    (writeTrack key track).on before =
      (.ok (), { r with tracks := r.tracks.insert key track }) := by
  rw [← alike.tracks track, ← alike.deviation]
  rfl

/-! ## What recording leaves -/

theorem lt_iff_not_reaches
    (usage : UsageRecord) :
    usage.stop.timestamp - 1 < usage.start.timestamp ↔ ¬ Reaches usage := by
  simp only [Reaches]
  omega

theorem on_recording_of_not_reaches
    (short : ¬ Reaches usage)
    (tenant : String)
    (unit : RateUnit)
    (r : Reconciler) :
    (recording tenant usage unit).on r = (.ok (), r) := by
  rw [recording, if_pos ((lt_iff_not_reaches usage).mpr short)]
  rfl

theorem on_recording_of_error
    (reaches : Reaches usage)
    {error : BillingError}
    (missing : weightOf usage unit = .error error)
    (tenant : String)
    (r : Reconciler) :
    (recording tenant usage unit).on r = (.error error, r) := by
  rw [recording, if_neg (by rwa [lt_iff_not_reaches, not_not]), missing]
  exact on_bind_of_error (on_ofExcept (.error error) r) _

/-- Usage with a weight is kept: what is inserted after the name is written does not end
before it begins, so it is not refused. -/
theorem on_recording_of_weight
    (reaches : Reaches usage)
    {weight : Int}
    (weighed : weightOf usage unit = .ok weight)
    (tenant : String)
    (r : Reconciler) :
    (recording tenant usage unit).on r = (.ok (), r.keep tenant usage unit weight) := by
  let key := UsageKey.ofRecord tenant usage
  let track := r.trackOf key unit
  have ⟨claimed, claims, alike⟩ := on_claimTrack key unit r
  have ⟨named, names, stillAlike⟩ := on_writeName alike track usage.resourceName
  have inserts : Steps.on (MonadExcept.ofExcept (track.coverage.insert usage.start.timestamp
      (usage.stop.timestamp - 1) weight)) named =
      (.ok (track.coverage.insertSegment (segmentOf usage weight)), named) := by
    rw [on_ofExcept]
    exact congrArg (·, named) (Coverage.insert_eq_ok (inhabited_segmentOf reaches weight))
  rw [recording, if_neg (by rwa [lt_iff_not_reaches, not_not]), weighed,
    on_bind_of_ok (on_ofExcept (.ok weight) r), on_bind_of_ok claims, on_bind_of_ok names]
  exact (on_bind_of_ok inserts _).trans (on_writeTrack stillAlike _)

/-! ## The errors of recording -/

theorem weightOf_eq_error_iff
    (usage : UsageRecord)
    (unit : RateUnit)
    (error : BillingError) :
    weightOf usage unit = .error error ↔
      unit = .quantity ∧ (¬ ∃ weight, PackedQuantity.pack usage.volume = .ok weight) ∧
        error = .overflow := by
  constructor
  · intro missing
    have isOverflow := eq_overflow_of_weightOf missing
    cases unit with
    | time => cases missing
    | quantity =>
      refine ⟨rfl, ?_, isOverflow⟩
      rintro ⟨weight, packed⟩
      rw [weightOf, packed] at missing
      cases missing
  · rintro ⟨rfl, unpacked, rfl⟩
    cases packed : weightOf usage .quantity with
    | ok weight => exact absurd ⟨weight, packed⟩ unpacked
    | error error => rw [eq_overflow_of_weightOf packed]

/-- Recording keeps usage, or writes nothing. The second is so if it ends in an error, which
happens to quantities that do not pack and to nothing else, and if usage does not reach into
another second. -/
structure AllOrNothing (r : Reconciler) (tenant : String) (usage : UsageRecord)
    (unit : RateUnit) (ended : Except BillingError Unit) (after : Reconciler) : Prop where
  returns : r.record tenant usage unit = ended.map fun _ => after
  fails : ∀ error, ended = .error error ↔
    Reaches usage ∧ unit = .quantity ∧
      (¬ ∃ weight, PackedQuantity.pack usage.volume = .ok weight) ∧ error = .overflow
  untouched : (∃ error, ended = .error error) ∨ ¬ Reaches usage → after = r
  keeps : Reaches usage → ended = .ok () →
    ∃ weight, weightOf usage unit = .ok weight ∧ after = r.keep tenant usage unit weight

/-- Whatever is recorded, and whatever was recorded before, no error and no usage within a
second leaves a trace. -/
theorem allOrNothing_recording
    (r : Reconciler)
    (tenant : String)
    (usage : UsageRecord)
    (unit : RateUnit) :
    AllOrNothing r tenant usage unit ((recording tenant usage unit).on r).1
      ((recording tenant usage unit).on r).2 := by
  by_cases reaches : Reaches usage
  · cases weighed : weightOf usage unit with
    | ok weight =>
      rw [on_recording_of_weight reaches weighed]
      refine ⟨?_, ?_, ?_, ?_⟩
      · rw [record_eq, if_pos reaches, weighed]
        rfl
      · intro error
        rw [← weightOf_eq_error_iff, weighed]
        simp
      · rintro (⟨error, fails⟩ | short)
        · cases fails
        · exact absurd reaches short
      · exact fun _ _ => ⟨weight, weighed, rfl⟩
    | error error =>
      rw [on_recording_of_error reaches weighed]
      refine ⟨?_, ?_, fun _ => rfl, fun _ fails => nomatch fails⟩
      · rw [record_eq, if_pos reaches, weighed]
        rfl
      · intro other
        rw [← weightOf_eq_error_iff, weighed, and_iff_right reaches]
        simp
  · rw [on_recording_of_not_reaches reaches]
    refine ⟨?_, ?_, fun _ => rfl, fun reaching => absurd reaching reaches⟩
    · exact record_of_not_reaches reaches
    · intro error
      simp [reaches]

/-- A quantity of more digits than 64 bits hold is refused, and its key is not put. -/
example :
    (recording "t-1" ⟨"images", .ofSecond 0, .ofSecond 60, .ofInt (10 ^ 19), none, none⟩
        .quantity).on (empty 1) = (.error .overflow, empty 1) := by
  decide

end UsageBilling.Reconciler
