import UsageBilling.Proofs.Reconciler.Tracks

/-!
Contract: sequences of deliveries to a reconciler.

Owns:
- deliveries, the seconds they hold for their keys, and the latest delivery that
  holds a second;
- recording deliveries in turn;
- the state that recording reaches: every second of a key has the weight of the
  latest delivery that holds it.

Does not own: what the weights are read back as.
-/

namespace UsageBilling

/-- Usage delivered for a tenant. -/
structure Delivery where
  tenant : String
  usage : UsageRecord
deriving DecidableEq, Repr

namespace Delivery

def key (d : Delivery) : UsageKey :=
  UsageKey.ofRecord d.tenant d.usage

/-- Whether a delivery holds a second of a key. -/
def Holds (d : Delivery) (key : UsageKey) (second : Int) : Prop :=
  key = d.key ∧ d.usage.start.timestamp ≤ second ∧ second < d.usage.stop.timestamp

instance (d : Delivery) (key : UsageKey) (second : Int) : Decidable (d.Holds key second) :=
  inferInstanceAs (Decidable (_ ∧ _))

def Used (deliveries : List Delivery) (key : UsageKey) (second : Int) : Prop :=
  ∃ d ∈ deliveries, d.Holds key second

instance (deliveries : List Delivery) (key : UsageKey) (second : Int) :
    Decidable (Used deliveries key second) :=
  inferInstanceAs (Decidable (∃ d ∈ deliveries, _))

/-- The latest delivery that holds a second of a key. -/
def latest? (deliveries : List Delivery) (key : UsageKey) (second : Int) : Option Delivery :=
  deliveries.reverse.find? fun d => d.Holds key second

variable {deliveries : List Delivery} {key : UsageKey} {second : Int}

@[simp]
theorem latest?_nil : latest? [] key second = none :=
  rfl

/-- A further delivery replaces what it holds. -/
theorem latest?_append_singleton
    (d : Delivery) :
    latest? (deliveries ++ [d]) key second =
      if d.Holds key second then some d else latest? deliveries key second := by
  rw [latest?, List.reverse_append, List.reverse_singleton, List.singleton_append,
    List.find?_cons]
  by_cases holds : d.Holds key second <;> simp [holds, latest?]

/-- A second is used exactly if some delivery is the latest to hold it. -/
theorem used_iff_exists_latest? :
    Used deliveries key second ↔ ∃ d, latest? deliveries key second = some d := by
  rw [← Option.isSome_iff_exists, latest?, List.find?_isSome]
  simp [Used]

theorem of_latest?_eq_some
    {d : Delivery}
    (isLatest : latest? deliveries key second = some d) :
    d ∈ deliveries ∧ d.Holds key second := by
  rw [latest?] at isLatest
  have holds := List.find?_some isLatest
  exact ⟨List.mem_reverse.mp (List.mem_of_find?_eq_some isLatest), of_decide_eq_true holds⟩

end Delivery

namespace Reconciler

open Delivery

variable {r after : Reconciler} {unit : RateUnit} {deliveries : List Delivery}

def recordEach (unit : RateUnit) (deliveries : List Delivery) (r : Reconciler) :
    Except BillingError Reconciler :=
  deliveries.foldlM (fun r d => r.record d.tenant d.usage unit) r

/-- A reconciler shows the deliveries it was given: all that reach into another
second have weights, and each second of a key has the weight of the latest
delivery that holds it. -/
structure Shows (unit : RateUnit) (deliveries : List Delivery) (r : Reconciler) : Prop where
  sound : r.Sound
  small : r.deviation ≤ 1
  sameUnit : ∀ key track, r.tracks.get? key = some track → track.unit = unit
  weighed : ∀ d ∈ deliveries, Reaches d.usage → ∃ weight, weightOf d.usage unit = .ok weight
  weighs : ∀ key second weight, r.Weighs key second weight ↔
    ∃ d, latest? deliveries key second = some d ∧ weightOf d.usage unit = .ok weight

theorem shows_empty
    {deviation : Nat}
    (small : deviation ≤ 1)
    (unit : RateUnit) :
    Shows unit [] (empty deviation) :=
  ⟨sound_empty deviation, small, by simp [empty], by simp, by simp [Weighs, empty]⟩

/-- One more record shows one more delivery. -/
theorem Shows.record
    (shows : r.Shows unit deliveries)
    (d : Delivery)
    (recorded : r.record d.tenant d.usage unit = .ok after) :
    after.Shows unit (deliveries ++ [d]) := by
  obtain ⟨afterSound, sameDeviation⟩ := shows.sound.record recorded
  by_cases reaches : Reaches d.usage
  · obtain ⟨weight, packed, rfl⟩ := (record_eq_ok_iff reaches after).mp recorded
    refine ⟨afterSound, sameDeviation ▸ shows.small, ?_, ?_, ?_⟩
    · intro key track found
      rw [get?_keep] at found
      split at found
      · cases found
        show (r.trackOf key unit).unit = unit
        rw [trackOf]
        cases old : r.tracks.get? key with
        | none => rfl
        | some track => exact shows.sameUnit key track old
      · exact shows.sameUnit key track found
    · intro other member otherReaches
      rcases List.mem_append.mp member with earlier | isLast
      · exact shows.weighed other earlier otherReaches
      · rw [List.mem_singleton.mp isLast]
        exact ⟨weight, packed⟩
    · intro key second other
      rw [shows.sound.weighs_keep_iff shows.small reaches, latest?_append_singleton]
      show (if d.Holds key second then weight = other else _) ↔ _
      by_cases holds : d.Holds key second
      · rw [if_pos holds, if_pos holds]
        simp [packed]
      · rw [if_neg holds, if_neg holds]
        exact shows.weighs key second other
  · rw [record_of_not_reaches reaches] at recorded
    cases recorded
    refine ⟨shows.sound, shows.small, shows.sameUnit, ?_, ?_⟩
    · intro other member otherReaches
      rcases List.mem_append.mp member with earlier | isLast
      · exact shows.weighed other earlier otherReaches
      · exact absurd (List.mem_singleton.mp isLast ▸ otherReaches) reaches
    · intro key second other
      have empty : ¬ d.Holds key second := by
        rintro ⟨_, lower, upper⟩
        exact reaches (Int.lt_of_le_of_lt lower upper)
      rw [latest?_append_singleton, if_neg empty]
      exact shows.weighs key second other

/-- Recording deliveries in turn shows all of them. -/
theorem Shows.recordEach
    {earlier : List Delivery}
    (shows : r.Shows unit earlier)
    (recorded : r.recordEach unit deliveries = .ok after) :
    after.Shows unit (earlier ++ deliveries) := by
  induction deliveries generalizing earlier r with
  | nil =>
    cases recorded
    simpa using shows
  | cons d rest inductionHypothesis =>
    rw [Reconciler.recordEach, List.foldlM_cons] at recorded
    cases step : r.record d.tenant d.usage unit with
    | error error =>
      rw [step] at recorded
      cases recorded
    | ok next =>
      rw [step] at recorded
      simpa using inductionHypothesis (shows.record d step) recorded

theorem exists_recordEach_time
    (deliveries : List Delivery)
    (r : Reconciler) :
    ∃ after, r.recordEach .time deliveries = .ok after := by
  induction deliveries generalizing r with
  | nil => exact ⟨r, rfl⟩
  | cons d rest inductionHypothesis =>
    rw [recordEach, List.foldlM_cons, record_eq]
    split
    · exact inductionHypothesis _
    · exact inductionHypothesis _

end Reconciler

end UsageBilling
