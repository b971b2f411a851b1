import UsageBilling.Proofs.Rating.Units
import UsageBilling.Proofs.Reconciler.Tenants
import UsageBilling.Proofs.Reconciler.Time

/-!
Contract: time that is billed window by window.

Owns:
- a whole number of seconds at a whole rate is billed as the units it has begun,
  however large the two are;
- the units of many lines together: they cover all seconds, and exceed them by less
  than a unit a line;
- the lines that a reconciler gives for time, which count whole seconds.

Does not own: which seconds a window bills.
-/

namespace UsageBilling

namespace UsageRecord

/-- Whether the volume of a record is a positive number of seconds, of 63 bits. -/
def CountsSeconds (usage : UsageRecord) : Prop :=
  ∃ seconds : ℕ, usage.volume.toRat = seconds ∧ 0 < seconds ∧ seconds < 2 ^ 63

end UsageRecord

namespace TariffEntry

open UsageRecord

variable {entry : TariffEntry} {rate : ℕ} {usages : List UsageRecord} {units : List Decimal}

/-! ## One line -/

/-- Seconds are billed as the units that they have begun: that the quotient is rounded
does not lose a unit. -/
theorem unitsOf_natCast
    (isRate : entry.rate.toRat = rate)
    (above : 1 < rate)
    (atMost : rate ≤ 10 ^ 28)
    {seconds : ℕ}
    (small : seconds < 2 ^ 63) :
    entry.unitsOf seconds = ⌈(seconds : ℚ) / rate⌉₊ := by
  have aboveOne : 1 < entry.rate.toRat := by
    rw [isRate]
    exact_mod_cast above
  have keeps : ¬ Decimal.LosesFraction ((seconds : ℚ) / rate) :=
    Decimal.not_losesFraction_div small (by omega) atMost
  have nonneg : (0 : ℚ) ≤ seconds / rate := by positivity
  rw [unitsOf, if_pos aboveOne, isRate, Decimal.ceil_rounded_of_not_losesFraction keeps,
    ← natCast_ceil_eq_intCast_ceil nonneg]

/-- Whether a record is billed as the units of a rate that its seconds have begun. -/
def BillsStarted (rate : ℕ) (usage : UsageRecord) (billed : Decimal) : Prop :=
  ∃ seconds count : ℕ, usage.volume.toRat = seconds ∧ billed.toRat = count ∧
    seconds ≤ count * rate ∧ count * rate < seconds + rate

theorem exists_billsStarted
    (isRate : entry.rate.toRat = rate)
    (above : 1 < rate)
    (atMost : rate ≤ 10 ^ 28)
    {usage : UsageRecord}
    (counts : usage.CountsSeconds) :
    ∃ billed, entry.billableUnits usage.volume = .ok billed ∧ BillsStarted rate usage billed := by
  obtain ⟨seconds, volume, _, small⟩ := counts
  obtain ⟨billed, bills, value⟩ := entry.exists_billableUnits usage.volume
  rw [volume, unitsOf_natCast isRate above atMost small] at value
  have positive : (0 : ℚ) < rate := by exact_mod_cast (by omega : 0 < rate)
  refine ⟨billed, bills, seconds, _, volume, value, ?_, ?_⟩
  · have covers := (div_le_iff₀ positive).mp (Nat.le_ceil ((seconds : ℚ) / rate))
    exact_mod_cast covers
  · have begun := Nat.ceil_lt_add_one (div_nonneg (Nat.cast_nonneg seconds) positive.le)
    rw [div_add_one positive.ne', lt_div_iff₀ positive] at begun
    exact_mod_cast begun

/-! ## Many lines -/

def totalUnits (units : List Decimal) : ℚ :=
  (units.map Decimal.toRat).sum

/-- How the units of lines stand to their seconds: each is a whole number, and that of a
multiple of the rate the quotient; together they cover the seconds, and exceed them by
less than a unit a line. -/
structure CoversTime (rate : ℕ) (usages : List UsageRecord) (units : List Decimal) : Prop where
  whole : ∀ billed ∈ units, ∃ count : ℕ, billed.toRat = count
  multiples : List.Forall₂ (fun (usage : UsageRecord) (billed : Decimal) => ∀ count : ℕ,
    usage.volume.toRat = count * rate → billed.toRat = count) usages units
  covered : totalVolume usages ≤ totalUnits units * rate
  bounded : totalUnits units < totalVolume usages / rate + usages.length

theorem BillsStarted.of_multiple
    {usage : UsageRecord}
    {billed : Decimal}
    (bills : BillsStarted rate usage billed)
    (positive : 0 < rate)
    {count : ℕ}
    (multiple : usage.volume.toRat = count * rate) :
    billed.toRat = count := by
  obtain ⟨seconds, begun, volume, value, covers, least⟩ := bills
  have sameSeconds : seconds = count * rate := by
    rw [volume] at multiple
    exact_mod_cast multiple
  rw [sameSeconds] at covers least
  have notFewer : count ≤ begun := Nat.le_of_mul_le_mul_right covers positive
  have notMore : begun < count + 1 := by
    apply Nat.lt_of_mul_lt_mul_right (a := rate)
    rw [add_one_mul]
    exact least
  rw [value, le_antisymm (Nat.lt_succ_iff.mp notMore) notFewer]

/-- Each line adds at most one second less than a unit to what the lines cover. -/
theorem totalUnits_bounds
    (each : List.Forall₂ (BillsStarted rate) usages units) :
    totalVolume usages ≤ totalUnits units * rate ∧
      totalUnits units * rate + usages.length ≤ totalVolume usages + usages.length * rate := by
  induction each with
  | nil => simp [totalVolume, totalUnits]
  | @cons usage billed usages units bills _ inductionHypothesis =>
    obtain ⟨seconds, count, volume, value, covers, least⟩ := bills
    have headCovers : (seconds : ℚ) ≤ count * rate := by exact_mod_cast covers
    have headLeast : (count : ℚ) * rate + 1 ≤ seconds + rate := by exact_mod_cast least
    obtain ⟨covered, bounded⟩ := inductionHypothesis
    simp only [totalVolume, totalUnits] at covered bounded
    simp only [totalVolume, totalUnits, List.map_cons, List.sum_cons, List.length_cons, volume,
      value]
    push_cast
    constructor
    · linarith
    · linarith

theorem coversTime_of_billsStarted
    (positive : 0 < rate)
    (notEmpty : usages ≠ [])
    (each : List.Forall₂ (BillsStarted rate) usages units) :
    CoversTime rate usages units := by
  have positiveRat : (0 : ℚ) < rate := Nat.cast_pos.mpr positive
  obtain ⟨covered, bounded⟩ := totalUnits_bounds each
  refine ⟨?whole, ?multiples, covered, ?bounded⟩
  case whole =>
    intro billed member
    obtain ⟨_, _, _, count, _, value, _⟩ := exists_of_mem_forall₂ each member
    exact ⟨count, value⟩
  case multiples =>
    refine each.imp ?_
    intro usage billed bills count multiple
    exact bills.of_multiple positive multiple
  case bounded =>
    have lines : (0 : ℚ) < usages.length := by
      exact_mod_cast List.length_pos_iff.mpr notEmpty
    rw [div_add' _ _ _ positiveRat.ne', lt_div_iff₀ positiveRat]
    linarith

end TariffEntry

/-! ## Lines of a reconciler -/

namespace Reconciler

variable {r : Reconciler} {key : UsageKey} {w : Window} {usages : List UsageRecord}

/-- A segment of time is of at least a second, and lies on the timeline. -/
theorem UsageOf.countsSeconds
    {s : Segment}
    {usage : UsageRecord}
    (ofSegment : UsageOf key .time s usage)
    (filled : s.first ≤ s.last) :
    usage.CountsSeconds := by
  have onTimeline := ofSegment.natAbs_length_lt
  have positive : 0 < s.length := by
    simp only [Segment.length]
    omega
  obtain ⟨seconds, isLength⟩ := Int.eq_ofNat_of_zero_le positive.le
  refine ⟨seconds, ?_, by omega, by omega⟩
  rw [ofSegment.toRat_volume_time, isLength]
  rfl

theorem Sound.countsSeconds_of_mem
    (sound : r.Sound)
    (byTime : ∀ track, r.tracks.get? key = some track → track.unit = .time)
    (width : 0 < w.width)
    (read : r.usageIn key.tenant w = .ok usages)
    {usage : UsageRecord}
    (member : usage ∈ key.among usages) :
    usage.CountsSeconds := by
  obtain ⟨stop, stops⟩ := exists_stop_of_usageIn read
  have ends := Window.timestamp_of_stop width stops
  obtain ⟨own, sameUsage, ofSegments⟩ :=
    sound.among_usageBetween key ((usageIn_eq_ok_iff stops key.tenant).mp read)
  obtain ⟨s, inSegments, track, found, ofSegment⟩ :=
    exists_of_mem_forall₂ ofSegments (sameUsage.mem_iff.mp member)
  rw [byTime track found] at ofSegment
  exact ofSegment.countsSeconds (sound.bounds_of_mem_segmentsOf (by omega) inSegments).2.1

theorem Sound.countsSeconds_of_windows
    (sound : r.Sound)
    (byTime : ∀ track, r.tracks.get? key = some track → track.unit = .time)
    {windows : List Window}
    {read : List (List UsageRecord)}
    (widths : ∀ w ∈ windows, 0 < w.width)
    (windowsRead : windows.mapM (r.usageIn key.tenant) = .ok read)
    {usage : UsageRecord}
    (member : usage ∈ key.among read.flatten) :
    usage.CountsSeconds := by
  obtain ⟨inRead, ofKey⟩ := List.mem_filter.mp member
  obtain ⟨usages, inWindows, inUsages⟩ := List.mem_flatten.mp inRead
  obtain ⟨w, inRun, windowRead⟩ :=
    exists_of_mem_forall₂ ((mapM_eq_ok_iff _ _ _).mp windowsRead) inWindows
  exact sound.countsSeconds_of_mem byTime (widths w inRun) windowRead
    (List.mem_filter.mpr ⟨inUsages, ofKey⟩)

end Reconciler

namespace TariffEntry

open Reconciler (Call)

/-- At a whole rate, lines of whole seconds are billed as units that cover the time and
exceed it by less than a unit a line; and whatever calls a reconciler was made by, its
lines of a key of time are of whole seconds, in any windows. -/
theorem coversTime_of_whole_rate
    {entry : TariffEntry}
    {rate : ℕ}
    (isRate : entry.rate.toRat = rate)
    (above : 1 < rate)
    (atMost : rate ≤ 10 ^ 28) :
    (∀ usages : List UsageRecord, usages ≠ [] → (∀ usage ∈ usages, usage.CountsSeconds) →
      ∃ units, usages.mapM (fun usage => entry.billableUnits usage.volume) = .ok units ∧
        CoversTime rate usages units) ∧
      ∀ (deviation : ℕ) (calls : List Call) (key : UsageKey) (windows : List Window)
        (read : List (List UsageRecord)),
        let r := (Reconciler.empty deviation).performAll calls
        (∀ track, r.tracks.get? key = some track → track.unit = .time) →
          (∀ w ∈ windows, 0 < w.width) → windows.mapM (r.usageIn key.tenant) = .ok read →
            ∀ usage ∈ key.among read.flatten, usage.CountsSeconds := by
  constructor
  · intro usages notEmpty counts
    have each : ∀ usage ∈ usages, ∃ billed,
        entry.billableUnits usage.volume = .ok billed ∧ BillsStarted rate usage billed :=
      fun usage member => exists_billsStarted isRate above atMost (counts usage member)
    obtain ⟨units, billed⟩ : ∃ units,
        usages.mapM (fun usage => entry.billableUnits usage.volume) = .ok units :=
      exists_mapM_eq_ok fun usage member => (each usage member).imp fun _ => And.left
    have paired := (List.forall₂_and_left usages units).mpr
      ⟨fun _ member => member, (mapM_eq_ok_iff _ _ _).mp billed⟩
    refine ⟨units, billed, coversTime_of_billsStarted (by omega) notEmpty (paired.imp ?_)⟩
    rintro usage unit ⟨member, bills⟩
    obtain ⟨other, sameBill, started⟩ := each usage member
    exact Except.ok.inj (bills.symm.trans sameBill) ▸ started
  · intro deviation calls key windows read r byTime widths windowsRead usage member
    exact ((Reconciler.sound_empty deviation).performAll calls).countsSeconds_of_windows byTime
      widths windowsRead member

def timeCalls (usage : UsageRecord) : List Call :=
  [.record "acme" usage .time]

/-- An hour and a half is billed as two hours in two hourly windows. -/
theorem coversTime_two_windows :
    ∃ read,
      ([⟨.ofSecond 0, 3600⟩, ⟨.ofSecond 3600, 3600⟩] : List Window).mapM
          (((Reconciler.empty 1).performAll (timeCalls (Reconciler.instanceTime 0 5400))).usageIn
            "acme") = .ok read ∧
        read.flatten.mapM (fun usage => hourly.billableUnits usage.volume) =
          .ok [Decimal.one, Decimal.one] ∧
        CoversTime 3600 read.flatten [Decimal.one, Decimal.one] := by
  have isRate : hourly.rate.toRat = (3600 : ℕ) := toRat_rate_hourly
  obtain ⟨billed, reconciled⟩ := coversTime_of_whole_rate isRate (by decide) (by decide)
  let windows : List Window := [⟨.ofSecond 0, 3600⟩, ⟨.ofSecond 3600, 3600⟩]
  let lines : List UsageRecord := [Reconciler.instanceTime 0 3600,
    { Reconciler.instanceTime 3600 5400 with volume := .ofInt 1800 }]
  let calls : List Call := timeCalls (Reconciler.instanceTime 0 5400)
  have read : windows.mapM (((Reconciler.empty 1).performAll calls).usageIn "acme") =
      .ok (lines.map fun line => [line]) := by
    decide +kernel
  have counts : ∀ line ∈ lines, line.CountsSeconds :=
    reconciled 1 calls ⟨"acme", "vm-1", "m1.small"⟩ windows _ (by decide +kernel)
      (by decide) read
  have two : lines.mapM (fun usage => hourly.billableUnits usage.volume) =
      .ok [Decimal.one, Decimal.one] := by
    decide +kernel
  obtain ⟨units, inUnits, covers⟩ := billed lines (by decide) counts
  rw [Except.ok.inj (inUnits.symm.trans two)] at covers
  exact ⟨_, read, two, covers⟩

end TariffEntry

end UsageBilling
