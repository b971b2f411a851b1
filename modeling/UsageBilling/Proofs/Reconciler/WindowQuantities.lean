import UsageBilling.Proofs.Coverage.Tiling
import UsageBilling.Proofs.Reconciler.Quantity
import UsageBilling.Proofs.Reconciler.Replay

/-!
Contract: quantities recorded for whole windows.

Owns:
- windows of one width as tiles of the timeline;
- a key whose usage is for whole windows: what is kept for it in a window is the last
  usage for the window, and nothing if there is none;
- what windows show of such a key, if its usage is quantities.

Neighbouring windows with the same quantity are kept as one segment, which comes apart
where windows are read. As long as the deviation is not greater than the width, no
window without usage is bridged.

Does not own: how such usage is metered.
-/

namespace UsageBilling

open Coverage (Tiled Within lastHolding?)
open Reconciler (segmentOf)

variable {origin width : Int} {w v : Window} {windows : List Window} {usage : UsageRecord}
  {tenant : String} {key : UsageKey} {entries : List (UsageRecord × RateUnit)}
  {u : UsageRecord × RateUnit} {deviation : Nat}

/-! ## Windows as tiles -/

namespace Window

/-- Whether a window is one of those of a width that are laid from a second. -/
structure OnGrid (origin width : Int) (w : Window) : Prop where
  whole : w.Whole
  sameWidth : w.width = width
  aligned : width ∣ w.start.timestamp - origin

/-- The usage that starts with a window. -/
def starting (w : Window) (records : List UsageRecord) : List UsageRecord :=
  records.filter fun record => record.start = w.start

/-- The seconds of a window with a weight. -/
def segment (w : Window) (weight : Int) : Segment :=
  ⟨w.start.timestamp, w.start.timestamp + w.width - 1, weight⟩

theorem OnGrid.tiled_segment
    (onGrid : OnGrid origin width w)
    (weight : Int) :
    Tiled origin width (w.segment weight) := by
  have next := Int.dvd_add onGrid.aligned (Int.dvd_refl width)
  refine ⟨onGrid.aligned, ?_⟩
  rw [segment, onGrid.sameWidth]
  rwa [show w.start.timestamp + width - 1 + 1 - origin =
    w.start.timestamp - origin + width by omega]

/-- Windows of a grid that share a second are the same. -/
theorem OnGrid.within_segment_iff
    (onGrid : OnGrid origin width w)
    (ofGrid : OnGrid origin width v)
    (weight : Int) :
    Within (v.segment weight) w.start.timestamp ↔ v.start = w.start := by
  have positive := onGrid.whole.width
  have sameWidth := ofGrid.sameWidth
  rw [onGrid.sameWidth] at positive
  constructor
  · intro ⟨lower, upper⟩
    simp only [segment] at lower upper
    have latest : w.start.timestamp ≤ v.start.timestamp :=
      Coverage.le_of_dvd_of_lt onGrid.aligned ofGrid.aligned (by omega)
    exact Instant.eq_of_timestamp (Int.le_antisymm lower latest)
      (ofGrid.whole.start.trans onGrid.whole.start.symm)
  · intro sameStart
    refine ⟨?_, ?_⟩
    · simp only [segment, sameStart, Int.le_refl]
    · simp only [segment, sameStart]
      omega

end Window

theorem UsageRecord.Fills.segmentOf_eq
    (fills : usage.Fills w)
    (whole : w.Whole)
    (weight : Int) :
    segmentOf usage weight = w.segment weight := by
  have ⟨starts, stops⟩ := fills
  have ⟨ends, _⟩ := whole.stop_eq_ok_iff.mp stops
  rw [segmentOf, Window.segment, starts, ends]

/-! ## The track of a key -/

namespace Reconciler

/-- The weight that usage is kept under; without one it is not kept. -/
def keptWeight (u : UsageRecord × RateUnit) : Int :=
  (weightOf u.1 u.2).toOption.getD 0

theorem weightOf_eq_keptWeight
    (recordable : Recordable u)
    (reaches : Reaches u.1) :
    weightOf u.1 u.2 = .ok (keptWeight u) := by
  have ⟨s, found⟩ := Option.isSome_iff_exists.mp (recordable reaches)
  have ⟨_, weight, weighed, _⟩ := (segment?_eq_some_iff u s).mp found
  rw [keptWeight, weighed]
  rfl

def keptSegment (u : UsageRecord × RateUnit) : Segment :=
  segmentOf u.1 (keptWeight u)

/-- The usage of a key, in order. -/
def entriesOf (tenant : String) (key : UsageKey) (entries : List (UsageRecord × RateUnit)) :
    List (UsageRecord × RateUnit) :=
  entries.filter fun u => key = UsageKey.ofRecord tenant u.1

/-- Usage that can be recorded, of which that of a key is for whole windows of a grid. -/
structure ForWindows (origin width : Int) (windows : List Window) (tenant : String)
    (key : UsageKey) (entries : List (UsageRecord × RateUnit)) : Prop where
  onGrid : ∀ w ∈ windows, w.OnGrid origin width
  recordable : ∀ u ∈ entries, Recordable u
  fills : ∀ u ∈ entriesOf tenant key entries, ∃ w ∈ windows, u.1.Fills w

namespace ForWindows

/-- The segment of usage for a window. -/
theorem exists_segment?_eq
    (forWindows : ForWindows origin width windows tenant key entries)
    (member : u ∈ entriesOf tenant key entries) :
    ∃ v ∈ windows, u.1.Fills v ∧ weightOf u.1 u.2 = .ok (keptWeight u) ∧
      segment? u = some (keptSegment u) ∧ keptSegment u = v.segment (keptWeight u) := by
  have ⟨v, inWindows, fills⟩ := forWindows.fills u member
  have whole := (forWindows.onGrid v inWindows).whole
  have weighed := weightOf_eq_keptWeight
    (forWindows.recordable u (List.mem_filter.mp member).1) (fills.reaches whole)
  exact ⟨v, inWindows, fills, weighed,
    (segment?_eq_some_iff u _).mpr ⟨fills.reaches whole, _, weighed, rfl⟩,
    fills.segmentOf_eq whole _⟩

/-- All usage of the key is kept. -/
theorem keptOf_eq
    (forWindows : ForWindows origin width windows tenant key entries) :
    keptOf tenant key entries = entriesOf tenant key entries := by
  apply List.filter_congr
  intro u member
  apply decide_eq_decide.mpr
  constructor
  · exact And.left
  · intro ofKey
    have ⟨_, _, _, _, found, _⟩ := forWindows.exists_segment?_eq
      (List.mem_filter.mpr ⟨member, decide_eq_true ofKey⟩)
    exact ⟨ofKey, Option.isSome_of_eq_some found⟩

/-- The segments of the key's usage, one for each piece of it. -/
theorem filterMap_segment?
    (forWindows : ForWindows origin width windows tenant key entries) :
    (entriesOf tenant key entries).filterMap segment? =
      (entriesOf tenant key entries).map keptSegment := by
  rw [← List.filterMap_eq_map]
  apply List.filterMap_congr
  intro u member
  have ⟨_, _, _, _, found, _⟩ := forWindows.exists_segment?_eq member
  exact found

theorem inhabited_and_tiled
    (forWindows : ForWindows origin width windows tenant key entries) :
    ∀ s ∈ (entriesOf tenant key entries).map keptSegment,
      s.first ≤ s.last ∧ Tiled origin width s := by
  intro s member
  have ⟨u, inEntries, ofUsage⟩ := List.mem_map.mp member
  have ⟨v, inWindows, fills, _, _, ofWindow⟩ := forWindows.exists_segment?_eq inEntries
  have onGrid := forWindows.onGrid v inWindows
  rw [← ofUsage]
  refine ⟨inhabited_segmentOf (fills.reaches onGrid.whole) _, ?_⟩
  rw [ofWindow]
  exact onGrid.tiled_segment _

/-- The last segment that holds the start of a window is that of the last usage for it. -/
theorem lastHolding?_eq
    (forWindows : ForWindows origin width windows tenant key entries)
    (inWindows : w ∈ windows) :
    lastHolding? ((entriesOf tenant key entries).map keptSegment) w.start.timestamp =
      ((entriesOf tenant key entries).filter fun u => u.1.start = w.start).getLast?.map
        keptSegment := by
  rw [lastHolding?, List.filter_map, List.getLast?_map]
  congr 2
  apply List.filter_congr
  intro u member
  have ⟨v, ofGrid, ⟨starts, _⟩, _, _, ofWindow⟩ := forWindows.exists_segment?_eq member
  apply decide_eq_decide.mpr
  show Within (keptSegment u) w.start.timestamp ↔ _
  rw [ofWindow, starts]
  exact (forWindows.onGrid w inWindows).within_segment_iff (forWindows.onGrid v ofGrid) _

/-- What is kept for the key in a window: the last usage for it. -/
theorem segmentsOf_takeAll
    (forWindows : ForWindows origin width windows tenant key entries)
    (narrow : deviation ≤ width)
    (inWindows : w ∈ windows) :
    ((empty deviation).takeAll tenant entries).segmentsOf key w.start.timestamp
        (w.start.timestamp + w.width - 1) =
      (((entriesOf tenant key entries).filter fun u => u.1.start = w.start).getLast?.map
        fun u => w.segment (keptWeight u)).toList := by
  have onGrid := forWindows.onGrid w inWindows
  have positive := onGrid.whole.width
  have each := forWindows.inhabited_and_tiled
  rw [segmentsOf, get?_takeAll_of_none rfl, forWindows.keptOf_eq]
  cases first : (entriesOf tenant key entries).head? with
  | none =>
    rw [List.head?_eq_none_iff.mp first]
    rfl
  | some u =>
    rw [onGrid.sameWidth] at positive
    have covered := Coverage.inRange_foldl_insertSegment narrow positive
      (fun s member => (each s member).1) (fun s member => (each s member).2) onGrid.aligned
    rw [forWindows.lastHolding?_eq inWindows, Option.map_map, ← forWindows.filterMap_segment?]
      at covered
    -- The track begins with nothing, and the key's usage paints its windows in order.
    show (Track.takeAll _ ⟨Coverage.empty deviation, u.2, none⟩).coverage.inRange _ _ = _
    rw [Track.coverage_takeAll, onGrid.sameWidth, covered]
    simp only [Window.segment, onGrid.sameWidth]
    rfl

end ForWindows

/-! ## What windows show -/

/-- What a window shows of a key whose usage is quantities for windows: one record for
the window as a whole, with the quantity of the last usage for it, or none. -/
structure ShowsLast (w : Window) (emitted shown : List UsageRecord) : Prop where
  idle : w.starting emitted = [] → shown = []
  used : ∀ last ∈ (w.starting emitted).getLast?,
    ∃ line, shown = [line] ∧ line.Fills w ∧ line.volume.toRat = last.volume.toRat

/-- The records of a key, in order. -/
def recordsOf (tenant : String) (key : UsageKey) (entries : List (UsageRecord × RateUnit)) :
    List UsageRecord :=
  (entriesOf tenant key entries).map Prod.fst

theorem starting_recordsOf
    (w : Window)
    (tenant : String)
    (key : UsageKey)
    (entries : List (UsageRecord × RateUnit)) :
    w.starting (recordsOf tenant key entries) =
      ((entriesOf tenant key entries).filter fun u => u.1.start = w.start).map Prod.fst := by
  rw [Window.starting, recordsOf, List.filter_map]
  rfl

theorem UsageOf.fills
    {unit : RateUnit}
    {weight : Int}
    (ofSegment : UsageOf key unit (w.segment weight) usage)
    (whole : w.Whole) :
    usage.Fills w := by
  have stop := ofSegment.stop
  simp only [Window.segment] at stop
  refine ⟨Instant.eq_of_timestamp ofSegment.start (ofSegment.wholeStart.trans whole.start.symm), ?_⟩
  rw [whole.stop_eq_ok_iff]
  exact ⟨by omega, ofSegment.wholeStop⟩

/-- A key whose usage is quantities is tracked as one. -/
theorem unit_of_get?_takeAll
    (quantities : ∀ u ∈ entriesOf tenant key entries, u.2 = .quantity)
    {track : Track}
    (found : ((empty deviation).takeAll tenant entries).tracks.get? key = some track) :
    track.unit = .quantity := by
  rw [get?_takeAll_of_none rfl] at found
  have ⟨u, first, made⟩ := Option.map_eq_some_iff.mp found
  have ⟨ofAll, isKept⟩ := List.mem_filter.mp (List.mem_of_mem_head? first)
  rw [← made, unit_takeAll]
  exact quantities u (List.mem_filter.mpr ⟨ofAll, decide_eq_true (of_decide_eq_true isKept).1⟩)

theorem ForWindows.showsLast
    (forWindows : ForWindows origin width windows tenant key entries)
    (quantities : ∀ u ∈ entriesOf tenant key entries, u.2 = .quantity)
    (narrow : deviation ≤ width)
    (inWindows : w ∈ windows)
    {usages : List UsageRecord}
    (read : ((empty deviation).takeAll tenant entries).usageIn key.tenant w = .ok usages) :
    ShowsLast w (recordsOf tenant key entries) (key.among usages) := by
  have ⟨stop, stops⟩ := exists_stop_of_usageIn read
  have whole := (forWindows.onGrid w inWindows).whole
  have ⟨ends, _⟩ := whole.stop_eq_ok_iff.mp stops
  have sound := ((sound_empty deviation).takeAll tenant entries).1
  have ⟨own, sameUsage, ofSegments⟩ :=
    sound.among_usageBetween key ((usageIn_eq_ok_iff stops key.tenant).mp read)
  rw [ends, forWindows.segmentsOf_takeAll narrow inWindows] at ofSegments
  have starting := starting_recordsOf w tenant key entries
  constructor
  · intro noUsage
    rw [noUsage] at starting
    rw [List.map_eq_nil_iff.mp starting.symm] at ofSegments
    cases ofSegments
    exact sameUsage.eq_nil
  · intro last isLast
    rw [starting, List.getLast?_map] at isLast
    have ⟨u, lastUsage, ofUsage⟩ := Option.map_eq_some_iff.mp isLast
    have member := (List.mem_filter.mp (List.mem_of_getLast? lastUsage)).1
    have ⟨_, _, _, weighed, _, _⟩ := forWindows.exists_segment?_eq member
    rw [lastUsage] at ofSegments
    have ⟨line, rest, ⟨track, found, ofSegment⟩, noRest, ofOwn⟩ :=
      List.forall₂_cons_left_iff.mp ofSegments
    rw [List.forall₂_nil_left_iff.mp noRest] at ofOwn
    rw [ofOwn, List.perm_singleton] at sameUsage
    rw [unit_of_get?_takeAll quantities found] at ofSegment
    rw [quantities u member] at weighed
    refine ⟨line, sameUsage, ofSegment.fills whole, ?_⟩
    rw [← ofUsage]
    exact ofSegment.toRat_volume (d := ⟨tenant, u.1⟩) weighed

/-! ## What a run of windows shows -/

theorem ShowsLast.fills
    {emitted shown : List UsageRecord}
    (showsLast : ShowsLast w emitted shown) :
    ∀ line ∈ shown, line.Fills w := by
  intro line member
  cases last : (w.starting emitted).getLast? with
  | none =>
    rw [showsLast.idle (List.getLast?_eq_none_iff.mp last)] at member
    cases member
  | some record =>
    have ⟨only, ofWindow, fills, _⟩ := showsLast.used record last
    rw [ofWindow, List.mem_singleton] at member
    exact member ▸ fills

theorem ShowsLast.of_perm
    {emitted shown shown' : List UsageRecord}
    (showsLast : ShowsLast w emitted shown)
    (permuted : shown'.Perm shown) :
    ShowsLast w emitted shown' := by
  constructor
  · intro noUsage
    rw [showsLast.idle noUsage] at permuted
    exact permuted.eq_nil
  · intro last isLast
    have ⟨line, ofWindow, sameUsage⟩ := showsLast.used last isLast
    rw [ofWindow, List.perm_singleton] at permuted
    exact ⟨line, permuted, sameUsage⟩

/-- Of what windows show in turn, the usage that starts with a window is what it
shows. -/
theorem shows_starting_flatten
    {shows : Window → List UsageRecord → Prop}
    {shown : List (List UsageRecord)}
    (starts : ∀ w own, shows w own → ∀ line ∈ own, line.start = w.start)
    (apart : windows.Pairwise fun w later => w.start ≠ later.start)
    (ofWindows : List.Forall₂ shows windows shown) :
    ∀ w ∈ windows, shows w (w.starting shown.flatten) := by
  induction ofWindows with
  | nil =>
    intro w member
    cases member
  | @cons first own rest shown ofFirst ofRest inductionHypothesis =>
    have ⟨firstApart, restApart⟩ := List.pairwise_cons.mp apart
    intro w member
    rw [List.flatten_cons, Window.starting, List.filter_append]
    rcases List.mem_cons.mp member with isFirst | inRest
    · have noneLater : (shown.flatten.filter fun line => line.start = first.start) = [] := by
        rw [List.filter_eq_nil_iff]
        intro line inShown
        have ⟨later, inLater, inOwn⟩ := List.mem_flatten.mp inShown
        have ⟨v, ofRestWindows, ofLater⟩ := exists_of_mem_forall₂ ofRest inLater
        rw [starts v later ofLater line inOwn, decide_eq_true_eq]
        exact fun same => firstApart v ofRestWindows same.symm
      have allOwn : (own.filter fun line => line.start = first.start) = own :=
        List.filter_eq_self.mpr fun line inOwn =>
          decide_eq_true (starts first own ofFirst line inOwn)
      rw [isFirst, noneLater, allOwn, List.append_nil]
      exact ofFirst
    · have noneEarlier : (own.filter fun line => line.start = w.start) = [] := by
        rw [List.filter_eq_nil_iff]
        intro line inOwn
        rw [starts first own ofFirst line inOwn, decide_eq_true_eq]
        exact firstApart w inRest
      rw [noneEarlier, List.nil_append]
      exact inductionHypothesis restApart w inRest

/-- Windows read back in turn show a key whose usage is quantities for windows once for
each window that has some, as a whole and with the last of them. -/
theorem ForWindows.showsLast_of_windows
    (forWindows : ForWindows origin width windows tenant key entries)
    (quantities : ∀ u ∈ entriesOf tenant key entries, u.2 = .quantity)
    (narrow : deviation ≤ width)
    (apart : windows.Pairwise fun w later => w.start ≠ later.start)
    {collected : List (List UsageRecord)}
    (read : List.Forall₂ (fun w usages =>
      ((empty deviation).takeAll tenant entries).usageIn key.tenant w = .ok usages)
      windows collected) :
    (∀ line ∈ key.among collected.flatten, ∃ w ∈ windows, line.Fills w) ∧
      ∀ w ∈ windows, ShowsLast w (recordsOf tenant key entries)
        (w.starting (key.among collected.flatten)) := by
  have flattened : key.among collected.flatten = (collected.map key.among).flatten :=
    List.filter_flatten
  have shows : List.Forall₂ (fun w => ShowsLast w (recordsOf tenant key entries)) windows
      (collected.map key.among) := by
    rw [List.forall₂_map_right_iff]
    refine ((List.forall₂_and_left windows collected).mpr ⟨fun _ member => member, read⟩).imp
      fun w usages => ?_
    intro ⟨inWindows, windowRead⟩
    exact forWindows.showsLast quantities narrow inWindows windowRead
  have starts : ∀ w own, ShowsLast w (recordsOf tenant key entries) own →
      ∀ line ∈ own, line.start = w.start :=
    fun w own showsLast line member => (showsLast.fills line member).1
  rw [flattened]
  refine ⟨?_, shows_starting_flatten starts apart shows⟩
  intro line member
  have ⟨own, inShown, inOwn⟩ := List.mem_flatten.mp member
  have ⟨w, inWindows, showsLast⟩ := exists_of_mem_forall₂ shows inShown
  exact ⟨w, inWindows, showsLast.fills line inOwn⟩

end Reconciler

end UsageBilling
