import UsageBilling.Proofs.Coverage.Interchange
import UsageBilling.Proofs.Coverage.Text
import UsageBilling.Proofs.Period.FinishingOrder
import UsageBilling.Proofs.Rating.Lines
import UsageBilling.Proofs.Reconciler.OneKey
import UsageBilling.Proofs.Reconciler.Snapshots

/-!
Contract: a service that probes two pieces of usage of one key.

Owns:
- a service that begins with any coverage of the key, prices nothing, and keeps
  what it saves;
- what it saves of the two, and what it bills in one second of them;
- if it does not tell their order, the two have one unit, names that agree, and
  interchangeable segments.

Does not own: what other services bill.
-/

namespace UsageBilling

open Reconciler (Recordable segment? segmentOf weightOf volumeOf)

def SnapshotStore.cell : SnapshotStore String where
  load _ text := (.ok (some text), text)
  save _ text _ := (.ok (), text)

/-- A job that was metered as one piece of usage. -/
def MeteredJob.single (u : UsageRecord × RateUnit) : MeteredJob :=
  ⟨u.2, [u.1]⟩

/-- Whether a job was metered as one piece of usage that can be recorded. -/
def MeteredJob.IsSingle (job : MeteredJob) : Prop :=
  ∃ u, Recordable u ∧ job = single u

namespace BillingService

open MeteredJob (CompatibleWith single)

variable {deviation : Nat} {tenant : String} {key : UsageKey} {u v : UsageRecord × RateUnit}

/-- A service that prices nothing, with a text in its store. -/
def probe (deviation : Nat) (text : String) : BillingService String :=
  start ⟨⟨Window.hourWidth, deviation, Rating.defaultTariff⟩, Settings.standard.storage⟩
    MeterRegistry.empty
    (Catalog.empty.insertTariff ⟨Rating.defaultTariff, Table.empty⟩)
    (some .cell) text

/-- A request for a tenant. Its period does not matter once windows are given. -/
def probeRequest (tenant : String) (t : Instant) : PeriodRequest :=
  ⟨tenant, t, t, [], []⟩

/-- The track of a key once two pieces of usage are recorded over a text. -/
def probed (deviation : Nat) (text : String) (u v : UsageRecord × RateUnit) : Track :=
  ((⟨Coverage.ofText text deviation, u.2, none⟩ : Track).take u).take v

theorem kept_probed
    (deviation : Nat)
    (text : String)
    (u v : UsageRecord × RateUnit) :
    (probed deviation text u v).coverage.Kept ∧
      (probed deviation text u v).coverage.deviation = deviation := by
  obtain ⟨kept, sameDeviation⟩ := Coverage.kept_ofText text deviation
  obtain ⟨uKept, uDeviation⟩ : ((⟨Coverage.ofText text deviation, u.2, none⟩ : Track).take
      u).coverage.Kept ∧ _ := Reconciler.kept_take kept u
  obtain ⟨vKept, vDeviation⟩ := Reconciler.kept_take uKept v
  exact ⟨vKept, vDeviation.trans (uDeviation.trans sameDeviation)⟩

theorem keyUnits_single
    (sameKey : UsageKey.ofRecord tenant u.1 = UsageKey.ofRecord tenant v.1) :
    keyUnits tenant [single u, single v] = ⟨[(UsageKey.ofRecord tenant u.1, u.2)]⟩ := by
  simp [keyUnits, recordsWithUnits, single, Table.getOrInsert, Table.empty, Table.get?,
    Table.lookup, Table.insert, Table.put, ← sameKey]

theorem reconcile_probe
    (deviation : Nat)
    (sameKey : UsageKey.ofRecord tenant u.1 = UsageKey.ofRecord tenant v.1)
    (uRecordable : Recordable u)
    (vRecordable : Recordable v)
    (text : String) :
    (probe deviation text).reconcile tenant [single u, single v] =
      (.ok (Reconciler.only deviation (UsageKey.ofRecord tenant u.1) (probed deviation text u v)),
        probe deviation (probed deviation text u v).coverage.toText) := by
  have keys : orderedKeys (keyUnits tenant [single u, single v]) =
      [(UsageKey.ofRecord tenant u.1, u.2)] := by
    rw [keyUnits_single sameKey, orderedKeys, List.mergeSort_singleton]
  have restored : (probe deviation text).restored [(UsageKey.ofRecord tenant u.1, u.2)] =
      (Reconciler.only deviation (UsageKey.ofRecord tenant u.1)
        ⟨Coverage.ofText text deviation, u.2, none⟩, text) := rfl
  have records : recordsWithUnits [single u, single v] = [u, v] := rfl
  have recorded : recordAll tenant [u, v] (Reconciler.only deviation
      (UsageKey.ofRecord tenant u.1) ⟨Coverage.ofText text deviation, u.2, none⟩) =
      .ok (Reconciler.only deviation (UsageKey.ofRecord tenant u.1)
        (probed deviation text u v)) := by
    rw [recordAll_eq_takeAll, if_pos (by simp [uRecordable, vRecordable])]
    simp only [Reconciler.takeAll, List.foldl_cons, List.foldl_nil, Reconciler.take_only,
      sameKey, probed]
  rw [reconcile_eq, keys]
  simp only [restored, records, recorded]
  simp [probe, saved, saveKeys, saveKey, Reconciler.snapshot, Reconciler.only, Table.get?,
    Table.lookup, BillingService.start, SnapshotStore.cell]

theorem stored_settle_probe
    (sameKey : UsageKey.ofRecord tenant u.1 = UsageKey.ofRecord tenant v.1)
    (uRecordable : Recordable u)
    (vRecordable : Recordable v)
    (text : String)
    (t : Instant) :
    ((probe deviation text).settle (probeRequest tenant t) [] [single u, single v]).2.stored =
      (probed deviation text u v).coverage.toText := by
  have reconciled := reconcile_probe deviation sameKey uRecordable vRecordable text
  simp only [settle, probeRequest, reconciled]
  rfl

theorem exists_settle_probe
    (sameKey : UsageKey.ofRecord tenant u.1 = UsageKey.ofRecord tenant v.1)
    (uRecordable : Recordable u)
    (vRecordable : Recordable v)
    {text : String}
    {w : Window}
    (whole : w.Whole)
    (oneSecond : w.width = 1)
    {stop : Instant}
    (stops : w.stop = .ok stop)
    (readable : Reconciler.Readable (probed deviation text u v) w.start.timestamp)
    (t : Instant) :
    ∃ usage invoice after,
      (probe deviation text).settle (probeRequest tenant t) [w] [single u, single v] =
          (.ok invoice, after) ∧
        invoice.usages = [usage] ∧
        after.catalog.provisional.get? u.1.service =
          some (TariffEntry.provisional u.1.service u.2) ∧
        ((UsageKey.ofRecord tenant u.1).resource ≠ "" →
          usage.resourceName = (probed deviation text u v).resourceName) := by
  obtain ⟨kept, _⟩ := kept_probed deviation text u v
  obtain ⟨usage, read, ofKey, named⟩ : ∃ usage, (Reconciler.only deviation
      (UsageKey.ofRecord tenant u.1) (probed deviation text u v)).usageIn tenant w = .ok [usage] ∧
        UsageKey.ofRecord tenant usage = UsageKey.ofRecord tenant u.1 ∧
        ((UsageKey.ofRecord tenant u.1).resource ≠ "" →
          usage.resourceName = (probed deviation text u v).resourceName) :=
    Reconciler.exists_usageIn_only kept whole oneSecond stops readable
  have sameService : usage.service = u.1.service := congrArg UsageKey.service ofKey
  have unpriced : Rating.Unpriced (probe deviation text).catalog Rating.defaultTariff
      usage.service :=
    ⟨⟨_, rfl, rfl⟩, rfl, rfl⟩
  let unitOf := fun record : UsageRecord =>
    ((keyUnits tenant [single u, single v]).get? (UsageKey.ofRecord tenant record)).getD
      .unspecified
  have unit : unitOf usage = u.2 := by
    simp [unitOf, keyUnits_single sameKey, ofKey, Table.get?, Table.lookup]
  obtain ⟨invoice, after, rated, given⟩ := Rating.exists_invoice_of_unpriced unpriced tenant
    (t, t) unitOf
  rw [unit, sameService] at given
  have readAll : readBack tenant [w] (Reconciler.only deviation (UsageKey.ofRecord tenant u.1)
      (probed deviation text u v)) = .ok [usage] :=
    (readBack_eq_ok_iff _ _ _ _).mpr ⟨[[usage]], List.Forall₂.cons read List.Forall₂.nil, rfl⟩
  have reconciled := reconcile_probe deviation sameKey uRecordable vRecordable text
  refine ⟨usage, invoice, { probe deviation (probed deviation text u v).coverage.toText with
    catalog := after }, ?_, List.perm_singleton.mp (Rating.usages_invoice rated), given, named⟩
  simp only [settle, probeRequest, reconciled, readAll, rateUsage]
  exact congrArg (fun result : Outcome Invoice × Catalog => (result.1,
    { probe deviation (probed deviation text u v).coverage.toText with catalog := result.2 })) rated

/-- Whether probing two pieces of usage gives the same bill in either order. -/
def ProbedAlike (deviation : Nat) (tenant : String) (u v : UsageRecord × RateUnit) : Prop :=
  ∀ t text windows,
    SameBill ((probe deviation text).settle (probeRequest tenant t) windows [single u, single v])
      ((probe deviation text).settle (probeRequest tenant t) windows [single v, single u])

/-- The first of the two gives the key its unit, which shows where the service is
provisioned. -/
theorem unit_eq_of_probedAlike
    (alike : ProbedAlike deviation tenant u v)
    (sameKey : UsageKey.ofRecord tenant u.1 = UsageKey.ofRecord tenant v.1)
    (uRecordable : Recordable u)
    (vRecordable : Recordable v) :
    u.2 = v.2 := by
  let text := (Coverage.ofPoint deviation 0 1).toText
  let w : Window := ⟨.ofSecond 0, 1⟩
  have whole : w.Whole := ⟨rfl, Int.one_pos⟩
  have stops : w.stop = .ok (.ofSecond 1) := whole.stop_eq_ok_iff.mpr ⟨rfl, rfl⟩
  have begins : Coverage.ofText text deviation = Coverage.ofPoint deviation 0 1 := by
    apply (Coverage.kept_ofPoint deviation 0 1).ofText_toText
    intro s member
    obtain rfl := List.mem_singleton.mp member
    exact ⟨rfl, rfl, rfl⟩
  have readable : ∀ u v, Reconciler.Readable (probed deviation text u v) w.start.timestamp := by
    intro u v
    have kept := (Coverage.kept_ofText text deviation).1
    apply Reconciler.Readable.take _ (Reconciler.kept_take kept u).1
    apply Reconciler.Readable.take _ kept
    obtain ⟨volume, measured⟩ : ∃ volume, volumeOf u.2 ⟨0, 0, 1⟩ = .ok volume := by
      cases u.2 <;> exact ⟨_, rfl⟩
    refine ⟨1, volume, ?_, measured⟩
    rw [begins, Coverage.weighs_ofPoint_iff]
    exact ⟨rfl, rfl⟩
  obtain ⟨_, _, after, uFirst, _, uProvisioned, _⟩ := exists_settle_probe sameKey uRecordable
    vRecordable whole rfl stops (readable u v) w.start
  obtain ⟨_, _, after', vFirst, _, vProvisioned, _⟩ := exists_settle_probe sameKey.symm vRecordable
    uRecordable whole rfl stops (readable v u) w.start
  have sameAfter := (alike w.start text [w]).2
  have sameService : u.1.service = v.1.service := congrArg UsageKey.service sameKey
  rw [uFirst, vFirst] at sameAfter
  simp only at sameAfter
  rw [sameAfter, sameService, vProvisioned] at uProvisioned
  exact (congrArg TariffEntry.unit (Option.some.inj uProvisioned)).symm

/-- The second of the two gives the key its name, which shows in the first second
of either. -/
theorem namesAgree_of_probedAlike
    (alike : ProbedAlike deviation tenant u v)
    (sameKey : UsageKey.ofRecord tenant u.1 = UsageKey.ofRecord tenant v.1)
    {s t : Segment}
    (ofU : segment? u = some s)
    (ofV : segment? v = some t) :
    NamesAgree (UsageKey.ofRecord tenant u.1) u.1.resourceName v.1.resourceName := by
  have uRecordable := Reconciler.recordable_of_segment? ofU
  have vRecordable := Reconciler.recordable_of_segment? ofV
  obtain ⟨reaches, weight, _, rfl⟩ := (Reconciler.segment?_eq_some_iff u s).mp ofU
  obtain ⟨w, stop, whole, oneSecond, stops, begins⟩ := Reconciler.exists_firstSecond reaches
  have within : Coverage.Within (segmentOf u.1 weight) w.start.timestamp := by
    rw [begins]
    exact ⟨Int.le_refl _, Reconciler.inhabited_segmentOf reaches weight⟩
  have kept := (Coverage.kept_ofText "" deviation).1
  have uReadable : Reconciler.Readable (probed deviation "" u v) w.start.timestamp :=
    (Reconciler.readable_take_of_within kept ofU within).take (Reconciler.kept_take kept u).1 v
  have vReadable : Reconciler.Readable (probed deviation "" v u) w.start.timestamp :=
    Reconciler.readable_take_of_within (Reconciler.kept_take kept v).1 ofU within
  obtain ⟨usage, invoice, _, uFirst, billed, _, named⟩ := exists_settle_probe sameKey uRecordable
    vRecordable whole oneSecond stops uReadable w.start
  obtain ⟨usage', invoice', _, vFirst, billed', _, named'⟩ := exists_settle_probe sameKey.symm
    vRecordable uRecordable whole oneSecond stops vReadable w.start
  have sameInvoice := (alike w.start "" [w]).1
  rw [uFirst, vFirst] at sameInvoice
  obtain rfl : invoice = invoice' := Option.some.inj sameInvoice
  obtain rfl : usage = usage' := by
    rw [billed] at billed'
    exact List.head_eq_of_cons_eq billed'
  by_cases blank : (UsageKey.ofRecord tenant u.1).resource = ""
  · exact Or.inl blank
  · have sameName := (named blank).symm.trans (named' (sameKey ▸ blank))
    simp only [probed, Track.take, ofU, ofV, Track.add] at sameName
    exact NamesAgree.of_orElse sameName.symm

/-- The later of the two shows in what is saved. -/
theorem interchangeable_of_probedAlike
    (alike : ProbedAlike deviation tenant u v)
    (sameKey : UsageKey.ofRecord tenant u.1 = UsageKey.ofRecord tenant v.1)
    {s t : Segment}
    (ofU : segment? u = some s)
    (ofV : segment? v = some t) :
    Coverage.Interchangeable deviation s t := by
  have uRecordable := Reconciler.recordable_of_segment? ofU
  have vRecordable := Reconciler.recordable_of_segment? ofV
  have commutes : ∀ c : Coverage, Coverage.ofText c.toText deviation = c → c.Commutes s t := by
    intro c readBack
    have sameText := congrArg BillingService.stored (alike (.ofSecond 0) c.toText []).2
    rw [stored_settle_probe sameKey uRecordable vRecordable,
      stored_settle_probe sameKey.symm vRecordable uRecordable] at sameText
    have sameSegments := Coverage.segments_eq_of_toText_eq sameText
    have sameDeviation := (kept_probed deviation c.toText u v).2.trans
      (kept_probed deviation c.toText v u).2.symm
    simp only [probed, readBack, Track.take, ofU, ofV, Track.add] at sameSegments sameDeviation
    exact Coverage.ext_of_segments sameDeviation sameSegments
  obtain ⟨uReaches, sWeight, sWeighed, rfl⟩ := (Reconciler.segment?_eq_some_iff u s).mp ofU
  obtain ⟨vReaches, tWeight, tWeighed, rfl⟩ := (Reconciler.segment?_eq_some_iff v t).mp ofV
  apply Coverage.interchangeable_of_commutes (Reconciler.inhabited_segmentOf uReaches _)
    (Reconciler.inhabited_segmentOf vReaches _)
  · exact commutes _ rfl
  · intro point lower upper weight ofEither
    apply commutes
    apply (Coverage.kept_ofPoint deviation point weight).ofText_toText
    intro segment member
    obtain rfl := List.mem_singleton.mp member
    have weightFits : Text.fitsInt64 weight = true := by
      simp only [List.mem_cons, List.not_mem_nil, or_false] at ofEither
      rcases ofEither with rfl | rfl
      · exact Reconciler.fitsInt64_of_weightOf sWeighed
      · exact Reconciler.fitsInt64_of_weightOf tWeighed
    have pointFits : Text.fitsInt64 point = true := by
      have uStart := u.1.start.natAbs_timestamp_lt
      have uStop := u.1.stop.natAbs_timestamp_lt
      have vStart := v.1.start.natAbs_timestamp_lt
      have vStop := v.1.stop.natAbs_timestamp_lt
      simp only [segmentOf] at lower upper
      simp only [Text.fitsInt64, Text.int64Min, Text.int64Max, Bool.and_eq_true]
      exact ⟨decide_eq_true (by omega), decide_eq_true (by omega)⟩
    exact ⟨pointFits, pointFits, weightFits⟩

end BillingService

end UsageBilling
