import UsageBilling.Proofs.Reconciler.Tracks
import UsageBilling.Proofs.Window.Timeline

/-!
Contract: tenants of one reconciler do not see each other.

Owns:
- calls that change a reconciler, with what each answers, and that keep it sound;
- reconcilers that hold the same entries of a tenant, in the same order;
- a call for a tenant keeps such reconcilers alike and has one answer in both, and
  a call for another tenant leaves the tenant's entries alone;
- whatever is seen of a tenant is a matter of the tenant's own calls.

The order in which entries are iterated over is not specified. It decides which
error a reading fails with when there are several, so readings are compared both
in the order of insertion and in any order.

Does not own: what the usage of one tenant comes to.
-/

namespace UsageBilling.Reconciler

/-- A call that changes a reconciler, and the tenant it is made for. -/
inductive Call where
  | record (tenant : String) (usage : UsageRecord) (unit : RateUnit)
  | restore (key : UsageKey) (text : String) (unit : RateUnit)
  | dropTenant (tenant : String)
deriving DecidableEq, Repr

def Call.tenant : Call → String
  | record tenant _ _ => tenant
  | restore key _ _ => key.tenant
  | dropTenant tenant => tenant

inductive Answer where
  | recorded
  | refused (error : BillingError)
  | restored
  | dropped (keys : Nat)
deriving DecidableEq, Repr

/-- What a call answers, and the reconciler it leaves. Usage that is refused leaves
the reconciler as it was. -/
def perform (r : Reconciler) : Call → Answer × Reconciler
  | .record tenant usage unit =>
    match r.record tenant usage unit with
    | .ok after => (.recorded, after)
    | .error error => (.refused error, r)
  | .restore key text unit => (.restored, r.restore key text unit)
  | .dropTenant tenant => (.dropped (r.dropTenant tenant).1, (r.dropTenant tenant).2)

def performAll (r : Reconciler) (calls : List Call) : Reconciler :=
  calls.foldl (fun r call => (r.perform call).2) r

/-- What a sequence of calls answers those made for a tenant. -/
def answersTo (tenant : String) : Reconciler → List Call → List Answer
  | _, [] => []
  | r, call :: rest =>
    if call.tenant = tenant then
      (r.perform call).1 :: answersTo tenant (r.perform call).2 rest
    else answersTo tenant (r.perform call).2 rest

/-- The calls of a sequence that are made for a tenant. -/
def callsOf (tenant : String) (calls : List Call) : List Call :=
  calls.filter fun call => call.tenant = tenant

variable {r r' r'' : Reconciler} {tenant : String} {key : UsageKey}

/-! ## Soundness -/

theorem Sound.dropTenant
    (sound : r.Sound)
    (tenant : String) :
    (r.dropTenant tenant).2.Sound := by
  refine ⟨sound.unique.sublist (List.filter_sublist.map Prod.fst), ?_⟩
  intro key track found
  have kept := (List.mem_filter.mp (Table.mem_of_lookup found)).1
  exact sound.kept key track ((sound.unique.mem_entries_iff key track).mp kept)

theorem Sound.perform
    (sound : r.Sound)
    (call : Call) :
    (r.perform call).2.Sound := by
  cases call with
  | record tenant usage unit =>
    rw [Reconciler.perform]
    cases recorded : r.record tenant usage unit with
    | ok after => exact (sound.record recorded).1
    | error error => exact sound
  | restore key text unit => exact (sound.restore key text unit).1
  | dropTenant tenant => exact sound.dropTenant tenant

theorem Sound.performAll
    (sound : r.Sound)
    (calls : List Call) :
    (r.performAll calls).Sound := by
  induction calls generalizing r with
  | nil => exact sound
  | cons call rest inductionHypothesis => exact inductionHypothesis (sound.perform call)

/-! ## The entries of a tenant -/

def owned (r : Reconciler) (tenant : String) : List (UsageKey × Track) :=
  r.tracks.entries.filter fun entry => entry.1.tenant == tenant

theorem get?_eq_lookup_owned
    (r : Reconciler)
    (key : UsageKey) :
    r.tracks.get? key = Table.lookup key (r.owned key.tenant) := by
  rw [owned, Table.lookup_filter (fun _ => beq_self_eq_true key.tenant)]
  rfl

theorem owned_insert
    (r : Reconciler)
    (key : UsageKey)
    (track : Track)
    (tenant : String) :
    owned { r with tracks := r.tracks.insert key track } tenant =
      if key.tenant = tenant then Table.put key track (r.owned tenant) else r.owned tenant := by
  split
  · rename_i own
    exact Table.filter_put_of_pass (fun key => key.tenant == tenant)
      (beq_iff_eq.mpr own) track r.tracks.entries
  · rename_i other
    exact Table.filter_put_of_fail (fun key => key.tenant == tenant)
      (beq_eq_false_iff_ne.mpr other) track r.tracks.entries

theorem owned_dropTenant
    (r : Reconciler)
    (dropped tenant : String) :
    (r.dropTenant dropped).2.owned tenant = if dropped = tenant then [] else r.owned tenant := by
  show (r.tracks.entries.filter fun entry => entry.1.tenant != dropped).filter
    (fun entry => entry.1.tenant == tenant) = _
  rw [List.filter_filter]
  split
  · rename_i same
    simp [same]
  · rename_i other
    apply List.filter_congr
    intro entry _
    by_cases own : entry.1.tenant = tenant
    · simp [own, Ne.symm other]
    · simp [own]

/-! ## Alike for a tenant -/

/-- Two reconcilers have one deviation, and the same entries of a tenant in the
same order. -/
structure Alike (tenant : String) (r r' : Reconciler) : Prop where
  deviation : r.deviation = r'.deviation
  owned : r.owned tenant = r'.owned tenant

theorem Alike.refl
    (tenant : String)
    (r : Reconciler) :
    Alike tenant r r :=
  ⟨rfl, rfl⟩

theorem Alike.symm
    (alike : Alike tenant r r') :
    Alike tenant r' r :=
  ⟨alike.deviation.symm, alike.owned.symm⟩

theorem Alike.trans
    (alike : Alike tenant r r')
    (alike' : Alike tenant r' r'') :
    Alike tenant r r'' :=
  ⟨alike.deviation.trans alike'.deviation, alike.owned.trans alike'.owned⟩

theorem Alike.get?
    (alike : Alike tenant r r')
    (own : key.tenant = tenant) :
    r.tracks.get? key = r'.tracks.get? key := by
  subst own
  rw [get?_eq_lookup_owned, get?_eq_lookup_owned, alike.owned]

theorem Alike.trackOf
    (alike : Alike tenant r r')
    (own : key.tenant = tenant)
    (unit : RateUnit) :
    r.trackOf key unit = r'.trackOf key unit := by
  rw [Reconciler.trackOf, Reconciler.trackOf, alike.get? own, alike.deviation]

theorem Alike.insert
    (alike : Alike tenant r r')
    (key : UsageKey)
    (track : Track) :
    Alike tenant { r with tracks := r.tracks.insert key track }
      { r' with tracks := r'.tracks.insert key track } := by
  refine ⟨alike.deviation, ?_⟩
  rw [owned_insert, owned_insert, alike.owned]

theorem alike_insert_other
    (r : Reconciler)
    (other : key.tenant ≠ tenant)
    (track : Track) :
    Alike tenant { r with tracks := r.tracks.insert key track } r := by
  refine ⟨rfl, ?_⟩
  rw [owned_insert, if_neg other]

theorem alike_dropTenant
    (r : Reconciler)
    {dropped : String}
    (other : dropped ≠ tenant) :
    Alike tenant (r.dropTenant dropped).2 r := by
  refine ⟨rfl, ?_⟩
  rw [owned_dropTenant, if_neg other]

/-! ## Calls -/

/-- A call leaves every tenant alone but the one it is made for. -/
theorem alike_perform_other
    (r : Reconciler)
    (call : Call)
    (other : call.tenant ≠ tenant) :
    Alike tenant (r.perform call).2 r := by
  cases call with
  | record asked usage unit =>
    rw [perform, record_eq]
    by_cases reaches : Reaches usage
    · rw [if_pos reaches]
      cases weightOf usage unit with
      | error error => exact .refl tenant r
      | ok weight => exact alike_insert_other r other _
    · rw [if_neg reaches]
      exact .refl tenant r
  | restore key text unit => exact alike_insert_other r other _
  | dropTenant dropped => exact alike_dropTenant r other

theorem dropTenant_count
    (r : Reconciler)
    (tenant : String) :
    (r.dropTenant tenant).1 = (r.owned tenant).length := by
  have parts := List.length_eq_length_filter_add
    (l := r.tracks.entries) fun entry => entry.1.tenant == tenant
  show r.tracks.entries.length -
    (r.tracks.entries.filter fun entry => !(entry.1.tenant == tenant)).length = _
  rw [parts, Nat.add_sub_cancel]
  rfl

/-- A call has one answer for all that is alike for its tenant, and keeps it so. -/
theorem Alike.perform
    (alike : Alike tenant r r')
    (call : Call)
    (own : call.tenant = tenant) :
    (r.perform call).1 = (r'.perform call).1 ∧
      Alike tenant (r.perform call).2 (r'.perform call).2 := by
  cases call with
  | record asked usage unit =>
    rw [Reconciler.perform, Reconciler.perform, record_eq, record_eq]
    by_cases reaches : Reaches usage
    · rw [if_pos reaches, if_pos reaches]
      cases weightOf usage unit with
      | error error => exact ⟨rfl, alike⟩
      | ok weight =>
        have ofTenant : (UsageKey.ofRecord asked usage).tenant = tenant := own
        refine ⟨rfl, ?_⟩
        have kept := alike.insert (UsageKey.ofRecord asked usage)
          ((r.trackOf (UsageKey.ofRecord asked usage) unit).add (segmentOf usage weight)
            usage.resourceName)
        show Alike tenant (r.keep asked usage unit weight) (r'.keep asked usage unit weight)
        rw [keep, keep, ← alike.trackOf ofTenant unit]
        exact kept
    · rw [if_neg reaches, if_neg reaches]
      exact ⟨rfl, alike⟩
  | restore key text unit =>
    refine ⟨rfl, ?_⟩
    show Alike tenant (r.restore key text unit) (r'.restore key text unit)
    have restored := alike.insert key
      { r.trackOf key unit with coverage := Coverage.ofText text r.deviation }
    simpa only [restore, alike.trackOf own unit, alike.deviation] using restored
  | dropTenant dropped =>
    have same : dropped = tenant := own
    subst same
    have counted : (r.dropTenant dropped).1 = (r'.dropTenant dropped).1 := by
      rw [dropTenant_count, dropTenant_count, alike.owned]
    refine ⟨congrArg Answer.dropped counted, alike.deviation, ?_⟩
    show (r.dropTenant dropped).2.owned dropped = (r'.dropTenant dropped).2.owned dropped
    rw [owned_dropTenant, owned_dropTenant, alike.owned]

/-- Calls for other tenants can be taken out of a sequence: the tenant gets the same
answers, and what is left is alike. -/
theorem Alike.performAll
    (alike : Alike tenant r r')
    (calls : List Call) :
    answersTo tenant r calls = answersTo tenant r' (callsOf tenant calls) ∧
      Alike tenant (r.performAll calls) (r'.performAll (callsOf tenant calls)) := by
  induction calls generalizing r r' with
  | nil => exact ⟨rfl, alike⟩
  | cons call rest inductionHypothesis =>
    by_cases own : call.tenant = tenant
    · have ⟨sameAnswer, afterAlike⟩ := alike.perform call own
      have ⟨sameAnswers, left⟩ := inductionHypothesis afterAlike
      rw [callsOf, List.filter_cons_of_pos (by simpa using own)]
      refine ⟨?_, left⟩
      rw [answersTo, answersTo, if_pos own, if_pos own, sameAnswer]
      exact congrArg _ sameAnswers
    · rw [callsOf, List.filter_cons_of_neg (by simpa using own), answersTo, if_neg own]
      exact inductionHypothesis ((r.alike_perform_other call own).trans alike)

/-! ## What is seen of a tenant -/

/-- What a reading may come to with the entries in some order. -/
def MayRead (r : Reconciler) (tenant : String) (window : Window)
    (outcome : Outcome (List UsageRecord)) : Prop :=
  ∃ entries : List (UsageKey × Track), entries.Perm r.tracks.entries ∧
    usageIn ⟨r.deviation, ⟨entries⟩⟩ tenant window = outcome

/-- Whatever can be seen of a tenant is the same in two reconcilers: its keys, the
snapshot of each, its usage in every window or why that cannot be read, and how many
keys are dropped with it. -/
structure AgreeOn (tenant : String) (r r' : Reconciler) : Prop where
  keys : r.keys tenant = r'.keys tenant
  snapshot : ∀ key : UsageKey, key.tenant = tenant → r.snapshot key = r'.snapshot key
  usageIn : ∀ window, r.usageIn tenant window = r'.usageIn tenant window
  mayRead : ∀ window outcome,
    r.MayRead tenant window outcome ↔ r'.MayRead tenant window outcome
  dropped : (r.dropTenant tenant).1 = (r'.dropTenant tenant).1

theorem keys_eq_owned
    (r : Reconciler)
    (tenant : String) :
    r.keys tenant = ((r.owned tenant).map Prod.fst).mergeSort UsageKey.atMost := by
  rw [keys, Table.keys, List.filter_map, owned]
  rfl

theorem usageIn_congr_owned
    (sameOwned : r.owned tenant = r'.owned tenant)
    (window : Window) :
    r.usageIn tenant window = r'.usageIn tenant window := by
  have sameReading : r.usageBetween tenant = r'.usageBetween tenant := by
    funext first last
    unfold usageBetween
    unfold owned at sameOwned
    rw [sameOwned]
  rw [usageIn, usageIn, sameReading]

/-- A reading of one reconciler in some order of its entries is a reading of the
other: the tenant's entries in that order, and then the rest. -/
theorem Alike.mayRead
    (alike : Alike tenant r r')
    {window : Window}
    {outcome : Outcome (List UsageRecord)}
    (read : r.MayRead tenant window outcome) :
    r'.MayRead tenant window outcome := by
  have ⟨entries, permuted, reading⟩ := read
  let own : UsageKey × Track → Bool := fun entry => entry.1.tenant == tenant
  let reordered := entries.filter own ++ r'.tracks.entries.filter fun entry => !own entry
  have ownPermuted : (entries.filter own).Perm (r'.tracks.entries.filter own) :=
    (permuted.filter own).trans (.of_eq alike.owned)
  refine ⟨reordered, (ownPermuted.append_right _).trans (List.filter_append_perm own _), ?_⟩
  rw [← reading]
  apply usageIn_congr_owned
  show reordered.filter own = entries.filter own
  simp [reordered, List.filter_append, List.filter_filter]

theorem Alike.agreeOn
    (alike : Alike tenant r r') :
    AgreeOn tenant r r' where
  keys := by rw [keys_eq_owned, keys_eq_owned, alike.owned]
  snapshot key own := by rw [Reconciler.snapshot, Reconciler.snapshot, alike.get? own]
  usageIn := usageIn_congr_owned alike.owned
  mayRead _ _ := ⟨alike.mayRead, alike.symm.mayRead⟩
  dropped := by rw [dropTenant_count, dropTenant_count, alike.owned]

theorem keys_dropTenant
    (r : Reconciler)
    (tenant : String) :
    (r.dropTenant tenant).2.keys tenant = [] := by
  rw [keys_eq_owned, owned_dropTenant, if_pos rfl, List.map_nil, List.mergeSort_nil]

/-- After any two histories with the same calls for a tenant, whatever they do for
others, those calls had the same answers and all that is seen of the tenant agrees.
Once it is dropped it has no keys left, and every other tenant is seen as before. -/
theorem agreeOn_of_sameCalls
    (deviation : Nat)
    {tenant : String}
    {calls calls' : List Call}
    (sameCalls : callsOf tenant calls = callsOf tenant calls') :
    answersTo tenant (empty deviation) calls = answersTo tenant (empty deviation) calls' ∧
      AgreeOn tenant ((empty deviation).performAll calls) ((empty deviation).performAll calls') ∧
      (((empty deviation).performAll calls).dropTenant tenant).2.keys tenant = [] ∧
      ∀ other, other ≠ tenant →
        AgreeOn other (((empty deviation).performAll calls).dropTenant tenant).2
          ((empty deviation).performAll calls) := by
  have ⟨answers, purged⟩ := (Alike.refl tenant (empty deviation)).performAll calls
  have ⟨answers', purged'⟩ := (Alike.refl tenant (empty deviation)).performAll calls'
  rw [← sameCalls] at answers' purged'
  refine ⟨answers.trans answers'.symm, (purged.trans purged'.symm).agreeOn,
    keys_dropTenant _ tenant, ?_⟩
  intro other notDropped
  exact (alike_dropTenant _ notDropped.symm).agreeOn

/-- Time of an instance. -/
def instanceTime (start stop : Fin 86400) : UsageRecord :=
  (UsageRecord.ofService "m1.small" (.ofSecond start) (.ofSecond stop) (.ofInt 3600)).withResource
    "vm-1" none

/-- A tenant's instance, and its volume with a stored weight that is no quantity. -/
def acmeCalls (usage : UsageRecord) : List Call :=
  [.record "acme" usage .time, .restore ⟨"acme", "vol-1", "volume.size"⟩ "0:3599:31" .quantity]

/-- The same among the calls of another tenant with the same resources. -/
def crossingCalls (usage : UsageRecord) : List Call :=
  [.record "globex" usage .time, .record "acme" usage .time, .dropTenant "globex",
    .restore ⟨"acme", "vol-1", "volume.size"⟩ "0:3599:31" .quantity,
    .restore ⟨"globex", "vol-1", "volume.size"⟩ "0:3599:640" .quantity]

/-- The other tenant's calls are held as well, and the tenant's hour fails to be read
in the same way. -/
theorem agreeOn_crossing_calls :
    callsOf "acme" (crossingCalls (instanceTime 0 3600)) =
        callsOf "acme" (acmeCalls (instanceTime 0 3600)) ∧
      ((empty 1).performAll (crossingCalls (instanceTime 0 3600))).size = 3 ∧
      ((empty 1).performAll (acmeCalls (instanceTime 0 3600))).size = 2 ∧
      ((empty 1).performAll (crossingCalls (instanceTime 0 3600))).usageIn "acme"
        ⟨.ofSecond 0, 3600⟩ = Outcome.report (.state (.corruptQuantity 31 31)) ∧
      AgreeOn "acme" ((empty 1).performAll (crossingCalls (instanceTime 0 3600)))
        ((empty 1).performAll (acmeCalls (instanceTime 0 3600))) := by
  have sameCalls : callsOf "acme" (crossingCalls (instanceTime 0 3600)) =
      callsOf "acme" (acmeCalls (instanceTime 0 3600)) := by
    decide
  have ⟨_, agree, _⟩ := agreeOn_of_sameCalls 1 sameCalls
  exact ⟨sameCalls, by decide +kernel, by decide +kernel, by decide +kernel, agree⟩

end UsageBilling.Reconciler
