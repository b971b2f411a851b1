import UsageBilling.Proofs.Sorting
import UsageBilling.Proofs.Window.Timeline
import UsageBilling.SampleStream

/-!
Contract: what normalising makes of a stream of samples.

Owns:
- streams in order, in which the samples of each instant are as they were delivered;
- normal forms: instants that increase, and at each the sample delivered last;
- a stream has one normal form, which normalising finds, whatever order the samples of
  different instants come in;
- counts over streams that are normalised one after another: what was received is what
  was dropped and what was returned.

Does not own: how far a counter counts.
-/

namespace UsageBilling.SampleStream

variable {samples normal : List Sample}

/-- The samples of an instant, in the order delivered. -/
def deliveredAt (t : Instant) (samples : List Sample) : List Sample :=
  samples.filter fun s => decide (s.timestamp = t)

/-- A normal form of a stream: at each instant, the sample delivered last and no other. -/
structure Normalises (samples normal : List Sample) : Prop where
  increasing : normal.Pairwise fun s later => s.timestamp < later.timestamp
  latest : ∀ t, deliveredAt t normal = (deliveredAt t samples).getLast?.toList

theorem deliveredAt_cons_of_eq
    {t : Instant}
    {s : Sample}
    (same : s.timestamp = t)
    (rest : List Sample) :
    deliveredAt t (s :: rest) = s :: deliveredAt t rest :=
  List.filter_cons_of_pos (decide_eq_true same)

theorem deliveredAt_cons_of_ne
    {t : Instant}
    {s : Sample}
    (differs : s.timestamp ≠ t)
    (rest : List Sample) :
    deliveredAt t (s :: rest) = deliveredAt t rest :=
  List.filter_cons_of_neg (by simpa using differs)

theorem mem_deliveredAt
    {t : Instant}
    {s : Sample} :
    s ∈ deliveredAt t samples ↔ s ∈ samples ∧ s.timestamp = t := by
  rw [deliveredAt, List.mem_filter, decide_eq_true_eq]

/-! ## Streams in order -/

theorem earlierOrSame_trans
    (a b c : Sample)
    (ab : earlierOrSame a b = true)
    (bc : earlierOrSame b c = true) :
    earlierOrSame a c = true :=
  decide_eq_true (Instant.le_trans (of_decide_eq_true ab) (of_decide_eq_true bc))

theorem earlierOrSame_total
    (a b : Sample) :
    (earlierOrSame a b || earlierOrSame b a) = true := by
  rw [Bool.or_eq_true]
  exact (Int.le_total a.timestamp.position b.timestamp.position).imp decide_eq_true
    decide_eq_true

theorem ascending_ordered
    (samples : List Sample) :
    (ordered samples).Pairwise fun s later => s.timestamp ≤ later.timestamp :=
  (List.pairwise_mergeSort earlierOrSame_trans earlierOrSame_total samples).imp
    of_decide_eq_true

theorem ordered_of_ascending
    (ascending : samples.Pairwise fun s later => s.timestamp ≤ later.timestamp) :
    ordered samples = samples :=
  List.mergeSort_of_pairwise (ascending.imp decide_eq_true)

theorem mem_ordered
    {s : Sample} :
    s ∈ ordered samples ↔ s ∈ samples :=
  (List.mergeSort_perm samples earlierOrSame).mem_iff

theorem length_ordered
    (samples : List Sample) :
    (ordered samples).length = samples.length :=
  List.length_mergeSort samples

/-- Samples of one instant stay in the order delivered. -/
theorem deliveredAt_ordered
    (t : Instant)
    (samples : List Sample) :
    deliveredAt t (ordered samples) = deliveredAt t samples := by
  apply filter_mergeSort_of_tied earlierOrSame_trans earlierOrSame_total
  intro a b ofA ofB
  rw [decide_eq_true_eq] at ofA ofB
  rw [earlierOrSame, ofA, ofB]
  exact decide_eq_true (Int.le_refl t.position)

/-! ## The last sample of each instant -/

theorem sublist_keepLast
    (samples : List Sample) :
    (keepLast samples).Sublist samples := by
  fun_induction keepLast samples with
  | case1 => exact .slnil
  | case2 only => exact .refl _
  | case3 first next rest _ inductionHypothesis => exact inductionHypothesis.cons first
  | case4 first next rest _ inductionHypothesis => exact inductionHypothesis.cons_cons first

/-- In an ascending stream, all samples after one of an earlier instant are later. -/
theorem lt_of_mem_of_ne
    {first next : Sample}
    {rest : List Sample}
    (ascending : (first :: next :: rest).Pairwise fun s later => s.timestamp ≤ later.timestamp)
    (differs : first.timestamp ≠ next.timestamp)
    {s : Sample}
    (member : s ∈ next :: rest) :
    first.timestamp < s.timestamp := by
  have ⟨least, restAscending⟩ := List.pairwise_cons.mp ascending
  apply Int.lt_of_not_ge
  intro notLater
  have nextLeast : next.timestamp ≤ s.timestamp := by
    rcases List.mem_cons.mp member with isNext | inRest
    · rw [isNext]
      exact Int.le_refl next.timestamp.position
    · exact (List.pairwise_cons.mp restAscending).1 s inRest
  exact differs (Instant.le_antisymm (least next List.mem_cons_self)
    (Instant.le_trans nextLeast notLater))

theorem increasing_keepLast
    (ascending : samples.Pairwise fun s later => s.timestamp ≤ later.timestamp) :
    (keepLast samples).Pairwise fun s later => s.timestamp < later.timestamp := by
  fun_induction keepLast samples with
  | case1 => exact .nil
  | case2 only => exact List.pairwise_singleton _ only
  | case3 first next rest same inductionHypothesis =>
    exact inductionHypothesis (List.pairwise_cons.mp ascending).2
  | case4 first next rest differs inductionHypothesis =>
    apply List.Pairwise.cons _ (inductionHypothesis (List.pairwise_cons.mp ascending).2)
    intro s member
    exact lt_of_mem_of_ne ascending differs ((sublist_keepLast _).mem member)

theorem deliveredAt_keepLast
    (ascending : samples.Pairwise fun s later => s.timestamp ≤ later.timestamp)
    (t : Instant) :
    deliveredAt t (keepLast samples) = (deliveredAt t samples).getLast?.toList := by
  fun_induction keepLast samples with
  | case1 => rfl
  | case2 only =>
    by_cases here : only.timestamp = t
    · rw [deliveredAt_cons_of_eq here]
      rfl
    · rw [deliveredAt_cons_of_ne here]
      rfl
  | case3 first next rest same inductionHypothesis =>
    rw [inductionHypothesis (List.pairwise_cons.mp ascending).2]
    by_cases here : first.timestamp = t
    · rw [deliveredAt_cons_of_eq here, deliveredAt_cons_of_eq (same.symm.trans here),
        List.getLast?_cons_cons]
    · rw [deliveredAt_cons_of_ne here]
  | case4 first next rest differs inductionHypothesis =>
    have ofRest := inductionHypothesis (List.pairwise_cons.mp ascending).2
    by_cases here : first.timestamp = t
    · -- The samples that follow are later, so none of them is of this instant.
      have none : deliveredAt t (next :: rest) = [] := by
        apply List.filter_eq_nil_iff.mpr
        intro s member
        rw [decide_eq_true_eq, ← here]
        intro same
        have later : first.timestamp < s.timestamp := lt_of_mem_of_ne ascending differs member
        rw [same] at later
        exact Int.lt_irrefl _ later
      rw [deliveredAt_cons_of_eq here, deliveredAt_cons_of_eq here, ofRest, none]
      rfl
    · rw [deliveredAt_cons_of_ne here, deliveredAt_cons_of_ne here, ofRest]

/-! ## Normal forms -/

theorem normalises_normalize
    (samples : List Sample) :
    Normalises samples (normalize samples) := by
  have ascending := ascending_ordered samples
  refine ⟨increasing_keepLast ascending, ?_⟩
  intro t
  rw [normalize, deliveredAt_keepLast ascending, deliveredAt_ordered]

theorem mem_of_mem_normalize
    {s : Sample}
    (member : s ∈ normalize samples) :
    s ∈ samples :=
  mem_ordered.mp ((sublist_keepLast _).mem member)

theorem length_normalize_le
    (samples : List Sample) :
    (normalize samples).length ≤ samples.length :=
  Nat.le_trans (sublist_keepLast _).length_le (Nat.le_of_eq (length_ordered samples))

namespace Normalises

theorem unique
    {other : List Sample}
    (normalises : Normalises samples normal)
    (othersNormalise : Normalises samples other) :
    normal = other := by
  have nodup : ∀ {list : List Sample},
      (list.Pairwise fun s later => s.timestamp < later.timestamp) → list.Nodup := by
    intro list increasing
    apply increasing.imp
    rintro s _ before rfl
    exact Int.lt_irrefl _ before
  have sameMembers : ∀ s, s ∈ normal ↔ s ∈ other := by
    intro s
    have sameDelivered : deliveredAt s.timestamp normal = deliveredAt s.timestamp other :=
      (normalises.latest s.timestamp).trans (othersNormalise.latest s.timestamp).symm
    have member : s ∈ deliveredAt s.timestamp normal ↔ s ∈ deliveredAt s.timestamp other := by
      rw [sameDelivered]
    rw [mem_deliveredAt, mem_deliveredAt, and_iff_left rfl, and_iff_left rfl] at member
    exact member
  have permuted : normal.Perm other :=
    (List.perm_ext_iff_of_nodup (nodup normalises.increasing)
      (nodup othersNormalise.increasing)).mpr sameMembers
  apply permuted.eq_of_pairwise _ normalises.increasing othersNormalise.increasing
  intro a b _ _ ab ba
  exact absurd ab (Int.lt_asymm ba)

/-- A normal form is its own normal form. -/
theorem self
    (normalises : Normalises samples normal) :
    Normalises normal normal := by
  refine ⟨normalises.increasing, ?_⟩
  intro t
  rw [normalises.latest t]
  cases (deliveredAt t samples).getLast? with
  | none => rfl
  | some s => rfl

/-- The normal form is of every stream that delivers the same at each instant. -/
theorem of_same
    {other : List Sample}
    (normalises : Normalises samples normal)
    (same : ∀ t, deliveredAt t samples = deliveredAt t other) :
    Normalises other normal := by
  refine ⟨normalises.increasing, ?_⟩
  intro t
  rw [normalises.latest t, same t]

end Normalises

/-! ## Counts of many streams -/

/-- Normalise streams one after another. -/
def normalizeEach : List (List Sample) → StreamCounts → List (List Sample) × StreamCounts
  | [], counts => ([], counts)
  | samples :: later, counts =>
    let (normal, counted) := normalizeCounted samples counts
    let (normals, final) := normalizeEach later counted
    (normal :: normals, final)

/-- Of what was received, all is dropped or returned. -/
structure Accounts (counts : StreamCounts) (received returned streams : Nat) : Prop where
  received : counts.received = received
  shared : counts.received = counts.deduplicated + returned
  streams : counts.streams = streams

theorem accounts_normalizeCounted
    {counts : StreamCounts}
    {received returned streams : Nat}
    (accounts : Accounts counts received returned streams)
    (samples : List Sample) :
    Accounts (normalizeCounted samples counts).2 (received + samples.length)
      (returned + (normalize samples).length) (streams + 1) := by
  have fewer := length_normalize_le samples
  have balance := accounts.shared
  refine ⟨?_, ?_, ?_⟩
  · exact congrArg (· + samples.length) accounts.received
  · simp only [normalizeCounted]
    omega
  · exact congrArg (· + 1) accounts.streams

theorem accounts_normalizeEach
    {counts : StreamCounts}
    {received returned streams : Nat}
    (accounts : Accounts counts received returned streams)
    (deliveries : List (List Sample)) :
    Accounts (normalizeEach deliveries counts).2
      (received + (deliveries.map List.length).sum)
      (returned + ((deliveries.map normalize).map List.length).sum)
      (streams + deliveries.length) := by
  induction deliveries generalizing counts received returned streams with
  | nil => exact accounts
  | cons samples later inductionHypothesis =>
    have step := inductionHypothesis (accounts_normalizeCounted accounts samples)
    simp only [List.map_cons, List.sum_cons, List.length_cons]
    rw [← Nat.add_assoc, ← Nat.add_assoc, ← Nat.add_assoc, Nat.add_right_comm streams]
    exact step

theorem normalizeEach_eq_map
    (deliveries : List (List Sample))
    (counts : StreamCounts) :
    (normalizeEach deliveries counts).1 = deliveries.map normalize := by
  induction deliveries generalizing counts with
  | nil => rfl
  | cons samples later inductionHypothesis =>
    exact congrArg (normalize samples :: ·) (inductionHypothesis _)

/-- Normalising finds the normal form of a stream. Doing so again changes nothing, and the
normal form depends on the order of the samples of each instant only. Over any streams, what
was received is what was dropped and what was returned. -/
theorem normalize_normalises_and_accounts :
    (∀ samples, Normalises samples (normalize samples)) ∧
      (∀ samples normal, Normalises samples normal → normal = normalize samples) ∧
      (∀ samples, normalize (normalize samples) = normalize samples) ∧
      (∀ samples other, (∀ t, deliveredAt t samples = deliveredAt t other) →
        normalize samples = normalize other) ∧
      ∀ deliveries,
        (normalizeEach deliveries .none).1 = deliveries.map normalize ∧
          Accounts (normalizeEach deliveries .none).2 (deliveries.map List.length).sum
            ((normalizeEach deliveries .none).1.map List.length).sum deliveries.length := by
  refine ⟨normalises_normalize, ?_, ?_, ?_, ?_⟩
  · intro samples normal normalises
    exact normalises.unique (normalises_normalize samples)
  · intro samples
    exact (normalises_normalize _).unique (normalises_normalize samples).self
  · intro samples other same
    exact ((normalises_normalize samples).of_same same).unique (normalises_normalize other)
  · intro deliveries
    have empty : Accounts .none 0 0 0 := ⟨rfl, rfl, rfl⟩
    have accounts := accounts_normalizeEach empty deliveries
    rw [Nat.zero_add, Nat.zero_add, Nat.zero_add] at accounts
    rw [normalizeEach_eq_map]
    exact ⟨rfl, accounts⟩

/-- Of two samples of half past, the one delivered last is kept. -/
example :
    let early : Sample := ⟨.ofSecond 1800, none, .text "early"⟩
    let first : Sample := ⟨.ofSecond 5400, none, .text "first"⟩
    let last : Sample := ⟨.ofSecond 5400, none, .text "last"⟩
    normalize [first, early, last] = [early, last] := by
  cbv

end UsageBilling.SampleStream
