import UsageBilling.Proofs.Coverage.Commutation
import UsageBilling.Proofs.Reconciler.Lookups

/-!
Contract: usage that may be recorded in either order.

Owns:
- recording as a total step that leaves out usage without a weight;
- when two pieces of usage are compatible, which is decidable;
- compatible usage, and blocks of usage compatible across blocks, leave the same
  tracks in any order.

Does not own: usage that is not compatible, or what is read back.
-/

namespace UsageBilling

open Coverage (Interchangeable)

/-- Whether two names, of which the later replaces the earlier, show alike in
either order. Without a resource no name shows. -/
def NamesAgree (key : UsageKey) (name name' : Option String) : Prop :=
  key.resource = "" ∨ name = none ∨ name' = none ∨ name = name'

instance (key : UsageKey) (name name' : Option String) : Decidable (NamesAgree key name name') :=
  inferInstanceAs (Decidable (_ ∨ _ ∨ _ ∨ _))

theorem NamesAgree.symm
    {key : UsageKey}
    {name name' : Option String}
    (names : NamesAgree key name name') :
    NamesAgree key name' name := by
  rcases names with blank | noName | noName' | same
  · exact Or.inl blank
  · exact Or.inr (Or.inr (Or.inl noName))
  · exact Or.inr (Or.inl noName')
  · exact Or.inr (Or.inr (Or.inr same.symm))

theorem NamesAgree.of_orElse
    {key : UsageKey}
    {name name' : Option String}
    (same : (name.orElse fun _ => name'.orElse fun _ => none) =
      name'.orElse fun _ => name.orElse fun _ => none) :
    NamesAgree key name name' := by
  cases name with
  | none => exact Or.inr (Or.inl rfl)
  | some first =>
    cases name' with
    | none => exact Or.inr (Or.inr (Or.inl rfl))
    | some second => exact Or.inr (Or.inr (Or.inr same))

theorem Track.shown_add_comm
    {key : UsageKey}
    {track : Track}
    {s t : Segment}
    {name name' : Option String}
    (kept : track.coverage.Kept)
    (interchangeable : Interchangeable track.coverage.deviation s t)
    (sInhabited : s.first ≤ s.last)
    (tInhabited : t.first ≤ t.last)
    (names : NamesAgree key name name') :
    ((track.add s name).add t name').shown key = ((track.add t name').add s name).shown key := by
  have sameCoverage := kept.insertSegment_comm interchangeable sInhabited tInhabited
  by_cases blank : key.resource = ""
  · simp only [shown, add, blank, if_true, sameCoverage]
  · have sameName : (name'.orElse fun _ => name.orElse fun _ => track.resourceName) =
        name.orElse fun _ => name'.orElse fun _ => track.resourceName := by
      rcases names.resolve_left blank with rfl | rfl | rfl
      · cases name' <;> rfl
      · cases name <;> rfl
      · cases name <;> rfl
    simp only [add, sameCoverage, sameName]

namespace Reconciler

variable {r r' : Reconciler} {tenant : String} {u v : UsageRecord × RateUnit}
  {entries left right : List (UsageRecord × RateUnit)}

/-! ## Recording as a total step -/

/-- The segment that usage of a unit is kept as, if it reaches into another
second and has a weight. -/
def segment? (u : UsageRecord × RateUnit) : Option Segment :=
  if Reaches u.1 then (weightOf u.1 u.2).toOption.map (segmentOf u.1) else none

theorem segment?_eq_some_iff
    (u : UsageRecord × RateUnit)
    (s : Segment) :
    segment? u = some s ↔
      Reaches u.1 ∧ ∃ weight, weightOf u.1 u.2 = .ok weight ∧ segmentOf u.1 weight = s := by
  rw [segment?]
  by_cases reaches : Reaches u.1
  · rw [if_pos reaches]
    cases weightOf u.1 u.2 <;> simp [Except.toOption, reaches]
  · simp [reaches]

/-- The reconciler once usage is recorded. Usage without a weight is left out. -/
def take (tenant : String) (r : Reconciler) (u : UsageRecord × RateUnit) : Reconciler :=
  match segment? u with
  | some s => r.keep tenant u.1 u.2 s.weight
  | none => r

/-- Whether usage can be recorded: it does not reach into another second, or has
a weight. -/
def Recordable (u : UsageRecord × RateUnit) : Prop :=
  Reaches u.1 → (segment? u).isSome

instance (u : UsageRecord × RateUnit) : Decidable (Recordable u) :=
  inferInstanceAs (Decidable (_ → _))

theorem recordable_of_segment?
    {s : Segment}
    (found : segment? u = some s) :
    Recordable u := by
  intro _
  rw [found]
  rfl

/-- The only weight there may not be is that of a quantity too precise to be
packed. -/
theorem eq_overflow_of_weightOf
    {usage : UsageRecord}
    {unit : RateUnit}
    {error : BillingError}
    (missing : weightOf usage unit = .error error) :
    error = .overflow := by
  cases unit with
  | time => cases missing
  | quantity =>
    unfold weightOf PackedQuantity.pack at missing
    simp only at missing
    split at missing
    · cases missing
    · cases missing
      rfl

theorem record_eq_take
    (r : Reconciler)
    (tenant : String)
    (u : UsageRecord × RateUnit) :
    r.record tenant u.1 u.2 = if Recordable u then .ok (r.take tenant u) else .error .overflow := by
  rw [record_eq]
  by_cases reaches : Reaches u.1
  · cases weighed : weightOf u.1 u.2 with
    | ok weight =>
      have found : segment? u = some (segmentOf u.1 weight) :=
        (segment?_eq_some_iff u _).mpr ⟨reaches, weight, weighed, rfl⟩
      simp only [reaches, if_true, Recordable, found, Option.isSome_some, take]
      rfl
    | error error =>
      have missing : segment? u = none := by simp [segment?, weighed, Except.toOption]
      obtain rfl := eq_overflow_of_weightOf weighed
      simp [reaches, Recordable, missing, Except.map]
  · have missing : segment? u = none := by simp [segment?, reaches]
    simp [reaches, Recordable, take, missing]

def takeAll (tenant : String) (entries : List (UsageRecord × RateUnit)) (r : Reconciler) :
    Reconciler :=
  entries.foldl (take tenant) r

theorem Same.take
    (same : r.Same r')
    (tenant : String)
    (u : UsageRecord × RateUnit) :
    (r.take tenant u).Same (r'.take tenant u) := by
  unfold Reconciler.take
  cases segment? u with
  | none => exact same
  | some s => exact same.keep tenant u.1 u.2 s.weight

theorem Sound.take
    (sound : r.Sound)
    (tenant : String)
    (u : UsageRecord × RateUnit) :
    (r.take tenant u).Sound ∧ (r.take tenant u).deviation = r.deviation := by
  unfold Reconciler.take
  cases found : segment? u with
  | none => exact ⟨sound, rfl⟩
  | some s =>
    obtain ⟨reaches, _⟩ := (segment?_eq_some_iff u s).mp found
    exact ⟨sound.keep tenant reaches u.2 s.weight, rfl⟩

theorem takeAll_append
    (tenant : String)
    (left right : List (UsageRecord × RateUnit))
    (r : Reconciler) :
    r.takeAll tenant (left ++ right) = (r.takeAll tenant left).takeAll tenant right :=
  List.foldl_append

theorem Same.takeAll
    (same : r.Same r')
    (tenant : String)
    (entries : List (UsageRecord × RateUnit)) :
    (r.takeAll tenant entries).Same (r'.takeAll tenant entries) := by
  induction entries generalizing r r' with
  | nil => exact same
  | cons u rest inductionHypothesis => exact inductionHypothesis (same.take tenant u)

theorem Sound.takeAll
    (sound : r.Sound)
    (tenant : String)
    (entries : List (UsageRecord × RateUnit)) :
    (r.takeAll tenant entries).Sound ∧ (r.takeAll tenant entries).deviation = r.deviation := by
  induction entries generalizing r with
  | nil => exact ⟨sound, rfl⟩
  | cons u rest inductionHypothesis =>
    obtain ⟨nextSound, nextDeviation⟩ := sound.take tenant u
    obtain ⟨restSound, restDeviation⟩ := inductionHypothesis nextSound
    exact ⟨restSound, restDeviation.trans nextDeviation⟩

/-! ## Compatible usage -/

/-- Whether two pieces of usage leave the same track in either order: they are
of different keys, or of one unit such that their names agree and their segments
are interchangeable where both are kept. -/
def Compatible (deviation : Nat) (tenant : String) (u v : UsageRecord × RateUnit) : Prop :=
  UsageKey.ofRecord tenant u.1 = UsageKey.ofRecord tenant v.1 →
    u.2 = v.2 ∧ ∀ s ∈ segment? u, ∀ t ∈ segment? v,
      NamesAgree (UsageKey.ofRecord tenant u.1) u.1.resourceName v.1.resourceName ∧
        Interchangeable deviation s t

instance (deviation : Nat) (tenant : String) (u v : UsageRecord × RateUnit) :
    Decidable (Compatible deviation tenant u v) :=
  inferInstanceAs (Decidable (_ → _ ∧ ∀ s ∈ segment? u, ∀ t ∈ segment? v, _))

theorem Compatible.symm
    {deviation : Nat}
    (compatible : Compatible deviation tenant u v) :
    Compatible deviation tenant v u := by
  intro sameKey
  obtain ⟨sameUnit, pieces⟩ := compatible sameKey.symm
  refine ⟨sameUnit.symm, ?_⟩
  intro t ofV s ofU
  obtain ⟨names, interchangeable⟩ := pieces s ofU t ofV
  exact ⟨sameKey ▸ names.symm, interchangeable.symm⟩

theorem trackOf_keep
    (tenant : String)
    (usage : UsageRecord)
    (unit unit' : RateUnit)
    (weight : Int)
    (key : UsageKey) :
    (r.keep tenant usage unit weight).trackOf key unit' =
      if key = UsageKey.ofRecord tenant usage then
        (r.trackOf key unit).add (segmentOf usage weight) usage.resourceName
      else r.trackOf key unit' := by
  rw [trackOf, get?_keep]
  split
  · rfl
  · rfl

/-- Compatible usage may be recorded in either order. -/
theorem Sound.take_comm
    (sound : r.Sound)
    (compatible : Compatible r.deviation tenant u v) :
    ((r.take tenant u).take tenant v).Same ((r.take tenant v).take tenant u) := by
  cases uFound : segment? u with
  | none =>
    simp only [Reconciler.take, uFound]
    exact Same.refl _
  | some s =>
    cases vFound : segment? v with
    | none =>
      simp only [Reconciler.take, vFound]
      exact Same.refl _
    | some t =>
      simp only [Reconciler.take, uFound, vFound]
      refine ⟨rfl, ?_⟩
      intro key
      obtain ⟨uReaches, sWeight, _, sEq⟩ := (segment?_eq_some_iff u s).mp uFound
      obtain ⟨vReaches, tWeight, _, tEq⟩ := (segment?_eq_some_iff v t).mp vFound
      subst sEq tEq
      simp only [get?_keep, trackOf_keep]
      by_cases ofU : key = UsageKey.ofRecord tenant u.1
      · by_cases ofV : key = UsageKey.ofRecord tenant v.1
        · obtain ⟨sameUnit, pieces⟩ := compatible (ofU.symm.trans ofV)
          obtain ⟨names, interchangeable⟩ := pieces _ uFound _ vFound
          obtain ⟨kept, sameDeviation⟩ := sound.kept_trackOf key u.2
          have swapped := Track.shown_add_comm kept (sameDeviation ▸ interchangeable)
            (inhabited_segmentOf uReaches _) (inhabited_segmentOf vReaches _) (ofU ▸ names)
          simp only [if_pos ofU, if_pos ofV, ← sameUnit, Option.map_some]
          exact congrArg some swapped
        · simp only [if_pos ofU, if_neg ofV]
      · by_cases ofV : key = UsageKey.ofRecord tenant v.1
        · simp only [if_neg ofU, if_pos ofV]
        · simp only [if_neg ofU, if_neg ofV]

/-! ## Blocks of usage -/

/-- Whether each piece of one list is compatible with each piece of another. -/
def Independent (deviation : Nat) (tenant : String)
    (left right : List (UsageRecord × RateUnit)) : Prop :=
  ∀ u ∈ left, ∀ v ∈ right, Compatible deviation tenant u v

instance (deviation : Nat) (tenant : String) (left right : List (UsageRecord × RateUnit)) :
    Decidable (Independent deviation tenant left right) :=
  inferInstanceAs (Decidable (∀ u ∈ left, ∀ v ∈ right, _))

theorem Independent.symm
    {deviation : Nat}
    (independent : Independent deviation tenant left right) :
    Independent deviation tenant right left :=
  fun v inRight u inLeft => (independent u inLeft v inRight).symm

theorem Sound.takeAll_cons_same
    (sound : r.Sound)
    (compatible : ∀ v ∈ entries, Compatible r.deviation tenant u v) :
    ((r.take tenant u).takeAll tenant entries).Same ((r.takeAll tenant entries).take tenant u) := by
  induction entries generalizing r with
  | nil => exact Same.refl _
  | cons v rest inductionHypothesis =>
    simp only [List.mem_cons, forall_eq_or_imp] at compatible
    obtain ⟨nextSound, nextDeviation⟩ := sound.take tenant v
    have swapped := (sound.take_comm compatible.1).takeAll tenant rest
    exact swapped.trans (inductionHypothesis nextSound (nextDeviation ▸ compatible.2))

/-- Two independent blocks may be recorded in either order. -/
theorem Sound.takeAll_swap
    (sound : r.Sound)
    (independent : Independent r.deviation tenant left right) :
    (r.takeAll tenant (left ++ right)).Same (r.takeAll tenant (right ++ left)) := by
  induction left generalizing r with
  | nil =>
    rw [List.nil_append, List.append_nil]
    exact Same.refl _
  | cons u rest inductionHypothesis =>
    simp only [Independent, List.mem_cons, forall_eq_or_imp] at independent
    obtain ⟨nextSound, nextDeviation⟩ := sound.take tenant u
    have moved := inductionHypothesis nextSound (nextDeviation ▸ independent.2)
    have passed := (sound.takeAll_cons_same independent.1).takeAll tenant rest
    rw [takeAll_append tenant right rest] at moved
    rw [takeAll_append tenant right (u :: rest)]
    exact moved.trans passed

/-- Blocks that are pairwise independent may be recorded in any order. -/
theorem Sound.takeAll_flatten_perm
    {blocks blocks' : List (List (UsageRecord × RateUnit))}
    (sound : r.Sound)
    (permuted : blocks.Perm blocks')
    (independent : blocks.Pairwise (Independent r.deviation tenant)) :
    (r.takeAll tenant blocks.flatten).Same (r.takeAll tenant blocks'.flatten) := by
  induction permuted generalizing r with
  | nil => exact Same.refl _
  | cons block _ inductionHypothesis =>
    obtain ⟨nextSound, nextDeviation⟩ := sound.takeAll tenant block
    rw [List.flatten_cons, List.flatten_cons, takeAll_append, takeAll_append]
    exact inductionHypothesis nextSound (nextDeviation ▸ (List.pairwise_cons.mp independent).2)
  | swap left right rest =>
    have apart := (List.pairwise_cons.mp independent).1 left (by simp)
    simp only [List.flatten_cons]
    rw [← List.append_assoc, ← List.append_assoc, takeAll_append, takeAll_append _ (left ++ right)]
    exact (sound.takeAll_swap apart).takeAll tenant rest.flatten
  | trans first _ firstHypothesis secondHypothesis =>
    have independent' := (first.pairwise_iff Independent.symm).mp independent
    exact (firstHypothesis sound independent).trans (secondHypothesis sound independent')

end Reconciler

end UsageBilling
