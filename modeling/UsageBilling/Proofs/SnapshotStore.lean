import UsageBilling.SnapshotStore

/-!
Contract: a store seen through the calls made to it.

Owns:
- calls to a store, the state they leave, and the text last saved for each key;
- what it means that a store begins empty and answers with the text last saved;
- what such a store holds, and how loading and saving change it;
- stores that hold texts from the start, and keep them and what is saved;
- facts of what a store holds that follow it through every call;
- a store of both kinds: a map.

Does not own: the store in memory, whose entries are bounded in number and time.
-/

namespace UsageBilling

inductive StoreCall where
  | load (key : UsageKey)
  | save (key : UsageKey) (text : String)
deriving DecidableEq, Repr

namespace StoreCall

/-- The texts held once a call is made. -/
def remember (held : UsageKey → Option String) : StoreCall → UsageKey → Option String
  | load _ => held
  | save key text => fun other => if other = key then some text else held other

/-- The text last saved for each key by calls in order. -/
def lastSaved (calls : List StoreCall) : UsageKey → Option String :=
  calls.foldl remember fun _ => none

end StoreCall

namespace SnapshotStore

open StoreCall (lastSaved remember)

variable {σ : Type} {store : SnapshotStore σ} {initial stored : σ}
  {held : UsageKey → Option String}

/-- The state of a store once a call is made. -/
def perform (store : SnapshotStore σ) (stored : σ) : StoreCall → σ
  | .load key => (store.load key stored).2
  | .save key text => (store.save key text stored).2

/-- Whether a store begins empty, and whatever calls are made answers with the
text last saved for a key. -/
def KeepsLastSaved (store : SnapshotStore σ) (initial : σ) : Prop :=
  ∀ calls key,
    (store.load key (calls.foldl store.perform initial)).1 = .ok (lastSaved calls key)

/-- Whether calls have brought the store into a state in which it holds texts. -/
def Holds (store : SnapshotStore σ) (initial : σ) (held : UsageKey → Option String)
    (stored : σ) : Prop :=
  ∃ calls, calls.foldl store.perform initial = stored ∧ lastSaved calls = held

theorem holds_initial
    (store : SnapshotStore σ)
    (initial : σ) :
    store.Holds initial (fun _ => none) initial :=
  ⟨[], rfl, rfl⟩

theorem Holds.congr
    {held' : UsageKey → Option String}
    (holds : store.Holds initial held stored)
    (same : ∀ key, held key = held' key) :
    store.Holds initial held' stored := by
  rw [← funext same]
  exact holds

theorem Holds.perform
    (holds : store.Holds initial held stored)
    (call : StoreCall) :
    store.Holds initial (remember held call) (store.perform stored call) := by
  have ⟨calls, made, saved⟩ := holds
  refine ⟨calls ++ [call], ?_, ?_⟩
  · rw [List.foldl_append, made]
    rfl
  · rw [lastSaved, List.foldl_append]
    exact congrArg (remember · call) saved

theorem Holds.load
    (holds : store.Holds initial held stored)
    (keeps : store.KeepsLastSaved initial)
    (key : UsageKey) :
    (store.load key stored).1 = .ok (held key) ∧
      store.Holds initial held (store.load key stored).2 := by
  refine ⟨?_, holds.perform (.load key)⟩
  have ⟨calls, made, saved⟩ := holds
  rw [← made, ← saved]
  exact keeps calls key

/-! ## Texts held from the start -/

/-- Whether a store in a state answers with the texts held, and after any calls
with what these leave of them and save over them. -/
def Keeps (store : SnapshotStore σ) (held : UsageKey → Option String) (stored : σ) : Prop :=
  ∀ (calls : List StoreCall) (key : UsageKey),
    (store.load key (calls.foldl store.perform stored)).1 = .ok (calls.foldl remember held key)

theorem keepsLastSaved_iff_keeps :
    store.KeepsLastSaved initial ↔ store.Keeps (fun _ => none) initial :=
  Iff.rfl

theorem Keeps.load_eq
    (keeps : store.Keeps held stored)
    (key : UsageKey) :
    store.load key stored = (.ok (held key), store.perform stored (.load key)) :=
  Prod.ext (keeps [] key) rfl

theorem Keeps.perform
    (keeps : store.Keeps held stored)
    (call : StoreCall) :
    store.Keeps (remember held call) (store.perform stored call) :=
  fun calls => keeps (call :: calls)

/-! ## Facts that follow a store -/

/-- Whether a fact of the texts held and the state of a store stays true through
every call, once the texts are what the call leaves. -/
def Follows (store : SnapshotStore σ) (fact : (UsageKey → Option String) → σ → Prop) : Prop :=
  ∀ held stored call, fact held stored → fact (remember held call) (store.perform stored call)

theorem follows_holds
    (store : SnapshotStore σ)
    (initial : σ) :
    store.Follows (store.Holds initial) :=
  fun _ _ call holds => holds.perform call

theorem follows_keeps
    (store : SnapshotStore σ) :
    store.Follows store.Keeps :=
  fun _ _ call keeps => keeps.perform call

/-! ## A map as a store -/

/-- Texts by key, which are neither lost nor changed. -/
def table : SnapshotStore (Table UsageKey String) where
  load key texts := (.ok (texts.get? key), texts)
  save key text texts := (.ok (), texts.insert key text)

theorem get?_foldl_perform_table
    (calls : List StoreCall)
    (texts : Table UsageKey String) :
    (calls.foldl table.perform texts).get? = calls.foldl remember texts.get? := by
  induction calls generalizing texts with
  | nil => rfl
  | cons call rest inductionHypothesis =>
    rw [List.foldl_cons, List.foldl_cons, inductionHypothesis]
    cases call with
    | load key => rfl
    | save key text =>
      congr 1
      funext other
      exact Table.get?_insert texts key other text

theorem keeps_table
    (texts : Table UsageKey String) :
    table.Keeps texts.get? texts := by
  intro calls key
  exact congrArg Except.ok (congrFun (get?_foldl_perform_table calls texts) key)

theorem keepsLastSaved_table :
    table.KeepsLastSaved Table.empty :=
  keepsLastSaved_iff_keeps.mpr (keeps_table Table.empty)

end SnapshotStore

end UsageBilling
