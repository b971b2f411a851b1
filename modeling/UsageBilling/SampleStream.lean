import UsageBilling.Sample
import UsageBilling.Window

/-!
Contract: streams of samples before they reach a meter.

Owns:
- normal streams: ascending instants, the sample delivered last for each;
- counts of what normalising received and dropped;
- the part of a stream that matters to a window.

Does not own: the meaning of samples.
-/

namespace UsageBilling

/-- What has been normalised so far. The counts have no bound, where counters of 64 bits
would wrap past `2 ^ 64` samples. -/
structure StreamCounts where
  received : Nat
  deduplicated : Nat
  streams : Nat
deriving DecidableEq, Repr, Inhabited

def StreamCounts.none : StreamCounts :=
  ⟨0, 0, 0⟩

/-- The latest sample before a window, and the samples inside it in order. -/
structure WindowPart where
  leadIn : Option Sample
  inWindow : List Sample

namespace SampleStream

def earlierOrSame (a b : Sample) : Bool :=
  a.timestamp ≤ b.timestamp

/-- Samples by instant; those of one instant stay in the order delivered. -/
def ordered (samples : List Sample) : List Sample :=
  samples.mergeSort earlierOrSame

/-- Of neighbours with one instant, keep the last. -/
def keepLast : List Sample → List Sample
  | [] => []
  | [s] => [s]
  | s :: next :: rest =>
    if s.timestamp = next.timestamp then keepLast (next :: rest)
    else s :: keepLast (next :: rest)

def normalize (samples : List Sample) : List Sample :=
  keepLast (ordered samples)

/-- Normalise a stream and count what it held. -/
def normalizeCounted (samples : List Sample) (counts : StreamCounts) :
    List Sample × StreamCounts :=
  let kept := normalize samples
  (kept,
    { received := counts.received + samples.length
      deduplicated := counts.deduplicated + (samples.length - kept.length)
      streams := counts.streams + 1 })

/-- The latest of samples; of one instant, the one delivered last. -/
def latest? : List Sample → Option Sample
  | [] => none
  | first :: rest =>
    some (rest.foldl
      (fun held s => if s.timestamp < held.timestamp then held else s) first)

/-- The part of a stream that matters to a window. The stream may be in any
order. -/
def split (samples : List Sample) (window : Window) : Outcome WindowPart := do
  let (start, stop) ← window.bounds
  let before := samples.filter fun s => decide (s.timestamp < start)
  let inside := samples.filter fun s => start ≤ s.timestamp && s.timestamp < stop
  pure ⟨latest? before, ordered inside⟩

end SampleStream

end UsageBilling
