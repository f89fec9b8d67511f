import SourceSurvey.Path

/-!
# Progress

A tracker counts finished and failed files and tells its subscribers about every change. Each
subscriber has a buffer of its own capacity; an event that finds a full buffer is dropped for that
subscriber and counted. So what one subscriber receives does not depend on the others.
-/

namespace SourceSurvey

/-- The counters of a run. -/
structure Snapshot where
  total : Nat
  completed : Nat := 0
  failed : Nat := 0
  currentFile? : Option Path := none
  deriving DecidableEq, Repr

namespace Snapshot

/-- The share of finished and failed files, in percent; all of nothing. -/
def percentage (s : Snapshot) : Float :=
  if s.total = 0 then 100
  else Float.ofNat (s.completed + s.failed) / Float.ofNat s.total * 100

end Snapshot

/-- What subscribers are told. -/
inductive ProgressEvent where
  | progress (snapshot : Snapshot)
  | started (stage : String)
  | completed (stage : String) (micros : Nat)
  deriving DecidableEq, Repr

/-- A buffer of events that waits for its reader. -/
structure Subscriber where
  key : Nat
  capacity : Nat
  buffer : List ProgressEvent := []
  deriving Repr

namespace Subscriber

/-- The room in the buffer, which is at least one event. -/
def room (s : Subscriber) : Nat := max s.capacity 1

/-- Whether a further event would be dropped. -/
def isFull (s : Subscriber) : Bool := s.room ≤ s.buffer.length

/-- The subscriber after an event. -/
def offer (s : Subscriber) (e : ProgressEvent) : Subscriber :=
  if s.isFull then s else { s with buffer := s.buffer ++ [e] }

end Subscriber

/-- The counters, the subscribers in the order of subscription, the key of the next subscriber and
the number of dropped events. -/
structure Tracker where
  snapshot : Snapshot
  subscribers : List Subscriber := []
  nextKey : Nat := 0
  dropped : Nat := 0
  deriving Repr

namespace Tracker

/-- The tracker of a run over some files. -/
def ofTotal (total : Nat) : Tracker := { snapshot := { total } }

/-- Tells all subscribers about an event. -/
def broadcast (t : Tracker) (e : ProgressEvent) : Tracker :=
  { t with
    subscribers := t.subscribers.map (·.offer e)
    dropped := t.dropped + t.subscribers.countP Subscriber.isFull }

/-- Sets the counters and tells all subscribers. -/
def report (t : Tracker) (s : Snapshot) : Tracker :=
  { t with snapshot := s }.broadcast (.progress s)

/-- Counts finished and failed files and notes the current one. -/
def update (t : Tracker) (completed failed : Nat) (file? : Option Path) : Tracker :=
  t.report { t.snapshot with
    completed := t.snapshot.completed + completed
    failed := t.snapshot.failed + failed
    currentFile? := file? <|> t.snapshot.currentFile? }

/-- Notes the current file. -/
def setCurrentFile (t : Tracker) (file : Path) : Tracker := t.update 0 0 (some file)

/-- Changes the number of files. -/
def setTotal (t : Tracker) (total : Nat) : Tracker := t.report { t.snapshot with total }

/-- Starts over with a number of files. -/
def reset (t : Tracker) (total : Nat) : Tracker := t.report { total }

/-- Announces that a stage begins. -/
def beginStage (t : Tracker) (stage : String) : Tracker := t.broadcast (.started stage)

/-- Announces that a stage has ended. -/
def endStage (t : Tracker) (stage : String) (micros : Nat) : Tracker :=
  t.broadcast (.completed stage micros)

/-- Adds a subscriber and answers its key. -/
def subscribe (t : Tracker) (capacity : Nat) : Nat × Tracker :=
  (t.nextKey, { t with
    subscribers := t.subscribers ++ [{ key := t.nextKey, capacity }]
    nextKey := t.nextKey + 1 })

/-- Removes a subscriber. -/
def unsubscribe (t : Tracker) (key : Nat) : Tracker :=
  { t with subscribers := t.subscribers.filter (·.key != key) }

/-- Takes up to `most` events out of the buffer of a subscriber. -/
def receive (t : Tracker) (key most : Nat) : List ProgressEvent × Tracker :=
  match t.subscribers.find? (·.key == key) with
  | none => ([], t)
  | some s =>
    (s.buffer.take most, { t with
      subscribers := t.subscribers.map fun s =>
        if s.key == key then { s with buffer := s.buffer.drop most } else s })

/-- Takes all events out of the buffer of a subscriber. -/
def drain (t : Tracker) (key : Nat) : List ProgressEvent × Tracker :=
  let buffered := (t.subscribers.find? (·.key == key)).map fun s => s.buffer.length
  t.receive key (buffered.getD 0)

end Tracker
end SourceSurvey
