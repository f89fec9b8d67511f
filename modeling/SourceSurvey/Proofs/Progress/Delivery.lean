import Mathlib.Algebra.BigOperators.Group.Finset.Piecewise
import SourceSurvey.Progress.Basic

/-!
# Delivery of progress

What a tracker and its subscribers do (`Tracker.Operation`) beside a record of what every subscriber
was sent, has received and has lost (`Feed`). A subscriber is known by its key, which stays its own
after it has left.

* `Tracker.subscriber?_broadcast` and its like: what an operation does to one subscriber.
* `Feed.Accounts`: what a subscriber received and what waits for it was sent in this order, its
  buffer has room for it, and what is missing was dropped.
* `Watched.Sound`: every feed accounts for its subscriber, and the tracker counts what all of them
  lost. `Sound.perform` is the step lemma, `Sound.after` the run lemma.
* `Watched.capacity_after`, `Watched.sent_after`, `Watched.gone_after`: a subscriber is there with its
  capacity and is told of everything until it leaves, and from then on nothing happens to it.
-/

namespace SourceSurvey

/-! ## One subscriber among others -/

namespace Subscriber

@[simp] theorem offer_key (s : Subscriber) (e : ProgressEvent) : (s.offer e).key = s.key := by
  unfold offer
  split
  · rfl
  · rfl

@[simp] theorem offer_capacity (s : Subscriber) (e : ProgressEvent) :
    (s.offer e).capacity = s.capacity := by
  unfold offer
  split
  · rfl
  · rfl

@[simp] theorem offer_room (s : Subscriber) (e : ProgressEvent) : (s.offer e).room = s.room := by
  unfold offer
  split
  · rfl
  · rfl

theorem offer_full {s : Subscriber} (h : s.isFull = true) (e : ProgressEvent) : s.offer e = s :=
  if_pos h

theorem offer_free {s : Subscriber} (h : s.isFull = false) (e : ProgressEvent) :
    s.offer e = { s with buffer := s.buffer ++ [e] } :=
  if_neg (by simp [h])

theorem length_offer_le {s : Subscriber} (h : s.buffer.length ≤ s.room) (e : ProgressEvent) :
    (s.offer e).buffer.length ≤ s.room := by
  cases hf : s.isFull with
  | true => rwa [offer_full hf]
  | false =>
    rw [offer_free hf]
    simp only [isFull, decide_eq_false_iff_not, not_le] at hf
    simpa [Nat.succ_le_iff] using hf

end Subscriber

namespace Tracker

variable {t : Tracker} {k key : Nat}

/-- The subscriber with a key, unless it has left. -/
def subscriber? (t : Tracker) (k : Nat) : Option Subscriber := t.subscribers.find? (·.key == k)

/-- What waits for a subscriber. -/
def buffered (t : Tracker) (k : Nat) : List ProgressEvent :=
  ((t.subscriber? k).map Subscriber.buffer).getD []

/-- The keys of the subscribers were given out, and none of them twice. -/
structure Keyed (t : Tracker) : Prop where
  given : ∀ s ∈ t.subscribers, s.key < t.nextKey
  distinct : t.subscribers.Pairwise fun s s' => s.key ≠ s'.key

theorem subscriber?_key {s : Subscriber} (h : t.subscriber? k = some s) : s.key = k := by
  simpa using List.find?_some h

theorem Keyed.subscriber?_none (h : t.Keyed) (hk : t.nextKey ≤ k) : t.subscriber? k = none := by
  refine List.find?_eq_none.mpr fun s hs => ?_
  have := h.given s hs
  simp only [beq_iff_eq]
  omega

theorem subscriber?_broadcast (t : Tracker) (e : ProgressEvent) (k : Nat) :
    (t.broadcast e).subscriber? k = (t.subscriber? k).map (·.offer e) := by
  show (t.subscribers.map (·.offer e)).find? _ = _
  rw [List.find?_map]
  simp only [subscriber?, Function.comp_def, Subscriber.offer_key]

theorem Keyed.subscriber?_subscribe (h : t.Keyed) (capacity k : Nat) :
    (t.subscribe capacity).2.subscriber? k =
      if k = t.nextKey then some { key := t.nextKey, capacity } else t.subscriber? k := by
  show (t.subscribers ++ [_]).find? _ = _
  rw [List.find?_append]
  split
  case isTrue hk =>
    subst hk
    rw [show t.subscribers.find? _ = none from h.subscriber?_none le_rfl]
    simp
  case isFalse hk =>
    simp [subscriber?, Ne.symm hk]

theorem subscriber?_unsubscribe (t : Tracker) (key k : Nat) :
    (t.unsubscribe key).subscriber? k = if k = key then none else t.subscriber? k := by
  show (t.subscribers.filter _).find? _ = _
  rw [List.find?_filter]
  by_cases hk : k = key
  · simp [hk]
  · rw [if_neg hk]
    refine congrArg t.subscribers.find? (funext fun s => ?_)
    by_cases hs : s.key = k
    · simp [hs, hk]
    · simp [hs]

/-- Receiving answers what was taken out of the buffer and changes nothing else. -/
theorem receive_fst (t : Tracker) (key most : Nat) :
    (t.receive key most).1 = (t.buffered key).take most := by
  unfold receive buffered subscriber?
  split
  case h_1 h => simp [h]
  case h_2 h => simp [h]

@[simp] theorem nextKey_receive (t : Tracker) (key most : Nat) :
    (t.receive key most).2.nextKey = t.nextKey := by
  unfold receive
  split
  · rfl
  · rfl

@[simp] theorem dropped_receive (t : Tracker) (key most : Nat) :
    (t.receive key most).2.dropped = t.dropped := by
  unfold receive
  split
  · rfl
  · rfl

@[simp] theorem snapshot_receive (t : Tracker) (key most : Nat) :
    (t.receive key most).2.snapshot = t.snapshot := by
  unfold receive
  split
  · rfl
  · rfl

theorem subscriber?_receive (t : Tracker) (key most k : Nat) :
    (t.receive key most).2.subscriber? k =
      if k = key then (t.subscriber? k).map fun s => { s with buffer := s.buffer.drop most }
      else t.subscriber? k := by
  unfold receive
  split
  case h_1 h =>
    by_cases hk : k = key
    · subst hk
      rw [if_pos rfl, show t.subscriber? k = none from h]
      rfl
    · rw [if_neg hk]
  case h_2 h =>
    show (t.subscribers.map _).find? _ = _
    rw [List.find?_map]
    have hsame : ((fun s : Subscriber => s.key == k) ∘ fun s : Subscriber =>
        if s.key == key then { s with buffer := s.buffer.drop most } else s) = (·.key == k) := by
      funext s
      dsimp only [Function.comp]
      split
      · rfl
      · rfl
    rw [hsame]
    unfold subscriber?
    cases hf : t.subscribers.find? (·.key == k) with
    | none => simp
    | some s =>
      have hkey : s.key = k := subscriber?_key hf
      by_cases hk : k = key
      · simp [hk, hkey]
      · simp [hk, hkey]

/-! ## Operations -/

/-- What a run gives notice of. -/
inductive Notice where
  | updating (completed failed : Nat) (file? : Option Path)
  | noting (file : Path)
  | resizing (total : Nat)
  | resetting (total : Nat)
  | beginning (stage : String)
  | ending (stage : String) (micros : Nat)

namespace Notice

/-- A tracker after a notice. -/
def tell (t : Tracker) : Notice → Tracker
  | .updating completed failed file? => t.update completed failed file?
  | .noting file => t.setCurrentFile file
  | .resizing total => t.setTotal total
  | .resetting total => t.reset total
  | .beginning stage => t.beginStage stage
  | .ending stage micros => t.endStage stage micros

/-- The counters after a notice. -/
def counted (s : Snapshot) : Notice → Snapshot
  | .updating completed failed file? => { s with
      completed := s.completed + completed
      failed := s.failed + failed
      currentFile? := file? <|> s.currentFile? }
  | .noting file => { s with currentFile? := some file }
  | .resizing total => { s with total }
  | .resetting total => { total }
  | .beginning _ => s
  | .ending _ _ => s

/-- What all subscribers are told of a notice. -/
def event (s : Snapshot) : Notice → ProgressEvent
  | .beginning stage => .started stage
  | .ending stage micros => .completed stage micros
  | n => .progress (counted s n)

/-- The files that were finished and that failed, after a notice. -/
def tally (sums : Nat × Nat) : Notice → Nat × Nat
  | .updating completed failed _ => (sums.1 + completed, sums.2 + failed)
  | .resetting _ => (0, 0)
  | _ => sums

/-- A notice sets the counters and tells all subscribers. -/
theorem tell_eq (t : Tracker) (n : Notice) :
    n.tell t = { t with snapshot := n.counted t.snapshot }.broadcast (n.event t.snapshot) := by
  cases n with
  | updating => rfl
  | noting => rfl
  | resizing => rfl
  | resetting => rfl
  | beginning => rfl
  | ending => rfl

/-- The counters add up what was noticed. -/
theorem counted_tally {s : Snapshot} {sums : Nat × Nat} (h : (s.completed, s.failed) = sums)
    (n : Notice) : ((n.counted s).completed, (n.counted s).failed) = n.tally sums := by
  subst h
  cases n with
  | updating => rfl
  | noting => rfl
  | resizing => rfl
  | resetting => rfl
  | beginning => rfl
  | ending => rfl

/-- Counters that are told are those after the notice. -/
theorem event_progress {s s' : Snapshot} {n : Notice} (h : n.event s = .progress s') :
    s' = n.counted s := by
  cases n with
  | updating => exact (ProgressEvent.progress.inj h).symm
  | noting => exact (ProgressEvent.progress.inj h).symm
  | resizing => exact (ProgressEvent.progress.inj h).symm
  | resetting => exact (ProgressEvent.progress.inj h).symm
  | beginning => exact nomatch h
  | ending => exact nomatch h

end Notice

/-- What a run and the subscribers do with a tracker. A subscriber that leaves drops its
subscription; one that receives takes one event out of its buffer, and one that drains takes all. -/
inductive Operation where
  | noticing (n : Notice)
  | subscribing (capacity : Nat)
  | leaving (key : Nat)
  | receiving (key : Nat)
  | draining (key : Nat)

/-- The number of subscribers that an operation adds. -/
def Operation.joins : Operation → Nat
  | .subscribing _ => 1
  | _ => 0

/-- The number of subscribers that some operations add, which is the key of the next one. -/
def joined : List Operation → Nat
  | [] => 0
  | o :: rest => o.joins + joined rest

/-- What is told in the course of some operations. -/
def told (s : Snapshot) : List Operation → List ProgressEvent
  | [] => []
  | .noticing n :: rest => n.event s :: told (n.counted s) rest
  | _ :: rest => told s rest

/-- What a subscriber gets from an operation, and the tracker after it. -/
def perform (t : Tracker) : Operation → List ProgressEvent × Tracker
  | .noticing n => ([], n.tell t)
  | .subscribing capacity => ([], (t.subscribe capacity).2)
  | .leaving key => ([], t.unsubscribe key)
  | .receiving key => t.receive key 1
  | .draining key => t.drain key

theorem drain_eq (t : Tracker) (key : Nat) : t.drain key = t.receive key (t.buffered key).length := by
  unfold drain buffered subscriber?
  cases t.subscribers.find? (·.key == key) with
  | none => rfl
  | some s => rfl

theorem nextKey_perform (t : Tracker) (o : Operation) :
    (t.perform o).2.nextKey = t.nextKey + o.joins := by
  cases o with
  | noticing n =>
    show (n.tell t).nextKey = _
    rw [n.tell_eq]
    rfl
  | subscribing => rfl
  | leaving => rfl
  | receiving key => exact t.nextKey_receive key 1
  | draining key =>
    show (t.drain key).2.nextKey = _
    rw [drain_eq]
    exact t.nextKey_receive key _

theorem lt_nextKey_perform (t : Tracker) (hk : k < t.nextKey) (o : Operation) :
    k < (t.perform o).2.nextKey := by
  rw [nextKey_perform]
  exact Nat.lt_add_right _ hk

namespace Keyed

theorem ofTotal (total : Nat) : (Tracker.ofTotal total).Keyed := ⟨nofun, .nil⟩

/-- Subscribers that keep their keys. -/
theorem map (h : t.Keyed) {f : Subscriber → Subscriber} (hf : ∀ s, (f s).key = s.key)
    {t' : Tracker} (subscribers : t'.subscribers = t.subscribers.map f)
    (nextKey : t'.nextKey = t.nextKey) : t'.Keyed := by
  refine ⟨fun s hs => ?_, ?_⟩
  · rw [subscribers] at hs
    obtain ⟨s', hs', rfl⟩ := List.mem_map.mp hs
    rw [hf, nextKey]
    exact h.given s' hs'
  · rw [subscribers]
    exact List.pairwise_map.mpr (h.distinct.imp fun hne => by rwa [hf, hf])

theorem receive (h : t.Keyed) (key most : Nat) : (t.receive key most).2.Keyed := by
  unfold Tracker.receive
  split
  · exact h
  · refine h.map (fun s => ?_) rfl rfl
    split
    · rfl
    · rfl

/-- No operation gives out a key twice. -/
theorem perform (h : t.Keyed) (o : Operation) : (t.perform o).2.Keyed := by
  cases o with
  | noticing n =>
    show (n.tell t).Keyed
    rw [n.tell_eq]
    exact h.map (fun s => s.offer_key _) rfl rfl
  | subscribing capacity =>
    refine ⟨fun s hs => ?_, ?_⟩
    · show s.key < t.nextKey + 1
      rcases List.mem_append.mp hs with hs | hs
      · exact Nat.lt_succ_of_lt (h.given s hs)
      · obtain rfl := List.mem_singleton.mp hs
        exact Nat.lt_succ_self _
    · refine List.pairwise_append.mpr ⟨h.distinct, List.pairwise_singleton .., fun s hs s' hs' => ?_⟩
      obtain rfl := List.mem_singleton.mp hs'
      exact (h.given s hs).ne
  | leaving key =>
    exact ⟨fun s hs => h.given s (List.mem_of_mem_filter hs), h.distinct.filter _⟩
  | receiving key => exact h.receive key 1
  | draining key =>
    show (t.drain key).2.Keyed
    rw [drain_eq]
    exact h.receive key _

end Keyed

/-- A subscriber keeps its capacity until it leaves. -/
theorem Keyed.capacity_perform (h : t.Keyed) (hk : k < t.nextKey) {o : Operation}
    (ho : o ≠ .leaving k) :
    ((t.perform o).2.subscriber? k).map Subscriber.capacity =
      (t.subscriber? k).map Subscriber.capacity := by
  have hreceive (key most : Nat) : ((t.receive key most).2.subscriber? k).map Subscriber.capacity =
      (t.subscriber? k).map Subscriber.capacity := by
    rw [subscriber?_receive]
    split
    · rw [Option.map_map]
      rfl
    · rfl
  cases o with
  | noticing n =>
    show ((n.tell t).subscriber? k).map _ = _
    rw [n.tell_eq, subscriber?_broadcast, Option.map_map]
    exact congrArg (Option.map · (t.subscriber? k)) (funext fun s => s.offer_capacity _)
  | subscribing capacity =>
    show ((t.subscribe capacity).2.subscriber? k).map _ = _
    rw [h.subscriber?_subscribe, if_neg hk.ne]
  | leaving key =>
    show ((t.unsubscribe key).subscriber? k).map _ = _
    rw [subscriber?_unsubscribe, if_neg fun hkey => ho (congrArg _ hkey.symm)]
  | receiving key => exact hreceive key 1
  | draining key =>
    show ((t.drain key).2.subscriber? k).map _ = _
    rw [drain_eq]
    exact hreceive key _

/-- A subscriber that has left does not come back. -/
theorem Keyed.subscriber?_perform_none (h : t.Keyed) (hk : k < t.nextKey)
    (hnone : t.subscriber? k = none) (o : Operation) : (t.perform o).2.subscriber? k = none := by
  by_cases ho : o = .leaving k
  · subst ho
    exact (t.subscriber?_unsubscribe k k).trans (if_pos rfl)
  · have hcapacity := h.capacity_perform hk ho
    rwa [hnone, Option.map_none, Option.map_eq_none_iff] at hcapacity

/-- The subscribers whose buffers are full, counted by their keys. -/
theorem countP_full {n : Nat} {subscribers : List Subscriber}
    (given : ∀ s ∈ subscribers, s.key < n)
    (distinct : subscribers.Pairwise fun s s' => s.key ≠ s'.key) :
    subscribers.countP Subscriber.isFull =
      ∑ k ∈ Finset.range n,
        if (subscribers.find? (·.key == k)).any Subscriber.isFull then 1 else 0 := by
  induction subscribers with
  | nil => simp
  | cons s rest ih =>
    obtain ⟨hs, given⟩ := List.forall_mem_cons.mp given
    obtain ⟨other, distinct⟩ := List.pairwise_cons.mp distinct
    -- No other subscriber has the key of the first one, so it adds to one summand only.
    have split (k : Nat) :
        (if ((s :: rest).find? (·.key == k)).any Subscriber.isFull then 1 else 0) =
          (if k = s.key then if s.isFull then 1 else 0 else 0) +
            if (rest.find? (·.key == k)).any Subscriber.isFull then 1 else 0 := by
      by_cases hk : k = s.key
      · have hrest : rest.find? (·.key == s.key) = none :=
          List.find?_eq_none.mpr fun s' hs' => by simpa using (other s' hs').symm
        simp [hk, hrest]
      · simp [hk, Ne.symm hk]
    simp only [split, Finset.sum_add_distrib, Finset.sum_ite_eq', Finset.mem_range, hs, if_true]
    rw [List.countP_cons, ih given distinct, add_comm]

end Tracker

/-! ## What a subscriber was sent -/

/-- The events since a subscriber subscribed, those that it has received, and the number of those
that found its buffer full. -/
structure Feed where
  sent : List ProgressEvent := []
  received : List ProgressEvent := []
  dropped : Nat := 0

/-- A tracker beside the feeds of all subscribers that it ever had, by their keys. -/
structure Watched where
  tracker : Tracker
  feed : Nat → Feed := fun _ => {}

namespace Feed

/-- The feed of a subscriber when an event is told. -/
def tell (f : Feed) (t : Tracker) (k : Nat) (e : ProgressEvent) : Feed :=
  if k < t.nextKey then
    { f with
      sent := f.sent ++ [e]
      dropped := f.dropped + if (t.subscriber? k).any Subscriber.isFull then 1 else 0 }
  else f

/-- The feed of a subscriber that receives events. -/
def receive (f : Feed) (events : List ProgressEvent) : Feed :=
  { f with received := f.received ++ events }

/-- The feed of a subscriber after an operation. -/
def follow (f : Feed) (t : Tracker) (k : Nat) : Tracker.Operation → Feed
  | .noticing n => f.tell t k (n.event t.snapshot)
  | .receiving key => if k = key then f.receive (t.receive key 1).1 else f
  | .draining key => if k = key then f.receive (t.drain key).1 else f
  | _ => f

/-- A feed accounts for a subscriber, or for one that has left: what it received and what waits for
it was sent in this order, the buffer has room for it, and what is missing was dropped. -/
structure Accounts (f : Feed) (s? : Option Subscriber) : Prop where
  order : (f.received ++ (s?.map Subscriber.buffer).getD []).Sublist f.sent
  room : ∀ s, s? = some s → s.buffer.length ≤ s.room
  count : ∀ s, s? = some s → f.received.length + s.buffer.length + f.dropped = f.sent.length

namespace Accounts

variable {f : Feed} {s? : Option Subscriber} {s : Subscriber}

theorem joined (key capacity : Nat) : Accounts {} (some { key, capacity }) := by
  refine ⟨List.nil_sublist _, ?_, ?_⟩
  · rintro s ⟨⟩
    exact Nat.zero_le _
  · rintro s ⟨⟩
    rfl

/-- What waits for a subscriber is lost when it leaves. -/
theorem left (h : f.Accounts s?) : f.Accounts none := by
  refine ⟨?_, nofun, nofun⟩
  simpa using (List.sublist_append_left _ _).trans h.order

/-- Events are taken out of the buffer in their order. -/
theorem receive (h : f.Accounts (some s)) (most : Nat) :
    (f.receive (s.buffer.take most)).Accounts (some { s with buffer := s.buffer.drop most }) := by
  have horder : (f.received ++ s.buffer).Sublist f.sent := h.order
  have hroom := h.room s rfl
  have hcount := h.count s rfl
  refine ⟨?_, ?_, ?_⟩
  · show ((f.received ++ s.buffer.take most) ++ s.buffer.drop most).Sublist f.sent
    rwa [List.append_assoc, List.take_append_drop]
  · rintro _ ⟨⟩
    show (s.buffer.drop most).length ≤ s.room
    rw [List.length_drop]
    omega
  · rintro _ ⟨⟩
    show (f.received ++ s.buffer.take most).length + (s.buffer.drop most).length + f.dropped =
      f.sent.length
    rw [List.length_append, List.length_take, List.length_drop]
    omega

/-- An event waits for a subscriber, or is dropped because its buffer is full. -/
theorem tell {t : Tracker} {k : Nat} (h : f.Accounts (t.subscriber? k)) (hk : k < t.nextKey)
    (e : ProgressEvent) : (f.tell t k e).Accounts ((t.subscriber? k).map (·.offer e)) := by
  unfold Feed.tell
  rw [if_pos hk]
  cases hs : t.subscriber? k with
  | none =>
    rw [hs] at h
    exact ⟨h.order.trans (List.sublist_append_left _ _), nofun, nofun⟩
  | some s =>
    rw [hs] at h
    have horder : (f.received ++ s.buffer).Sublist f.sent := h.order
    have hcount := h.count s rfl
    refine ⟨?_, ?_, ?_⟩
    · show (f.received ++ (s.offer e).buffer).Sublist (f.sent ++ [e])
      cases hf : s.isFull with
      | true =>
        rw [Subscriber.offer_full hf]
        exact horder.trans (List.sublist_append_left _ _)
      | false =>
        rw [Subscriber.offer_free hf, ← List.append_assoc]
        exact horder.append (List.Sublist.refl _)
    · rintro _ ⟨⟩
      rw [Subscriber.offer_room]
      exact Subscriber.length_offer_le (h.room s rfl) e
    · rintro _ ⟨⟩
      show f.received.length + (s.offer e).buffer.length +
        (f.dropped + if s.isFull then 1 else 0) = (f.sent ++ [e]).length
      cases hf : s.isFull with
      | true =>
        simp only [Subscriber.offer_full hf, if_true, List.length_append, List.length_singleton]
        omega
      | false =>
        simp only [Subscriber.offer_free hf, Bool.false_eq_true, if_false, List.length_append,
          List.length_singleton]
        omega

end Accounts
end Feed

namespace Watched

open Tracker (Notice Operation)

/-- A new tracker. -/
def ofTotal (total : Nat) : Watched := { tracker := .ofTotal total }

/-- The tracker and the feeds after an operation. -/
def perform (w : Watched) (o : Operation) : Watched where
  tracker := (w.tracker.perform o).2
  feed k := (w.feed k).follow w.tracker k o

/-- The tracker and the feeds after some operations. -/
def after (w : Watched) (os : List Operation) : Watched := os.foldl perform w

theorem after_append (w : Watched) (os os' : List Operation) :
    w.after (os ++ os') = (w.after os).after os' :=
  List.foldl_append

/-! ## Nothing is lost silently -/

/-- What holds after any operations. -/
structure Sound (w : Watched) : Prop where
  keyed : w.tracker.Keyed
  fresh : ∀ k, w.tracker.nextKey ≤ k → w.feed k = {}
  accounts : ∀ k, (w.feed k).Accounts (w.tracker.subscriber? k)
  dropped : w.tracker.dropped = ∑ k ∈ Finset.range w.tracker.nextKey, (w.feed k).dropped

namespace Sound

variable {w : Watched}

theorem ofTotal (total : Nat) : (ofTotal total).Sound where
  keyed := .ofTotal total
  fresh _ _ := rfl
  accounts _ := ⟨List.nil_sublist _, nofun, nofun⟩
  dropped := rfl

/-- An event that is told waits for every subscriber, or is counted as dropped for it. -/
theorem notice (h : w.Sound) (n : Notice) : (w.perform (.noticing n)).Sound := by
  have htell : (w.perform (.noticing n)).tracker =
      { w.tracker with snapshot := n.counted w.tracker.snapshot }.broadcast
        (n.event w.tracker.snapshot) := n.tell_eq w.tracker
  have hkey : (w.perform (.noticing n)).tracker.nextKey = w.tracker.nextKey := by
    rw [htell]
    rfl
  refine ⟨h.keyed.perform _, fun k hk => ?_, fun k => ?_, ?_⟩
  · rw [hkey] at hk
    exact (if_neg (not_lt.mpr hk)).trans (h.fresh k hk)
  · rw [htell, Tracker.subscriber?_broadcast]
    by_cases hk : k < w.tracker.nextKey
    · exact (h.accounts k).tell hk _
    · have hnone := h.keyed.subscriber?_none (not_lt.mp hk)
      show (Feed.tell ..).Accounts ((w.tracker.subscriber? k).map _)
      rw [Feed.tell, if_neg hk, hnone, h.fresh k (not_lt.mp hk)]
      exact ⟨List.nil_sublist _, nofun, nofun⟩
  · -- The tracker counts the full buffers, the feeds ask for each key whether its buffer is full.
    have hlost : ∀ k ∈ Finset.range w.tracker.nextKey,
        ((w.perform (.noticing n)).feed k).dropped = (w.feed k).dropped +
          if (w.tracker.subscriber? k).any Subscriber.isFull then 1 else 0 := by
      intro k hk
      show (Feed.tell ..).dropped = _
      rw [Feed.tell, if_pos (Finset.mem_range.mp hk)]
    rw [hkey, Finset.sum_congr rfl hlost, Finset.sum_add_distrib, ← h.dropped, htell]
    exact congrArg _ (Tracker.countP_full h.keyed.given h.keyed.distinct)

/-- Receiving moves events from the buffer of one subscriber to what it received. -/
theorem receive (h : w.Sound) {o : Operation} {key most : Nat}
    (tracker : w.tracker.perform o = w.tracker.receive key most)
    (feed : ∀ k, (w.perform o).feed k =
      if k = key then (w.feed k).receive (w.tracker.receive key most).1 else w.feed k) :
    (w.perform o).Sound := by
  have htracker : (w.perform o).tracker = (w.tracker.receive key most).2 := congrArg Prod.snd tracker
  have hkey : (w.perform o).tracker.nextKey = w.tracker.nextKey := by simp [htracker]
  have hdropped : (w.perform o).tracker.dropped = w.tracker.dropped := by simp [htracker]
  refine ⟨h.keyed.perform o, fun k hk => ?_, fun k => ?_, ?_⟩
  · rw [hkey] at hk
    rw [feed, h.fresh k hk, Tracker.receive_fst]
    split
    case isTrue he =>
      subst he
      simp [Feed.receive, Tracker.buffered, h.keyed.subscriber?_none hk]
    case isFalse => rfl
  · rw [feed, htracker, Tracker.subscriber?_receive]
    split
    case isTrue he =>
      subst he
      rw [Tracker.receive_fst]
      have haccounts := h.accounts k
      unfold Tracker.buffered
      cases hs : w.tracker.subscriber? k with
      | none =>
        rw [hs] at haccounts
        simpa [Feed.receive] using haccounts
      | some s =>
        rw [hs] at haccounts
        exact haccounts.receive most
    case isFalse => exact h.accounts k
  · rw [hkey, hdropped, h.dropped]
    refine Finset.sum_congr rfl fun k _ => ?_
    rw [feed]
    split
    · rfl
    · rfl

/-- No operation loses an event silently. -/
theorem perform (h : w.Sound) (o : Operation) : (w.perform o).Sound := by
  cases o with
  | noticing n => exact h.notice n
  | subscribing capacity =>
    refine ⟨h.keyed.perform _, fun k hk => h.fresh k (Nat.le_of_succ_le hk), fun k => ?_, ?_⟩
    · show (w.feed k).Accounts ((w.tracker.subscribe capacity).2.subscriber? k)
      rw [h.keyed.subscriber?_subscribe]
      split
      case isTrue hk =>
        rw [h.fresh k hk.ge]
        exact .joined ..
      case isFalse => exact h.accounts k
    · show w.tracker.dropped = ∑ k ∈ Finset.range (w.tracker.nextKey + 1), (w.feed k).dropped
      rw [Finset.sum_range_succ, h.fresh _ le_rfl, h.dropped]
      rfl
  | leaving key =>
    refine ⟨h.keyed.perform _, h.fresh, fun k => ?_, h.dropped⟩
    show (w.feed k).Accounts ((w.tracker.unsubscribe key).subscriber? k)
    rw [Tracker.subscriber?_unsubscribe]
    split
    · exact (h.accounts k).left
    · exact h.accounts k
  | receiving key => exact h.receive rfl fun _ => rfl
  | draining key =>
    refine h.receive (w.tracker.drain_eq key) fun k => ?_
    rw [← Tracker.drain_eq]
    rfl

theorem after (h : w.Sound) (os : List Operation) : (w.after os).Sound := by
  induction os generalizing w with
  | nil => exact h
  | cons o rest ih => exact ih (h.perform o)

end Sound

/-! ## Who is there -/

variable {w : Watched} {k : Nat}

theorem nextKey_after (w : Watched) (os : List Operation) :
    (w.after os).tracker.nextKey = w.tracker.nextKey + Tracker.joined os := by
  induction os generalizing w with
  | nil => rfl
  | cons o rest ih =>
    have hkey : (w.perform o).tracker.nextKey = w.tracker.nextKey + o.joins :=
      w.tracker.nextKey_perform o
    show ((w.perform o).after rest).tracker.nextKey = _
    rw [ih, hkey, Nat.add_assoc]
    rfl

/-- A subscriber that does not leave is still there, with the capacity that it asked for. -/
theorem capacity_after (h : w.tracker.Keyed) (hk : k < w.tracker.nextKey) {os : List Operation}
    (stays : .leaving k ∉ os) :
    ((w.after os).tracker.subscriber? k).map Subscriber.capacity =
      (w.tracker.subscriber? k).map Subscriber.capacity := by
  induction os generalizing w with
  | nil => rfl
  | cons o rest ih =>
    obtain ⟨ho, stays⟩ := not_or.mp (List.mem_cons.not.mp stays)
    have hkey := w.tracker.lt_nextKey_perform hk o
    exact (ih (h.perform o) hkey stays).trans (h.capacity_perform hk (Ne.symm ho))

/-- A subscriber that has left stays away, receives nothing and loses nothing. -/
structure Gone (w w' : Watched) (k : Nat) : Prop where
  subscriber : w'.tracker.subscriber? k = none
  received : (w'.feed k).received = (w.feed k).received
  dropped : (w'.feed k).dropped = (w.feed k).dropped

theorem gone_perform (h : w.tracker.Keyed) (hk : k < w.tracker.nextKey)
    (hnone : w.tracker.subscriber? k = none) (o : Operation) : w.Gone (w.perform o) k := by
  have hnothing (most : Nat) : (w.tracker.receive k most).1 = [] := by
    rw [Tracker.receive_fst, Tracker.buffered, hnone]
    exact List.take_nil
  have hreceive {key : Nat} {events : List ProgressEvent} (hevents : k = key → events = []) :
      (if k = key then (w.feed k).receive events else w.feed k) = w.feed k := by
    split
    case isTrue hkey => simp [Feed.receive, hevents hkey]
    case isFalse => rfl
  have hgone := h.subscriber?_perform_none hk hnone o
  cases o with
  | noticing n =>
    have hfeed : (w.perform (.noticing n)).feed k =
        { w.feed k with sent := (w.feed k).sent ++ [n.event w.tracker.snapshot] } := by
      refine (if_pos hk).trans ?_
      rw [hnone]
      rfl
    exact ⟨hgone, by rw [hfeed], by rw [hfeed]⟩
  | subscribing => exact ⟨hgone, rfl, rfl⟩
  | leaving => exact ⟨hgone, rfl, rfl⟩
  | receiving key =>
    have hfeed : (w.perform (.receiving key)).feed k = w.feed k :=
      hreceive fun hkey => hkey ▸ hnothing 1
    exact ⟨hgone, congrArg _ hfeed, congrArg _ hfeed⟩
  | draining key =>
    have hfeed : (w.perform (.draining key)).feed k = w.feed k :=
      hreceive fun hkey => by rw [← hkey, Tracker.drain_eq, hnothing]
    exact ⟨hgone, congrArg _ hfeed, congrArg _ hfeed⟩

theorem gone_after (h : w.tracker.Keyed) (hk : k < w.tracker.nextKey)
    (hnone : w.tracker.subscriber? k = none) (os : List Operation) : w.Gone (w.after os) k := by
  induction os generalizing w with
  | nil => exact ⟨hnone, rfl, rfl⟩
  | cons o rest ih =>
    have hstep := gone_perform h hk hnone o
    have hrest := ih (h.perform o) (w.tracker.lt_nextKey_perform hk o) hstep.subscriber
    exact ⟨hrest.subscriber, hrest.received.trans hstep.received,
      hrest.dropped.trans hstep.dropped⟩

/-- Whoever has subscribed is told of every notice from then on. -/
theorem sent_after (hk : k < w.tracker.nextKey) (os : List Operation) :
    ((w.after os).feed k).sent = (w.feed k).sent ++ Tracker.told w.tracker.snapshot os := by
  induction os generalizing w with
  | nil => exact (List.append_nil _).symm
  | cons o rest ih =>
    have hkey := w.tracker.lt_nextKey_perform hk o
    refine (ih hkey).trans ?_
    -- an operation that tells nothing leaves the counters and what was sent as they are
    have hquiet (hsent : ((w.perform o).feed k).sent = (w.feed k).sent)
        (hsnapshot : (w.perform o).tracker.snapshot = w.tracker.snapshot) :
        ((w.perform o).feed k).sent ++ Tracker.told (w.perform o).tracker.snapshot rest =
          (w.feed k).sent ++ Tracker.told w.tracker.snapshot rest := by
      rw [hsent, hsnapshot]
    cases o with
    | noticing n =>
      have hsent : ((w.perform (.noticing n)).feed k).sent =
          (w.feed k).sent ++ [n.event w.tracker.snapshot] :=
        congrArg Feed.sent (if_pos hk)
      have hsnapshot : (w.perform (.noticing n)).tracker.snapshot = n.counted w.tracker.snapshot :=
        congrArg Tracker.snapshot (n.tell_eq w.tracker)
      rw [hsent, hsnapshot, List.append_assoc]
      rfl
    | subscribing capacity => exact hquiet rfl rfl
    | leaving key => exact hquiet rfl rfl
    | receiving key =>
      refine hquiet ?_ (w.tracker.snapshot_receive key 1)
      show (if k = key then _ else _ : Feed).sent = _
      split
      · rfl
      · rfl
    | draining key =>
      refine hquiet ?_ ?_
      · show (if k = key then _ else _ : Feed).sent = _
        split
        · rfl
        · rfl
      · show (w.tracker.drain key).2.snapshot = _
        rw [Tracker.drain_eq]
        exact w.tracker.snapshot_receive key _

end Watched
end SourceSurvey
