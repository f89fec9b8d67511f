import SourceSurvey.Proofs.Progress.Delivery

/-!
# Subscribers do not disturb each other

A subscriber of a tracker is compared with the same subscriber alone: the operations of all other
subscribers are left out (`Tracker.alone`), and it is the first that subscribes.

* `Watched.Alike`: both are told the same and keep the same in their buffers. `Alike.perform` is the
  step lemma, `Alike.after` the run lemma.
* `Watched.snapshot_after`: the counters add up what was noticed since the last reset.
* `Watched.after_delivers`: what a new tracker delivers.
-/

namespace SourceSurvey

namespace Tracker

/-! ## Operations of one subscriber -/

/-- What is left of an operation if a subscriber is alone; so many have subscribed before. -/
def Operation.alone (k joined : Nat) : Operation → List Operation
  | .noticing n => [.noticing n]
  | .subscribing capacity => if k = joined then [.subscribing capacity] else []
  | .leaving key => if k = key then [.leaving 0] else []
  | .receiving key => if k = key then [.receiving 0] else []
  | .draining key => if k = key then [.draining 0] else []

/-- What is left of some operations if a subscriber is alone. -/
def alone (k joined : Nat) : List Operation → List Operation
  | [] => []
  | o :: rest => o.alone k joined ++ alone k (joined + o.joins) rest

/-- The files that were finished and that failed since the last reset. -/
def tally (os : List Operation) : Nat × Nat :=
  os.foldl (fun sums o => match o with
    | .noticing n => n.tally sums
    | _ => sums) (0, 0)

end Tracker

namespace Subscriber

/-- A subscriber that was given another key. -/
def rekey (s : Subscriber) (key : Nat) : Subscriber := { s with key }

theorem offer_rekey (s : Subscriber) (key : Nat) (e : ProgressEvent) :
    (s.rekey key).offer e = (s.offer e).rekey key := by
  unfold offer
  split
  case isTrue h => rw [if_pos (show s.isFull = true from h)]
  case isFalse h => rw [if_neg (show ¬ s.isFull = true from h)]; rfl

end Subscriber

namespace Watched

open Tracker (Notice Operation alone joined tally told)

variable {k : Nat} {w v : Watched}

/-! ## A subscriber alone -/

/-- A subscriber among others, and the same subscriber alone. -/
structure Alike (k : Nat) (w v : Watched) : Prop where
  keyed : w.tracker.Keyed
  keyed' : v.tracker.Keyed
  snapshot : v.tracker.snapshot = w.tracker.snapshot
  joined : v.tracker.nextKey = if k < w.tracker.nextKey then 1 else 0
  waiting : v.tracker.subscriber? 0 = (w.tracker.subscriber? k).map (·.rekey 0)
  feed : v.feed 0 = w.feed k

namespace Alike

theorem buffered (h : w.Alike k v) : v.tracker.buffered 0 = w.tracker.buffered k := by
  unfold Tracker.buffered
  rw [h.waiting, Option.map_map]
  rfl

theorem ofTotal (k total : Nat) : (ofTotal total).Alike k (ofTotal total) :=
  ⟨.ofTotal total, .ofTotal total, rfl, rfl, rfl, rfl⟩

/-- Both are told the same. -/
theorem notice (h : w.Alike k v) (n : Notice) :
    (w.perform (.noticing n)).Alike k (v.perform (.noticing n)) := by
  have htell (u : Watched) : (u.perform (.noticing n)).tracker =
      { u.tracker with snapshot := n.counted u.tracker.snapshot }.broadcast
        (n.event u.tracker.snapshot) := n.tell_eq u.tracker
  have hwaiting (u : Watched) (j : Nat) : (u.perform (.noticing n)).tracker.subscriber? j =
      (u.tracker.subscriber? j).map (·.offer (n.event u.tracker.snapshot)) := by
    rw [htell]
    exact Tracker.subscriber?_broadcast ..
  refine ⟨h.keyed.perform _, h.keyed'.perform _, ?_, ?_, ?_, ?_⟩
  · rw [htell, htell, h.snapshot]
    rfl
  · rw [htell, htell]
    exact h.joined
  · rw [hwaiting, hwaiting, h.waiting, h.snapshot]
    cases w.tracker.subscriber? k with
    | none => rfl
    | some s => exact congrArg some (s.offer_rekey 0 _)
  · show (v.feed 0).tell v.tracker 0 _ = (w.feed k).tell w.tracker k _
    unfold Feed.tell
    rw [h.joined, h.feed, h.waiting, h.snapshot]
    by_cases hk : k < w.tracker.nextKey
    · simp only [hk, if_true, Nat.one_pos]
      cases w.tracker.subscriber? k with
      | none => rfl
      | some s => rfl
    · simp only [hk, if_false, lt_self_iff_false]

/-- An operation of others. -/
theorem apart (h : w.Alike k v) {o : Operation}
    (snapshot : (w.tracker.perform o).2.snapshot = w.tracker.snapshot)
    (joined : k < w.tracker.nextKey + o.joins ↔ k < w.tracker.nextKey)
    (waiting : (w.tracker.perform o).2.subscriber? k = w.tracker.subscriber? k)
    (feed : (w.perform o).feed k = w.feed k) : (w.perform o).Alike k v := by
  refine ⟨h.keyed.perform o, h.keyed', h.snapshot.trans snapshot.symm, ?_, ?_, h.feed.trans feed.symm⟩
  · show _ = if k < (w.tracker.perform o).2.nextKey then 1 else 0
    rw [h.joined, w.tracker.nextKey_perform, if_congr joined rfl rfl]
  · show _ = ((w.tracker.perform o).2.subscriber? k).map _
    rw [h.waiting, waiting]

/-- Both subscribe. -/
theorem subscribe (h : w.Alike k v) (capacity : Nat) (hk : k = w.tracker.nextKey) :
    (w.perform (.subscribing capacity)).Alike k (v.perform (.subscribing capacity)) := by
  have hfirst : v.tracker.nextKey = 0 := h.joined.trans (if_neg hk.not_lt)
  refine ⟨h.keyed.perform _, h.keyed'.perform _, h.snapshot, ?_, ?_, h.feed⟩
  · show v.tracker.nextKey + 1 = if k < w.tracker.nextKey + 1 then 1 else 0
    rw [hfirst, if_pos (by omega)]
  · show (v.tracker.subscribe capacity).2.subscriber? 0 =
      ((w.tracker.subscribe capacity).2.subscriber? k).map _
    rw [h.keyed'.subscriber?_subscribe, h.keyed.subscriber?_subscribe, if_pos hk, if_pos hfirst.symm,
      hfirst]
    rfl

/-- Both leave. -/
theorem leave (h : w.Alike k v) : (w.perform (.leaving k)).Alike k (v.perform (.leaving 0)) := by
  refine ⟨h.keyed.perform _, h.keyed'.perform _, h.snapshot, h.joined, ?_, h.feed⟩
  show (v.tracker.unsubscribe 0).subscriber? 0 = ((w.tracker.unsubscribe k).subscriber? k).map _
  rw [Tracker.subscriber?_unsubscribe, Tracker.subscriber?_unsubscribe, if_pos rfl, if_pos rfl]
  rfl

/-- Both take the same out of their buffers. -/
theorem receive (h : w.Alike k v) {o o' : Operation} {most : Nat}
    (reads : w.tracker.perform o = w.tracker.receive k most)
    (reads' : v.tracker.perform o' = v.tracker.receive 0 most)
    (feed : (w.perform o).feed k = (w.feed k).receive (w.tracker.receive k most).1)
    (feed' : (v.perform o').feed 0 = (v.feed 0).receive (v.tracker.receive 0 most).1) :
    (w.perform o).Alike k (v.perform o') := by
  have htracker : (w.perform o).tracker = (w.tracker.receive k most).2 := congrArg Prod.snd reads
  have htracker' : (v.perform o').tracker = (v.tracker.receive 0 most).2 := congrArg Prod.snd reads'
  refine ⟨h.keyed.perform o, h.keyed'.perform o', ?_, ?_, ?_, ?_⟩
  · simpa [htracker, htracker'] using h.snapshot
  · simpa [htracker, htracker'] using h.joined
  · rw [htracker, htracker', Tracker.subscriber?_receive, Tracker.subscriber?_receive, if_pos rfl,
      if_pos rfl, h.waiting]
    cases w.tracker.subscriber? k with
    | none => rfl
    | some s => rfl
  · rw [feed, feed', Tracker.receive_fst, Tracker.receive_fst, h.buffered, h.feed]

/-- A subscriber among others stays like the same subscriber alone. -/
theorem perform (h : w.Alike k v) (o : Operation) :
    (w.perform o).Alike k (v.after (o.alone k w.tracker.nextKey)) := by
  cases o with
  | noticing n => exact h.notice n
  | subscribing capacity =>
    rw [Operation.alone]
    split
    case isTrue hk => exact h.subscribe capacity hk
    case isFalse hk =>
      refine h.apart rfl (by simp only [Operation.joins]; omega) ?_ rfl
      exact (h.keyed.subscriber?_subscribe capacity k).trans (if_neg hk)
  | leaving key =>
    rw [Operation.alone]
    split
    case isTrue hk => exact hk ▸ h.leave
    case isFalse hk =>
      exact h.apart rfl .rfl ((w.tracker.subscriber?_unsubscribe key k).trans (if_neg hk)) rfl
  | receiving key =>
    rw [Operation.alone]
    split
    case isTrue hk =>
      subst hk
      exact h.receive rfl rfl (if_pos rfl) rfl
    case isFalse hk =>
      exact h.apart (w.tracker.snapshot_receive key 1) .rfl
        ((w.tracker.subscriber?_receive key 1 k).trans (if_neg hk)) (if_neg hk)
  | draining key =>
    rw [Operation.alone]
    split
    case isTrue hk =>
      subst hk
      -- The same waits in both buffers, so both drain as many events.
      have hdrain : v.tracker.drain 0 = v.tracker.receive 0 (w.tracker.buffered k).length := by
        rw [Tracker.drain_eq, h.buffered]
      refine h.receive (w.tracker.drain_eq k) hdrain ?_ ?_
      · rw [← Tracker.drain_eq]
        exact if_pos rfl
      · rw [← hdrain]
        rfl
    case isFalse hk =>
      have hdrain := w.tracker.drain_eq key
      refine h.apart ?_ .rfl ?_ (if_neg hk)
      · show (w.tracker.drain key).2.snapshot = _
        rw [hdrain]
        exact w.tracker.snapshot_receive key _
      · show (w.tracker.drain key).2.subscriber? k = _
        rw [hdrain]
        exact (w.tracker.subscriber?_receive key _ k).trans (if_neg hk)

theorem after (h : w.Alike k v) (os : List Operation) :
    (w.after os).Alike k (v.after (alone k w.tracker.nextKey os)) := by
  induction os generalizing w v with
  | nil => exact h
  | cons o rest ih =>
    have hrest := ih (h.perform o)
    rw [show (w.perform o).tracker.nextKey = _ from w.tracker.nextKey_perform o] at hrest
    show ((w.perform o).after rest).Alike k (v.after (o.alone k _ ++ alone k _ rest))
    rwa [after_append]

end Alike

/-! ## Counters -/

@[simp] theorem tally_concat (os : List Operation) (o : Operation) :
    tally (os ++ [o]) = match o with
      | .noticing n => n.tally (tally os)
      | _ => tally os :=
  List.foldl_concat ..

/-- The counters of a new tracker add up what was noticed since the last reset. -/
theorem snapshot_after (total : Nat) (os : List Operation) :
    (((ofTotal total).after os).tracker.snapshot.completed,
      ((ofTotal total).after os).tracker.snapshot.failed) = tally os := by
  induction os using List.reverseRecOn with
  | nil => rfl
  | append_singleton os o ih =>
    rw [after_append, tally_concat]
    cases o with
    | noticing n =>
      show ((n.tell _).snapshot.completed, (n.tell _).snapshot.failed) = n.tally (tally os)
      rw [n.tell_eq]
      exact Notice.counted_tally ih n
    | subscribing => exact ih
    | leaving => exact ih
    | receiving key =>
      show ((Tracker.receive _ key 1).2.snapshot.completed,
        (Tracker.receive _ key 1).2.snapshot.failed) = tally os
      rwa [Tracker.snapshot_receive]
    | draining key =>
      show ((Tracker.drain _ key).2.snapshot.completed,
        (Tracker.drain _ key).2.snapshot.failed) = tally os
      rwa [Tracker.drain_eq, Tracker.snapshot_receive]

/-! ## Delivery -/

/-- What a new tracker delivers to its subscribers in the course of some operations. -/
structure Delivered (total : Nat) (os : List Operation) (w : Watched) : Prop where
  /-- What a subscriber received and what waits for it was told since it subscribed, in this order. -/
  order : ∀ k, ((w.feed k).received ++ w.tracker.buffered k).Sublist (w.feed k).sent
  /-- A subscriber that has not left is there with the capacity that it asked for, and whatever was
  told since then it has received, finds in its buffer, or has lost. -/
  present : ∀ before capacity rest, os = before ++ .subscribing capacity :: rest →
    .leaving (joined before) ∉ rest →
      ∃ s, w.tracker.subscriber? (joined before) = some s ∧ s.capacity = capacity ∧
        s.buffer.length ≤ max capacity 1 ∧
        (w.feed (joined before)).sent = told ((ofTotal total).after before).tracker.snapshot rest ∧
        (w.feed (joined before)).received.length + s.buffer.length +
          (w.feed (joined before)).dropped = (w.feed (joined before)).sent.length
  /-- One that has left is gone, with what it had received and lost by then. -/
  absent : ∀ before key rest, os = before ++ .leaving key :: rest → key < joined before →
    ((ofTotal total).after before).Gone w key
  room : ∀ k s, w.tracker.subscriber? k = some s → s.buffer.length ≤ max s.capacity 1
  count : ∀ k s, w.tracker.subscriber? k = some s →
    (w.feed k).received.length + s.buffer.length + (w.feed k).dropped = (w.feed k).sent.length
  /-- Also what those lost that have left. -/
  dropped : w.tracker.dropped = ∑ k ∈ Finset.range w.tracker.nextKey, (w.feed k).dropped
  /-- Counters that are told add up what was noticed since the last reset. -/
  sums : ∀ before n rest s, os = before ++ .noticing n :: rest →
    n.event ((ofTotal total).after before).tracker.snapshot = .progress s →
      n.tell ((ofTotal total).after before).tracker =
          { ((ofTotal total).after before).tracker with snapshot := s }.broadcast (.progress s) ∧
        (s.completed, s.failed) = tally (before ++ [.noticing n])
  /-- A subscriber is told, receives and loses the same as if it were alone. -/
  apart : ∀ k, w.feed k = ((ofTotal total).after (alone k 0 os)).feed 0 ∧
    w.tracker.buffered k = ((ofTotal total).after (alone k 0 os)).tracker.buffered 0

/-- A subscriber of a new tracker that has not left. -/
theorem present_after (total : Nat) (before : List Operation) (capacity : Nat)
    (rest : List Operation) (stays : .leaving (joined before) ∉ rest) :
    let w := (ofTotal total).after (before ++ .subscribing capacity :: rest)
    ∃ s, w.tracker.subscriber? (joined before) = some s ∧ s.capacity = capacity ∧
      s.buffer.length ≤ max capacity 1 ∧
      (w.feed (joined before)).sent = told ((ofTotal total).after before).tracker.snapshot rest ∧
      (w.feed (joined before)).received.length + s.buffer.length +
        (w.feed (joined before)).dropped = (w.feed (joined before)).sent.length := by
  intro w
  have hbefore := (Sound.ofTotal total).after before
  have hkey : ((ofTotal total).after before).tracker.nextKey = joined before :=
    (nextKey_after _ before).trans (Nat.zero_add _)
  -- `u` is the tracker just after the subscription
  generalize hu : ((ofTotal total).after before).perform (.subscribing capacity) = u
  have hw : w = u.after rest := by rw [← hu]; exact after_append _ _ _
  have hjoined : u.tracker.subscriber? (joined before) = some { key := joined before, capacity } := by
    rw [← hu, ← hkey]
    exact (hbefore.keyed.subscriber?_subscribe capacity _).trans (if_pos rfl)
  have hlt : joined before < u.tracker.nextKey := by
    rw [← hu, ← hkey]
    exact Nat.lt_succ_self _
  have hsent : (u.feed (joined before)).sent = [] := by
    rw [← hu]
    exact congrArg Feed.sent (hbefore.fresh _ hkey.le)
  have hsnapshot : u.tracker.snapshot = ((ofTotal total).after before).tracker.snapshot := by
    rw [← hu]
    rfl
  have hsound : u.Sound := hu ▸ hbefore.perform (.subscribing capacity)
  have hcapacity := capacity_after hsound.keyed hlt stays
  rw [hjoined] at hcapacity
  obtain ⟨s, hs, rfl⟩ := Option.map_eq_some_iff.mp hcapacity
  have haccounts := (hsound.after rest).accounts (joined before)
  rw [hw]
  refine ⟨s, hs, rfl, haccounts.room s hs, ?_, haccounts.count s hs⟩
  rw [sent_after hlt, hsent, hsnapshot, List.nil_append]

/-- A subscriber of a new tracker that has left. -/
theorem absent_after (total : Nat) (before : List Operation) {key : Nat} (rest : List Operation)
    (hkey : key < joined before) :
    ((ofTotal total).after before).Gone ((ofTotal total).after (before ++ .leaving key :: rest))
      key := by
  have hbefore := ((Sound.ofTotal total).after before).keyed
  have hlt : key < ((ofTotal total).after before).tracker.nextKey := by
    rw [nextKey_after]
    exact Nat.lt_add_left _ hkey
  rw [after_append]
  have hgone := gone_after (w := ((ofTotal total).after before).perform (.leaving key))
    (hbefore.perform _) hlt ((Tracker.subscriber?_unsubscribe _ key key).trans (if_pos rfl)) rest
  exact ⟨hgone.subscriber, hgone.received, hgone.dropped⟩

/-- A slow reader loses an event, one that keeps up does not. -/
example :
    let w := (ofTotal 2).after [.subscribing 1, .subscribing 0, .noticing (.beginning "parse"),
      .receiving 1, .noticing (.updating 1 0 none)]
    w.tracker.dropped = 1 ∧ w.tracker.buffered 0 = [.started "parse"] ∧
      w.tracker.buffered 1 = [.progress { total := 2, completed := 1 }] := by
  decide

end Watched
end SourceSurvey
