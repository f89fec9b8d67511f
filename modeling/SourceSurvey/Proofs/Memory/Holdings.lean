import Mathlib.Algebra.Order.BigOperators.Group.List
import Mathlib.Order.Bounds.Basic
import Mathlib.Tactic.Linarith
import SourceSurvey.Proofs.Memory.Exact

/-!
# The ledger books what is held

Holders share a ledger of exact amounts. Each of their deals takes the ledger once, so what any
number of them do, in whatever order, is one sequence of deals. `Holdings` keeps the reservations
that are held beside the ledger, and the sums that they had since the peak was last reset.

* `Holdings.Sound`: the ledger has booked what is held, what was checked is within the limit, and
  the peak is the greatest sum. `Sound.perform` is the step lemma, `Sound.after` the run lemma.
* `Holdings.after_books`: what follows for a new ledger.
-/

namespace SourceSurvey

/-! ## Reservations -/

/-- A reservation that is held. It was checked if it was made only because it fitted. -/
structure Reservation where
  amount : ℚ
  checked : Bool
  deriving DecidableEq

namespace Reservation

/-- What some reservations add up to. -/
def total (held : List Reservation) : ℚ := (held.map amount).sum

@[simp] theorem total_nil : total [] = 0 := rfl

@[simp] theorem total_cons (r : Reservation) (held : List Reservation) :
    total (r :: held) = r.amount + total held := by
  simp [total]

variable {held : List Reservation}

theorem total_nonneg (h : ∀ r ∈ held, 0 ≤ r.amount) : 0 ≤ total held :=
  List.sum_nonneg fun _ hx => by
    obtain ⟨r, hr, rfl⟩ := List.mem_map.mp hx
    exact h r hr

/-- A reservation beside the others. -/
theorem total_eraseIdx {place : Nat} {r : Reservation} (h : held[place]? = some r) :
    total held = r.amount + total (held.eraseIdx place) := by
  obtain ⟨hp, rfl⟩ := List.getElem?_eq_some_iff.mp h
  rw [← total_cons]
  exact ((List.getElem_cons_eraseIdx_perm hp).symm.map _).sum_eq

/-- The checked ones and the others. -/
theorem total_filter (held : List Reservation) :
    total (held.filter (·.checked)) + total (held.filter (!·.checked)) = total held := by
  have hperm := ((List.filter_append_perm (·.checked) held).map amount).sum_eq
  rwa [List.map_append, List.sum_append] at hperm

end Reservation

open Reservation (total)

/-! ## Deals -/

/-- What a holder does: it reserves an amount if it fits, reserves one whether it fits or not, gives
back one of the reservations that are held, or resets the peak. -/
inductive Deal where
  | trying (amount : ℚ)
  | reserving (amount : ℚ)
  | releasing (place : Nat)
  | resetting

/-- No amount is below zero. -/
def Deal.Nonneg : Deal → Prop
  | .trying amount => 0 ≤ amount
  | .reserving amount => 0 ≤ amount
  | _ => True

/-- A ledger, the reservations that are held, and what was held since the ledger was made or its
peak was last reset, the present sum first. -/
structure Holdings where
  ledger : Ledger ℚ
  held : List Reservation := []
  sums : List ℚ := [0]

namespace Holdings

/-- A new ledger. -/
def ofLimit (limit : ℚ) : Holdings := { ledger := .ofLimit limit }

/-- The holdings after a change of the ledger and of what is held. -/
def become (h : Holdings) (ledger : Ledger ℚ) (held : List Reservation) : Holdings :=
  { ledger, held, sums := total held :: h.sums }

/-- What a deal leads to, and whether it was made. -/
def perform (h : Holdings) : Deal → Holdings × Bool
  | .trying amount =>
    match h.ledger.tryReserve amount with
    | none => (h, false)
    | some ledger => (h.become ledger (⟨amount, true⟩ :: h.held), true)
  | .reserving amount => (h.become (h.ledger.reserve amount) (⟨amount, false⟩ :: h.held), true)
  | .releasing place =>
    match h.held[place]? with
    | none => (h, false)
    | some r => (h.become (h.ledger.release r.amount) (h.held.eraseIdx place), true)
  | .resetting => ({ h with ledger := h.ledger.resetPeak, sums := [total h.held] }, true)

/-- The holdings after some deals. -/
def after (h : Holdings) (deals : List Deal) : Holdings := deals.foldl (fun h d => (h.perform d).1) h

/-! ## The ledger agrees with what is held -/

/-- What holds after any deals over a limit. -/
structure Sound (limit : ℚ) (h : Holdings) : Prop where
  bound : h.ledger.limit = limit
  nonneg : ∀ r ∈ h.held, 0 ≤ r.amount
  booked : h.ledger.allocated = total h.held
  fits : total (h.held.filter (·.checked)) ≤ max limit 0
  present : total h.held ∈ h.sums
  peak : IsGreatest {sum | sum ∈ h.sums} h.ledger.peak

namespace Sound

variable {limit amount : ℚ} {h : Holdings}

theorem ofLimit (limit : ℚ) : (Holdings.ofLimit limit).Sound limit where
  bound := rfl
  nonneg := nofun
  booked := rfl
  fits := le_max_right ..
  present := List.mem_singleton_self _
  peak := ⟨List.mem_singleton_self _, fun _ hx => (List.mem_singleton.mp hx).le⟩

/-- An amount is reserved iff it fits beside what is held. -/
theorem perform_trying (hs : h.Sound limit) (amount : ℚ) :
    h.perform (.trying amount) =
      if total h.held + amount ≤ limit then
        (h.become (h.ledger.reserve amount) (⟨amount, true⟩ :: h.held), true)
      else (h, false) := by
  unfold Holdings.perform
  dsimp only
  rw [Ledger.tryReserve_eq, hs.bound, hs.booked]
  by_cases fits : total h.held + amount ≤ limit
  · rw [if_pos fits, if_pos fits]
  · rw [if_neg fits, if_neg fits]

/-- A reservation is given back in full. -/
theorem release (hs : h.Sound limit) {r : Reservation} (hr : r ∈ h.held) :
    (h.ledger.release r.amount).allocated = h.ledger.allocated - r.amount := by
  obtain ⟨place, hp⟩ := List.mem_iff_getElem?.mp hr
  refine h.ledger.release_of_le _ ?_
  have hrest : 0 ≤ total (h.held.eraseIdx place) :=
    Reservation.total_nonneg fun r' hr' => hs.nonneg r' (List.mem_of_mem_eraseIdx hr')
  rw [hs.booked, Reservation.total_eraseIdx hp]
  exact le_add_of_nonneg_right hrest

/-- One more reservation is booked, and the peak follows. -/
theorem reserve (hs : h.Sound limit) {r : Reservation} (nonneg : 0 ≤ r.amount)
    (fits : r.checked = true → total h.held + r.amount ≤ limit) :
    (h.become (h.ledger.reserve r.amount) (r :: h.held)).Sound limit := by
  have hsum : h.ledger.allocated + r.amount = total (r :: h.held) := by
    rw [hs.booked, Reservation.total_cons, add_comm]
  refine ⟨hs.bound, ?_, hsum, ?_, List.mem_cons_self, ?_⟩
  · intro r' hr'
    rcases List.mem_cons.mp hr' with rfl | hr'
    · exact nonneg
    · exact hs.nonneg r' hr'
  · show total ((r :: h.held).filter (·.checked)) ≤ _
    cases hr : r.checked with
    | false =>
      rw [List.filter_cons_of_neg (by simp [hr])]
      exact hs.fits
    | true =>
      -- What was not checked takes room as well, so what was checked fits with room to spare.
      have hsplit := Reservation.total_filter h.held
      have hrest : 0 ≤ total (h.held.filter (!·.checked)) :=
        Reservation.total_nonneg fun r' hr' => hs.nonneg r' (List.mem_of_mem_filter hr')
      rw [List.filter_cons_of_pos hr, Reservation.total_cons]
      exact le_max_of_le_left (by linarith [fits hr])
  · show IsGreatest {sum | sum ∈ total (r :: h.held) :: h.sums}
      (max h.ledger.peak (h.ledger.allocated + r.amount))
    rw [hsum, max_comm]
    have hset : {sum | sum ∈ total (r :: h.held) :: h.sums} =
        insert (total (r :: h.held)) {sum | sum ∈ h.sums} := by
      ext
      simp
    rw [hset]
    exact hs.peak.insert _

/-- One reservation less is booked, and the peak stays. -/
theorem giveBack (hs : h.Sound limit) {place : Nat} {r : Reservation}
    (hp : h.held[place]? = some r) :
    (h.become (h.ledger.release r.amount) (h.held.eraseIdx place)).Sound limit := by
  have hr := List.mem_of_getElem? hp
  have hsum := Reservation.total_eraseIdx hp
  have hless : total (h.held.eraseIdx place) ≤ total h.held := by linarith [hs.nonneg r hr]
  refine ⟨hs.bound, fun r' hr' => hs.nonneg r' (List.mem_of_mem_eraseIdx hr'), ?_, ?_,
    List.mem_cons_self, List.mem_cons_of_mem _ hs.peak.1, fun x hx => ?_⟩
  · refine (hs.release hr).trans ?_
    rw [hs.booked, hsum, add_sub_cancel_left]
    rfl
  · refine le_trans ?_ hs.fits
    refine List.Sublist.sum_le_sum (((List.eraseIdx_sublist ..).filter _).map _) fun x hx => ?_
    obtain ⟨r', hr', rfl⟩ := List.mem_map.mp hx
    exact hs.nonneg r' (List.mem_of_mem_filter hr')
  · rcases List.mem_cons.mp hx with rfl | hx
    · exact hless.trans (hs.peak.2 hs.present)
    · exact hs.peak.2 hx

/-- No deal gets the ledger out of step with what is held. -/
theorem perform (hs : h.Sound limit) {d : Deal} (hd : d.Nonneg) : (h.perform d).1.Sound limit := by
  cases d with
  | trying amount =>
    rw [hs.perform_trying]
    split
    case isTrue hfits => exact hs.reserve (r := ⟨amount, true⟩) hd fun _ => hfits
    case isFalse => exact hs
  | reserving amount => exact hs.reserve (r := ⟨amount, false⟩) hd nofun
  | releasing place =>
    unfold Holdings.perform
    dsimp only
    cases hp : h.held[place]? with
    | none => exact hs
    | some r => exact hs.giveBack hp
  | resetting =>
    refine ⟨hs.bound, hs.nonneg, hs.booked, hs.fits, List.mem_singleton_self _, ?_⟩
    show IsGreatest {sum | sum ∈ [total h.held]} h.ledger.allocated
    rw [hs.booked]
    exact ⟨List.mem_singleton_self _, fun _ hx => (List.mem_singleton.mp hx).le⟩

theorem after (hs : h.Sound limit) {deals : List Deal} (hd : ∀ d ∈ deals, d.Nonneg) :
    (h.after deals).Sound limit := by
  induction deals generalizing h with
  | nil => exact hs
  | cons d rest ih =>
    obtain ⟨first, rest⟩ := List.forall_mem_cons.mp hd
    exact ih (hs.perform first) rest

end Sound

/-- A ledger books what is held. After any deals of any holders the booked amount is the sum of the
reservations that are held; a further amount is reserved iff it fits beside them, and a refusal
changes nothing; what was checked stays within the limit; the peak is the greatest sum since the
ledger was made or its peak was last reset; and every reservation can be given back in full, without
the sum being held at zero. -/
theorem after_books (limit : ℚ) (deals : List Deal) (nonneg : ∀ d ∈ deals, d.Nonneg) (h : Holdings)
    (final : (ofLimit limit).after deals = h) :
    h.ledger.allocated = total h.held ∧
      (∀ amount, h.perform (.trying amount) =
        if total h.held + amount ≤ limit then
          (h.become (h.ledger.reserve amount) (⟨amount, true⟩ :: h.held), true)
        else (h, false)) ∧
      h.ledger.allocated - total (h.held.filter (!·.checked)) ≤ max limit 0 ∧
      IsGreatest {sum | sum ∈ h.sums} h.ledger.peak ∧
      ∀ r ∈ h.held, (h.ledger.release r.amount).allocated = h.ledger.allocated - r.amount := by
  have hs : h.Sound limit := final ▸ (Sound.ofLimit limit).after nonneg
  refine ⟨hs.booked, hs.perform_trying, ?_, hs.peak, fun r hr => hs.release hr⟩
  rw [hs.booked, ← Reservation.total_filter h.held, add_sub_cancel_right]
  exact hs.fits

/-- Over a limit of 100, 60 are reserved, 50 more without asking, and 10 are refused; the 60 are
given back, the peak is reset, and 40 are reserved. Then 90 are booked, and 20 more do not fit. -/
theorem after_books_overdrawn :
    ∃ h, (ofLimit 100).after
        [.trying 60, .reserving 50, .trying 10, .releasing 1, .resetting, .trying 40] = h ∧
      h.held = [⟨40, true⟩, ⟨50, false⟩] ∧ h.ledger.allocated = 90 ∧
      h.perform (.trying 20) = (h, false) ∧ h.ledger.peak = 90 ∧
      (h.ledger.release 40).allocated = 50 := by
  let deals : List Deal :=
    [.trying 60, .reserving 50, .trying 10, .releasing 1, .resetting, .trying 40]
  have nonneg : ∀ d ∈ deals, d.Nonneg := by
    simp [deals, Deal.Nonneg]
  have final : (ofLimit 100).after deals =
      { ledger := ⟨100, 90, 90⟩, held := [⟨40, true⟩, ⟨50, false⟩], sums := [90, 50] } := by
    norm_num [deals, after, perform, become, ofLimit, Ledger.ofLimit, Ledger.tryReserve_eq,
      Ledger.reserve, Ledger.release, Ledger.resetPeak, Amount.add, Amount.sub, Amount.larger,
      Amount.zero, Reservation.total]
  obtain ⟨-, trying, -, -, release⟩ := after_books 100 deals nonneg _ final
  refine ⟨_, final, rfl, rfl, ?_, rfl, ?_⟩
  · rw [trying, if_neg (by norm_num [Reservation.total])]
  · rw [release ⟨40, true⟩ List.mem_cons_self]
    norm_num

end Holdings
end SourceSurvey
