/-
  File:      Ruwa/Library/Lanes.lean
  Subject:   A SENDER AND THE CONNECTIONS IT FEEDS: one sending end, channels that follow each other,
             and a pump for each channel that was taken.

  Whatever is sent goes into the channel of the sending end. A connection that opens takes the
  receiving end, if it is there to be taken, and gives it to a pump; a reset puts a fresh channel
  behind both ends. Pumps go on as long as they like.

  * `Lanes`, `LaneOp`, `Move` -- the state, and what can happen;
  * `Lanes.lane` -- what a connection was given, and what its pump still has before it;
  * `lane_enqueue`, `lane_opened_old`, `lane_opened_new`, `lane_ships`, `lane_drops` -- what a move
    does to each lane;
  * **`lanes_kept`** -- what a move keeps of every lane.
-/
import Mathlib.Data.List.Pairwise

namespace Ruwa.Library

variable {α : Type}

/-! ## 1. Entries of a channel -/

/-- The values that stand under a number. -/
def along (k : Nat) (entries : List (Nat × α)) : List α :=
  (entries.filter fun e => e.1 = k).map Prod.snd

@[simp] theorem along_nil (k : Nat) : along k ([] : List (Nat × α)) = [] := rfl

@[simp] theorem along_append (k : Nat) (es es' : List (Nat × α)) :
    along k (es ++ es') = along k es ++ along k es' := by
  simp [along]

@[simp] theorem along_cons (k : Nat) (e : Nat × α) (es : List (Nat × α)) :
    along k (e :: es) = if e.1 = k then e.2 :: along k es else along k es := by
  by_cases h : e.1 = k <;> simp [along, h]

@[simp] theorem along_tagged (k : Nat) (as : List α) :
    along k (as.map fun a => (k, a)) = as := by
  simp [along, List.filter_map, Function.comp_def]

theorem mem_along {k : Nat} {a : α} {entries : List (Nat × α)} :
    a ∈ along k entries ↔ (k, a) ∈ entries := by
  simp [along]

theorem along_eq_nil {k : Nat} {entries : List (Nat × α)} (h : ∀ e ∈ entries, e.1 ≠ k) :
    along k entries = [] := by
  unfold along
  rw [List.filter_eq_nil_iff.mpr fun e he => by simpa using h e he, List.map_nil]

/-- Values under another number. -/
theorem along_tagged_ne {k k' : Nat} (h : k ≠ k') (as : List α) :
    along k' (as.map fun a => (k, a)) = [] := by
  refine along_eq_nil fun e he => ?_
  obtain ⟨a, -, rfl⟩ := List.mem_map.mp he
  exact h

/-! ## 2. The state and its moves -/

structure Lanes (α : Type) where
  /-- The channel that is sent to. -/
  tx : Nat
  /-- The receiving end, unless it was taken. -/
  rx : Option Nat
  nextChannel : Nat
  /-- Each pump: the channel it receives from, the connection it feeds. -/
  pumps : List (Nat × Nat)
  /-- What is in the channels, oldest first. -/
  queued : List (Nat × α)
  /-- What the connections were given. -/
  shipped : List (Nat × α)
  nextConn : Nat

namespace Lanes

/-- What was given to the connection of a pump, and what is before it in its channel. -/
def lane (s : Lanes α) (p : Nat × Nat) : List α := along p.2 s.shipped ++ along p.1 s.queued

/-- A fresh channel behind both ends. -/
def reset (s : Lanes α) : Lanes α :=
  { s with tx := s.nextChannel, rx := some s.nextChannel, nextChannel := s.nextChannel + 1 }

def enqueue (s : Lanes α) (a : α) : Lanes α := { s with queued := s.queued ++ [(s.tx, a)] }

/-- A connection opens; whoever takes the receiving end sends `first` before anything else. -/
def opened (s : Lanes α) (first : List α) : Lanes α :=
  match s.rx with
  | none => { s with nextConn := s.nextConn + 1 }
  | some ch =>
      { s with
        rx := none
        queued := s.queued ++ first.map fun a => (s.tx, a)
        pumps := s.pumps ++ [(ch, s.nextConn)]
        nextConn := s.nextConn + 1 }

end Lanes

/-- What can happen. -/
inductive LaneOp (α : Type)
  | enqueue (a : α)
  | reset
  | opened (first : List α)
  /-- A pump gives the oldest value of its channel to its connection. -/
  | ships (p : Nat × Nat)
  /-- Or it fails with it. -/
  | drops (p : Nat × Nat)

inductive Move (s : Lanes α) : LaneOp α → Lanes α → Prop
  | enqueue (a : α) : Move s (.enqueue a) (s.enqueue a)
  | reset : Move s .reset s.reset
  | opened (first : List α) : Move s (.opened first) (s.opened first)
  | ships (p : Nat × Nat) (a : α) (before after : List (Nat × α)) (hp : p ∈ s.pumps)
      (hqueued : s.queued = before ++ (p.1, a) :: after) (hfirst : ∀ e ∈ before, e.1 ≠ p.1) :
      Move s (.ships p)
        { s with queued := before ++ after, shipped := s.shipped ++ [(p.2, a)] }
  | drops (p : Nat × Nat) (a : α) (before after : List (Nat × α)) (hp : p ∈ s.pumps)
      (hqueued : s.queued = before ++ (p.1, a) :: after) (hfirst : ∀ e ∈ before, e.1 ≠ p.1) :
      Move s (.drops p) { s with queued := before ++ after }

/-- The receiving end and the pumps share no channel, and no two pumps share anything. -/
structure Lanes.Sound (s : Lanes α) : Prop where
  home : ∀ ch, s.rx = some ch → ch = s.tx ∧ ∀ p ∈ s.pumps, p.1 ≠ ch
  tx_lt : s.tx < s.nextChannel
  pumps_lt : ∀ p ∈ s.pumps, p.1 < s.nextChannel ∧ p.2 < s.nextConn
  apart : s.pumps.Pairwise fun p q => p.1 ≠ q.1 ∧ p.2 ≠ q.2
  pumped : ∀ e ∈ s.shipped, ∃ p ∈ s.pumps, p.2 = e.1

section Moves

variable {s s' : Lanes α}

theorem Lanes.Sound.distinct (h : s.Sound) {p q : Nat × Nat} (hp : p ∈ s.pumps)
    (hq : q ∈ s.pumps) (hne : p ≠ q) : p.1 ≠ q.1 ∧ p.2 ≠ q.2 := by
  have hsymm : Std.Symm fun p q : Nat × Nat => p.1 ≠ q.1 ∧ p.2 ≠ q.2 :=
    ⟨fun _ _ h => ⟨h.1.symm, h.2.symm⟩⟩
  exact h.apart.forall hp hq hne

/-- Whatever a connection was given is on the lane of its pump. -/
theorem Lanes.Sound.mem_lane (h : s.Sound) {e : Nat × α} (he : e ∈ s.shipped) :
    ∃ p ∈ s.pumps, p.2 = e.1 ∧ e.2 ∈ s.lane p := by
  obtain ⟨p, hp, hconn⟩ := h.pumped e he
  exact ⟨p, hp, hconn, List.mem_append_left _ (mem_along.mpr (hconn ▸ he))⟩

/-! ## 3. What a move does to a lane -/

theorem lane_enqueue (s : Lanes α) (a : α) (p : Nat × Nat) :
    (s.enqueue a).lane p = s.lane p ++ if s.tx = p.1 then [a] else [] := by
  simp [Lanes.lane, Lanes.enqueue]

theorem nextConn_opened (s : Lanes α) (first : List α) :
    (s.opened first).nextConn = s.nextConn + 1 := by
  unfold Lanes.opened
  split <;> rfl

/-- The lane of a pump that was there before a connection opened. -/
theorem lane_opened_old (h : s.Sound) (first : List α) {p : Nat × Nat} (hp : p ∈ s.pumps) :
    (s.opened first).lane p = s.lane p := by
  unfold Lanes.opened
  split
  · rfl
  · next ch hrx =>
      obtain ⟨rfl, hfar⟩ := h.home ch hrx
      simp only [Lanes.lane, along_append]
      rw [along_tagged_ne (hfar p hp).symm, List.append_nil]

/-- The lane of the pump that took the receiving end. -/
theorem lane_opened_new (h : s.Sound) (first : List α) {ch : Nat} (hrx : s.rx = some ch) :
    (s.opened first).lane (ch, s.nextConn) = along ch s.queued ++ first := by
  have hnone : along s.nextConn s.shipped = [] := by
    refine along_eq_nil fun e he => ?_
    obtain ⟨p, hp, hconn⟩ := h.pumped e he
    exact hconn ▸ Nat.ne_of_lt (h.pumps_lt p hp).2
  obtain ⟨rfl, -⟩ := h.home ch hrx
  simp [Lanes.opened, hrx, Lanes.lane, hnone]

/-- What is given to a connection stays on its lane. -/
theorem lane_ships (h : s.Sound) {p p' : Nat × Nat} {a : α} {before after : List (Nat × α)}
    (hp : p ∈ s.pumps) (hqueued : s.queued = before ++ (p.1, a) :: after)
    (hfirst : ∀ e ∈ before, e.1 ≠ p.1) (hp' : p' ∈ s.pumps) :
    ({ s with queued := before ++ after, shipped := s.shipped ++ [(p.2, a)] } : Lanes α).lane p' =
      s.lane p' := by
  unfold Lanes.lane
  rw [hqueued]
  by_cases he : p = p'
  · subst he
    simp [along_eq_nil hfirst]
  · obtain ⟨hch, hconn⟩ := h.distinct hp hp' he
    simp [hch, hconn]

theorem lane_drops {p p' : Nat × Nat} {a : α} {before after : List (Nat × α)}
    (hqueued : s.queued = before ++ (p.1, a) :: after) :
    (({ s with queued := before ++ after } : Lanes α).lane p').Sublist (s.lane p') := by
  unfold Lanes.lane
  refine (List.Sublist.refl _).append ?_
  rw [hqueued]
  have hsub : (before ++ after).Sublist (before ++ (p.1, a) :: after) :=
    (List.Sublist.refl before).append (List.sublist_cons_self _ _)
  exact (hsub.filter _).map _

/-! ## 4. What a move keeps -/

theorem sound_start (n : Nat) : (Lanes.mk 0 (some 0) 1 [] [] [] n : Lanes α).Sound where
  home _ h := ⟨(Option.some.inj h).symm, fun _ hp => (nomatch hp)⟩
  tx_lt := Nat.zero_lt_one
  pumps_lt _ hp := nomatch hp
  apart := List.Pairwise.nil
  pumped _ he := nomatch he

theorem sound_reset (h : s.Sound) : s.reset.Sound := by
  refine ⟨?_, Nat.lt_succ_self _, ?_, h.apart, h.pumped⟩
  · rintro _ ⟨⟩
    exact ⟨rfl, fun p hp => Nat.ne_of_lt (h.pumps_lt p hp).1⟩
  · intro p hp
    exact ⟨Nat.lt_succ_of_lt (h.pumps_lt p hp).1, (h.pumps_lt p hp).2⟩

theorem sound_opened (h : s.Sound) (first : List α) : (s.opened first).Sound := by
  have hlt (p : Nat × Nat) (hp : p ∈ s.pumps) : p.1 < s.nextChannel ∧ p.2 < s.nextConn + 1 :=
    ⟨(h.pumps_lt p hp).1, Nat.lt_succ_of_lt (h.pumps_lt p hp).2⟩
  unfold Lanes.opened
  split
  · exact ⟨h.home, h.tx_lt, hlt, h.apart, h.pumped⟩
  · next ch hrx =>
      obtain ⟨rfl, hfar⟩ := h.home ch hrx
      refine ⟨fun _ h => (nomatch h), h.tx_lt, ?_, ?_, ?_⟩
      · intro p hp
        rcases List.mem_append.mp hp with hold | hnew
        · exact hlt p hold
        · rw [List.mem_singleton.mp hnew]
          exact ⟨h.tx_lt, Nat.lt_succ_self _⟩
      · refine List.pairwise_append.mpr ⟨h.apart, List.pairwise_singleton _ _, ?_⟩
        intro p hp q hq
        rw [List.mem_singleton.mp hq]
        exact ⟨hfar p hp, Nat.ne_of_lt (h.pumps_lt p hp).2⟩
      · intro e he
        obtain ⟨p, hp, hconn⟩ := h.pumped e he
        exact ⟨p, List.mem_append_left _ hp, hconn⟩

theorem sound_move {op : LaneOp α} (h : s.Sound) (hmove : Move s op s') : s'.Sound := by
  cases hmove with
  | enqueue a => exact ⟨h.home, h.tx_lt, h.pumps_lt, h.apart, h.pumped⟩
  | reset => exact sound_reset h
  | opened first => exact sound_opened h first
  | ships p a before after hp hqueued hfirst =>
      refine ⟨h.home, h.tx_lt, h.pumps_lt, h.apart, ?_⟩
      intro e he
      rcases List.mem_append.mp he with hold | hnew
      · exact h.pumped e hold
      · rw [List.mem_singleton.mp hnew]
        exact ⟨p, hp, rfl⟩
  | drops p a before after hp hqueued hfirst =>
      exact ⟨h.home, h.tx_lt, h.pumps_lt, h.apart, h.pumped⟩

/-- Connections are numbered as they open. -/
theorem nextConn_move {op : LaneOp α} (hmove : Move s op s') : s.nextConn ≤ s'.nextConn := by
  cases hmove with
  | opened first =>
      rw [nextConn_opened]
      exact Nat.le_succ _
  | enqueue | reset | ships | drops => exact Nat.le_refl _

/-- A property of lanes holds of what is sent, and of what a connection finds when it takes the
    receiving end. -/
def Lanes.Fits (Q : Nat × Nat → List α → Prop) (s : Lanes α) : LaneOp α → Prop
  | .enqueue a => ∀ p ∈ s.pumps, p.1 = s.tx → Q p (s.lane p) → Q p (s.lane p ++ [a])
  | .opened first => ∀ ch, s.rx = some ch → Q (ch, s.nextConn) (along ch s.queued ++ first)
  | .reset => True
  | .ships _ => True
  | .drops _ => True

/-- **What a move keeps of every lane**: a lane may lose values, and the rest has to fit. -/
theorem lanes_kept {Q : Nat × Nat → List α → Prop} {op : LaneOp α} (h : s.Sound)
    (hsub : ∀ p l l', l'.Sublist l → Q p l → Q p l') (hfits : s.Fits Q op) (hmove : Move s op s')
    (hkept : ∀ p ∈ s.pumps, Q p (s.lane p)) : ∀ p ∈ s'.pumps, Q p (s'.lane p) := by
  cases hmove with
  | enqueue a =>
      intro p hp
      rw [lane_enqueue]
      split
      · next htx => exact hfits p hp htx.symm (hkept p hp)
      · rw [List.append_nil]
        exact hkept p hp
  | reset => exact hkept
  | opened first =>
      intro p hp
      cases hrx : s.rx with
      | none =>
          rw [Lanes.opened, hrx] at hp
          rw [lane_opened_old h first hp]
          exact hkept p hp
      | some ch =>
          rw [Lanes.opened, hrx] at hp
          rcases List.mem_append.mp hp with hold | hnew
          · rw [lane_opened_old h first hold]
            exact hkept p hold
          · rw [List.mem_singleton.mp hnew, lane_opened_new h first hrx]
            exact hfits ch hrx
  | ships p a before after hp hqueued hfirst =>
      intro p' hp'
      rw [lane_ships h hp hqueued hfirst hp']
      exact hkept p' hp'
  | drops p a before after hp hqueued hfirst =>
      intro p' hp'
      exact hsub p' _ _ (lane_drops hqueued) (hkept p' hp')

end Moves

end Ruwa.Library
