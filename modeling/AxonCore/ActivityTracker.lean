import Mathlib.Data.Finset.Basic
import Mathlib.Order.Bounds.Basic
import AxonCore.Votes

/-! # The online committee

    The activity tracker keeps the seats of the committee that were seen recently: those
    that were active less than an activity window before the latest activity.  Marks arrive
    in any order, and a mark that is too old, or older than the last one of its seat, is
    dropped.  The queue holds a seat once for every mark that was not dropped.

    Times are in nanoseconds since the zero time of `time.Time`, which is the last activity
    before the first mark. -/

namespace AxonCore

open List Function

/-! ## Section 1: The tracker -/

/-- One activity: the arguments of `MarkSeatActive`, and an entry of the queue. -/
structure ActivityMark where
  seat : SeatIndex
  time : Nat
  deriving DecidableEq

/-- `ActivityTracker`. -/
structure ActivityTracker where
  onlineCommittee : Finset SeatIndex
  inactivityQueue : List ActivityMark
  lastActivities : SeatIndex → Option Nat
  lastActivityTime : Nat

namespace ActivityTracker

/-- `NewActivityTracker`. -/
def new : ActivityTracker := ⟨∅, [], fun _ => none, 0⟩

section

variable (a : ActivityTracker)

/-- The last activity of the seat is known and later than a time. -/
def activeAfter (seat : SeatIndex) (time : Int) : Bool :=
  (a.lastActivities seat).any fun t : Nat => time < t

theorem activeAfter_iff {a : ActivityTracker} {seat : SeatIndex} {time : Int} :
    a.activeAfter seat time = true ↔
      ∃ t : Nat, a.lastActivities seat = some t ∧ time < t := by
  rw [activeAfter, Option.any_eq_true]
  simp only [decide_eq_true_eq]

/-- `markSeatInactive`. -/
def markSeatInactive (seat : SeatIndex) : ActivityTracker :=
  { a with
    lastActivities := update a.lastActivities seat none
    onlineCommittee := a.onlineCommittee.erase seat }

/-- One seat of the loop over the entries that leave the queue. -/
def expireSeat (activityThreshold : Int) (seat : SeatIndex) : ActivityTracker :=
  if a.activeAfter seat activityThreshold then a else a.markSeatInactive seat

/-- A mark of a seat enters the tracker. -/
def recordActivity (mark : ActivityMark) : ActivityTracker :=
  { a with
    onlineCommittee :=
      if (a.lastActivities mark.seat).isNone then insert mark.seat a.onlineCommittee
      else a.onlineCommittee
    lastActivities := update a.lastActivities mark.seat (some mark.time)
    inactivityQueue := mark :: a.inactivityQueue }

/-- The latest activity advances; `PopUntil` takes the entries up to the threshold out of the
    queue. -/
def advance (activityWindow : Nat) (a : ActivityTracker) (time : Nat) : ActivityTracker :=
  let activityThreshold : Int := time - activityWindow
  let (popped, inactivityQueue) := a.inactivityQueue.partition fun e => e.time ≤ activityThreshold
  popped.foldl (fun a e => a.expireSeat activityThreshold e.seat)
    { a with lastActivityTime := time, inactivityQueue := inactivityQueue }

/-- `MarkSeatActive`; the activity window is that of the protocol version of the time. -/
def markSeatActive (activityWindow : Nat → Nat) (a : ActivityTracker) (mark : ActivityMark) :
    ActivityTracker :=
  let window := activityWindow mark.time
  if a.activeAfter mark.seat mark.time ∨ (mark.time : Int) < a.lastActivityTime - window then a
  else if mark.time < a.lastActivityTime then a.recordActivity mark
  else advance window (a.recordActivity mark) mark.time

/-- The tracker after some marks, with a constant activity window. -/
def markAll (w : Nat) (marks : List ActivityMark) : ActivityTracker :=
  marks.foldl (markSeatActive fun _ => w) new

/-! ## Section 2: The seats that were seen recently -/

/-- The times of all marks. -/
def times (marks : List ActivityMark) : Set Nat := {t | ∃ mark ∈ marks, mark.time = t}

/-- The times of the marks of one seat. -/
def seatTimes (marks : List ActivityMark) (seat : SeatIndex) : Set Nat := {t | ⟨seat, t⟩ ∈ marks}

/-- The latest mark of the seat is later than the latest mark of all seats minus the
    activity window. -/
def RecentlyActive (w : Nat) (marks : List ActivityMark) (seat : SeatIndex) : Prop :=
  ∃ t latest, IsGreatest (seatTimes marks seat) t ∧ IsGreatest (times marks) latest ∧
    (latest : Int) - w < t

/-- The latest mark of some seat is older than the latest mark of all seats by exactly the
    activity window. -/
def MarkAtBoundary (w : Nat) (marks : List ActivityMark) : Prop :=
  0 < w ∧ ∃ mark ∈ marks, IsGreatest (seatTimes marks mark.seat) mark.time ∧
    IsGreatest (times marks) (mark.time + w)

/-! ## Section 3: What the tracker knows -/

/-- What the tracker knows of a seat, when the latest activity is known: the latest mark of the
    seat, unless it left the window.  A mark at the boundary of the window is one that came
    after the latest activity. -/
def Entry (w latest : Nat) (marks : List ActivityMark) (s : SeatIndex) : Option Nat → Prop
  | none => ∀ m ∈ marks, m.seat = s → m.time + w ≤ latest
  | some t => ⟨s, t⟩ ∈ marks ∧ (∀ m ∈ marks, m.seat = s → m.time ≤ t) ∧
      (latest < t + w ∨ latest = t + w ∧ t < latest)

/-- The committee is the set of the seats whose last activity is known. -/
def Consistent : Prop :=
  ∀ s, s ∈ a.onlineCommittee ↔ (a.lastActivities s).isSome

end

/-- What the tracker keeps of the marks so far. -/
structure Tracked (w : Nat) (marks : List ActivityMark) (a : ActivityTracker) : Prop where
  latest : a.lastActivityTime = 0 ∨ ∃ m ∈ marks, m.time = a.lastActivityTime
  le_latest : ∀ m ∈ marks, m.time ≤ a.lastActivityTime
  online : a.Consistent
  queued : ∀ s t, a.lastActivities s = some t → ⟨s, t⟩ ∈ a.inactivityQueue
  entry : ∀ s, Entry w a.lastActivityTime marks s (a.lastActivities s)

theorem tracked_new (w : Nat) : Tracked w [] new := by
  constructor <;> simp [new, Entry, Consistent]

variable {w latest t : Nat} {marks : List ActivityMark} {a : ActivityTracker} {m : ActivityMark}
  {s : SeatIndex} {o : Option Nat}

theorem Entry.drop (h : Entry w latest marks s o)
    (hm : m.seat = s → m.time + w ≤ latest ∨ ∃ t, o = some t ∧ m.time < t) :
    Entry w latest (marks ++ [m]) s o := by
  cases o <;> grind [Entry]

theorem Entry.record (h : Entry w latest marks m.seat o) (hnew : ∀ t, o = some t → t ≤ m.time)
    (hin : latest ≤ m.time + w) (hlate : m.time < latest) :
    Entry w latest (marks ++ [m]) m.seat (some m.time) := by
  cases o <;> grind [Entry]

theorem Entry.advance {o' : Option Nat} (h : Entry w latest marks s o) (hle : latest ≤ m.time)
    (hmarks : ∀ m' ∈ marks, m'.time ≤ latest)
    (ho : ∀ t : Nat, o' = some t ↔
      (if s = m.seat then some m.time else o) = some t ∧ (m.time : Int) - w < t) :
    Entry w m.time (marks ++ [m]) s o' := by
  cases m
  cases o <;> cases o' <;> grind [Entry]

theorem lastActivities_expireSeat {time : Int} {e : SeatIndex} :
    (a.expireSeat time e).lastActivities s = some t ↔
      a.lastActivities s = some t ∧ (s = e → time < t) := by
  unfold expireSeat
  split
  next hafter =>
    obtain ⟨t', ht', hlt⟩ := activeAfter_iff.mp hafter
    grind
  next hafter =>
    rw [activeAfter_iff] at hafter
    simp only [markSeatInactive, update_apply]
    grind

theorem Consistent.expireSeat (h : a.Consistent) (time : Int) (e : SeatIndex) :
    (a.expireSeat time e).Consistent := by
  intro s
  have hs := h s
  unfold ActivityTracker.expireSeat markSeatInactive
  split
  · exact hs
  · simp only [Finset.mem_erase, update_apply]
    grind

theorem expire_spec (time : Int) (popped : List ActivityMark) (h : a.Consistent) :
    let a' := popped.foldl (fun a e => a.expireSeat time e.seat) a
    a'.Consistent ∧ a'.lastActivityTime = a.lastActivityTime ∧
      a'.inactivityQueue = a.inactivityQueue ∧ ∀ s t, a'.lastActivities s = some t ↔
        a.lastActivities s = some t ∧ ((∃ e ∈ popped, s = e.seat) → time < t) := by
  induction popped generalizing a with
  | nil => exact ⟨h, rfl, rfl, fun _ _ => by simp⟩
  | cons e popped ih =>
    obtain ⟨honline, htime, hqueue, hlast⟩ := ih (h.expireSeat time e.seat)
    refine ⟨honline, htime.trans ?_, hqueue.trans ?_, fun s t => (hlast s t).trans ?_⟩
    · unfold ActivityTracker.expireSeat
      split <;> rfl
    · unfold ActivityTracker.expireSeat
      split <;> rfl
    · rw [lastActivities_expireSeat]
      grind

theorem Consistent.recordActivity (h : a.Consistent) (m : ActivityMark) :
    (a.recordActivity m).Consistent := by
  intro s
  have hs := h s
  simp only [ActivityTracker.recordActivity, update_apply]
  cases hm : a.lastActivities m.seat <;> grind

section

variable (h : Tracked w marks a)
include h

theorem Tracked.drop
    (hdrop : a.activeAfter m.seat m.time = true ∨ (m.time : Int) < a.lastActivityTime - w) :
    Tracked w (marks ++ [m]) a := by
  rw [activeAfter_iff] at hdrop
  have hle : m.time ≤ a.lastActivityTime := by
    rcases hdrop with ⟨t, ht, hlt⟩ | hold
    · have hentry := h.entry m.seat
      rw [ht] at hentry
      have := h.le_latest _ hentry.1
      simp only at this
      omega
    · omega
  refine ⟨by grind [h.latest], ?_, h.online, h.queued, fun s => (h.entry s).drop ?_⟩
  · exact forall_mem_append.mpr ⟨h.le_latest, forall_mem_singleton.mpr hle⟩
  · rintro rfl
    rcases hdrop with ⟨t, ht, hlt⟩ | hold
    · exact .inr ⟨t, ht, by omega⟩
    · exact .inl (by omega)

theorem Tracked.queued_record (hs : (a.recordActivity m).lastActivities s = some t) :
    ⟨s, t⟩ ∈ (a.recordActivity m).inactivityQueue := by
  have hold := h.queued s t
  cases m
  simp only [recordActivity, update_apply] at hs ⊢
  grind

theorem Tracked.record
    (hdrop : ¬ (a.activeAfter m.seat m.time = true ∨ (m.time : Int) < a.lastActivityTime - w))
    (hlate : m.time < a.lastActivityTime) : Tracked w (marks ++ [m]) (a.recordActivity m) := by
  rw [activeAfter_iff] at hdrop
  refine ⟨by grind [h.latest, recordActivity], ?_, h.online.recordActivity m,
    fun s t => h.queued_record, fun s => ?_⟩
  · exact forall_mem_append.mpr ⟨h.le_latest, forall_mem_singleton.mpr hlate.le⟩
  · simp only [recordActivity, update_apply]
    split
    next hs =>
      subst hs
      exact (h.entry m.seat).record (by grind) (by omega) hlate
    next hs => exact (h.entry s).drop fun heq => absurd heq.symm hs

theorem Tracked.advance (hle : a.lastActivityTime ≤ m.time) :
    Tracked w (marks ++ [m]) (advance w (a.recordActivity m) m.time) := by
  unfold ActivityTracker.advance
  simp only [partition_eq_filter_filter]
  generalize hpopped : (a.recordActivity m).inactivityQueue.filter
    (fun e => decide ((e.time : Int) ≤ m.time - w)) = popped
  generalize hqueue : (a.recordActivity m).inactivityQueue.filter
    (not ∘ fun e => decide ((e.time : Int) ≤ m.time - w)) = queue
  obtain ⟨honline, htime, hqueue', hlast⟩ := expire_spec (m.time - w) popped
    (show Consistent { a.recordActivity m with
        inactivityQueue := queue, lastActivityTime := m.time } from h.online.recordActivity m)
  generalize popped.foldl _ _ = a' at honline htime hqueue' hlast ⊢
  -- a last activity that is out of the window is popped
  have hkept : ∀ s t, a'.lastActivities s = some t ↔
      (a.recordActivity m).lastActivities s = some t ∧ (m.time : Int) - w < t := by
    intro s t
    rw [hlast]
    refine and_congr_right fun hs => ⟨fun hpop => ?_, fun hlt _ => hlt⟩
    by_contra hout
    exact hout (hpop ⟨⟨s, t⟩, by grind [h.queued_record hs], rfl⟩)
  refine ⟨.inr ⟨m, by simp, htime.symm⟩, ?_, honline, fun s t hs => ?_, fun s => ?_⟩
  · intro m' hm'
    have := h.le_latest m'
    grind
  · have hs' := (hkept s t).mp hs
    grind [h.queued_record hs'.1]
  · rw [htime]
    apply (h.entry s).advance hle h.le_latest
    intro t
    rw [hkept]
    simp only [recordActivity, update_apply]

theorem Tracked.step (m : ActivityMark) :
    Tracked w (marks ++ [m]) (a.markSeatActive (fun _ => w) m) := by
  unfold markSeatActive
  dsimp only
  split
  next hdrop => exact h.drop hdrop
  next hdrop =>
    split
    next hlate => exact h.record hdrop hlate
    next hlate => exact h.advance (by omega)

end

theorem tracked_markAll (w : Nat) (marks : List ActivityMark) :
    Tracked w marks (markAll w marks) := by
  induction marks using reverseRecOn with
  | nil => exact tracked_new w
  | append_singleton marks m ih =>
    rw [markAll, foldl_concat]
    exact ih.step m

/-! ## Section 4: The online committee -/

theorem Tracked.isGreatest_latest (h : Tracked w marks a) (hm : m ∈ marks) :
    IsGreatest (times marks) a.lastActivityTime := by
  refine ⟨h.latest.elim (fun hzero => ⟨m, hm, ?_⟩) id, fun t ⟨m', hm', htime⟩ =>
    htime ▸ h.le_latest m' hm'⟩
  have hle := h.le_latest m hm
  omega

theorem Tracked.online_iff (h : Tracked w marks a) (hb : ¬ MarkAtBoundary w marks)
    (seat : SeatIndex) : seat ∈ a.onlineCommittee ↔ RecentlyActive w marks seat := by
  have hentry := h.entry seat
  rw [h.online seat]
  cases hlast : a.lastActivities seat with
  | none =>
    rw [hlast] at hentry
    simp only [Option.isSome_none, Bool.false_eq_true, false_iff]
    rintro ⟨t, latest, hgreatest, hlatest, hlt⟩
    have heq := (h.isGreatest_latest hgreatest.1).unique hlatest
    have hle := hentry ⟨seat, t⟩ hgreatest.1 rfl
    simp only at hle
    omega
  | some t =>
    rw [hlast] at hentry
    obtain ⟨hmem, hmax, hwindow⟩ := hentry
    have hgreatest : IsGreatest (seatTimes marks seat) t := ⟨hmem, fun t' ht' => hmax _ ht' rfl⟩
    have hlatest := h.isGreatest_latest hmem
    simp only [Option.isSome_some, true_iff]
    refine ⟨t, a.lastActivityTime, hgreatest, hlatest, ?_⟩
    rcases hwindow with hin | hbound
    · omega
    · exact absurd ⟨by omega, ⟨seat, t⟩, hmem, hgreatest, hbound.1 ▸ hlatest⟩ hb

/-- A mark at the boundary of the window that comes last puts its seat into the committee. -/
theorem Tracked.mem_onlineCommittee (h : Tracked w marks a) (hw : 0 < w)
    (hlatest : a.lastActivityTime = m.time + w)
    (hgreatest : ∀ t ∈ seatTimes marks m.seat, t ≤ m.time) :
    m.seat ∈ (a.markSeatActive (fun _ => w) m).onlineCommittee := by
  have hentry := h.entry m.seat
  have hnot : ¬ (a.activeAfter m.seat m.time = true ∨
      (m.time : Int) < a.lastActivityTime - w) := by
    rintro (hafter | hold)
    · obtain ⟨t, ht, hlt⟩ := activeAfter_iff.mp hafter
      rw [ht] at hentry
      have hle := hgreatest t hentry.1
      omega
    · omega
  have hlate : m.time < a.lastActivityTime := by omega
  rw [markSeatActive, if_neg hnot, if_pos hlate, (h.record hnot hlate).online]
  simp [recordActivity]

/-- In every order of the marks the online committee is the same, namely the seats that were
    seen recently, exactly if no seat was seen last at the boundary of the window. -/
theorem onlineCommittee_order_independent_iff (w : Nat) (marks : List ActivityMark) :
    (∀ order order' : List ActivityMark, order.Perm marks → order'.Perm marks →
      (markAll w order).onlineCommittee = (markAll w order').onlineCommittee ∧
        ∀ seat, seat ∈ (markAll w order).onlineCommittee ↔ RecentlyActive w marks seat) ↔
      ¬ MarkAtBoundary w marks := by
  constructor
  · rintro h ⟨hw, last, hmem, hgreatest, hlatest⟩
    -- the mark at the boundary comes last
    have hperm : (marks.erase last ++ [last]).Perm marks :=
      (perm_append_singleton _ _).trans (perm_cons_erase hmem).symm
    obtain ⟨m, hm, htime⟩ := hlatest.1
    have hrest : m ∈ marks.erase last :=
      (mem_erase_of_ne fun heq => by rw [heq] at htime; omega).mpr hm
    have htracked := tracked_markAll w (marks.erase last)
    have hlast : (markAll w (marks.erase last)).lastActivityTime = last.time + w :=
      (htracked.isGreatest_latest hrest).unique ⟨⟨m, hrest, htime⟩, fun t ⟨m', hm', ht⟩ =>
        hlatest.2 ⟨m', mem_of_mem_erase hm', ht⟩⟩
    have honline : last.seat ∈ (markAll w (marks.erase last ++ [last])).onlineCommittee := by
      rw [markAll, foldl_concat]
      exact htracked.mem_onlineCommittee hw hlast fun t ht =>
        hgreatest.2 (mem_of_mem_erase ht)
    obtain ⟨t, latest, hgreatest', hlatest', hlt⟩ := ((h _ _ hperm hperm).2 last.seat).mp honline
    have ht := hgreatest'.unique hgreatest
    have hl := hlatest'.unique hlatest
    omega
  · intro hb order order' hperm hperm'
    have hiff : ∀ order : List ActivityMark, order.Perm marks → ∀ seat,
        seat ∈ (markAll w order).onlineCommittee ↔ RecentlyActive w marks seat := by
      intro order hperm seat
      have htimes : times order = times marks :=
        Set.ext fun t => exists_congr fun m => and_congr_left fun _ => hperm.mem_iff
      have hseat : seatTimes order = seatTimes marks :=
        funext fun s => Set.ext fun t => hperm.mem_iff
      have hsame := fun hb => (tracked_markAll w order).online_iff hb seat
      unfold MarkAtBoundary RecentlyActive at hsame
      simp only [htimes, hseat, hperm.mem_iff] at hsame
      exact hsame hb
    exact ⟨Finset.ext fun seat => (hiff order hperm seat).trans (hiff order' hperm' seat).symm,
      hiff order hperm⟩

/-- Two marks whose times differ by the activity window: the older seat is online if its mark
    comes second. -/
theorem onlineCommittee_depends_on_order :
    (markAll 10 [⟨1, 10⟩, ⟨2, 20⟩]).onlineCommittee = {2} ∧
      (markAll 10 [⟨2, 20⟩, ⟨1, 10⟩]).onlineCommittee = {1, 2} := by
  decide

end ActivityTracker

end AxonCore
