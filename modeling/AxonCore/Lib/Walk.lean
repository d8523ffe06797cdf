import Mathlib.Data.List.Nodup
import Mathlib.Data.List.Pairwise

/-! # Breadth-first walks without revisits

    A walker hands out the elements pushed to it first in, first out, and
    ignores every element it has seen before.  A walk repeatedly takes the
    next element, visits it (which updates a state and says whether to go
    on), and pushes the successors of the elements that want to go on.

    * `walk`: the executable walk, with a bound on the number of rounds that
      is always enough (`walk_walks`).
    * `Walks`: the same walk as a relation; every property below is an
      induction on it.
    * `Walks.queue_mem`, `Walks.nodup`, `Walks.closed`: what is visited.
    * `Walks.exists_level`: the visiting order is sorted by distance.
-/

namespace AxonCore.Lib

open List

variable {N σ : Type} [DecidableEq N]

/-! ## The walker -/

/-- Elements still to be handed out, and every element ever pushed. -/
structure Walker (N : Type) where
  queue  : List N
  pushed : List N

variable {w : Walker N} {x y : N} {xs : List N}

namespace Walker

/-- The walker before anything is pushed. -/
def new : Walker N := { queue := [], pushed := [] }

/-- Push one element, unless it was pushed before. -/
def push (w : Walker N) (x : N) : Walker N :=
  if x ∈ w.pushed then w else { queue := w.queue ++ [x], pushed := x :: w.pushed }

/-- Push a list of elements, in order. -/
def pushAll (w : Walker N) (xs : List N) : Walker N := xs.foldl push w

/-- Everything queued was pushed, and nothing is queued twice. -/
structure WF (w : Walker N) : Prop where
  nodup : w.queue.Nodup
  mem_pushed : ∀ x ∈ w.queue, x ∈ w.pushed

theorem WF.push (h : w.WF) (x : N) : (w.push x).WF := by
  unfold Walker.push
  split
  · exact h
  · next hx =>
    refine ⟨?_, ?_⟩
    · refine nodup_append.mpr ⟨h.nodup, nodup_singleton x, ?_⟩
      intro a ha b hb hab
      rw [mem_singleton] at hb
      exact hx (hb ▸ hab ▸ h.mem_pushed a ha)
    · intro y hy
      rcases mem_append.mp hy with hy | hy
      · exact mem_cons_of_mem _ (h.mem_pushed y hy)
      · rw [mem_singleton] at hy
        exact hy ▸ mem_cons_self

theorem WF.pushAll (h : w.WF) (xs : List N) : (w.pushAll xs).WF := by
  exact foldlRecOn _ _ h fun _ hw x _ => hw.push x

theorem mem_pushed_push : y ∈ (w.push x).pushed ↔ y ∈ w.pushed ∨ y = x := by
  unfold push
  split
  · next hx =>
    refine ⟨.inl, ?_⟩
    rintro (h | rfl)
    · exact h
    · exact hx
  · simp [or_comm]

theorem mem_pushed_pushAll : y ∈ (w.pushAll xs).pushed ↔ y ∈ w.pushed ∨ y ∈ xs := by
  induction xs generalizing w with
  | nil => simp [pushAll]
  | cons x xs ih =>
    change y ∈ ((w.push x).pushAll xs).pushed ↔ _
    rw [ih, mem_pushed_push]
    simp only [mem_cons, or_assoc]

/-- Pushing appends to the queue, in order, the elements not seen before. -/
theorem exists_queue_pushAll (w : Walker N) (xs : List N) :
    ∃ ys, (w.pushAll xs).queue = w.queue ++ ys ∧ ∀ y, y ∈ ys ↔ y ∈ xs ∧ y ∉ w.pushed := by
  induction xs generalizing w with
  | nil => exact ⟨[], by simp [pushAll], by simp⟩
  | cons x xs ih =>
    obtain ⟨ys, hys, hmem⟩ := ih (w.push x)
    by_cases hx : x ∈ w.pushed
    · have hpush : w.push x = w := by simp [push, hx]
      rw [hpush] at hys hmem
      refine ⟨ys, ?_, ?_⟩
      · change ((w.push x).pushAll xs).queue = _
        rw [hpush]; exact hys
      · intro y
        by_cases hyx : y = x <;> simp [hmem, hyx, hx]
    · refine ⟨x :: ys, ?_, ?_⟩
      · change ((w.push x).pushAll xs).queue = _
        rw [hys]
        simp [push, hx]
      · intro y
        by_cases hyx : y = x <;> simp [hmem, mem_pushed_push, hyx, hx]

theorem mem_queue_pushAll : y ∈ (w.pushAll xs).queue ↔ y ∈ w.queue ∨ (y ∈ xs ∧ y ∉ w.pushed) := by
  obtain ⟨ys, hys, hmem⟩ := exists_queue_pushAll w xs
  rw [hys, mem_append, hmem]

end Walker

/-! ## The walk -/

/-- The walker after taking `x` off the queue, with the successors of `x`
    pushed if the visit of `x` said to go on. -/
def advance (next : N → List N) (w : Walker N) (x : N) (goOn : Bool) : Walker N :=
  let rest : Walker N := { queue := w.queue.tail, pushed := w.pushed }
  if goOn then rest.pushAll (next x) else rest

/-- At most `fuel` rounds of the walk; the second component lists the
    elements in the order of their visits. -/
def walkFrom (visit : σ → N → σ × Bool) (next : N → List N) :
    Nat → Walker N → σ → σ × List N
  | 0, _, s => (s, [])
  | fuel + 1, w, s =>
    match w.queue with
    | [] => (s, [])
    | x :: _ =>
      let r := visit s x
      let t := walkFrom visit next fuel (advance next w x r.2) r.1
      (t.1, x :: t.2)

/-- Number of rounds that is always enough when only elements of `nodes` go
    on: every round takes one pushed element off the queue. -/
def rounds (next : N → List N) (nodes start : List N) : Nat :=
  (start ++ nodes.flatMap next).length

/-- The walk from `start`, with its visiting order. -/
def walkLog (visit : σ → N → σ × Bool) (next : N → List N) (nodes start : List N) (s : σ) :
    σ × List N :=
  walkFrom visit next (rounds next nodes start) (Walker.new.pushAll start) s

/-- The state after the walk from `start`. -/
def walk (visit : σ → N → σ × Bool) (next : N → List N) (nodes start : List N) (s : σ) : σ :=
  (walkLog visit next nodes start s).1

/-- `Walks visit next w s order s'`: the walk that starts with walker `w` in
    state `s` visits `order` and ends, with an empty queue, in state `s'`. -/
inductive Walks (visit : σ → N → σ × Bool) (next : N → List N) :
    Walker N → σ → List N → σ → Prop where
  | done {w : Walker N} {s : σ} : w.queue = [] → Walks visit next w s [] s
  | visit {w : Walker N} {s s' : σ} {x : N} {q order : List N} :
      w.queue = x :: q →
      Walks visit next (advance next w x (visit s x).2) (visit s x).1 order s' →
      Walks visit next w s (x :: order) s'

/-! ## Enough rounds -/

/-- What is still to be done: the queue and the elements of `pool` not yet pushed. -/
def remaining (pool : List N) (w : Walker N) : Nat :=
  w.queue.length + (pool.filter (fun y => decide (y ∉ w.pushed))).length

theorem length_filter_lt {l : List N} {p p' : N → Bool} (hx : x ∈ l) (hp : p x = true)
    (hp' : ∀ y, p' y = (decide (y ≠ x) && p y)) : (l.filter p').length < (l.filter p).length := by
  have hsub : l.filter p' = (l.filter p).filter (fun y => decide (y ≠ x)) := by
    rw [filter_filter]
    exact filter_congr fun y _ => hp' y
  rw [hsub]
  apply length_filter_lt_length_iff_exists.mpr
  exact ⟨x, mem_filter.mpr ⟨hx, hp⟩, by simp⟩

variable {pool : List N}

theorem remaining_push_le (hx : x ∈ pool) : remaining pool (w.push x) ≤ remaining pool w := by
  unfold remaining Walker.push
  split
  · exact Nat.le_refl _
  · next hxw =>
    have hlt : (pool.filter (fun y => decide (y ∉ x :: w.pushed))).length <
        (pool.filter (fun y => decide (y ∉ w.pushed))).length :=
      length_filter_lt hx (by simpa using hxw) (fun y => by simp [not_or])
    simp only [length_append, length_singleton]
    omega

theorem remaining_pushAll_le (hxs : ∀ x ∈ xs, x ∈ pool) (w : Walker N) :
    remaining pool (w.pushAll xs) ≤ remaining pool w := by
  induction xs generalizing w with
  | nil => exact Nat.le_refl _
  | cons x xs ih =>
    refine Nat.le_trans (ih (fun y hy => hxs y (mem_cons_of_mem _ hy)) (w.push x)) ?_
    exact remaining_push_le (hxs x mem_cons_self)

variable {next : N → List N} {q : List N} {goOn : Bool}

theorem remaining_advance_lt (hq : w.queue = x :: q)
    (hpool : goOn = true → ∀ y ∈ next x, y ∈ pool) :
    remaining pool (advance next w x goOn) < remaining pool w := by
  have hrest : remaining pool { queue := w.queue.tail, pushed := w.pushed } <
      remaining pool w := by
    simp [remaining, hq]
  unfold advance
  cases goOn with
  | false => simpa using hrest
  | true => exact Nat.lt_of_le_of_lt (remaining_pushAll_le (hpool rfl) _) hrest

/-- A round takes the first element off the queue and appends what was not pushed before. -/
theorem exists_queue_advance (next : N → List N) (goOn : Bool) (hq : w.queue = x :: q) :
    ∃ ys, (advance next w x goOn).queue = q ++ ys ∧
      ∀ y, y ∈ ys ↔ goOn = true ∧ y ∈ next x ∧ y ∉ w.pushed := by
  unfold advance
  cases goOn with
  | false => exact ⟨[], by simp [hq], by simp⟩
  | true =>
    obtain ⟨ys, hys, hmem⟩ :=
      Walker.exists_queue_pushAll { queue := w.queue.tail, pushed := w.pushed } (next x)
    exact ⟨ys, by simpa [hq] using hys, by simpa using hmem⟩

theorem mem_queue_advance (hq : w.queue = x :: q) : y ∈ (advance next w x goOn).queue ↔
    y ∈ q ∨ (goOn = true ∧ y ∈ next x ∧ y ∉ w.pushed) := by
  obtain ⟨ys, hys, hmem⟩ := exists_queue_advance next goOn hq
  rw [hys, mem_append, hmem]

theorem mem_pushed_advance : y ∈ (advance next w x goOn).pushed ↔
    y ∈ w.pushed ∨ (goOn = true ∧ y ∈ next x) := by
  unfold advance
  cases goOn with
  | false => simp
  | true => simp [Walker.mem_pushed_pushAll]

variable {visit : σ → N → σ × Bool} {nodes : List N}

theorem walkFrom_walks (hgo : ∀ s x, (visit s x).2 = true → ∀ y ∈ next x, y ∈ pool) :
    ∀ (fuel : Nat) (w : Walker N) (s : σ), remaining pool w ≤ fuel →
      Walks visit next w s (walkFrom visit next fuel w s).2
        (walkFrom visit next fuel w s).1 := by
  intro fuel
  induction fuel with
  | zero =>
    intro w s h
    have hq : w.queue = [] := by
      rw [← length_eq_zero_iff]
      unfold remaining at h
      omega
    exact .done hq
  | succ fuel ih =>
    intro w s h
    cases hq : w.queue with
    | nil =>
      simp only [walkFrom, hq]
      exact .done hq
    | cons x q =>
      simp only [walkFrom, hq]
      have hlt : remaining pool (advance next w x (visit s x).2) < remaining pool w :=
        remaining_advance_lt hq (hgo s x)
      exact .visit hq (ih _ _ (by omega))

/-- The executable walk runs until its queue is empty, if only `nodes` go on. -/
theorem walk_walks (hgo : ∀ s x, (visit s x).2 = true → x ∈ nodes) (start : List N) (s : σ) :
    ∃ order, Walks visit next (Walker.new.pushAll start) s order
      (walk visit next nodes start s) := by
  refine ⟨(walkLog visit next nodes start s).2, ?_⟩
  have hpool : ∀ s x, (visit s x).2 = true → ∀ y ∈ next x, y ∈ start ++ nodes.flatMap next := by
    intro s x hg y hy
    exact mem_append_right _ (mem_flatMap.mpr ⟨x, hgo s x hg, hy⟩)
  refine walkFrom_walks hpool _ _ _ ?_
  refine Nat.le_trans (remaining_pushAll_le (fun y hy => mem_append_left _ hy) _) ?_
  simp [remaining, Walker.new, rounds]

/-! ## What a walk visits -/

variable {s : σ}

section visited

variable {visit : σ → N → σ × Bool} {next : N → List N}

theorem Walker.WF.advance (h : w.WF) (x : N) (goOn : Bool) :
    (Lib.advance next w x goOn).WF := by
  have hrest : Walker.WF { queue := w.queue.tail, pushed := w.pushed } :=
    ⟨h.nodup.tail, fun y hy => h.mem_pushed y (mem_of_mem_tail hy)⟩
  unfold Lib.advance
  split
  · exact hrest.pushAll _
  · exact hrest

variable {s' : σ} {order : List N}

section

variable (h : Walks visit next w s order s')
include h

theorem Walks.eq_foldl : s' = order.foldl (fun s x => (visit s x).1) s := by
  induction h with
  | done _ => rfl
  | visit _ _ ih => exact ih

theorem Walks.queue_mem : ∀ x ∈ w.queue, x ∈ order := by
  induction h with
  | done hq => intro x hx; rw [hq] at hx; exact hx
  | @visit w s s' x q order hq _ ih =>
    intro y hy
    rw [hq] at hy
    rcases mem_cons.mp hy with rfl | hy
    · exact mem_cons_self
    · exact mem_cons_of_mem _ (ih y ((mem_queue_advance hq).mpr (.inl hy)))

theorem Walks.mem_fresh : ∀ x ∈ order, x ∈ w.queue ∨ x ∉ w.pushed := by
  induction h with
  | done _ => intro x hx; cases hx
  | @visit w s s' x q order hq _ ih =>
    intro y hy
    rcases mem_cons.mp hy with rfl | hy
    · exact .inl (hq ▸ mem_cons_self)
    · rcases ih y hy with hy | hy
      · rcases (mem_queue_advance hq).mp hy with hold | ⟨-, -, hnew⟩
        · exact .inl (hq ▸ mem_cons_of_mem x hold)
        · exact .inr hnew
      · exact .inr fun hold => hy (mem_pushed_advance.mpr (.inl hold))

theorem Walks.nodup (hw : w.WF) : order.Nodup := by
  induction h with
  | done _ => exact nodup_nil
  | @visit w s s' x q order hq hwalk ih =>
    have hxpushed : x ∈ w.pushed := hw.mem_pushed x (hq ▸ mem_cons_self)
    obtain ⟨hxq, -⟩ := nodup_cons.mp (hq ▸ hw.nodup)
    refine nodup_cons.mpr ⟨fun hx => ?_, ih (hw.advance x _)⟩
    rcases hwalk.mem_fresh x hx with hx | hx
    · rcases (mem_queue_advance hq).mp hx with hold | ⟨-, -, hnew⟩
      · exact hxq hold
      · exact hnew hxpushed
    · exact hx (mem_pushed_advance.mpr (.inl hxpushed))

/-- Whatever an element that goes on leads to is visited as well, or was
    pushed before the walk began. -/
theorem Walks.closed :
    ∀ (pre : List N) (x : N) (post : List N), order = pre ++ x :: post →
      (visit (pre.foldl (fun s x => (visit s x).1) s) x).2 = true →
      ∀ y ∈ next x, y ∈ w.pushed ∨ y ∈ order := by
  induction h with
  | done _ => intro pre x post h; simp at h
  | @visit w s s' x q order hq hwalk ih =>
    -- what the first round pushes is visited later
    have hfirst : (visit s x).2 = true → ∀ y ∈ next x, y ∈ w.pushed ∨ y ∈ x :: order := by
      intro hgo y hy
      by_cases hyp : y ∈ w.pushed
      · exact .inl hyp
      · have hqueued := (mem_queue_advance hq).mpr (.inr ⟨hgo, hy, hyp⟩)
        exact .inr (mem_cons_of_mem _ (hwalk.queue_mem y hqueued))
    intro pre z post horder hgo y hy
    cases pre with
    | nil =>
      simp only [nil_append, List.cons.injEq] at horder
      obtain ⟨rfl, rfl⟩ := horder
      exact hfirst hgo y hy
    | cons p pre =>
      simp only [cons_append, List.cons.injEq] at horder
      obtain ⟨rfl, rfl⟩ := horder
      rcases ih pre z post rfl hgo y hy with h | h
      · rcases mem_pushed_advance.mp h with h | ⟨hg, h⟩
        · exact .inl h
        · exact hfirst hg y h
      · exact .inr (mem_cons_of_mem _ h)

end

/-! ## Distances -/

/-- `Depth next expands start n x`: a path of `n` steps leads from an element
    of `start` to `x`, through elements that may go on. -/
inductive Depth (next : N → List N) (expands : N → Prop) (start : List N) : Nat → N → Prop where
  | start {x : N} : x ∈ start → Depth next expands start 0 x
  | next {n : Nat} {x y : N} :
      Depth next expands start n x → expands x → y ∈ next x → Depth next expands start (n + 1) y

variable {expands : N → Prop} {level : N → Nat}

omit [DecidableEq N] in
theorem Depth.trans {start : List N} {d n : Nat} (hx : Depth next expands start d x)
    (hexp : expands x) (hy : Depth next expands (next x) n y) :
    Depth next expands start (d + 1 + n) y := by
  induction hy with
  | start hmem => exact .next hx hexp hmem
  | next _ hexp' hmem ih => exact .next ih hexp' hmem

/-- The queue of a breadth-first walk: sorted by level, with at most two
    levels, every level being the length of a path. -/
structure Levelled (next : N → List N) (expands : N → Prop) (start : List N)
    (w : Walker N) (level : N → Nat) : Prop where
  sorted : w.queue.Pairwise (fun a b => level a ≤ level b)
  close : ∀ x ∈ w.queue, ∀ y ∈ w.queue, level y ≤ level x + 1
  depth : ∀ x ∈ w.queue, Depth next expands start (level x) x

/-- Levels for one round: what the visit of `x` pushes is one level above `x`. -/
def nextLevel (w : Walker N) (x : N) (level : N → Nat) : N → Nat :=
  fun y => if y ∈ w.pushed then level y else level x + 1

theorem nextLevel_of_mem (h : y ∈ w.pushed) : nextLevel w x level y = level y := by
  simp [nextLevel, h]

theorem Levelled.advance {start : List N} (h : Levelled next expands start w level) (hw : w.WF)
    (hq : w.queue = x :: q) (hexp : goOn = true → expands x) :
    Levelled next expands start (Lib.advance next w x goOn) (nextLevel w x level) := by
  obtain ⟨hsorted, hclose, hdepth⟩ := h
  have hpushed : ∀ y ∈ q, y ∈ w.pushed := fun y hy =>
    hw.mem_pushed y (hq ▸ mem_cons_of_mem x hy)
  rw [hq] at hsorted hclose hdepth
  obtain ⟨hle, hsorted⟩ := pairwise_cons.mp hsorted
  have hge : ∀ y ∈ q, level y ≤ level x + 1 := fun y hy =>
    hclose x mem_cons_self y (mem_cons_of_mem x hy)
  have hold : ∀ y ∈ q, nextLevel w x level y = level y := fun y hy =>
    nextLevel_of_mem (hpushed y hy)
  -- the queue is the old tail followed by fresh elements of level `level x + 1`
  obtain ⟨ys, hqueue, hmem⟩ := exists_queue_advance next goOn hq
  have hfresh : ∀ y ∈ ys, nextLevel w x level y = level x + 1 := by
    intro y hy
    simp [nextLevel, ((hmem y).mp hy).2.2]
  refine ⟨?_, ?_, ?_⟩
  · rw [hqueue]
    refine pairwise_append.mpr ⟨hsorted.imp_of_mem ?_, ?_, ?_⟩
    · intro a b ha hb hab
      rwa [hold a ha, hold b hb]
    · exact pairwise_of_forall_mem_list
        (fun a ha b hb => Nat.le_of_eq ((hfresh a ha).trans (hfresh b hb).symm))
    · intro a ha b hb
      rw [hold a ha, hfresh b hb]
      exact hge a ha
  · rw [hqueue]
    intro a ha b hb
    have hlow : level x ≤ nextLevel w x level a := by
      rcases mem_append.mp ha with ha | ha
      · rw [hold a ha]; exact hle a ha
      · rw [hfresh a ha]; omega
    have hhigh : nextLevel w x level b ≤ level x + 1 := by
      rcases mem_append.mp hb with hb | hb
      · rw [hold b hb]; exact hge b hb
      · exact Nat.le_of_eq (hfresh b hb)
    omega
  · rw [hqueue]
    intro y hy
    rcases mem_append.mp hy with hy | hy
    · rw [hold y hy]
      exact hdepth y (mem_cons_of_mem x hy)
    · rw [hfresh y hy]
      obtain ⟨hgo, hnext, -⟩ := (hmem y).mp hy
      exact .next (hdepth x mem_cons_self) (hexp hgo) hnext

/-- The visiting order is sorted by level, and each level is the length of a path. -/
theorem Walks.exists_level {start : List N} (hexp : ∀ s x, (visit s x).2 = true → expands x)
    (h : Walks visit next w s order s') :
    ∀ level : N → Nat, w.WF → Levelled next expands start w level →
      ∃ level' : N → Nat, (∀ x ∈ w.pushed, level' x = level x) ∧
        order.Pairwise (fun a b => level' a ≤ level' b) ∧
        (∀ x ∈ order, Depth next expands start (level' x) x) ∧
        (∀ d, (∀ x ∈ w.queue, d ≤ level x) → ∀ y ∈ order, d ≤ level' y) := by
  induction h with
  | done _ =>
    intro level _ _
    exact ⟨level, fun _ _ => rfl, List.Pairwise.nil, by simp, by simp⟩
  | @visit w s s' x q order hq _ ih =>
    intro level hw hl
    have hxq : x ∈ w.queue := by rw [hq]; exact mem_cons_self
    have hxpushed := hw.mem_pushed x hxq
    have hadv := hl.advance hw hq (hexp s x)
    obtain ⟨level', hext, hsorted, hdepth, hlow⟩ := ih _ (hw.advance x _) hadv
    have hold : ∀ y ∈ w.pushed, level' y = level y := fun y hy => by
      rw [hext y (mem_pushed_advance.mpr (.inl hy)), nextLevel_of_mem hy]
    -- everything visited later is at least at the level of `x`
    have hafter : ∀ d, (∀ y ∈ w.queue, d ≤ level y) → ∀ y ∈ order, d ≤ level' y := by
      intro d hd
      refine hlow d ?_
      intro y hy
      by_cases hyp : y ∈ w.pushed
      · rw [nextLevel_of_mem hyp]
        rcases (mem_queue_advance hq).mp hy with h | ⟨-, -, h⟩
        · exact hd y (hq ▸ mem_cons_of_mem x h)
        · exact absurd hyp h
      · have := hd x hxq
        simp only [nextLevel, hyp, if_false]
        omega
    refine ⟨level', hold, pairwise_cons.mpr ⟨?_, hsorted⟩, ?_, ?_⟩
    · intro y hy
      rw [hold x hxpushed]
      refine hafter (level x) ?_ y hy
      intro z hz
      rw [hq] at hz
      rcases mem_cons.mp hz with rfl | hz
      · exact Nat.le_refl _
      · have := hl.sorted
        rw [hq] at this
        exact (pairwise_cons.mp this).1 z hz
    · intro y hy
      rcases mem_cons.mp hy with rfl | hy
      · rw [hold y hxpushed]; exact hl.depth y hxq
      · exact hdepth y hy
    · intro d hd y hy
      rcases mem_cons.mp hy with rfl | hy
      · rw [hold y hxpushed]; exact hd y hxq
      · exact hafter d hd y hy

end visited

/-! ## The walk from a list of elements -/

/-- What a walk from `start` guarantees about its visiting order. -/
structure WalkSpec (visit : σ → N → σ × Bool) (next : N → List N) (expands : N → Prop)
    (start : List N) (s : σ) (order : List N) (s' : σ) : Prop where
  eq_foldl : s' = order.foldl (fun s x => (visit s x).1) s
  nodup : order.Nodup
  start_mem : ∀ x ∈ start, x ∈ order
  closed : ∀ pre x post, order = pre ++ x :: post →
    (visit (pre.foldl (fun s x => (visit s x).1) s) x).2 = true → ∀ y ∈ next x, y ∈ order
  exists_level : ∃ level : N → Nat, order.Pairwise (fun a b => level a ≤ level b) ∧
    ∀ x ∈ order, Depth next expands start (level x) x

section spec

variable {expands : N → Prop} {start order : List N} {s' : σ}

theorem Walks.spec (hexp : ∀ s x, (visit s x).2 = true → expands x)
    (h : Walks visit next (Walker.new.pushAll start) s order s') :
    WalkSpec visit next expands start s order s' := by
  have hnew : (Walker.new : Walker N).WF := ⟨nodup_nil, by simp [Walker.new]⟩
  have hwf := hnew.pushAll start
  have hqueue : ∀ x, x ∈ (Walker.new.pushAll start).queue ↔ x ∈ start := by
    intro x
    rw [Walker.mem_queue_pushAll]
    simp [Walker.new]
  have hpushed : ∀ x, x ∈ (Walker.new.pushAll start).pushed ↔ x ∈ start := by
    intro x
    rw [Walker.mem_pushed_pushAll]
    simp [Walker.new]
  have hlev : Levelled next expands start (Walker.new.pushAll start) (fun _ => 0) :=
    ⟨pairwise_of_forall_mem_list (fun _ _ _ _ => Nat.le_refl _), by simp,
      fun x hx => .start ((hqueue x).mp hx)⟩
  obtain ⟨level, _, hsorted, hdepth, _⟩ := h.exists_level hexp _ hwf hlev
  refine ⟨h.eq_foldl, h.nodup hwf, ?_, ?_, level, hsorted, hdepth⟩
  · intro x hx
    exact h.queue_mem x ((hqueue x).mpr hx)
  · intro pre x post horder hgo' y hy
    rcases h.closed pre x post horder hgo' y hy with hp | ho
    · exact h.queue_mem y ((hqueue y).mpr ((hpushed y).mp hp))
    · exact ho

end spec

theorem walk_spec (hgo : ∀ s x, (visit s x).2 = true → x ∈ nodes) (start : List N) (s : σ) :
    ∃ order, WalkSpec visit next (· ∈ nodes) start s order (walk visit next nodes start s) := by
  obtain ⟨order, h⟩ : ∃ order, Walks visit next (Walker.new.pushAll start) s order
      (walk visit next nodes start s) := walk_walks hgo start s
  exact ⟨order, h.spec hgo⟩

theorem walk_invariant (hgo : ∀ s x, (visit s x).2 = true → x ∈ nodes) {P : σ → Prop}
    (hvisit : ∀ s x, P s → P (visit s x).1) (start : List N) (hs : P s) :
    P (walk visit next nodes start s) := by
  obtain ⟨order, h⟩ : ∃ order, WalkSpec visit next (· ∈ nodes) start s order
      (walk visit next nodes start s) := walk_spec hgo start s
  rw [h.eq_foldl]
  exact foldlRecOn _ _ hs fun s hs x _ => hvisit s x hs

end AxonCore.Lib
