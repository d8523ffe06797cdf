import Mathlib.Data.List.Nodup

/-! # Circular doubly linked lists

    A ring is a set of cells that are linked in both directions.  `Links` are the two
    pointers of all cells; `link` is the one operation that changes them.  Depending on
    whether its arguments are on the same ring, it splits a ring in two or joins two rings.

    * `Segment h a l b`: from `a` one passes the cells `l` and then reaches `b`.
    * `IsRing h l`: the cells of `l` are distinct and linked in a circle.
    * `IsRing.rotate`, `IsRing.link_around`, `IsRing.link_before`: what moving on, taking out
      the first cell and putting in a cell before the first one do to a ring.
    * `traverse`: the cells from one cell on until one is back at the start. -/

namespace AxonCore.Lib

open List Function

/-- The pointers of all cells. -/
structure Links where
  next : Nat → Nat
  prev : Nat → Nat

namespace Links

/-- A cell that is linked to itself. -/
def single (h : Links) (p : Nat) : Links :=
  ⟨update h.next p p, update h.prev p p⟩

/-- Makes `s` the cell after `r`.  The cells `next r` and `prev s` become neighbours. -/
def link (h : Links) (r s : Nat) : Links :=
  let n := h.next r
  let p := h.prev s
  { next := update (update h.next r s) p n
    prev := update (update h.prev s r) n p }

end Links

/-! ## Section 1: Segments -/

/-- `b` follows `a`. -/
def Adjacent (h : Links) (a b : Nat) : Prop := h.next a = b ∧ h.prev b = a

/-- From `a` one passes the cells `l` and then reaches `b`. -/
def Segment (h : Links) (a : Nat) : List Nat → Nat → Prop
  | [], b => Adjacent h a b
  | c :: l, b => Adjacent h a c ∧ Segment h c l b

variable {h h' : Links} {l : List Nat} {c b r s : Nat}

theorem segment_append :
    ∀ {a : Nat}, Segment h a (l ++ [c]) b ↔ Segment h a l c ∧ Adjacent h c b := by
  induction l with
  | nil => exact Iff.rfl
  | cons d l ih =>
    intro a
    show Adjacent h a d ∧ Segment h d (l ++ [c]) b ↔
      (Adjacent h a d ∧ Segment h d l c) ∧ Adjacent h c b
    rw [ih, and_assoc]

theorem Segment.frame :
    ∀ {a : Nat}, Segment h a l b → (∀ c ∈ a :: l, h'.next c = h.next c) →
      (∀ c ∈ b :: l, h'.prev c = h.prev c) → Segment h' a l b := by
  induction l with
  | nil =>
    intro a hseg hnext hprev
    show h'.next a = b ∧ h'.prev b = a
    rw [hnext a mem_cons_self, hprev b mem_cons_self]
    exact hseg
  | cons c l ih =>
    intro a hseg hnext hprev
    constructor
    · show h'.next a = c ∧ h'.prev c = a
      rw [hnext a mem_cons_self, hprev c (by simp)]
      exact hseg.1
    · apply ih hseg.2
      · exact fun d hd => hnext d (mem_cons_of_mem a hd)
      · intro d hd
        apply hprev
        simp only [mem_cons] at hd ⊢
        tauto

theorem Segment.frame_link {a : Nat} (hseg : Segment h a l b) (hr : r ∉ a :: l)
    (hp : h.prev s ∉ a :: l) (hs : s ∉ b :: l) (hn : h.next r ∉ b :: l) :
    Segment (h.link r s) a l b := by
  apply hseg.frame
  · intro c hc
    exact (update_of_ne (ne_of_mem_of_not_mem hc hp) _ _).trans
      (update_of_ne (ne_of_mem_of_not_mem hc hr) _ _)
  · intro c hc
    exact (update_of_ne (ne_of_mem_of_not_mem hc hn) _ _).trans
      (update_of_ne (ne_of_mem_of_not_mem hc hs) _ _)

theorem adjacent_link_outer (h : Links) (r s : Nat) :
    Adjacent (h.link r s) (h.prev s) (h.next r) :=
  ⟨update_self _ _ _, update_self _ _ _⟩

theorem adjacent_link (hr : r ≠ h.prev s) (hs : s ≠ h.next r) : Adjacent (h.link r s) r s :=
  ⟨(update_of_ne hr _ _).trans (update_self _ _ _),
    (update_of_ne hs _ _).trans (update_self _ _ _)⟩

/-- Every cell that a segment reaches has a neighbour before it. -/
theorem Segment.next_prev :
    ∀ {a c : Nat}, Segment h a l b → c ∈ b :: l → h.next (h.prev c) = c := by
  induction l with
  | nil =>
    intro a c hseg hc
    rw [mem_singleton.mp hc, hseg.2]
    exact hseg.1
  | cons d l ih =>
    intro a c hseg hc
    by_cases hcd : c = d
    · rw [hcd, hseg.1.2]
      exact hseg.1.1
    · apply ih hseg.2
      simp only [mem_cons] at hc ⊢
      tauto

/-! ## Section 2: Rings -/

/-- The cells of a list form a ring, in this order. -/
def IsRing (h : Links) : List Nat → Prop
  | [] => True
  | x :: l => (x :: l).Nodup ∧ Segment h x l x

theorem IsRing.nodup (hl : IsRing h l) : l.Nodup := by
  cases l with
  | nil => exact nodup_nil
  | cons x l => exact hl.1

theorem adjacent_single (h : Links) (p : Nat) : Adjacent (h.single p) p p :=
  ⟨update_self _ _ _, update_self _ _ _⟩

theorem isRing_single (h : Links) (p : Nat) : IsRing (h.single p) [p] :=
  ⟨nodup_singleton p, adjacent_single h p⟩

variable {x y p fuel : Nat}

theorem IsRing.rotate (hl : IsRing h (x :: y :: l)) : IsRing h (y :: (l ++ [x])) := by
  obtain ⟨hnodup, hxy, hseg⟩ := hl
  constructor
  · have hperm : (y :: (l ++ [x])).Perm (x :: y :: l) :=
      (perm_append_singleton x l).cons y |>.trans (List.Perm.swap x y l)
    exact hperm.nodup_iff.mpr hnodup
  · exact segment_append.mpr ⟨hseg, hxy⟩

theorem IsRing.frame_single (hl : IsRing h l) (hp : p ∉ l) : IsRing (h.single p) l := by
  cases l with
  | nil => trivial
  | cons x l =>
    refine ⟨hl.1, hl.2.frame ?_ ?_⟩
    · exact fun c hc => update_of_ne (fun hcp : c = p => hp (hcp ▸ hc)) _ _
    · exact fun c hc => update_of_ne (fun hcp : c = p => hp (hcp ▸ hc)) _ _

theorem IsRing.prev_eq (hl : IsRing h (x :: l)) :
    (l = [] ∧ h.prev x = x) ∨ ∃ mid, l = mid ++ [h.prev x] ∧ Segment h x mid (h.prev x) := by
  rcases eq_nil_or_concat l with rfl | ⟨mid, z, rfl⟩
  · exact .inl ⟨rfl, hl.2.2⟩
  · right
    rw [concat_eq_append] at hl ⊢
    obtain ⟨hseg, hzx⟩ := segment_append.mp hl.2
    have hz : h.prev x = z := hzx.2
    rw [hz]
    exact ⟨mid, rfl, hseg⟩

/-- Linking the neighbours of the first cell takes that cell out of the ring. -/
theorem IsRing.link_around (hl : IsRing h (x :: y :: l)) :
    IsRing (h.link (h.prev x) (h.next x)) (y :: l) := by
  obtain ⟨hnodup, ⟨hnext, hprev⟩, hseg⟩ := hl
  rw [hnext]
  rcases eq_nil_or_concat l with rfl | ⟨mid, z, rfl⟩
  · -- two cells: the other one is left alone
    have hyx : h.next y = x ∧ h.prev x = y := hseg
    have hne : y ≠ x := by
      rintro rfl
      simp at hnodup
    rw [hyx.2]
    exact ⟨nodup_singleton y,
      adjacent_link (by rw [hprev]; exact hne) (by rw [hyx.1]; exact hne)⟩
  · -- the cell before `x` is `z`, and `x` is its own neighbour in the end
    rw [concat_eq_append] at *
    obtain ⟨hmid, hz⟩ := segment_append.mp hseg
    have hne : y ≠ x ∧ z ≠ x ∧ z ≠ y ∧ x ∉ mid ∧ y ∉ mid ∧ z ∉ mid := by grind
    rw [hz.2]
    refine ⟨(nodup_cons.mp hnodup).2, segment_append.mpr
      ⟨hmid.frame_link ?_ ?_ ?_ ?_, adjacent_link ?_ ?_⟩⟩ <;> grind [Adjacent]

/-- Linking a cell that is alone to the first cell puts it at the end of the ring. -/
theorem IsRing.link_before (hl : IsRing h (x :: l)) (hp : Adjacent h p p) (hfresh : p ∉ x :: l) :
    IsRing (h.link p x) (x :: (l ++ [p])) := by
  have hnodup : (x :: (l ++ [p])).Nodup := by
    have hperm : (x :: (l ++ [p])).Perm (p :: x :: l) :=
      (perm_append_singleton p l).cons x |>.trans (List.Perm.swap p x l)
    exact hperm.nodup_iff.mpr (nodup_cons.mpr ⟨hfresh, hl.nodup⟩)
  have hlast := adjacent_link_outer h p x
  rw [hp.1] at hlast
  rcases hl.prev_eq with ⟨rfl, hself⟩ | ⟨mid, hmid, hseg⟩
  · -- a ring of one cell
    rw [hself] at hlast
    refine ⟨hnodup, hlast, adjacent_link ?_ ?_⟩
    · rw [hself]
      grind
    · rw [hp.1]
      grind
  · have hne : p ≠ x ∧ p ∉ mid ∧ p ≠ h.prev x ∧ x ∉ mid ∧ x ≠ h.prev x ∧ h.prev x ∉ mid := by
      grind
    rw [hmid]
    refine ⟨hmid ▸ hnodup, segment_append.mpr ⟨segment_append.mpr
      ⟨hseg.frame_link ?_ ?_ ?_ ?_, hlast⟩, adjacent_link ?_ ?_⟩⟩ <;> grind [Adjacent]

/-! ## Section 3: Traversals -/

/-- The cells from `a` on until `start` is reached again; `none` if the fuel runs out. -/
def traverse (h : Links) (start : Nat) : Nat → Nat → Option (List Nat)
  | 0, _ => none
  | fuel + 1, a =>
    if h.next a = start then some [a] else (traverse h start fuel (h.next a)).map (a :: ·)

theorem traverse_segment {start : Nat} :
    ∀ {fuel a : Nat}, Segment h a l start → start ∉ l → l.length < fuel →
      traverse h start fuel a = some (a :: l) := by
  induction l with
  | nil =>
    intro fuel a hseg _ hfuel
    obtain ⟨fuel, rfl⟩ := Nat.exists_eq_add_of_lt hfuel
    unfold traverse
    rw [if_pos hseg.1]
  | cons b l ih =>
    intro fuel a hseg hstart hfuel
    obtain ⟨fuel, rfl⟩ := Nat.exists_eq_add_of_lt hfuel
    rw [mem_cons, not_or] at hstart
    have hnext : h.next a = b := hseg.1.1
    unfold traverse
    rw [hnext, if_neg (fun heq : b = start => hstart.1 heq.symm),
      ih hseg.2 hstart.2 (Nat.lt_of_succ_lt_succ hfuel)]
    rfl

/-- A traversal that ends has passed the cell after its first one. -/
theorem next_mem_of_traverse (htraverse : traverse h x fuel x = some l) : h.next x ∈ l := by
  cases fuel with
  | zero => cases htraverse
  | succ fuel =>
    unfold traverse at htraverse
    split_ifs at htraverse with hself
    · rw [Option.some.injEq] at htraverse
      rw [← htraverse, hself]
      exact mem_singleton_self x
    · obtain ⟨rest, hrest, rfl⟩ := Option.map_eq_some_iff.mp htraverse
      apply mem_cons_of_mem
      cases fuel with
      | zero => cases hrest
      | succ fuel =>
        unfold traverse at hrest
        split at hrest
        · cases hrest
          exact mem_singleton_self _
        · obtain ⟨_, _, rfl⟩ := Option.map_eq_some_iff.mp hrest
          exact mem_cons_self

/-- A traversal of a ring passes every cell once and ends at the start. -/
theorem IsRing.traverse (hl : IsRing h (x :: l)) (hfuel : l.length < fuel) :
    traverse h x fuel x = some (x :: l) :=
  traverse_segment hl.2 (nodup_cons.mp hl.1).1 hfuel

end AxonCore.Lib
