import AxonCore.Committee.Accounts

/-! # The assignment of seats

    What `Accounts.SeatedAccounts` and `Reuse` return.  A committee is `Seated` if every
    member has exactly one seat and no two members share one.

    The second pass hands out seats from a counter of eight bits.  It never wraps around:
    the seats that are left to skip and the members that are left to seat always fit above
    it (`Assigning.bound`), because a committee has at most 255 members. -/

namespace AxonCore.Committee

open AxonCore.Lib List Option SeatedAccounts

variable {ID : Type} [LinearOrder ID] {id : ID} {seat : SeatIndex} {taken : List SeatIndex}

/-! ## Section 1: Setting a seat -/

theorem SeatedAccounts.set_frame (s : SeatedAccounts ID) (seat : SeatIndex) (id : ID) :
    (s.set seat id).accounts = s.accounts ∧ (s.set seat id).reused = s.reused := by
  unfold set
  split_ifs
  · split
    · exact ⟨rfl, rfl⟩
    · split_ifs <;> exact ⟨rfl, rfl⟩
  · exact ⟨rfl, rfl⟩

theorem SeatedAccounts.getSeat_set {s : SeatedAccounts ID} (hhas : s.accounts.has id = true)
    (hnone : s.getSeat id = none) (seat : SeatIndex) (j : ID) :
    (s.set seat id).getSeat j = if j = id then some seat else s.getSeat j := by
  unfold set
  rw [if_pos hhas]
  simp only [hnone]
  exact lookup_insert_eq s.seatsByAccount j id seat

theorem Accounts.mem_ids (a : Accounts ID) (id : ID) : id ∈ a.ids ↔ a.has id = true :=
  mem_keys_iff a.accountPools id

/-- Every member has one seat, and no two members have the same one. -/
structure Seated (c : SeatedAccounts ID) : Prop where
  members : ∀ id, (c.getSeat id).isSome = c.accounts.has id
  distinct : ∀ {id id' : ID} {seat : SeatIndex},
    c.getSeat id = some seat → c.getSeat id' = some seat → id = id'

theorem seated_new : Seated (new (Accounts.new : Accounts ID)) where
  members _ := rfl
  distinct h := nomatch h

/-! ## Section 2: The seats of re-elected members -/

theorem foldl_keepSeat (prev : SeatedAccounts ID) (ids : List ID) :
    ∀ {new : SeatedAccounts ID}, ids.Nodup →
      (∀ id ∈ ids, new.accounts.has id = true ∧ new.getSeat id = none) →
      (ids.foldl (keepSeat prev) new).accounts = new.accounts ∧
      (ids.foldl (keepSeat prev) new).reused = new.reused ∧
      ∀ j, (ids.foldl (keepSeat prev) new).getSeat j =
        if j ∈ ids then prev.getSeat j else new.getSeat j := by
  induction ids with
  | nil => intro new _ _; simp
  | cons id ids ih =>
    intro new hnodup hids
    obtain ⟨hnotin, hnodup'⟩ := nodup_cons.mp hnodup
    obtain ⟨hhas, hnone⟩ := hids id mem_cons_self
    -- what one round does, whether or not the member had a seat
    have hround : (keepSeat prev new id).accounts = new.accounts ∧
        (keepSeat prev new id).reused = new.reused ∧
        ∀ j, (keepSeat prev new id).getSeat j =
          if j = id then prev.getSeat j else new.getSeat j := by
      unfold keepSeat
      cases hseat : prev.getSeat id with
      | none =>
        refine ⟨rfl, rfl, fun j => ?_⟩
        split_ifs with hj
        · rw [hj, hnone, hseat]
        · rfl
      | some seat =>
        refine ⟨(set_frame new seat id).1, (set_frame new seat id).2, fun j => ?_⟩
        rw [getSeat_set hhas hnone]
        split_ifs with hj
        · rw [hj, hseat]
        · rfl
    obtain ⟨haccounts, hreused, hseats⟩ := hround
    have hrest : ∀ j ∈ ids, (keepSeat prev new id).accounts.has j = true ∧
        (keepSeat prev new id).getSeat j = none := by
      intro j hj
      have hne : j ≠ id := fun h => hnotin (h ▸ hj)
      rw [haccounts, hseats j, if_neg hne]
      exact hids j (mem_cons_of_mem id hj)
    obtain ⟨haccounts', hreused', hseats'⟩ := ih hnodup' hrest
    show (ids.foldl (keepSeat prev) (keepSeat prev new id)).accounts = _ ∧
      (ids.foldl (keepSeat prev) (keepSeat prev new id)).reused = _ ∧
      ∀ j, (ids.foldl (keepSeat prev) (keepSeat prev new id)).getSeat j = _
    refine ⟨haccounts'.trans haccounts, hreused'.trans hreused, fun j => ?_⟩
    rw [hseats' j, hseats j]
    by_cases hj : j = id <;> simp [hj]

/-! ## Section 3: The seats that are left -/

/-- The seats among `taken` that are not below `seat`. -/
def seatsAhead (taken : List SeatIndex) (seat : SeatIndex) : Nat :=
  taken.countP fun t => decide (seat.toNat ≤ t.toNat)

theorem SeatIndex.toNat_succ (h : seat.toNat < 255) : (seat + 1).toNat = seat.toNat + 1 := by
  rw [UInt8.toNat_add]
  simp only [UInt8.toNat_one]
  omega

theorem seatsAhead_anti (taken : List SeatIndex) (seat seat' : SeatIndex)
    (h : seat.toNat ≤ seat'.toNat) : seatsAhead taken seat' ≤ seatsAhead taken seat := by
  apply countP_mono_left
  intro t _ ht
  simp only [decide_eq_true_eq] at ht ⊢
  omega

theorem seatsAhead_succ (seat' : SeatIndex) (hmem : seat ∈ taken) (h : seat.toNat < seat'.toNat) :
    seatsAhead taken seat' + 1 ≤ seatsAhead taken seat := by
  induction taken with
  | nil => cases hmem
  | cons t taken ih =>
    unfold seatsAhead at ih ⊢
    simp only [countP_cons, decide_eq_true_eq]
    rcases mem_cons.mp hmem with rfl | hmem
    · have hanti := seatsAhead_anti taken seat seat' (Nat.le_of_lt h)
      unfold seatsAhead at hanti
      split_ifs <;> omega
    · have hih := ih hmem
      split_ifs <;> omega

/-- The loop over taken seats ends at a seat that is not taken, and the seats ahead still
    fit. -/
theorem skipTaken_spec {left : Nat} (fuel : Nat) :
    ∀ (seat : SeatIndex), 256 ≤ fuel + seat.toNat →
      seat.toNat + left + seatsAhead taken seat ≤ 255 →
      ∃ seat', skipTaken taken fuel seat = some seat' ∧ seat.toNat ≤ seat'.toNat ∧
        seat' ∉ taken ∧ seat'.toNat + left + seatsAhead taken seat' ≤ 255 := by
  induction fuel with
  | zero =>
    intro seat hfuel _
    have hlt := seat.toNat_lt
    omega
  | succ fuel ih =>
    intro seat hfuel hbound
    by_cases hmem : seat ∈ taken
    · -- a taken seat is ahead of itself, so the counter is not at its end
      have hself : 0 < seatsAhead taken seat :=
        countP_pos_iff.mpr ⟨seat, hmem, by simp⟩
      have hsucc : (seat + 1).toNat = seat.toNat + 1 := SeatIndex.toNat_succ (by omega)
      have hahead := seatsAhead_succ (seat + 1) hmem (by omega)
      obtain ⟨seat', hskip, hle, hnot, hbound'⟩ := ih (seat + 1) (by omega) (by omega)
      refine ⟨seat', ?_, by omega, hnot, hbound'⟩
      show (if seat ∈ taken then skipTaken taken fuel (seat + 1) else some seat) = some seat'
      rw [if_pos hmem, hskip]
    · refine ⟨seat, ?_, Nat.le_refl _, hmem, hbound⟩
      show (if seat ∈ taken then skipTaken taken fuel (seat + 1) else some seat) = some seat
      rw [if_neg hmem]

/-! ## Section 4: The second pass -/

/-- The second pass while the members `todo` are still to come. -/
structure Assigning (a : Accounts ID) (prev : SeatedAccounts ID) (todo : List ID)
    (s : SeatedAccounts ID × SeatIndex) : Prop where
  accounts : s.1.accounts = a
  notReused : s.1.reused = false
  /-- Only members get seats. -/
  outside : ∀ id, a.has id = false → s.1.getSeat id = none
  /-- Re-elected members have their old seats. -/
  kept : ∀ id, a.has id = true → prev.getSeat id ≠ none → s.1.getSeat id = prev.getSeat id
  /-- New members that are still to come have none. -/
  pending : ∀ id ∈ todo, prev.getSeat id = none → s.1.getSeat id = none
  /-- The other new members have a seat below the counter that nobody keeps. -/
  seated : ∀ id, a.has id = true → prev.getSeat id = none → id ∉ todo →
    ∃ seat, s.1.getSeat id = some seat ∧ seat.toNat < s.2.toNat ∧ seat ∉ takenSeats a prev
  distinct : ∀ {id id' : ID} {seat : SeatIndex}, prev.getSeat id = none →
    prev.getSeat id' = none → s.1.getSeat id = some seat → s.1.getSeat id' = some seat → id = id'
  /-- The counter does not wrap around. -/
  bound : s.2.toNat + todo.countP (fun id => (prev.getSeat id).isNone) +
    seatsAhead (takenSeats a prev) s.2 ≤ 255

variable {a : Accounts ID}

theorem assigning_start (prev : SeatedAccounts ID) (hsize : a.ids.length ≤ 255) :
    Assigning a prev (a.ids.insertionSort (· ≤ ·))
      (a.ids.foldl (keepSeat prev) (new a), 0) := by
  have hinit : ∀ id ∈ a.ids, (new a).accounts.has id = true ∧
      (new a).getSeat id = none := fun id hid => ⟨(a.mem_ids id).mp hid, rfl⟩
  obtain ⟨haccounts, hreused, hseats⟩ :=
    foldl_keepSeat prev a.ids a.accountPools.keys_nodup hinit
  have hperm : (a.ids.insertionSort (· ≤ ·)).Perm a.ids := perm_insertionSort (· ≤ ·) a.ids
  have hnone : ∀ id, prev.getSeat id = none →
      (a.ids.foldl (keepSeat prev) (new a)).getSeat id = none := by
    intro id hid
    rw [hseats id, hid]
    split <;> rfl
  constructor
  case accounts => exact haccounts
  case notReused => exact hreused
  case outside =>
    intro id hid
    rw [hseats id, if_neg]
    · rfl
    · rw [a.mem_ids, hid]
      exact Bool.false_ne_true
  case kept =>
    intro id hid _
    rw [hseats id, if_pos ((a.mem_ids id).mpr hid)]
  case pending => exact fun id _ hid => hnone id hid
  case seated =>
    intro id hid _ htodo
    exact absurd (hperm.mem_iff.mpr ((a.mem_ids id).mpr hid)) htodo
  case distinct =>
    intro id id' seat hid _ hseat _
    rw [hnone id hid] at hseat
    cases hseat
  case bound =>
    -- every member either keeps a seat or needs one
    have hahead : seatsAhead (takenSeats a prev) 0 ≤ (takenSeats a prev).length :=
      countP_le_length
    have htaken : (takenSeats a prev).length =
        a.ids.countP (fun id => (prev.getSeat id).isSome) := length_filterMap_eq_countP
    have hcount : a.ids.length = a.ids.countP (fun id => (prev.getSeat id).isSome) +
        a.ids.countP (fun id => (prev.getSeat id).isNone) := by
      rw [length_eq_countP_add_countP (fun id => (prev.getSeat id).isSome)]
      congr 1
      apply countP_congr
      intro id _
      cases prev.getSeat id <;> simp
    rw [hperm.countP_eq]
    simp only [UInt8.toNat_zero]
    omega

variable {prev : SeatedAccounts ID} {todo : List ID}

theorem Assigning.has_of_getSeat {s : SeatedAccounts ID × SeatIndex} (h : Assigning a prev todo s)
    (hseat : s.1.getSeat id = some seat) : a.has id = true := by
  by_contra hid
  rw [h.outside id (Bool.eq_false_of_not_eq_true hid)] at hseat
  cases hseat

theorem Assigning.step {s : SeatedAccounts ID × SeatIndex} (h : Assigning a prev (id :: todo) s)
    (hnotin : id ∉ todo) (hid : a.has id = true) :
    ∃ s', assignSeat prev (takenSeats a prev) s id = some s' ∧ Assigning a prev todo s' := by
  obtain ⟨seat, hskip, hle, hnot, hbound⟩ := skipTaken_spec 256 s.2 (by omega) h.bound
  unfold assignSeat
  rw [hskip]
  cases hprev : prev.getSeat id with
  | some old =>
    -- a re-elected member only moves the counter over taken seats
    refine ⟨(s.1, seat), by simp, ?_⟩
    exact {
      accounts := h.accounts
      notReused := h.notReused
      outside := h.outside
      kept := h.kept
      pending := fun j hj => h.pending j (mem_cons_of_mem id hj)
      seated := by
        intro j hj hjprev hjtodo
        have hne : j ≠ id := by
          intro hji
          rw [hji, hprev] at hjprev
          cases hjprev
        have hjnot : j ∉ id :: todo := by simp [hne, hjtodo]
        obtain ⟨seat', hseat', hlt, hfree⟩ := h.seated j hj hjprev hjnot
        exact ⟨seat', hseat', Nat.lt_of_lt_of_le hlt hle, hfree⟩
      distinct := h.distinct
      bound := by
        rw [countP_cons] at hbound
        simp [hprev] at hbound
        exact hbound }
  | none =>
    rw [countP_cons] at hbound
    simp only [hprev, isNone_none, if_true] at hbound
    have hsucc : (seat + 1).toNat = seat.toNat + 1 := SeatIndex.toNat_succ (by omega)
    have hahead := seatsAhead_anti (takenSeats a prev) seat (seat + 1) (by omega)
    have hnone := h.pending id mem_cons_self hprev
    have hset : ∀ j, (s.1.set seat id).getSeat j = if j = id then some seat else s.1.getSeat j :=
      getSeat_set (h.accounts ▸ hid) hnone seat
    -- the seats given to new members so far are below the counter, so this one is new
    have hfresh : ∀ j, prev.getSeat j = none → s.1.getSeat j ≠ some seat := by
      intro j hjprev hjseat
      by_cases hjtodo : j ∈ id :: todo
      · rw [h.pending j hjtodo hjprev] at hjseat
        cases hjseat
      · obtain ⟨seat', hseat', hlt, _⟩ := h.seated j (h.has_of_getSeat hjseat) hjprev hjtodo
        rw [hseat', some.injEq] at hjseat
        subst hjseat
        omega
    refine ⟨(s.1.set seat id, seat + 1), by simp, ?_⟩
    exact {
      accounts := (set_frame s.1 seat id).1.trans h.accounts
      notReused := (set_frame s.1 seat id).2.trans h.notReused
      outside := by
        intro j hj
        have hne : j ≠ id := by
          intro hji
          rw [hji, hid] at hj
          cases hj
        rw [hset j, if_neg hne]
        exact h.outside j hj
      kept := by
        intro j hj hjprev
        have hne : j ≠ id := fun hji => hjprev (hji ▸ hprev)
        rw [hset j, if_neg hne]
        exact h.kept j hj hjprev
      pending := by
        intro j hj hjprev
        have hne : j ≠ id := fun hji => hnotin (hji ▸ hj)
        rw [hset j, if_neg hne]
        exact h.pending j (mem_cons_of_mem id hj) hjprev
      seated := by
        intro j hj hjprev hjtodo
        show ∃ seat', (s.1.set seat id).getSeat j = some seat' ∧
          seat'.toNat < (seat + 1).toNat ∧ seat' ∉ takenSeats a prev
        rw [hset j]
        split_ifs with hji
        · exact ⟨seat, rfl, by omega, hnot⟩
        · obtain ⟨seat', hseat', hlt, hfree⟩ := h.seated j hj hjprev (by simp [hji, hjtodo])
          exact ⟨seat', hseat', by omega, hfree⟩
      distinct := by
        intro j j' seat' hjprev hjprev' hj hj'
        rw [hset] at hj hj'
        by_cases hji : j = id
        · by_cases hji' : j' = id
          · rw [hji, hji']
          · rw [if_pos hji, some.injEq] at hj
            rw [if_neg hji', ← hj] at hj'
            exact absurd hj' (hfresh j' hjprev')
        · by_cases hji' : j' = id
          · rw [if_pos hji', some.injEq] at hj'
            rw [if_neg hji, ← hj'] at hj
            exact absurd hj (hfresh j hjprev)
          · rw [if_neg hji] at hj
            rw [if_neg hji'] at hj'
            exact h.distinct hjprev hjprev' hj hj'
      bound := by
        show (seat + 1).toNat + todo.countP (fun j => (prev.getSeat j).isNone) +
          seatsAhead (takenSeats a prev) (seat + 1) ≤ 255
        omega }

theorem Assigning.run {s : SeatedAccounts ID × SeatIndex} (h : Assigning a prev todo s)
    (hnodup : todo.Nodup) (hhas : ∀ id ∈ todo, a.has id = true) :
    ∃ s', Lib.run (assignSeat prev (takenSeats a prev)) s todo = some s' ∧
      Assigning a prev [] s' := by
  refine exists_of_result (run_loop_total (I := fun todo s => Assigning a prev todo s ∧
    todo.Nodup ∧ ∀ id ∈ todo, a.has id = true) ?_ ⟨h, hnodup, hhas⟩) fun _ _ h => h.1
  rintro id todo s ⟨h, hnodup, hhas⟩
  obtain ⟨hnotin, hnodup⟩ := nodup_cons.mp hnodup
  obtain ⟨t, ht, hassigning⟩ := h.step hnotin (hhas id mem_cons_self)
  exact ⟨t, ht, hassigning, hnodup, fun j hj => hhas j (mem_cons_of_mem id hj)⟩

/-! ## Section 5: Committees are seated -/

/-- `Accounts.SeatedAccounts` returns a seated committee in which the members of the
    previous committee have their old seats. -/
theorem Accounts.seatedAccounts_spec (hsize : a.ids.length ≤ 255) (hprev : Seated prev) :
    ∃ c, a.seatedAccounts prev = some c ∧ c.accounts = a ∧ c.reused = false ∧ Seated c ∧
      ∀ id, a.has id = true → prev.getSeat id ≠ none → c.getSeat id = prev.getSeat id := by
  have hperm : (a.ids.insertionSort (· ≤ ·)).Perm a.ids := perm_insertionSort (· ≤ ·) a.ids
  obtain ⟨s, hrun, h⟩ := (assigning_start prev hsize).run
    (hperm.nodup_iff.mpr a.accountPools.keys_nodup)
    (fun id hid => (a.mem_ids id).mp (hperm.mem_iff.mp hid))
  have hresult : a.seatedAccounts prev = some s.1 := by
    unfold Accounts.seatedAccounts
    simp only [hrun, map_some]
  -- where the seat of a member comes from
  have hsource : ∀ id, a.has id = true →
      (prev.getSeat id ≠ none ∧ s.1.getSeat id = prev.getSeat id) ∨
      (prev.getSeat id = none ∧ ∃ seat, s.1.getSeat id = some seat ∧ seat ∉ takenSeats a prev) := by
    intro id hid
    by_cases hold : prev.getSeat id = none
    · obtain ⟨seat, hseat, _, hfree⟩ := h.seated id hid hold not_mem_nil
      exact .inr ⟨hold, seat, hseat, hfree⟩
    · exact .inl ⟨hold, h.kept id hid hold⟩
  have htaken : ∀ {id : ID} {seat : SeatIndex}, a.has id = true → prev.getSeat id = some seat →
      seat ∈ takenSeats a prev :=
    fun hid hseat => mem_filterMap.mpr ⟨_, (a.mem_ids _).mpr hid, hseat⟩
  refine ⟨s.1, hresult, h.accounts, h.notReused, ⟨?_, ?_⟩, h.kept⟩
  · intro id
    rw [h.accounts]
    cases hid : a.has id with
    | false => rw [h.outside id hid]; rfl
    | true =>
      rcases hsource id hid with ⟨hold, hseat⟩ | ⟨_, seat, hseat, _⟩
      · rw [hseat, isSome_iff_ne_none]
        exact hold
      · rw [hseat]
        rfl
  · intro id id' seat hid hid'
    rcases hsource id (h.has_of_getSeat hid) with ⟨hold, hkept⟩ | ⟨hnew, seat₁, hseat₁, hfree⟩
    · have hown : prev.getSeat id = some seat := hkept ▸ hid
      rcases hsource id' (h.has_of_getSeat hid') with ⟨_, hkept'⟩ | ⟨_, seat₂, hseat₂, hfree'⟩
      · exact hprev.distinct hown (hkept' ▸ hid')
      · rw [hseat₂, some.injEq] at hid'
        exact absurd (htaken (h.has_of_getSeat hid) hown) (hid' ▸ hfree')
    · rcases hsource id' (h.has_of_getSeat hid') with ⟨_, hkept'⟩ | ⟨hnew', _⟩
      · have hown : prev.getSeat id' = some seat := hkept' ▸ hid'
        rw [hseat₁, some.injEq] at hid
        exact absurd (htaken (h.has_of_getSeat hid') hown) (hid ▸ hfree)
      · exact h.distinct hnew hnew' hid hid'

end AxonCore.Committee
