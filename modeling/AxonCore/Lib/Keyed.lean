import Mathlib.Data.List.AList
import AxonCore.Lib.Run

/-! # Loops over the keys of a map

    A loop over a map visits every key once, in an order the program does not
    choose.  Where the body for a key reads and writes the data of that key only,
    the order does not matter, and what the loop does is known key by key.

    * `Map`: finite maps, with `alter` that sets or deletes an entry.
    * `SameEntries`: equality of maps up to the order of their entries.
    * `lookup_foldl_insert`, `get_foldl_put`: entries that are stored one by one.
    * `alterKeys`: the loop that replaces the entry of every key it visits.
    * `run_keyed`: what the body does to the data of its own key, the loop does to
      the data of every key it visits; the data of other keys is unchanged.
    * `foldl_keyed`, `run_keyed_isSome`: a body that cannot fail, and one that does not.
    * `run_keys_congr`: two loops over the same keys in different orders do the same.
    * `collection`, `run_collection`: a keyed store that is written out as a list and read back.
-/

namespace AxonCore.Lib

open List AList

/-! ## Section 1: Finite maps -/

/-- A finite map. -/
abbrev Map (κ ν : Type) := AList (fun _ : κ => ν)

section Map

variable {κ ν : Type} [DecidableEq κ]

/-- Sets the entry of a key, or deletes it. -/
def alter (m : Map κ ν) (k : κ) : Option ν → Map κ ν
  | some v => m.insert k v
  | none => m.erase k

section

variable (m : Map κ ν)

@[simp] theorem lookup_alter_self (k : κ) (v : Option ν) : (alter m k v).lookup k = v := by
  cases v with
  | none => exact lookup_erase k m
  | some v => exact lookup_insert m

theorem lookup_alter_ne {j k : κ} (v : Option ν) (h : j ≠ k) :
    (alter m k v).lookup j = m.lookup j := by
  cases v with
  | none => exact lookup_erase_ne h
  | some v => exact lookup_insert_ne h

theorem lookup_insert_eq (j k : κ) (v : ν) :
    (m.insert k v).lookup j = if j = k then some v else m.lookup j := by
  by_cases h : j = k
  · subst h
    rw [if_pos rfl, lookup_insert]
  · rw [if_neg h, lookup_insert_ne h]

theorem lookup_erase_eq (j k : κ) : (m.erase k).lookup j = if j = k then none else m.lookup j := by
  by_cases h : j = k
  · subst h
    rw [if_pos rfl, lookup_erase]
  · rw [if_neg h, lookup_erase_ne h]

theorem isSome_insert (j k : κ) (v : ν) :
    ((m.insert k v).lookup j).isSome = if j = k then true else (m.lookup j).isSome := by
  rw [lookup_insert_eq]
  split <;> rfl

theorem isSome_erase (j k : κ) :
    ((m.erase k).lookup j).isSome = if j = k then false else (m.lookup j).isSome := by
  rw [lookup_erase_eq]
  split <;> rfl

variable {m} in
theorem lookup_of_erase {j k : κ} {v : ν} (h : (m.erase k).lookup j = some v) :
    j ≠ k ∧ m.lookup j = some v := by
  rw [lookup_erase_eq] at h
  split_ifs at h with hne
  exact ⟨hne, h⟩

variable {m} in
theorem isSome_insert_of {j k : κ} {v : ν} (h : j ≠ k → (m.lookup j).isSome) :
    ((m.insert k v).lookup j).isSome := by
  rw [isSome_insert]
  split
  next => rfl
  next hne => exact h hne

variable {m} in
theorem isSome_of_erase {j k : κ} (h : ((m.erase k).lookup j).isSome) :
    j ≠ k ∧ (m.lookup j).isSome := by
  rw [isSome_erase] at h
  split_ifs at h with hne
  exact ⟨hne, h⟩

theorem mem_keys_iff (k : κ) : k ∈ m.keys ↔ (m.lookup k).isSome := by
  rw [← AList.mem_keys, AList.lookup_isSome]

end

/-- Two maps have the same entries, maybe in another order. -/
def SameEntries (m m' : Map κ ν) : Prop := ∀ k, m.lookup k = m'.lookup k

theorem SameEntries.perm {m m' : Map κ ν} (h : SameEntries m m') : m.entries.Perm m'.entries := by
  apply lookup_ext m.nodupKeys m'.nodupKeys
  intro k v
  show v ∈ m.lookup k ↔ v ∈ m'.lookup k
  rw [h k]

theorem SameEntries.insert {m m' : Map κ ν} (h : SameEntries m m') (k : κ) (v : ν) :
    SameEntries (m.insert k v) (m'.insert k v) := by
  intro j
  rw [lookup_insert_eq, lookup_insert_eq, h j]

instance [DecidableEq ν] (m m' : Map κ ν) : Decidable (SameEntries m m') :=
  decidable_of_iff (m.entries.Perm m'.entries)
    ⟨fun h _ => AList.perm_lookup h, SameEntries.perm⟩

theorem length_keys_congr {μ : Type} {m : Map κ ν} {n : Map κ μ}
    (h : ∀ k, (m.lookup k).isSome = (n.lookup k).isSome) : m.keys.length = n.keys.length := by
  apply List.Perm.length_eq
  rw [perm_ext_iff_of_nodup m.keys_nodup n.keys_nodup]
  intro k
  rw [mem_keys_iff, mem_keys_iff, h]

/-- A loop over entries with distinct keys, each of which changes the data of its key. -/
theorem view_foldl_entries {σ β μ : Type} (view : σ → κ → β)
    {put : σ → (Sigma fun _ : κ => μ) → σ} (own : κ → μ → β → β)
    (hput : ∀ s e k, view (put s e) k = if k = e.1 then own k e.2 (view s k) else view s k)
    {l : List (Sigma fun _ : κ => μ)} (hkeys : l.NodupKeys) (s : σ) (k : κ) :
    view (l.foldl put s) k = (l.dlookup k).elim (view s k) (own k · (view s k)) := by
  induction l generalizing s with
  | nil => rfl
  | cons e l ih =>
    obtain ⟨j, v⟩ := e
    rw [nodupKeys_cons] at hkeys
    rw [foldl_cons, ih hkeys.2, hput]
    by_cases hk : k = j
    · subst hk
      rw [dlookup_eq_none.mpr hkeys.1, dlookup_cons_eq, if_pos rfl]
      rfl
    · rw [dlookup_cons_ne _ _ hk, if_neg hk]

/-- Entries with distinct keys that are stored one by one, each combined with what the
    map had for its key. -/
theorem lookup_foldl_insert {μ : Type} (g : Option ν → μ → ν) {l : List (Sigma fun _ : κ => μ)}
    (hkeys : l.NodupKeys) (m : Map κ ν) (k : κ) :
    (l.foldl (fun m e => m.insert e.1 (g (m.lookup e.1) e.2)) m).lookup k =
      ((l.dlookup k).map (g (m.lookup k))).or (m.lookup k) := by
  refine (view_foldl_entries (fun (m : Map κ ν) k => m.lookup k) (fun _ v o => some (g o v)) ?_
    hkeys m k).trans ?_
  · intro m e k
    rw [lookup_insert_eq]
    split
    next hk => rw [hk]
    next => rfl
  · cases l.dlookup k <;> rfl

/-- Any store that the entries of a map are put into: `get` is what it has for a key. -/
theorem get_foldl_put {σ : Type} (get : σ → κ → Option ν) (put : σ → (Sigma fun _ : κ => ν) → σ)
    (hput : ∀ s e k, get (put s e) k = if k = e.1 then some e.2 else get s k) (m : Map κ ν)
    (s : σ) (k : κ) : get (m.entries.foldl put s) k = (m.lookup k).or (get s k) := by
  rw [view_foldl_entries get (fun _ v _ => some v) hput m.nodupKeys]
  show (m.lookup k).elim _ _ = _
  cases m.lookup k <;> rfl

theorem lookup_foldl_erase (drop : κ → ν → Bool) (m : Map κ ν) (k : κ) :
    (m.entries.foldl (fun m e => if drop e.1 e.2 then m.erase e.1 else m) m).lookup k =
      (m.lookup k).filter fun v => !drop k v := by
  refine (view_foldl_entries (fun (m : Map κ ν) k => m.lookup k)
    (fun k v o => if drop k v then none else o) ?_ m.nodupKeys m k).trans ?_
  · intro m e k
    by_cases hdrop : drop e.1 e.2 = true <;> by_cases hk : k = e.1 <;>
      simp [hdrop, hk, lookup_erase_eq]
  · show (m.lookup k).elim _ _ = _
    cases m.lookup k with
    | none => rfl
    | some v => by_cases hdrop : drop k v = true <;> simp [hdrop, Option.filter_some]

omit [DecidableEq κ] in
theorem eq_of_nodup_filterMap {ι : Type} {key : ι → Option κ} {l : List ι}
    (hnodup : (l.filterMap key).Nodup) {x y : ι} {k : κ} (hx : x ∈ l) (hy : y ∈ l)
    (hkx : key x = some k) (hky : key y = some k) : x = y := by
  induction l with
  | nil => cases hx
  | cons z l ih =>
    -- an element with the key of the head is in no later place
    have hhead : ∀ w ∈ l, key z = some k → key w ≠ some k := by
      intro w hw hkz hkw
      rw [filterMap_cons_some hkz, nodup_cons] at hnodup
      exact hnodup.1 (mem_filterMap.mpr ⟨w, hw, hkw⟩)
    have htail : (l.filterMap key).Nodup := by
      cases hz : key z with
      | none => rwa [filterMap_cons_none hz] at hnodup
      | some j =>
        rw [filterMap_cons_some hz, nodup_cons] at hnodup
        exact hnodup.2
    rcases mem_cons.mp hx with hxz | hxl
    · rcases mem_cons.mp hy with hyz | hyl
      · rw [hxz, hyz]
      · exact absurd hky (hhead y hyl (hxz ▸ hkx))
    · rcases mem_cons.mp hy with hyz | hyl
      · exact absurd hkx (hhead x hxl (hyz ▸ hky))
      · exact ih htail hxl hyl

end Map

/-! ## Section 2: Loops whose body touches one key -/

section Loop

variable {σ ι κ β : Type} {body : σ → ι → Option σ} {key : ι → κ} (view : σ → κ → β) {ks : List κ}
  {s : σ} {F : κ → β → Option β}

/-- What the body does to the data of its key, the loop does for every key. -/
theorem run_keyed {R : ι → β → β → Prop}
    (hown : ∀ s i s', body s i = some s' → R i (view s (key i)) (view s' (key i)))
    (hframe : ∀ s i s', body s i = some s' → ∀ k, k ≠ key i → view s' k = view s k) :
    ∀ {is : List ι} {s s' : σ}, (is.map key).Nodup → run body s is = some s' →
      (∀ i ∈ is, R i (view s (key i)) (view s' (key i))) ∧
        ∀ k, k ∉ is.map key → view s' k = view s k := by
  intro is
  induction is with
  | nil =>
    intro s s' _ hrun
    rw [run_nil, Option.some.injEq] at hrun
    subst hrun
    exact ⟨fun _ hi => absurd hi not_mem_nil, fun _ _ => rfl⟩
  | cons i is ih =>
    intro s s' hnodup hrun
    rw [map_cons, nodup_cons] at hnodup
    obtain ⟨t, ht, hrun'⟩ := run_cons.mp hrun
    obtain ⟨hrest, hother⟩ := ih hnodup.2 hrun'
    constructor
    · intro j hj
      rcases mem_cons.mp hj with rfl | hj
      · -- the key of the first round is not visited again
        rw [hother (key j) hnodup.1]
        exact hown s j t ht
      · have hne : key j ≠ key i := fun h => hnodup.1 (h ▸ mem_map_of_mem hj)
        rw [← hframe s i t ht (key j) hne]
        exact hrest j hj
    · intro k hk
      rw [map_cons, mem_cons, not_or] at hk
      rw [hother k hk.2, hframe s i t ht k hk.1]

theorem run_keys {body : σ → κ → Option σ} {R : κ → β → β → Prop}
    (hown : ∀ s k s', body s k = some s' → R k (view s k) (view s' k))
    (hframe : ∀ s k s', body s k = some s' → ∀ j, j ≠ k → view s' j = view s j) {s' : σ}
    (hnodup : ks.Nodup) (hrun : run body s ks = some s') :
    (∀ k ∈ ks, R k (view s k) (view s' k)) ∧ ∀ k, k ∉ ks → view s' k = view s k := by
  have hkeyed := run_keyed view (R := R) hown hframe (by rwa [map_id']) hrun
  rwa [map_id'] at hkeyed

theorem run_keyed_isSome {P : ι → β → Prop}
    (hsome : ∀ s i, P i (view s (key i)) → (body s i).isSome)
    (hframe : ∀ s i s', body s i = some s' → ∀ k, k ≠ key i → view s' k = view s k) :
    ∀ {is : List ι} {s : σ}, (is.map key).Nodup → (∀ i ∈ is, P i (view s (key i))) →
      (run body s is).isSome := by
  intro is
  induction is with
  | nil => exact fun _ _ => rfl
  | cons i is ih =>
    intro s hnodup hP
    rw [map_cons, nodup_cons] at hnodup
    obtain ⟨t, ht⟩ := Option.isSome_iff_exists.mp (hsome s i (hP i mem_cons_self))
    show ((body s i).bind (fun s' => run body s' is)).isSome
    rw [ht]
    apply ih hnodup.2
    intro j hj
    have hne : key j ≠ key i := fun h => hnodup.1 (h ▸ mem_map_of_mem hj)
    rw [hframe s i t ht (key j) hne]
    exact hP j (mem_cons_of_mem i hj)

/-- `run_keyed` for a loop whose body cannot fail: the data of a key it visits is changed
    by the body for that key, other data is not. -/
theorem foldl_keyed (key : ι → κ) (body : σ → ι → σ) (own : ι → β → β)
    (hown : ∀ s i, view (body s i) (key i) = own i (view s (key i)))
    (hframe : ∀ s i k, k ≠ key i → view (body s i) k = view s k)
    (is : List ι) (hnodup : (is.map key).Nodup) (s : σ) :
    (∀ i ∈ is, view (is.foldl body s) (key i) = own i (view s (key i))) ∧
      ∀ k, k ∉ is.map key → view (is.foldl body s) k = view s k := by
  have hrun : ∀ (is : List ι) (s : σ),
      run (fun s i => some (body s i)) s is = some (is.foldl body s) := by
    intro is
    induction is with
    | nil => exact fun _ => rfl
    | cons i is ih => exact fun s => ih (body s i)
  apply run_keyed view (R := fun i v v' => v' = own i v) _ _ hnodup (hrun is s)
  · intro s i s' hs'
    obtain rfl := Option.some.inj hs'
    exact hown s i
  · intro s i s' hs' k hk
    obtain rfl := Option.some.inj hs'
    exact hframe s i k hk

/-- A loop some of whose rounds do the same to what is observed, and nothing more when they do it
    again. -/
theorem foldl_observed {β : Type} (view : σ → β) (body : σ → ι → σ) (F : β → β)
    (hF : ∀ b, F (F b) = F b) (P : ι → Prop) [DecidablePred P]
    (hbody : ∀ s i, view (body s i) = if P i then F (view s) else view s) (is : List ι) (s : σ) :
    view (is.foldl body s) = if ∃ i ∈ is, P i then F (view s) else view s := by
  induction is generalizing s with
  | nil => simp
  | cons i is ih =>
    rw [foldl_cons, ih, hbody]
    by_cases hi : P i <;> simp [hi, hF]

/-- A loop whose rounds do the same to the data of their own key, and nothing more when
    they do it again. -/
theorem foldl_idempotent [DecidableEq κ] (key : ι → κ) (body : σ → ι → σ) (F : κ → β → β)
    (hF : ∀ k b, F k (F k b) = F k b)
    (hbody : ∀ s i k, view (body s i) k = if k = key i then F k (view s k) else view s k)
    (is : List ι) (s : σ) (k : κ) :
    view (is.foldl body s) k = if k ∈ is.map key then F k (view s k) else view s k := by
  rw [foldl_observed (view · k) body (F k) (hF k) (k = key ·) fun s i => hbody s i k]
  simp [eq_comm]

/-- A loop over keys whose body is a function `F` of the data of its key: it returns if
    `F` does for every key, and `F` says what the data is afterwards. -/
theorem run_keys_own {body : σ → κ → Option σ}
    (hown : ∀ s k, (body s k).map (fun s' => view s' k) = F k (view s k))
    (hframe : ∀ s k s', body s k = some s' → ∀ j, j ≠ k → view s' j = view s j)
    (hnodup : ks.Nodup) (s : σ) :
    ((∀ k ∈ ks, (F k (view s k)).isSome) → (run body s ks).isSome) ∧
      ∀ s', run body s ks = some s' → (∀ k ∈ ks, F k (view s k) = some (view s' k)) ∧
        ∀ k, k ∉ ks → view s' k = view s k := by
  constructor
  · intro hall
    apply run_keyed_isSome view (P := fun k v => (F k v).isSome) _ hframe
      (by rwa [map_id']) hall
    intro s k hk
    rwa [← hown, Option.isSome_map] at hk
  · intro s' hrun
    apply run_keys view (R := fun k v v' => F k v = some v') _ hframe hnodup hrun
    intro s k s' hs'
    rw [← hown, hs', Option.map_some]

/-- Two loops over the same keys, in any two orders, whose bodies do the same to the data
    of their keys. -/
theorem run_keys_congr {τ : Type} (view' : τ → κ → β) {body : σ → κ → Option σ}
    {body' : τ → κ → Option τ}
    (hown : ∀ s k, (body s k).map (fun s' => view s' k) = F k (view s k))
    (hframe : ∀ s k s', body s k = some s' → ∀ j, j ≠ k → view s' j = view s j)
    (hown' : ∀ t k, (body' t k).map (fun t' => view' t' k) = F k (view' t k))
    (hframe' : ∀ t k t', body' t k = some t' → ∀ j, j ≠ k → view' t' j = view' t j) {ks' : List κ}
    (hnodup : ks.Nodup) (hnodup' : ks'.Nodup) (hmem : ∀ k, k ∈ ks ↔ k ∈ ks') {t : τ}
    (hview : ∀ k, view s k = view' t k) :
    Option.Rel (fun s' t' => ∀ k, view s' k = view' t' k) (run body s ks) (run body' t ks') := by
  obtain ⟨hsome, hspec⟩ := run_keys_own view hown hframe hnodup s
  obtain ⟨hsome', hspec'⟩ := run_keys_own view' hown' hframe' hnodup' t
  cases hs : run body s ks with
  | some s' =>
    obtain ⟨hin, hout⟩ := hspec s' hs
    -- the second loop finds the same data for each of its keys, so it returns, too
    have hall : ∀ k ∈ ks', (F k (view' t k)).isSome := by
      intro k hk
      rw [← hview, hin k ((hmem k).mpr hk)]
      rfl
    obtain ⟨t', ht⟩ := Option.isSome_iff_exists.mp (hsome' hall)
    obtain ⟨hin', hout'⟩ := hspec' t' ht
    rw [ht]
    refine .some fun k => ?_
    by_cases hk : k ∈ ks
    · have hsame := hin k hk
      rw [hview, hin' k ((hmem k).mp hk)] at hsame
      exact (Option.some.inj hsame).symm
    · rw [hout k hk, hout' k (fun hk' => hk ((hmem k).mpr hk')), hview]
  | none =>
    cases ht : run body' t ks' with
    | none => exact .none
    | some t' =>
      have hall : ∀ k ∈ ks, (F k (view s k)).isSome := by
        intro k hk
        rw [hview, (hspec' t' ht).1 k ((hmem k).mp hk)]
        rfl
      rw [hs] at hsome
      exact absurd (hsome hall) Bool.false_ne_true

theorem lookup_foldl_erase_keys {ν : Type} [DecidableEq κ] (key : ι → κ) (is : List ι)
    (m : Map κ ν) (k : κ) :
    (is.foldl (fun m i => m.erase (key i)) m).lookup k =
      if k ∈ is.map key then none else m.lookup k := by
  apply foldl_idempotent (fun (m : Map κ ν) k => m.lookup k) key _ (fun _ _ => none)
    (fun _ _ => rfl)
  intro m i k
  split_ifs with hk
  · rw [hk, lookup_erase]
  · rw [lookup_erase_ne hk]

end Loop

/-! ## Section 3: Collections that are written out and read back -/

section Collection

variable {σ κ ν β : Type}

/-- The entries of a keyed store as a collection, in the order of `keys`. -/
def collection (keys : List κ) (get : κ → Option ν) : List (κ × ν) :=
  keys.filterMap fun k => (get k).map fun v => (k, v)

variable (view : σ → κ → β)

/-- A loop that reads a collection back: reading a value into a key that is as it was before
    the loop succeeds, gives data in `R`, and touches no other key. -/
theorem run_collection (body : σ → κ × ν → Option σ) (s₀ : σ) (written : κ → Option ν)
    {R : κ → β → Prop}
    (hread : ∀ k v s, written k = some v → view s k = view s₀ k →
      ∃ s', body s (k, v) = some s' ∧ R k (view s' k) ∧ ∀ j, j ≠ k → view s' j = view s j)
    {keys : List κ} (hkeys : keys.Nodup) :
    ∃ s', run body s₀ (collection keys written) = some s' ∧
      (∀ k ∈ keys, (written k).isSome → R k (view s' k)) ∧
      ∀ k, k ∉ keys ∨ written k = none → view s' k = view s₀ k := by
  suffices hfrom : ∀ s, (∀ k ∈ keys, view s k = view s₀ k) →
      ∃ s', run body s (collection keys written) = some s' ∧
        (∀ k ∈ keys, (written k).isSome → R k (view s' k)) ∧
        ∀ k, k ∉ keys ∨ written k = none → view s' k = view s k from hfrom s₀ fun _ _ => rfl
  induction keys with
  | nil => exact fun s _ => ⟨s, rfl, fun k hk => absurd hk not_mem_nil, fun _ _ => rfl⟩
  | cons i keys ih =>
    intro s hs
    obtain ⟨hi, hkeys⟩ := nodup_cons.mp hkeys
    cases hv : written i with
    | none =>
      obtain ⟨s', hrun, hin, hout⟩ := ih hkeys s fun k hk => hs k (mem_cons_of_mem i hk)
      rw [collection, filterMap_cons_none (by rw [hv]; rfl)]
      refine ⟨s', hrun, fun k hk hsome => ?_, fun k hk => hout k ?_⟩
      · rcases mem_cons.mp hk with rfl | hk
        · rw [hv] at hsome
          cases hsome
        · exact hin k hk hsome
      · exact hk.imp_left fun hk hmem => hk (mem_cons_of_mem i hmem)
    | some v =>
      obtain ⟨t, ht, hR, hframe⟩ := hread i v s hv (hs i mem_cons_self)
      have hne : ∀ k ∈ keys, k ≠ i := fun k hk heq => hi (heq ▸ hk)
      obtain ⟨s', hrun, hin, hout⟩ := ih hkeys t fun k hk =>
        (hframe k (hne k hk)).trans (hs k (mem_cons_of_mem i hk))
      rw [collection, filterMap_cons_some (by rw [hv]; rfl)]
      refine ⟨s', run_cons.mpr ⟨t, ht, hrun⟩, fun k hk hsome => ?_, fun k hk => ?_⟩
      · rcases mem_cons.mp hk with rfl | hk
        · rwa [hout k (.inl hi)]
        · exact hin k hk hsome
      · have hki : k ≠ i := by
          rintro rfl
          rcases hk with hk | hk
          · exact hk mem_cons_self
          · rw [hv] at hk
            cases hk
        rw [hout k (hk.imp_left fun hk hmem => hk (mem_cons_of_mem i hmem)), hframe k hki]

end Collection

/-! ## Section 4: Replacing the entries of a map -/

section AlterKeys

variable {κ ν : Type} [DecidableEq κ] {f : κ → Option ν → Option (Option ν)} {m' : Map κ ν}

/-- The loop over `keys` that replaces the entry of each key by what `f` makes of it;
    `f` fails, deletes the entry or sets it. -/
def alterKeys (f : κ → Option ν → Option (Option ν)) (m : Map κ ν) (keys : List κ) :
    Option (Map κ ν) :=
  run (fun m k => (f k (m.lookup k)).map (alter m k)) m keys

private theorem alterKeys_frame (m : Map κ ν) (k : κ) (m' : Map κ ν)
    (h : (f k (m.lookup k)).map (alter m k) = some m') (j : κ) (hj : j ≠ k) :
    m'.lookup j = m.lookup j := by
  obtain ⟨v, _, rfl⟩ := Option.map_eq_some_iff.mp h
  exact lookup_alter_ne m v hj

theorem alterKeys_lookup {m : Map κ ν} {keys : List κ} (hnodup : keys.Nodup)
    (h : alterKeys f m keys = some m') :
    (∀ k ∈ keys, f k (m.lookup k) = some (m'.lookup k)) ∧
      ∀ k, k ∉ keys → m'.lookup k = m.lookup k := by
  apply run_keys (fun m k => m.lookup k) (R := fun k v v' => f k v = some v')
    _ alterKeys_frame hnodup h
  intro m k m' hm'
  obtain ⟨v, hv, rfl⟩ := Option.map_eq_some_iff.mp hm'
  rw [hv, lookup_alter_self]

theorem alterKeys_keys_some {μ : Type} {n : Map κ μ} {m : Map κ ν}
    (h : alterKeys f m n.keys = some m') {k : κ} {v : μ} (hk : n.lookup k = some v) :
    f k (m.lookup k) = some (m'.lookup k) :=
  (alterKeys_lookup n.keys_nodup h).1 k ((mem_keys_iff n k).mpr (by rw [hk]; rfl))

theorem alterKeys_keys_none {μ : Type} {n : Map κ μ} {m : Map κ ν}
    (h : alterKeys f m n.keys = some m') {k : κ} (hk : n.lookup k = none) :
    m'.lookup k = m.lookup k := by
  apply (alterKeys_lookup n.keys_nodup h).2 k
  rw [mem_keys_iff, hk]
  exact Bool.false_ne_true

/-- The order of the keys, and the order of the entries, do not matter. -/
theorem alterKeys_congr {g : κ → Option ν → Option (Option ν)} {m n : Map κ ν}
    {keys keys' : List κ} (hf : ∀ k v, f k v = g k v) (hnodup : keys.Nodup)
    (hnodup' : keys'.Nodup) (hmem : ∀ k, k ∈ keys ↔ k ∈ keys')
    (hlookup : ∀ k, m.lookup k = n.lookup k) :
    Option.Rel (fun m' n' => ∀ k, m'.lookup k = n'.lookup k) (alterKeys f m keys)
      (alterKeys g n keys') := by
  have hown : ∀ (f : κ → Option ν → Option (Option ν)) (m : Map κ ν) (k : κ),
      ((f k (m.lookup k)).map (alter m k)).map (fun m' => m'.lookup k) = f k (m.lookup k) := by
    intro f m k
    rw [Option.map_map]
    cases f k (m.lookup k) with
    | none => rfl
    | some v => exact congrArg some (lookup_alter_self m k v)
  apply run_keys_congr (fun (m : Map κ ν) k => m.lookup k) (fun (m : Map κ ν) k => m.lookup k)
    (F := f) (hown f) alterKeys_frame _ alterKeys_frame hnodup hnodup' hmem hlookup
  intro t k
  rw [hf]
  exact hown g t k

theorem alterKeys_isSome {m : Map κ ν} {keys : List κ} (hnodup : keys.Nodup)
    (h : ∀ k ∈ keys, (f k (m.lookup k)).isSome) : (alterKeys f m keys).isSome := by
  apply run_keyed_isSome (fun m k => m.lookup k) (P := fun k v => (f k v).isSome) _ alterKeys_frame
    (by rwa [map_id']) h
  intro m k hk
  rwa [Option.isSome_map]

end AlterKeys

end AxonCore.Lib
