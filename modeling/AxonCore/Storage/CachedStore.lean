import AxonCore.Storage.History

/-! # The cache of an epoch store

    `CachedStore` keeps the values of some epochs in memory.  A queue of fixed size holds the
    epochs in the order in which they were added; the epoch that falls out of the queue leaves
    the cache.  An epoch can be in the queue twice, and stays there when it is removed from the
    cache.  Missing epochs are cached with the zero value.

    Whatever the queue does, a cached value is what the store would load (`Coherent`), so that
    every call returns what it returns without the cache (`cachedStore_transparent`).

    The key-value store does not fail here.  An error of the cache is the error of the store,
    wrapped in a text. -/

namespace AxonCore.Stores

open Function List

variable {V : Type} [Inhabited V]

/-! ## Section 1: The store -/

inductive StoreError where
  /-- `ErrEpochPruned`, with the text "epoch %d is too old". -/
  | epochPruned (epoch : Nat)
  | wrapped (text : String) (err : StoreError)

/-- The error inside of the texts. -/
def StoreError.cause : StoreError → StoreError
  | epochPruned epoch => epochPruned epoch
  | wrapped _ err => err.cause

inductive StoreCall (V : Type) where
  | load (epoch : Nat)
  | store (epoch : Nat) (value : V)
  | deleteEpoch (epoch : Nat)
  | prune (epoch defaultPruningDelay : Nat)
  | rollbackEpochs (epoch : Nat)

/-- What a call returns if there is no error. -/
inductive Returned (V : Type) where
  | nothing
  | value (value : V)
  | pruned (prunedEpochs : List Nat)
  | rolledBack (lastPrunedEpoch : Nat) (rolledbackEpochs : List Nat)

/-- The epochs that a call reports as deleted. -/
def Returned.deletedEpochs {V : Type} : Returned V → List Nat
  | pruned epochs => epochs
  | rolledBack _ epochs => epochs
  | _ => []

/-- `BaseStore`. -/
structure BaseStore (V : Type) extends EpochStore V where
  prunginDelayFunc : Nat → Nat
  lastPrunedEpoch : Option Nat

namespace BaseStore

variable (s : BaseStore V) (epoch : Nat)

def isTooOld : Bool := s.lastPrunedEpoch.any (epoch ≤ ·)

/-- `Load`; an epoch without a value has the zero value. -/
def load : Except StoreError V :=
  if s.isTooOld epoch then .error (.epochPruned epoch) else .ok ((s.entries epoch).getD default)

/-- The epochs that `Prune` deletes.  The epoch to prune contains the default delay already. -/
def epochsToPrune (defaultPruningDelay : Nat) : List Nat :=
  let pruningDelay := s.prunginDelayFunc epoch - defaultPruningDelay
  if epoch < pruningDelay then []
  else upTo (s.lastPrunedEpoch.elim 0 (· + 1)) (epoch - pruningDelay)

/-- A loop of `DeletePrefix`. -/
def deleteEpochs (epochs : List Nat) : BaseStore V :=
  { s with toEpochStore := epochs.foldl EpochStore.deleteEpoch s.toEpochStore }

/-- The methods of `BaseStore`. -/
def call : StoreCall V → Except StoreError (Returned V) × BaseStore V
  | .load epoch => ((s.load epoch).map .value, s)
  | .store epoch value =>
    let written := s.toEpochStore.store epoch value
    if s.isTooOld epoch then
      (.error (.epochPruned epoch), { s with lastAccessedEpoch := written.lastAccessedEpoch })
    else (.ok .nothing, { s with toEpochStore := written })
  | .deleteEpoch epoch => (.ok .nothing, s.deleteEpochs [epoch])
  | .prune epoch defaultPruningDelay =>
    let epochs := s.epochsToPrune epoch defaultPruningDelay
    -- every epoch is marked when it is deleted
    (.ok (.pruned epochs),
      { s.deleteEpochs epochs with lastPrunedEpoch := epochs.getLast?.or s.lastPrunedEpoch })
  | .rollbackEpochs epoch =>
    let epochs := upTo epoch s.lastAccessedEpoch
    (.ok (.rolledBack s.lastAccessedEpoch epochs), s.deleteEpochs epochs)

end BaseStore

/-! ## Section 2: The cache -/

/-- `CachedStore`; the queue has its oldest epoch first. -/
structure CachedStore (V : Type) where
  store : BaseStore V
  cache : Nat → Option V
  addedQueue : List Nat
  maxCacheSize : Nat

namespace CachedStore

/-- `NewCachedStore`. -/
def new (store : BaseStore V) (maxCacheSize : Nat) : CachedStore V :=
  ⟨store, fun _ => none, [], maxCacheSize⟩

variable (c : CachedStore V)

/-- `ForceOffer`: the epoch that leaves a full queue, and the queue. -/
def forceOffer (epoch : Nat) : Option Nat × List Nat :=
  if c.addedQueue.length < c.maxCacheSize then (none, c.addedQueue ++ [epoch])
  else (c.addedQueue.head?, c.addedQueue.tail ++ [epoch])

def addToCache (epoch : Nat) (value : V) : CachedStore V :=
  let (removedEpoch, addedQueue) := c.forceOffer epoch
  let cache := removedEpoch.elim c.cache (update c.cache · none)
  { c with cache := update cache epoch (some value), addedQueue }

/-- A loop of `removeFromCache`. -/
def removeFromCache (epochs : List Nat) : CachedStore V :=
  { c with cache := fun epoch => if epoch ∈ epochs then none else c.cache epoch }

/-- The methods of `CachedStore`. -/
def call (op : StoreCall V) : Except StoreError (Returned V) × CachedStore V :=
  let (result, store) := c.store.call op
  match op with
  | .load epoch =>
    match c.cache epoch, c.store.load epoch with
    | some value, _ => (.ok (.value value), c)
    | none, .error err => (.error (.wrapped s!"failed to load value for epoch {epoch}" err), c)
    | none, .ok value => (.ok (.value value), c.addToCache epoch value)
  | .store epoch value =>
    match result with
    | .error err =>
      (.error (.wrapped s!"failed to store value for epoch {epoch}" err), { c with store })
    | .ok _ => (result, { c with store }.addToCache epoch value)
  | .deleteEpoch epoch => (result, { c with store }.removeFromCache [epoch])
  | .prune _ _ | .rollbackEpochs _ =>
    (result, { c with store }.removeFromCache (result.toOption.elim [] Returned.deletedEpochs))

end CachedStore

/-! ## Section 3: The cache is coherent -/

/-- What is cached is what the store loads. -/
def Coherent (c : CachedStore V) : Prop :=
  ∀ epoch value, c.cache epoch = some value → c.store.load epoch = .ok value

variable {c : CachedStore V} {s : BaseStore V} {epoch : Nat} {value : V}

theorem BaseStore.load_eq_ok :
    s.load epoch = .ok value ↔ s.isTooOld epoch = false ∧
      (s.entries epoch).getD default = value := by
  unfold BaseStore.load
  cases s.isTooOld epoch <;> simp

theorem Coherent.addToCache (h : ∀ e v, e ≠ epoch → c.cache e = some v → c.store.load e = .ok v)
    (hload : c.store.load epoch = .ok value) : Coherent (c.addToCache epoch value) := by
  intro e v hv
  unfold CachedStore.addToCache at hv
  dsimp only at hv
  by_cases he : e = epoch
  · rw [he, update_self] at hv
    rw [he, ← Option.some.inj hv]
    exact hload
  · rw [update_of_ne he] at hv
    apply h e v he
    -- the epoch that leaves the queue is not cached any more
    cases hremoved : (c.forceOffer epoch).1 with
    | none =>
      rw [hremoved] at hv
      exact hv
    | some removed =>
      rw [hremoved, Option.elim_some, update_apply] at hv
      split at hv
      · cases hv
      · exact hv

theorem Coherent.removeFromCache {l : List Nat} (h : Coherent c)
    (hentries : s.entries = (c.store.deleteEpochs l).entries)
    (hyoung : ∀ e, e ∉ l → c.store.isTooOld e = false → s.isTooOld e = false) :
    Coherent ({ c with store := s }.removeFromCache l) := by
  intro e v hv
  obtain ⟨he, hv⟩ := Option.ite_none_left_eq_some.mp hv
  obtain ⟨hnot, hvalue⟩ := BaseStore.load_eq_ok.mp (h e v hv)
  apply BaseStore.load_eq_ok.mpr
  refine ⟨hyoung e he hnot, ?_⟩
  show (s.entries e).getD default = v
  rw [hentries, ← hvalue]
  exact congrArg (Option.getD · default)
    ((EpochStore.entries_foldl_deleteEpoch l _ e).trans (if_neg he))

omit [Inhabited V] in
/-- What is neither too old nor pruned is not too old afterwards: the pruned epochs follow those
    that were pruned before. -/
theorem BaseStore.not_isTooOld_prune {defaultPruningDelay e : Nat}
    (hnot : e ∉ s.epochsToPrune epoch defaultPruningDelay) (hyoung : s.isTooOld e = false) :
    ((s.epochsToPrune epoch defaultPruningDelay).getLast?.or s.lastPrunedEpoch).any (e ≤ ·) =
      false := by
  cases hlast : (s.epochsToPrune epoch defaultPruningDelay).getLast? with
  | none => exact hyoung
  | some last =>
    show decide (e ≤ last) = false
    apply decide_eq_false
    intro hle
    apply hnot
    have hmem := mem_of_getLast? hlast
    have hnext : s.lastPrunedEpoch.elim 0 (· + 1) ≤ e := by
      unfold BaseStore.isTooOld at hyoung
      cases hpruned : s.lastPrunedEpoch with
      | none => exact Nat.zero_le e
      | some pruned =>
        rw [hpruned] at hyoung
        exact Nat.lt_of_not_le (of_decide_eq_false hyoung)
    unfold BaseStore.epochsToPrune at hmem ⊢
    dsimp only at hmem ⊢
    split at hmem
    · cases hmem
    · next hlarge =>
      rw [if_neg hlarge, mem_upTo]
      exact ⟨hnext, Nat.le_trans hle (mem_upTo.mp hmem).2⟩

theorem Coherent.call (h : Coherent c) (op : StoreCall V) :
    (c.call op).1.mapError StoreError.cause = (c.store.call op).1 ∧
      (c.call op).2.store = (c.store.call op).2 ∧ Coherent (c.call op).2 := by
  cases op with
  | load epoch =>
    unfold CachedStore.call BaseStore.call
    dsimp only
    cases hcached : c.cache epoch with
    | some value => exact ⟨by rw [h epoch value hcached]; rfl, rfl, h⟩
    | none =>
      cases hload : c.store.load epoch with
      | error err =>
        unfold BaseStore.load at hload
        split at hload <;> cases hload
        exact ⟨rfl, rfl, h⟩
      | ok value => exact ⟨rfl, rfl, Coherent.addToCache (fun e v _ hv => h e v hv) hload⟩
  | store epoch value =>
    unfold CachedStore.call BaseStore.call
    dsimp only
    cases hold : c.store.isTooOld epoch with
    | true => exact ⟨rfl, rfl, h⟩
    | false =>
      refine ⟨rfl, rfl, Coherent.addToCache ?_ ?_⟩
      · intro e v he hv
        obtain ⟨hyoung, hvalue⟩ := BaseStore.load_eq_ok.mp (h e v hv)
        apply BaseStore.load_eq_ok.mpr
        refine ⟨hyoung, ?_⟩
        show ((c.store.toEpochStore.store epoch value).entries e).getD default = v
        rw [EpochStore.entries_store, if_neg he, hvalue]
      · apply BaseStore.load_eq_ok.mpr
        refine ⟨hold, ?_⟩
        show ((c.store.toEpochStore.store epoch value).entries epoch).getD default = value
        rw [EpochStore.entries_store, if_pos rfl, Option.getD_some]
  | deleteEpoch epoch =>
    exact ⟨rfl, rfl, h.removeFromCache rfl fun _ _ hyoung => hyoung⟩
  | prune epoch delay =>
    exact ⟨rfl, rfl, h.removeFromCache rfl fun _ he hyoung =>
      BaseStore.not_isTooOld_prune he hyoung⟩
  | rollbackEpochs epoch =>
    exact ⟨rfl, rfl, h.removeFromCache rfl fun _ _ hyoung => hyoung⟩

/-! ## Section 4: All calls -/

/-- What a sequence of calls returns. -/
def results {σ : Type} (call : σ → StoreCall V → Except StoreError (Returned V) × σ) :
    σ → List (StoreCall V) → List (Except StoreError (Returned V))
  | _, [] => []
  | s, op :: ops => (call s op).1 :: results call (call s op).2 ops

/-- Every sequence of calls returns the same with a cache of any size and without one. -/
theorem cachedStore_transparent (store : BaseStore V) (maxCacheSize : Nat)
    (ops : List (StoreCall V)) :
    (results CachedStore.call (.new store maxCacheSize) ops).map (·.mapError StoreError.cause) =
      results BaseStore.call store ops := by
  suffices hall : ∀ c : CachedStore V, Coherent c →
      (results CachedStore.call c ops).map (·.mapError StoreError.cause) =
        results BaseStore.call c.store ops from
    hall _ fun _ _ hv => nomatch hv
  induction ops with
  | nil => exact fun _ _ => rfl
  | cons op ops ih =>
    intro c h
    obtain ⟨hresult, hstore, hcoherent⟩ := h.call op
    simp only [results, map_cons, hresult, ih _ hcoherent, hstore]

end AxonCore.Stores
