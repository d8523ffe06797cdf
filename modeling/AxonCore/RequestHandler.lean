import Mathlib.Data.UInt

/-! # Pages of registered validators

    `Validators` answers with one page of the registered validators of an epoch, and with the
    cursor of the next page.  The list comes from the engine or, encoded, from a cache that may
    lose its entries at any time.  The encoding has a length prefix of one byte.

    As long as the latest commitment stays the same, the key of the list in the cache does too;
    `Cached` is the entry under this key.

    * `getOrCreate_of_valid`: the list is the same from the engine and from the cache.
    * `followCursors_rest`, `followCursors_full`: whoever follows the cursors gets the rest of
      the list, or is refused at its end if a page ends with it.
    * `followCursors_complete_iff`: so the whole list is returned exactly if it has at most 255
      validators and the page size does not divide their number. -/

namespace AxonCore.RequestHandler

open List

/-! ## Section 1: Requests -/

inductive Error where
  /-- The engine has no list for the epoch. -/
  | notFound
  /-- The list cannot be encoded, or the bytes cannot be decoded. -/
  | serialization
  /-- "invalid pagination cursorIndex". -/
  | badRequest
  /-- A panic: the bounds of the page are out of range. -/
  | sliceBounds
  deriving DecidableEq, Repr

/-- The encoding of a list (`apiForEpoch.Encode` and `Decode`), and the list of the engine
    (`OrderedRegisteredCandidateValidatorsList`). -/
structure Source (Validator Bytes : Type) where
  encode : List Validator → Option Bytes
  decode : Bytes → Option (List Validator)
  registered : Option (List Validator)

/-- `api.ValidatorsResponse`; the cursor is the start of the next page. -/
structure ValidatorsResponse (Validator : Type) where
  validators : List Validator
  pageSize : UInt32
  cursor : Option UInt32

abbrev Cached (Bytes : Type) := Option Bytes

variable {Validator Bytes : Type} (s : Source Validator Bytes)

/-- `GetOrCreateRegisteredValidators`, with the cache that it leaves. -/
def Source.getOrCreateRegisteredValidators :
    Cached Bytes → Except Error (List Validator) × Cached Bytes
  | some bytes =>
    match s.decode bytes with
    | some validators => (.ok validators, some bytes)
    | none => (.error .serialization, some bytes)
  | none =>
    match s.registered with
    | none => (.error .notFound, none)
    | some validators =>
      match s.encode validators with
      | some bytes => (.ok validators, some bytes)
      | none => (.error .serialization, none)

/-- The page of a list that starts at a cursor.  The sum of cursor and page size wraps around. -/
def page (cursorIndex pageSize : UInt32) (validators : List Validator) :
    Except Error (ValidatorsResponse Validator) :=
  let pageEndIndex := min (cursorIndex + pageSize) (UInt32.ofNat validators.length)
  if UInt32.ofNat validators.length ≤ cursorIndex then .error .badRequest
  else if pageEndIndex < cursorIndex then .error .sliceBounds
  else .ok {
    validators := (validators.take pageEndIndex.toNat).drop cursorIndex.toNat
    pageSize := pageSize
    cursor :=
      if (cursorIndex + pageSize).toNat ≤ validators.length then some (cursorIndex + pageSize)
      else none }

/-- `Validators`. -/
def Source.validators (cursorIndex pageSize : UInt32) (cached : Cached Bytes) :
    Except Error (ValidatorsResponse Validator) × Cached Bytes :=
  let r := s.getOrCreateRegisteredValidators cached
  (r.1.bind (page cursorIndex pageSize), r.2)

/-- The pages of a client that follows the cursors, with a flag for every request that says
    whether the cache still has its entry; `none` if a request fails or another page is left. -/
def Source.followCursors (pageSize : UInt32) :
    (kept : List Bool) → (cursorIndex : UInt32) → Cached Bytes → Option (List (List Validator))
  | [], _, _ => none
  | isKept :: kept, cursorIndex, cached =>
    match s.validators cursorIndex pageSize (if isKept then cached else none) with
    | (.error _, _) => none
    | (.ok response, cached) =>
      match response.cursor with
      | none => some [response.validators]
      | some cursor => (followCursors pageSize kept cursor cached).map (response.validators :: ·)

/-! ## Section 2: One request -/

/-- A lossless encoding with a length prefix of one byte. -/
structure Source.BytePrefix : Prop where
  encode : ∀ l, (s.encode l).isSome ↔ l.length ≤ 255
  decode : ∀ l bytes, s.encode l = some bytes → s.decode bytes = some l

variable {s} {l : List Validator} {cursorIndex pageSize : UInt32} {cached : Cached Bytes}

theorem getOrCreate_of_valid (hs : s.BytePrefix) (hlength : l.length ≤ 255)
    (hlist : s.registered = some l) (hcached : ∀ bytes ∈ cached, s.encode l = some bytes) :
    ∃ bytes, s.getOrCreateRegisteredValidators cached = (.ok l, some bytes) ∧
      s.encode l = some bytes := by
  unfold Source.getOrCreateRegisteredValidators
  cases cached with
  | some bytes =>
    have hbytes := hcached bytes rfl
    simp [hs.decode l bytes hbytes, hbytes]
  | none =>
    obtain ⟨bytes, hbytes⟩ := Option.isSome_iff_exists.mp ((hs.encode l).mpr hlength)
    simp [hlist, hbytes]

theorem validators_of_valid (hs : s.BytePrefix) (hlength : l.length ≤ 255)
    (hlist : s.registered = some l) (hcached : ∀ bytes ∈ cached, s.encode l = some bytes)
    (isKept : Bool) (cursorIndex pageSize : UInt32) :
    ∃ bytes, s.validators cursorIndex pageSize (if isKept then cached else none) =
        (page cursorIndex pageSize l, some bytes) ∧
      ∀ bytes' ∈ some bytes, s.encode l = some bytes' := by
  have hvalid : ∀ bytes ∈ if isKept then cached else none, s.encode l = some bytes := by
    intro bytes hbytes
    split at hbytes
    · exact hcached bytes hbytes
    · cases hbytes
  obtain ⟨bytes, hget, hbytes⟩ := getOrCreate_of_valid hs hlength hlist hvalid
  refine ⟨bytes, ?_, fun _ h => Option.some.inj h ▸ hbytes⟩
  unfold Source.validators
  rw [hget]
  rfl

/-- A list that is too long for the encoding is not found at all. -/
theorem validators_of_long (hs : s.BytePrefix) (hlength : 255 < l.length)
    (hlist : s.registered = some l) (hcached : ∀ bytes ∈ cached, s.encode l = some bytes)
    (isKept : Bool) :
    s.validators cursorIndex pageSize (if isKept then cached else none) =
      (.error .serialization, none) := by
  have hencode : s.encode l = none := by
    rw [← Option.not_isSome_iff_eq_none, hs.encode]
    omega
  obtain rfl : cached = none := by
    rw [Option.eq_none_iff_forall_not_mem]
    intro bytes hbytes
    cases hencode.symm.trans (hcached bytes hbytes)
  unfold Source.validators Source.getOrCreateRegisteredValidators
  simp [hlist, hencode, Except.bind]

/-- A page that starts inside the list, as long as the sum does not wrap around. -/
theorem page_eq (hlength : l.length ≤ 255) (hcursor : cursorIndex.toNat < l.length)
    (hadd : (cursorIndex + pageSize).toNat = cursorIndex.toNat + pageSize.toNat) :
    page cursorIndex pageSize l = .ok {
      validators := (l.drop cursorIndex.toNat).take pageSize.toNat
      pageSize := pageSize
      cursor :=
        if cursorIndex.toNat + pageSize.toNat ≤ l.length then some (cursorIndex + pageSize)
        else none } := by
  have hofNat : (UInt32.ofNat l.length).toNat = l.length := by
    rw [UInt32.toNat_ofNat', Nat.mod_eq_of_lt (by omega)]
  have hend : (min (cursorIndex + pageSize) (UInt32.ofNat l.length)).toNat =
      min (cursorIndex.toNat + pageSize.toNat) l.length := by
    show (if cursorIndex + pageSize ≤ UInt32.ofNat l.length then _ else _ : UInt32).toNat = _
    simp only [apply_ite UInt32.toNat, UInt32.le_iff_toNat_le, hadd, hofNat]
    exact Nat.min_def.symm
  unfold page
  simp only [UInt32.le_iff_toNat_le, UInt32.lt_iff_toNat_lt, hend, hofNat, hadd]
  rw [if_neg (by omega), if_neg (by omega), ← take_take, take_length, drop_take,
    Nat.add_sub_cancel_left]

theorem page_end (hlength : l.length ≤ 255) (hcursor : cursorIndex.toNat = l.length) :
    page cursorIndex pageSize l = .error .badRequest := by
  unfold page
  rw [if_pos]
  rw [UInt32.le_iff_toNat_le, UInt32.toNat_ofNat', Nat.mod_eq_of_lt (by omega), hcursor]

/-! ## Section 3: Following the cursors -/

/-- From a cursor on, the rest of the list is returned, if no page ends with the list. -/
theorem followCursors_rest (hs : s.BytePrefix) (hlength : l.length ≤ 255)
    (hlist : s.registered = some l) (hpage : 0 < pageSize.toNat) :
    ∀ (kept : List Bool) (cursorIndex : UInt32) (cached : Cached Bytes),
      (∀ bytes ∈ cached, s.encode l = some bytes) → cursorIndex.toNat < l.length →
      cursorIndex.toNat + pageSize.toNat < 2 ^ 32 →
      (∀ k, cursorIndex.toNat + k * pageSize.toNat ≠ l.length) →
      l.length ≤ cursorIndex.toNat + kept.length →
      ∃ pages, s.followCursors pageSize kept cursorIndex cached = some pages ∧
        pages.flatten = l.drop cursorIndex.toNat := by
  intro kept
  induction kept with
  | nil =>
    intro cursorIndex _ _ hlt _ _ hkept
    exact absurd hkept (Nat.not_le.mpr hlt)
  | cons isKept kept ih =>
    intro cursorIndex cached hcached hlt hsum hfull hkept
    rw [length_cons] at hkept
    have hadd : (cursorIndex + pageSize).toNat = cursorIndex.toNat + pageSize.toNat := by
      rw [UInt32.toNat_add, Nat.mod_eq_of_lt hsum]
    obtain ⟨bytes, hrequest, hbytes⟩ :=
      validators_of_valid hs hlength hlist hcached isKept cursorIndex pageSize
    unfold Source.followCursors
    simp only [hrequest, page_eq hlength hlt hadd]
    by_cases hend : cursorIndex.toNat + pageSize.toNat ≤ l.length
    · -- the next page starts inside the list, for this one does not end with it
      have hne := hfull 1
      obtain ⟨pages, hpages, hflatten⟩ := ih (cursorIndex + pageSize) (some bytes) hbytes
        (by omega) (by omega)
        (fun k => by have hk := hfull (k + 1); rw [Nat.succ_mul] at hk; omega) (by omega)
      simp only [if_pos hend, hpages, Option.map_some]
      refine ⟨_, rfl, ?_⟩
      rw [flatten_cons, hflatten, hadd, ← drop_drop, take_append_drop]
    · simp only [if_neg hend]
      refine ⟨_, rfl, ?_⟩
      rw [flatten_singleton, take_of_length_le]
      rw [length_drop]
      omega

/-- If a page ends with the list, its cursor is followed and refused. -/
theorem followCursors_full (hs : s.BytePrefix) (hlength : l.length ≤ 255)
    (hlist : s.registered = some l) :
    ∀ (kept : List Bool) (k : Nat) (cursorIndex : UInt32) (cached : Cached Bytes),
      (∀ bytes ∈ cached, s.encode l = some bytes) →
      cursorIndex.toNat + k * pageSize.toNat = l.length → 0 < pageSize.toNat →
      s.followCursors pageSize kept cursorIndex cached = none := by
  intro kept
  induction kept with
  | nil => exact fun _ _ _ _ _ _ => rfl
  | cons isKept kept ih =>
    intro k cursorIndex cached hcached hend hpage
    obtain ⟨bytes, hrequest, hbytes⟩ :=
      validators_of_valid hs hlength hlist hcached isKept cursorIndex pageSize
    unfold Source.followCursors
    cases k with
    | zero =>
      rw [Nat.zero_mul, Nat.add_zero] at hend
      simp only [hrequest, page_end hlength hend]
    | succ k =>
      rw [Nat.succ_mul] at hend
      have hadd : (cursorIndex + pageSize).toNat = cursorIndex.toNat + pageSize.toNat := by
        rw [UInt32.toNat_add, Nat.mod_eq_of_lt (by omega)]
      have hnext := ih k (cursorIndex + pageSize) (some bytes) hbytes (by omega) hpage
      simp only [hrequest, page_eq hlength (by omega : cursorIndex.toNat < l.length) hadd]
      rw [if_pos (by omega)]
      simp only [hnext, Option.map_none]

/-- Whoever starts at cursor 0 and follows the cursors gets the whole list, in order and
    whatever the cache loses on the way, exactly if it has at most 255 validators and the page
    size does not divide its length. -/
theorem followCursors_complete_iff (s : Source Validator Bytes) (hs : s.BytePrefix)
    (l : List Validator) (hlist : s.registered = some l) (pageSize : UInt32)
    (hpage : 0 < pageSize.toNat) (cached : Cached Bytes)
    (hcached : ∀ bytes ∈ cached, s.encode l = some bytes) (kept : List Bool)
    (hkept : l.length ≤ kept.length) :
    (∃ pages, s.followCursors pageSize kept 0 cached = some pages ∧ pages.flatten = l) ↔
      l.length ≤ 255 ∧ ¬ pageSize.toNat ∣ l.length := by
  constructor
  · rintro ⟨pages, hpages, _⟩
    have hlength : l.length ≤ 255 := by
      by_contra hlong
      cases kept with
      | nil => cases hpages
      | cons isKept kept =>
        unfold Source.followCursors at hpages
        rw [validators_of_long hs (by omega) hlist hcached] at hpages
        cases hpages
    refine ⟨hlength, ?_⟩
    rintro ⟨k, hk⟩
    have hfull := followCursors_full hs hlength hlist kept k 0 cached hcached
      (by rw [hk, UInt32.toNat_zero, Nat.zero_add, Nat.mul_comm]) hpage
    cases hfull.symm.trans hpages
  · rintro ⟨hlength, hfull⟩
    have hpos : 0 < l.length := Nat.pos_of_ne_zero fun h => hfull (h ▸ Nat.dvd_zero _)
    refine followCursors_rest hs hlength hlist hpage kept 0 cached hcached hpos ?_ ?_ ?_
    · rw [UInt32.toNat_zero, Nat.zero_add]
      exact pageSize.toNat_lt
    · intro k hk
      exact hfull ⟨k, by rw [← hk, UInt32.toNat_zero, Nat.zero_add, Nat.mul_comm]⟩
    · rw [UInt32.toNat_zero, Nat.zero_add]
      exact hkept

/-- A list that is its own encoding. -/
def sampleSource (l : List Nat) : Source Nat (List Nat) :=
  ⟨fun l => if l.length ≤ 255 then some l else none, some, some l⟩

theorem followCursors_complete_three : ∃ pages,
    (sampleSource [7, 8, 9]).followCursors 2 [false, true, true] 0 none = some pages ∧
      pages.flatten = [7, 8, 9] :=
  (followCursors_complete_iff (sampleSource [7, 8, 9])
    ⟨fun l => by simp [sampleSource], fun l bytes h => by simp_all [sampleSource]⟩
    [7, 8, 9] rfl 2 (by decide) none (fun _ h => nomatch h) [false, true, true] (by decide)).mpr
    (by decide)

/-- Two validators on a page of two: there is a cursor to a next page, which is refused. -/
theorem followCursors_full_page :
    let first := (sampleSource [7, 8]).validators 0 2 none
    (first.1.toOption.bind (·.cursor)) = some 2 ∧
      ((sampleSource [7, 8]).validators 2 2 first.2).1.toOption.isNone ∧
      (sampleSource [7, 8]).followCursors 2 [true, true] 0 none = none := by
  decide +kernel

end AxonCore.RequestHandler
