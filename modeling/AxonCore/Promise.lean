import AxonCore.Lib.Run

/-! # Promises

    Callbacks are kept in three maps until the promise is resolved or rejected.  Then those that
    wait for it are invoked and the maps are dropped; later callbacks are invoked at once.  Each
    registration returns a function that cancels it.

    A callback is invoked once if it waits for what happened and was not cancelled before, and
    never otherwise (`callbacks_exactlyOnce`).  The condition is about the dropped maps: the cancel
    functions of `OnSuccess` and `OnError` check for them, but the one of `OnComplete` calls
    `Delete` of a nil map, and `IsEmpty` the method of that name.  Which of the two return there is
    a parameter.

    Callbacks are numbered in the order of their registration, as their unique IDs are.  So one map
    stands for the three, which are dropped together.  After the completion the numbers go on,
    although no ID is drawn there.  A callback is given the result or the error of the promise. -/

namespace AxonCore.Promises

open AxonCore.Lib Function

variable {T E : Type}

/-! ## Section 1: The promise -/

/-- What a callback waits for: `OnSuccess`, `OnError` or `OnComplete`. -/
inductive Kind where
  | success | error | complete
  deriving DecidableEq

def Kind.awaits : Kind → Except E T → Bool
  | success, .ok _ | error, .error _ | complete, _ => true
  | _, _ => false

inductive Call (T E : Type) where
  | register (kind : Kind)
  /-- The function that the registration of a callback returned. -/
  | cancel (callback : Nat)
  /-- `Resolve` and `ResolveDynamically`. -/
  | resolve (result : T)
  | reject (err : E)
  | isEmpty

/-- The methods of the ordered map that return on a nil map. -/
structure NilMap where
  delete : Bool
  isEmpty : Bool

/-- `Promise`, with what was returned and invoked. -/
structure Promise (T E : Type) where
  /-- `successCallbacks`, `errorCallbacks` and `completeCallbacks`, or nil. -/
  callbacks : Option (Nat → Option Kind)
  callbackIDs : Nat
  /-- `result`, `err` and `complete`. -/
  outcome : Option (Except E T)
  /-- The map from which a cancel function deletes its callback, if it does anything. -/
  cancels : Nat → Option Kind
  /-- How often each callback was invoked. -/
  invoked : Nat → Nat

namespace Promise

/-- `New`. -/
def new : Promise T E := ⟨some fun _ => none, 0, none, fun _ => none, fun _ => 0⟩

variable (p : Promise T E)

/-- `OnSuccess`, `OnError` and `OnComplete`; registering in a nil map panics. -/
def register (kind : Kind) : Option (Promise T E) :=
  let callbackID := p.callbackIDs
  match p.outcome with
  | some outcome =>
    some { p with
      callbackIDs := callbackID + 1
      invoked := update p.invoked callbackID (p.invoked callbackID + (kind.awaits outcome).toNat) }
  | none =>
    p.callbacks.map fun m =>
      { p with
        callbackIDs := callbackID + 1
        callbacks := some (update m callbackID (some kind))
        cancels := update p.cancels callbackID (some kind) }

/-- A cancel function; the one of `OnComplete` does not check for a nil map. -/
def cancel (nilMap : NilMap) (callback : Nat) : Option (Promise T E) :=
  match p.cancels callback, p.callbacks with
  | some _, some m => some { p with callbacks := some (update m callback none) }
  | some .complete, none => if nilMap.delete then some p else none
  | _, _ => some p

/-- `ResolveDynamically` and `Reject`: the callbacks for the outcome, then those for any. -/
def finish (kind : Kind) (outcome : Except E T) : Option (Promise T E) :=
  if p.outcome.isSome then some p
  else p.callbacks.map fun m =>
    { p with
      invoked := fun i =>
        p.invoked i + (m i == some kind).toNat + (m i == some .complete).toNat
      callbacks := none
      outcome := some outcome }

/-- A call; a panic gives no state. -/
def step (nilMap : NilMap) (p : Promise T E) : Call T E → Option (Promise T E)
  | .register kind => p.register kind
  | .cancel callback => p.cancel nilMap callback
  | .resolve result => p.finish .success (.ok result)
  | .reject err => p.finish .error (.error err)
  | .isEmpty => if p.callbacks.isSome || nilMap.isEmpty then some p else none

end Promise

/-! ## Section 2: What should happen -/

/-- What the calls say. -/
structure Record (T E : Type) where
  /-- The callbacks that were registered before the completion. -/
  early : List Kind
  /-- The callbacks that were cancelled before it. -/
  cancelled : Nat → Bool
  /-- The first completion, and the callbacks that were registered after it. -/
  completed : Option (Except E T × List Kind)

namespace Record

def empty : Record T E := ⟨[], fun _ => false, none⟩

variable (r : Record T E)

/-- All callbacks, in the order of their registration. -/
@[simp] def kinds : List Kind := r.early ++ r.completed.elim [] Prod.snd

def complete (outcome : Except E T) : Record T E :=
  { r with completed := r.completed.or (some (outcome, [])) }

def add : Call T E → Record T E
  | .register kind =>
    { early := if r.completed.isSome then r.early else r.early ++ [kind]
      cancelled := update r.cancelled r.kinds.length false
      completed := r.completed.map fun (outcome, late) => (outcome, late ++ [kind]) }
  | .cancel callback =>
    { r with
      cancelled := if r.completed.isSome then r.cancelled else update r.cancelled callback true }
  | .resolve result => r.complete (.ok result)
  | .reject err => r.complete (.error err)
  | .isEmpty => r

/-- The callback is to be invoked: it was registered for the completion that happened, before or
    after it, and was not cancelled before it. -/
@[simp] def due (callback : Nat) : Bool :=
  r.completed.any fun (outcome, _) =>
    r.kinds[callback]?.any (·.awaits outcome) && !r.cancelled callback

/-- The promise after the calls. -/
@[simp] def promise : Promise T E where
  callbacks := if r.completed.isSome then none
    else some fun i => if r.cancelled i then none else r.early[i]?
  callbackIDs := r.kinds.length
  outcome := r.completed.map Prod.fst
  cancels := (r.early[·]?)
  invoked := fun i => (r.due i).toNat

end Record

/-- No method that does not return on a nil map is called after the completion. -/
def Admissible (nilMap : NilMap) (p : Promise T E) : Call T E → Prop
  | .cancel callback =>
    p.outcome.isSome → p.cancels callback = some .complete → nilMap.delete = true
  | .isEmpty => p.outcome.isSome → nilMap.isEmpty = true
  | _ => True

instance (nilMap : NilMap) (p : Promise T E) (call : Call T E) :
    Decidable (Admissible nilMap p call) := by
  cases call <;> unfold Admissible <;> infer_instance

/-! ## Section 3: The promise does what should happen -/

variable {nilMap : NilMap}

theorem register_promise (r : Record T E) (kind : Kind) :
    r.promise.register kind = some (r.add (.register kind)).promise := by
  obtain ⟨early, cancelled, _ | ⟨outcome, late⟩⟩ := r
  · -- the callback is kept, and its cancel function removes it
    simp [Promise.register, Record.add]
    constructor <;> funext i <;> by_cases hi : i = early.length <;> simp [hi]
    all_goals grind
  · -- it is invoked at once
    simp [Promise.register, Record.add, Nat.add_assoc]
    funext i
    by_cases hi : i = early.length + late.length <;> simp [hi]
    grind

theorem cancel_promise {r : Record T E} {callback : Nat}
    (h : Admissible nilMap r.promise (.cancel callback)) :
    r.promise.cancel nilMap callback = some (r.add (.cancel callback)).promise := by
  obtain ⟨early, cancelled, _ | ⟨outcome, late⟩⟩ := r
  · cases hkind : early[callback]? <;> simp [Promise.cancel, Record.add, hkind] <;> funext i <;>
      by_cases hi : i = callback <;> simp [hi, hkind]
  · -- the maps are dropped
    have hdelete : early[callback]? = some .complete → nilMap.delete = true := h rfl
    cases hkind : early[callback]? with
    | none => simp [Promise.cancel, Record.add, hkind]
    | some kind => cases kind <;> simp_all [Promise.cancel, Record.add]

theorem finish_promise {kind : Kind} {outcome : Except E T} (r : Record T E)
    (hkind : kind ≠ .complete)
    (hawaits : ∀ k : Kind, k.awaits outcome = (k == kind || k == .complete)) :
    r.promise.finish kind outcome = some (r.complete outcome).promise := by
  obtain ⟨early, cancelled, _ | _⟩ := r
  · simp [Promise.finish, Record.complete]
    funext i
    cases early[i]? with
    | none => simp
    | some k =>
      by_cases hk : k = kind
      · cases cancelled i <;> simp [hawaits, hk, hkind]
      · cases cancelled i <;> simp [hawaits, beq_eq_false_iff_ne.mpr hk]
  · rfl

theorem step_promise {r : Record T E} {call : Call T E} (h : Admissible nilMap r.promise call) :
    r.promise.step nilMap call = some (r.add call).promise := by
  cases call with
  | register kind => exact register_promise r kind
  | cancel callback => exact cancel_promise h
  | resolve result => exact finish_promise r (by decide) fun k => by cases k <;> rfl
  | reject err => exact finish_promise r (by decide) fun k => by cases k <;> rfl
  | isEmpty =>
    apply if_pos
    obtain ⟨early, cancelled, _ | _⟩ := r
    · rfl
    · rw [h rfl]
      rfl

/-- In every sequence of admissible calls no call panics, the first completion takes effect, and
    the callbacks that are due are invoked once, the others never. -/
theorem callbacks_exactlyOnce (nilMap : NilMap) (calls : List (Call T E))
    (hcalls : AllSteps (Promise.step nilMap) (Admissible nilMap) Promise.new calls) :
    let r := calls.foldl Record.add .empty
    ∃ p, run (Promise.step nilMap) Promise.new calls = some p ∧
      p.outcome = r.completed.map Prod.fst ∧ ∀ i, p.invoked i = if r.due i then 1 else 0 := by
  obtain ⟨p, hrun, rfl⟩ := run_history_total_of
    (I := fun hist p => p = (hist.foldl Record.add (.empty : Record T E)).promise) (by
      rintro hist p call rfl hcall
      rw [List.foldl_append]
      exact ⟨_, step_promise hcall, rfl⟩) (show _ = Record.promise ([].foldl _ _) from rfl) hcalls
  refine ⟨_, hrun, rfl, fun i => ?_⟩
  show Bool.toNat (Record.due (calls.foldl Record.add .empty) i) = _
  cases (calls.foldl Record.add Record.empty).due i <;> rfl

def sampleCalls : List (Call Unit Unit) :=
  [.register .success, .register .complete, .cancel 0, .resolve (), .cancel 0, .isEmpty]

/-- A callback that is cancelled before the completion is not invoked. -/
theorem callbacks_exactlyOnce_cancelled :
    ∃ p, run (Promise.step ⟨false, true⟩) Promise.new sampleCalls = some p ∧
      p.invoked 0 = 0 ∧ p.invoked 1 = 1 := by
  obtain ⟨p, hrun, -, h⟩ := callbacks_exactlyOnce ⟨false, true⟩ sampleCalls (by decide)
  exact ⟨p, hrun, h 0, h 1⟩

/-- The cancel function of a callback for any completion is called after the promise was resolved:
    `Delete` of a nil map panics. -/
theorem cancel_after_completion_panics :
    run (Promise.step ⟨false, true⟩) (Promise.new : Promise Unit Unit)
      [.register .complete, .resolve (), .cancel 0] = none := rfl

end AxonCore.Promises
