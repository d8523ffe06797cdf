import AxonCore.Accounts.Existence
import AxonCore.Attestations.Exact

/-! # Verifying the weight of another chain

    A node that meets a fork asks for the attestations of the other chain, and counts for
    each commitment the seats that they attest.  It knows the accounts only as they were at
    the last common slot, and keeps the data of the committee of the epoch it verifies.

    The producer counts an attestation by the committee of the slot of its block.  The
    verifier does so too, but before that it drops attestations whose issuer is not in the
    committee of the epoch of the commitment.

    * `Follows`: the verifier has the accounts of the committee of its epoch.
    * `attested_weight_exact`: the verified weights are those of the commitments, if no
      issuer in the window lost its seat.
    * `attested_weight_drops_rotated`: the seat of a validator that left the committee is
      not counted in the first slots of the epoch. -/

namespace AxonCore.Attestations

open AxonCore.Lib List

/-! ## Section 1: The verifier -/

/-- `iotago.BlockID`. -/
structure BlockID where
  slot : Nat
  identifier : Nat
  deriving DecidableEq

/-- The engine of the verifying node, with the hashes and proofs it uses. -/
structure Engine (Proof : Type) where
  epochFromSlot : Nat → Nat
  epochFromSlot_mono : Monotone epochFromSlot
  /-- `CommitteeInEpoch`: the accounts in the order of their seats. -/
  committeeInEpoch : Nat → Option (List AccountID)
  ledger : Accounts.Manager
  /-- The hash of the block of an attestation. -/
  identifier : Attestation → Nat
  /-- The root of a tree of attestations. -/
  root : Map AccountID Attestation → Nat
  verifyProof : Proof → (value root : Nat) → Bool

/-- `CommitmentVerifier`. -/
structure CommitmentVerifier where
  lastCommonSlotBeforeFork : Nat
  /-- The epoch of the currently verified commitment. -/
  epoch : Nat
  /-- The accounts of the validators of the epoch, as known at the last common slot. -/
  validatorAccountsData : Map AccountID Accounts.AccountData

/-- `Commitment`, with the part of its weight that is not of its parent. -/
structure Commitment where
  slot : Nat
  rootsID : Nat
  weight : Nat

variable {Proof : Type} (e : Engine Proof)

/-- `CommitteeInSlot`. -/
def Engine.committeeInSlot (slot : Nat) : Option (List AccountID) :=
  e.committeeInEpoch (e.epochFromSlot slot)

/-- `Attestation.BlockID`. -/
def Engine.blockID (a : Attestation) : BlockID := ⟨a.slot, e.identifier a⟩

/-- `newCommitmentVerifier`: an error if the committee is not known. -/
def newCommitmentVerifier (lastCommonSlot : Nat) : Option CommitmentVerifier :=
  let epoch := e.epochFromSlot lastCommonSlot
  (e.committeeInEpoch epoch).map fun committeeAtForkingPoint =>
    { lastCommonSlotBeforeFork := lastCommonSlot
      epoch := epoch
      validatorAccountsData := e.ledger.pastAccounts committeeAtForkingPoint lastCommonSlot }

/-- The variables of the loop of `verifyAttestations`. -/
structure Count where
  visitedIdentities : Finset AccountID
  blockIDs : List BlockID
  seatCount : Nat

/-- One attestation of `verifyAttestations`. -/
def CommitmentVerifier.verifyAttestation (c : CommitmentVerifier) (s : Count) (a : Attestation) :
    Option Count :=
  match c.validatorAccountsData.lookup a.issuerID with
  -- the account is not known, the attestation is ignored
  | none => some s
  | some accountData =>
    if a.signature.publicKey ∉ accountData.blockIssuerKeys then some s
    else if a.signature.valid = false then none
    else if a.issuerID ∈ s.visitedIdentities then none
    else
      -- the committee of the slot of the attestation, not of the commitment
      (e.committeeInSlot a.slot).map fun committee =>
        { visitedIdentities := insert a.issuerID s.visitedIdentities
          blockIDs := s.blockIDs ++ [e.blockID a]
          seatCount := if a.issuerID ∈ committee then s.seatCount + 1 else s.seatCount }

/-- `verifyAttestations`. -/
def CommitmentVerifier.verifyAttestations (c : CommitmentVerifier)
    (attestations : List Attestation) : Option (List BlockID × Nat) :=
  (run (c.verifyAttestation e) ⟨∅, [], 0⟩ attestations).map fun s => (s.blockIDs, s.seatCount)

/-- The accounts are loaded again if the commitment is in a later epoch; if its committee
    is not known they stay as they are. -/
def CommitmentVerifier.updateAccounts (c : CommitmentVerifier) (slot : Nat) : CommitmentVerifier :=
  let commitmentEpoch := e.epochFromSlot slot
  if c.epoch < commitmentEpoch then
    { c with
      epoch := commitmentEpoch
      validatorAccountsData :=
        match e.committeeInEpoch commitmentEpoch with
        | none => c.validatorAccountsData
        | some committee => e.ledger.pastAccounts committee c.lastCommonSlotBeforeFork }
  else c

/-- `verifyCommitment`: the verifier after it, and the blocks and the weight or an error. -/
def CommitmentVerifier.verifyCommitment (c : CommitmentVerifier) (commitment : Commitment)
    (attestations : List Attestation) (merkleProof : Proof) :
    CommitmentVerifier × Option (List BlockID × Nat) :=
  let tree := attestations.foldl (fun s a => s.insert a.issuerID a) ∅
  if e.verifyProof merkleProof (e.root tree) commitment.rootsID = false then (c, none)
  else
    let c := c.updateAccounts e commitment.slot
    (c, (c.verifyAttestations e attestations).bind fun (blockIDs, seatCount) =>
      if commitment.weight < seatCount then none else some (blockIDs, seatCount))

/-- The answer to a request: a commitment with its attestations and their proof. -/
structure Response (Proof : Type) where
  commitment : Commitment
  attestations : List Attestation
  merkleProof : Proof

/-- The commitments of a chain are verified one after the other; the results are the
    weights. -/
def CommitmentVerifier.verifyChain (c : CommitmentVerifier) :
    List (Response Proof) → List (Option Nat)
  | [] => []
  | r :: rs =>
    let (c, result) := c.verifyCommitment e r.commitment r.attestations r.merkleProof
    result.map Prod.snd :: c.verifyChain rs

variable {e}

/-! ## Section 2: The accounts of the verifier -/

/-- The verifier has the accounts of the committee of its epoch. -/
structure Follows (e : Engine Proof) (lastCommonSlot : Nat) (c : CommitmentVerifier) : Prop where
  last : c.lastCommonSlotBeforeFork = lastCommonSlot
  accounts : ∀ committee, e.committeeInEpoch c.epoch = some committee →
    c.validatorAccountsData = e.ledger.pastAccounts committee lastCommonSlot

variable {lastCommonSlot slot : Nat} {c : CommitmentVerifier}

theorem follows_newCommitmentVerifier (h : newCommitmentVerifier e lastCommonSlot = some c) :
    Follows e lastCommonSlot c ∧ c.epoch = e.epochFromSlot lastCommonSlot := by
  obtain ⟨committee, hcommittee, rfl⟩ := Option.map_eq_some_iff.mp h
  constructor
  · constructor
    · rfl
    · intro committee' hcommittee'
      obtain rfl := Option.some.inj (hcommittee.symm.trans hcommittee')
      rfl
  · rfl

theorem Follows.updateAccounts (h : Follows e lastCommonSlot c)
    (hepoch : c.epoch ≤ e.epochFromSlot slot) :
    Follows e lastCommonSlot (c.updateAccounts e slot) ∧
      (c.updateAccounts e slot).epoch = e.epochFromSlot slot := by
  unfold CommitmentVerifier.updateAccounts
  by_cases hlt : c.epoch < e.epochFromSlot slot
  · rw [if_pos hlt]
    constructor
    · constructor
      · exact h.last
      · intro committee hcommittee
        rw [hcommittee, ← h.last]
    · rfl
  · rw [if_neg hlt]
    exact ⟨h, by omega⟩

/-! ## Section 3: Counting seats -/

/-- The attestation is signed with a key that its issuer had at the last common slot. -/
def KeyKnown (e : Engine Proof) (lastCommonSlot : Nat) (a : Attestation) : Prop :=
  a.signature.valid = true ∧
    ∃ accountData ∈ e.ledger.pastAccount a.issuerID lastCommonSlot,
      a.signature.publicKey ∈ accountData.blockIssuerKeys

/-- The issuer has a seat in the committee of the slot. -/
def InCommittee (e : Engine Proof) (slot : Nat) (a : Attestation) : Prop :=
  ∃ committee ∈ e.committeeInSlot slot, a.issuerID ∈ committee

theorem Follows.lookup (h : Follows e lastCommonSlot c) (hepoch : c.epoch = e.epochFromSlot slot)
    {a : Attestation} (hseat : InCommittee e slot a) :
    c.validatorAccountsData.lookup a.issuerID =
      e.ledger.pastAccount a.issuerID lastCommonSlot := by
  obtain ⟨committee, hcommittee, hmem⟩ := hseat
  rw [h.accounts committee (by rw [hepoch]; exact hcommittee),
    Accounts.Manager.pastAccounts_lookup, if_pos hmem]

theorem run_verifyAttestation (h : Follows e lastCommonSlot c)
    (hepoch : c.epoch = e.epochFromSlot slot) {l : List Attestation}
    (hnodup : (l.map Attestation.issuerID).Nodup) (hkey : ∀ a ∈ l, KeyKnown e lastCommonSlot a)
    (hseat : ∀ a ∈ l, InCommittee e slot a) (hattested : ∀ a ∈ l, InCommittee e a.slot a) :
    ∀ s : Count, (∀ a ∈ l, a.issuerID ∉ s.visitedIdentities) →
      ∃ s', run (c.verifyAttestation e) s l = some s' ∧ s'.seatCount = s.seatCount + l.length := by
  induction l with
  | nil => exact fun s _ => ⟨s, rfl, rfl⟩
  | cons a l ih =>
    intro s hnew
    rw [forall_mem_cons] at hkey hseat hattested hnew
    obtain ⟨hvalid, accountData, haccount, hpublicKey⟩ := hkey.1
    obtain ⟨committee, hcommittee, hmem⟩ := hattested.1
    rw [map_cons, nodup_cons] at hnodup
    have hone : c.verifyAttestation e s a = some
        { visitedIdentities := insert a.issuerID s.visitedIdentities
          blockIDs := s.blockIDs ++ [e.blockID a]
          seatCount := s.seatCount + 1 } := by
      unfold CommitmentVerifier.verifyAttestation
      rw [h.lookup hepoch hseat.1, show e.ledger.pastAccount _ _ = _ from haccount]
      dsimp only
      rw [if_neg (fun hnot => hnot hpublicKey), if_neg (by rw [hvalid]; exact Bool.noConfusion),
        if_neg hnew.1, show e.committeeInSlot a.slot = _ from hcommittee,
        Option.map_some, if_pos hmem]
    obtain ⟨s', hs', hcount⟩ := ih hnodup.2 hkey.2 hseat.2 hattested.2
      { visitedIdentities := insert a.issuerID s.visitedIdentities
        blockIDs := s.blockIDs ++ [e.blockID a]
        seatCount := s.seatCount + 1 } (by
        intro b hb hvisited
        rcases Finset.mem_insert.mp hvisited with heq | hold
        · exact hnodup.1 (heq ▸ mem_map_of_mem hb)
        · exact hnew.2 b hb hold)
    refine ⟨s', run_cons.mpr ⟨_, hone, hs'⟩, ?_⟩
    rw [hcount, length_cons]
    show s.seatCount + 1 + l.length = _
    omega

/-! ## Section 4: The weights of the producing chain -/

variable {p : Params} {n : Node}

/-- The cumulative weight of a commitment is the number of attestations up to its slot. -/
def Weights (p : Params) (n : Node) : Prop :=
  ∀ slot ≤ n.manager.lastCommittedSlot, n.cumulativeWeight slot =
    ∑ i ∈ Finset.Icc (p.genesisSlot + p.maxCommittableAge) slot,
      (n.manager.bucketedStorage.attestations i).keys.length

theorem Weights.step {s : Nat × List Attestation} {input : Input} {n' : Node}
    (hinv : Inv p s n) (h : Weights p n) (hstep : step p n input = some n') : Weights p n' := by
  obtain ⟨_, rfl, _⟩ | ⟨_, hspec, hcw⟩ := step_cases hinv.wellFormed hstep
  · exact h
  · intro slot hslot
    rw [hspec.last] at hslot
    rw [hcw]
    by_cases heq : slot = n.manager.lastCommittedSlot + 1
    · rw [heq, Function.update_self, hinv.newCW_eq hspec, (hinv.commit hspec).weight, hinv.last]
      rfl
    · rw [Function.update_of_ne heq, h slot (by omega)]
      apply Finset.sum_congr rfl
      intro i hi
      have hi' := (Finset.mem_Icc.mp hi).2
      rw [hspec.other (by omega)]

variable {inputs : List Input}

theorem inv_weights_run (hrun : run (step p) (genesis p) inputs = some n) :
    Inv p (tracked p inputs) n ∧ Weights p n := by
  have hgenesis : Weights p (genesis p) := fun slot _ =>
    (Finset.sum_eq_zero (fun _ _ => rfl)).symm
  obtain ⟨n', hn', hinv⟩ := inv_run_with hgenesis Weights.step inputs
  obtain rfl := Option.some.inj (hn'.symm.trans hrun)
  exact hinv

theorem hasSeat_tracked (inputs : List Input) : ∀ a ∈ (tracked p inputs).2, HasSeat p a := by
  unfold tracked
  refine foldlRecOn (motive := fun s : Nat × List Attestation => ∀ a ∈ s.2, HasSeat p a) _ _
    (fun a ha => nomatch ha) fun s ih input _ => ?_
  cases input with
  | commit => exact ih
  | add b =>
    intro a ha
    simp only [track] at ha
    split at ha
    next hadd =>
      rcases mem_append.mp ha with hold | hnew
      · exact ih a hold
      · obtain rfl := mem_singleton.mp hnew
        exact (Block.counts_iff.mp hadd.1).2
    next => exact ih a ha

/-- What `Get` returns for a slot: attestations of different issuers that count for the
    slot, as many as the weight of its commitment. -/
theorem get_spec {attestations : List Attestation}
    (hrun : run (step p) (genesis p) inputs = some n) (hpos : 0 < slot)
    (hget : n.manager.get p slot = some attestations) :
    (attestations.map Attestation.issuerID).Nodup ∧
      (∀ a ∈ attestations, Candidate p (tracked p inputs).2 slot a.issuerID a) ∧
      n.cumulativeWeight slot - n.cumulativeWeight (slot - 1) = attestations.length := by
  obtain ⟨hinv, hweights⟩ := inv_weights_run hrun
  unfold Manager.get at hget
  by_cases hlate : n.manager.lastCommittedSlot < slot
  · rw [if_pos hlate] at hget
    cases hget
  rw [if_neg hlate] at hget
  by_cases hearly : slot < p.genesisSlot + p.maxCommittableAge
  · rw [offset_of_lt hearly, if_pos rfl] at hget
    cases hget
  rw [offset_of_le (by omega), if_neg (fun h => Bool.noConfusion h)] at hget
  obtain rfl := Option.some.inj hget
  have hstored : ∀ id a, (n.manager.bucketedStorage.attestations slot).lookup id = some a →
      Candidate p (tracked p inputs).2 slot id a := by
    intro id a ha
    have hgreatest := hinv.stored slot (by omega) (by rw [← hinv.last]; omega) id
    unfold column at hgreatest
    rw [ha] at hgreatest
    exact hgreatest.1
  have hissued : Issued (n.manager.bucketedStorage.attestations slot) :=
    fun id a ha => (hstored id a ha).2.1
  refine ⟨?_, ?_, ?_⟩
  · rw [hissued.map_issuerID]
    exact AList.keys_nodup _
  · exact fun a ha => hstored _ a (hissued.mem_values.mp ha)
  · obtain ⟨prev, rfl⟩ : ∃ prev, slot = prev + 1 := ⟨slot - 1, by omega⟩
    rw [Nat.add_sub_cancel, hweights (prev + 1) (by omega), hweights prev (by omega),
      Finset.sum_Icc_succ_top (by omega), Nat.add_sub_cancel_left, ← hissued.map_issuerID,
      length_map]

/-! ## Section 5: The verified weights -/

/-- The response has the commitment of a slot after the fork, as the producing node made
    it, the attestations that `Get` returns and a proof for them. -/
structure Produced (e : Engine Proof) (p : Params) (n : Node) (lastCommonSlot : Nat)
    (r : Response Proof) : Prop where
  slot : lastCommonSlot < r.commitment.slot
  weight : r.commitment.weight =
    n.cumulativeWeight r.commitment.slot - n.cumulativeWeight (r.commitment.slot - 1)
  attestations : n.manager.get p r.commitment.slot = some r.attestations
  proof : e.verifyProof r.merkleProof
    (e.root (r.attestations.foldl (fun s a => s.insert a.issuerID a) ∅)) r.commitment.rootsID = true

theorem Produced.verifyCommitment {r : Response Proof} (h : Produced e p n lastCommonSlot r)
    (hrun : run (step p) (genesis p) inputs = some n)
    (hcommittee : ∀ slot, p.committee slot = (e.committeeInSlot slot).map toFinset)
    (hkey : ∀ id a, Candidate p (tracked p inputs).2 r.commitment.slot id a →
      KeyKnown e lastCommonSlot a)
    (hseat : ∀ id a, Candidate p (tracked p inputs).2 r.commitment.slot id a →
      InCommittee e r.commitment.slot a) (hfollows : Follows e lastCommonSlot c)
    (hepoch : c.epoch ≤ e.epochFromSlot r.commitment.slot) :
    ∃ c' blockIDs, c.verifyCommitment e r.commitment r.attestations r.merkleProof =
        (c', some (blockIDs, r.commitment.weight)) ∧
      Follows e lastCommonSlot c' ∧ c'.epoch = e.epochFromSlot r.commitment.slot := by
  obtain ⟨hfollows', hepoch'⟩ := hfollows.updateAccounts hepoch
  obtain ⟨hnodup, hcandidate, hlength⟩ := get_spec hrun (Nat.zero_lt_of_lt h.slot) h.attestations
  have hattested : ∀ a ∈ r.attestations, InCommittee e a.slot a := by
    intro a ha
    obtain ⟨committee, hcommittee', hmem⟩ := hasSeat_tracked inputs a (hcandidate a ha).1
    rw [hcommittee a.slot] at hcommittee'
    obtain ⟨seats, hseats, rfl⟩ := Option.map_eq_some_iff.mp hcommittee'
    exact ⟨seats, hseats, mem_toFinset.mp hmem⟩
  obtain ⟨s, hs, hcount⟩ := run_verifyAttestation hfollows' hepoch' hnodup
    (fun a ha => hkey _ a (hcandidate a ha)) (fun a ha => hseat _ a (hcandidate a ha)) hattested
    ⟨∅, [], 0⟩ (fun a _ => Finset.notMem_empty _)
  have hweight : s.seatCount = r.commitment.weight := by
    rw [hcount, h.weight, hlength]
    exact Nat.zero_add _
  refine ⟨c.updateAccounts e r.commitment.slot, s.blockIDs, ?_, hfollows', hepoch'⟩
  unfold CommitmentVerifier.verifyCommitment CommitmentVerifier.verifyAttestations
  rw [if_neg (by rw [h.proof]; exact Bool.noConfusion)]
  dsimp only
  rw [hs, Option.map_some, Option.bind_some]
  rw [hweight, if_neg (Nat.lt_irrefl _)]

/-- The commitments of another chain are verified in the order of their slots: each has
    the weight that its attestations give it, if all attestations that count for it are
    signed with keys known at the last common slot, and no issuer of them lost its seat
    before the epoch of the commitment. -/
theorem attested_weight_exact {inputs : List Input} {lastCommonSlot : Nat}
    {c : CommitmentVerifier} {responses : List (Response Proof)}
    (hrun : run (step p) (genesis p) inputs = some n)
    (hcommittee : ∀ slot, p.committee slot = (e.committeeInSlot slot).map toFinset)
    (hnew : newCommitmentVerifier e lastCommonSlot = some c)
    (hproduced : ∀ r ∈ responses, Produced e p n lastCommonSlot r)
    (hsorted : responses.Pairwise fun r r' => r.commitment.slot < r'.commitment.slot)
    (hkey : ∀ r ∈ responses, ∀ id a, Candidate p (tracked p inputs).2 r.commitment.slot id a →
      KeyKnown e lastCommonSlot a)
    (hseat : ∀ r ∈ responses, ∀ id a, Candidate p (tracked p inputs).2 r.commitment.slot id a →
      InCommittee e r.commitment.slot a) :
    c.verifyChain e responses = responses.map fun r => some r.commitment.weight := by
  obtain ⟨hfollows, hepoch⟩ := follows_newCommitmentVerifier hnew
  have hle : ∀ r ∈ responses, c.epoch ≤ e.epochFromSlot r.commitment.slot := by
    intro r hr
    rw [hepoch]
    exact e.epochFromSlot_mono (Nat.le_of_lt (hproduced r hr).slot)
  clear hnew hepoch
  -- the epoch of the verifier is never behind the next commitment
  induction responses generalizing c with
  | nil => rfl
  | cons r rs ih =>
    rw [forall_mem_cons] at hproduced hkey hseat hle
    obtain ⟨c', blockIDs, hverify, hfollows', hepoch'⟩ :=
      hproduced.1.verifyCommitment hrun hcommittee hkey.1 hseat.1 hfollows hle.1
    obtain ⟨hlt, hsorted'⟩ := pairwise_cons.mp hsorted
    have hrest := ih hproduced.2 hsorted' hkey.2 hseat.2 hfollows' (by
        intro r' hr'
        rw [hepoch']
        exact e.epochFromSlot_mono (Nat.le_of_lt (hlt r' hr')))
    rw [CommitmentVerifier.verifyChain, hverify, map_cons]
    show some r.commitment.weight :: c'.verifyChain e rs = _
    rw [hrest]

def sampleAccount (id : AccountID) : Accounts.AccountData :=
  { Accounts.newAccountData id with blockIssuerKeys := {0} }

variable (committee : List AccountID)

/-- Epochs of four slots.  Account 1 has the only seat in epoch 0, and the given accounts
    have the seats after it. -/
def sampleEngine : Engine Unit where
  epochFromSlot := fun slot => slot / 4
  epochFromSlot_mono := fun _ _ h => Nat.div_le_div_right h
  committeeInEpoch := fun epoch => some (if epoch = 0 then [1] else committee)
  ledger := { Accounts.emptyManager 2 with
    accountsTree := ((∅ : Map AccountID _).insert 1 (sampleAccount 1)).insert 2 (sampleAccount 2) }
  identifier := fun _ => 0
  root := fun _ => 0
  verifyProof := fun _ _ _ => true

def engineParams : Params :=
  ⟨0, 2, fun slot => ((sampleEngine committee).committeeInSlot slot).map toFinset⟩

/-- A block of account 1 in the last slot of epoch 0. -/
def lastBlock : Block := ⟨3, 1, true, 2, 0, 0, ⟨0, true⟩⟩

def forkInputs : List Input := [.commit, .commit, .add lastBlock, .commit, .commit]

/-- The block attests in slot 3 and in slot 4. -/
def sampleResponse (slot : Nat) : Response Unit :=
  ⟨⟨slot, 0, 1⟩, [newAttestation lastBlock], ()⟩

/-- What the producing node has for the two slots. -/
def forkResult : Option (List (Nat × Option (List Attestation))) :=
  (run (step (engineParams committee)) (genesis (engineParams committee)) forkInputs).map fun n =>
    [3, 4].map fun slot => (n.cumulativeWeight slot - n.cumulativeWeight (slot - 1),
      n.manager.get (engineParams committee) slot)

theorem produced_fork (h : forkResult committee = some [(1, some [newAttestation lastBlock]),
      (1, some [newAttestation lastBlock])]) :
    ∃ n, run (step (engineParams committee)) (genesis (engineParams committee)) forkInputs =
        some n ∧
      ∀ r ∈ [sampleResponse 3, sampleResponse 4],
        Produced (sampleEngine committee) (engineParams committee) n 2 r := by
  obtain ⟨n, hn, hresult⟩ := Option.map_eq_some_iff.mp h
  simp only [map_cons, map_nil, List.cons.injEq, Prod.mk.injEq, and_true] at hresult
  refine ⟨n, hn, fun r hr => ?_⟩
  simp only [mem_cons, not_mem_nil, or_false] at hr
  rcases hr with rfl | rfl
  · exact ⟨by decide, hresult.1.1.symm, hresult.1.2, rfl⟩
  · exact ⟨by decide, hresult.2.1.symm, hresult.2.2, rfl⟩

theorem keyKnown_lastBlock : KeyKnown (sampleEngine committee) 2 (newAttestation lastBlock) :=
  ⟨rfl, sampleAccount 1, rfl, by decide⟩

/-- Account 1 keeps its seat in epoch 1, which begins at slot 4. -/
theorem attested_weight_exact_kept :
    ∃ n c, run (step (engineParams [2, 1])) (genesis (engineParams [2, 1])) forkInputs = some n ∧
      newCommitmentVerifier (sampleEngine [2, 1]) 2 = some c ∧
      (∀ r ∈ [sampleResponse 3, sampleResponse 4],
        Produced (sampleEngine [2, 1]) (engineParams [2, 1]) n 2 r) ∧
      c.verifyChain (sampleEngine [2, 1]) [sampleResponse 3, sampleResponse 4] =
        [some 1, some 1] := by
  obtain ⟨n, hn, hproduced⟩ := produced_fork [2, 1] (by decide +kernel)
  have htracked : (tracked (engineParams [2, 1]) forkInputs).2 = [newAttestation lastBlock] := by
    decide +kernel
  refine ⟨n, _, hn, rfl, hproduced, ?_⟩
  apply attested_weight_exact hn (fun _ => rfl) rfl hproduced
  · simp [sampleResponse]
  · intro r _ id a ha
    obtain rfl := mem_singleton.mp (htracked ▸ ha.1)
    exact keyKnown_lastBlock [2, 1]
  · intro r hr id a ha
    obtain rfl := mem_singleton.mp (htracked ▸ ha.1)
    simp only [mem_cons, not_mem_nil, or_false] at hr
    rcases hr with rfl | rfl
    · exact ⟨[1], rfl, by decide⟩
    · exact ⟨[2, 1], rfl, by decide⟩

/-- Account 2 takes the only seat in epoch 1: the attestation of account 1 still has its
    weight in slot 4, but is not counted by the verifier. -/
theorem attested_weight_drops_rotated :
    ∃ n c, run (step (engineParams [2])) (genesis (engineParams [2])) forkInputs = some n ∧
      newCommitmentVerifier (sampleEngine [2]) 2 = some c ∧
      (∀ r ∈ [sampleResponse 3, sampleResponse 4],
        Produced (sampleEngine [2]) (engineParams [2]) n 2 r) ∧
      (∀ a ∈ (tracked (engineParams [2]) forkInputs).2, KeyKnown (sampleEngine [2]) 2 a) ∧
      (∀ epoch, ((sampleEngine [2]).committeeInEpoch epoch).isSome) ∧
      (sampleResponse 4).commitment.weight = 1 ∧
      c.verifyChain (sampleEngine [2]) [sampleResponse 3, sampleResponse 4] =
        [some 1, some 0] := by
  obtain ⟨n, hn, hproduced⟩ := produced_fork [2] (by decide +kernel)
  have htracked : (tracked (engineParams [2]) forkInputs).2 = [newAttestation lastBlock] := by
    decide +kernel
  refine ⟨n, _, hn, rfl, hproduced, ?_, fun _ => rfl, rfl, by decide +kernel⟩
  intro a ha
  rw [htracked] at ha
  obtain rfl := mem_singleton.mp ha
  exact keyKnown_lastBlock [2]

end AxonCore.Attestations
