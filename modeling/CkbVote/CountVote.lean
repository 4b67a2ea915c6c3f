import CkbVote.Types

/-!
# Counting votes

`find_proposal` and `count_vote` of the verification crate, over the unchecked
readers: the guest reads the contents of transactions that no verifier has
looked at, so every read may panic.

blake2b-256 with the `ckb-default-hash` personalization is a parameter, the
class `Blake2b`; nothing here depends on which function it is.
-/

namespace CkbVote

open Octets Molecule

/-- `[u8; 32]`. -/
abbrev Hash32 := FixedBytes 32

/-- A serialized out point, `[u8; 36]`. -/
abbrev OutPoint := FixedBytes 36

instance : Std.TransOrd Hash32 := inferInstanceAs (Std.TransOrd (FixedBytes 32))

instance : Std.TransOrd OutPoint := inferInstanceAs (Std.TransOrd (FixedBytes 36))

/-- blake2b-256 with CKB's personalization. -/
class Blake2b where
  digest : Bytes → Hash32

section Code

variable [Blake2b]

def blake2b256 (data : Bytes) : Hash32 := Blake2b.digest data

/-- The first 20 bytes of the hash. -/
def blake160 (data : Bytes) : FixedBytes 20 :=
  ⟨(blake2b256 data).val.take 20, by simp⟩

/-! ## find_proposal -/

/-- One turn of the loop over the outputs of a transaction: `some` leaves
`find_proposal` with that result. -/
def proposalAt (outputs outputsData proposalScript : Bytes) (i : Nat) :
    Run (Option (Option Bytes)) := do
  match ← DynVec.get outputs i with
  | none => .error (.expect "should exist")
  | some output =>
      match toOpt (← CellOutputReader.type_ output) with
      | none => .ok none
      | some typeScript =>
          if typeScript = proposalScript then
            match ← DynVec.get outputsData i with
            | none => .ok (some none)
            | some data =>
                let content ← rawData data
                .ok (some (fromCompatibleSlice ProposalReader.verify content).toOption)
          else .ok none

/-- One turn of the loop over the transactions of the first block. -/
def findInTransaction (proposalScript raw : Bytes) : Run (Option (Option Bytes)) := do
  let outputs ← RawTransactionReader.outputs raw
  let outputsData ← RawTransactionReader.outputsData raw
  findRange (proposalAt outputs outputsData proposalScript) (← itemCount outputs) 0

/-- Element `k` of a transactions vector, down to its raw transaction. -/
def rawTransaction (txs : Bytes) (k : Nat) : Run Bytes := do
  let tx ← DynVec.getUnchecked txs k
  TransactionReader.raw tx

def findProposal (blocks proposalScript : Bytes) : Run (Option Bytes) := do
  match ← DynVec.get blocks 0 with
  | none => .ok none
  | some firstBlock =>
      let txs ← BlockReader.transactions firstBlock
      let found ← findRange (fun k => do
        let raw ← rawTransaction txs k
        findInTransaction proposalScript raw) (← itemCount txs) 0
      .ok (found.getD none)

/-! ## count_vote -/

/-- The result of a count. -/
structure VoteResult where
  proposal : Bytes
  yesVote : Nat
  noVote : Nat
  passed : Bool
deriving DecidableEq, Repr

/-- What `count_vote` reads of the proposal before it looks at the blocks. -/
structure Poll where
  voteCodeHash : Bytes
  voteHashType : Bytes
  minimalReq : Nat
  duration : Nat
  proposalBlake160 : FixedBytes 20
deriving DecidableEq

/-- `vote_map` and `dao_outpoint_to_voter`. -/
structure Maps where
  voteMap : Std.ExtTreeMap Hash32 (UInt8 × Nat)
  daoOutpointToVoter : Std.ExtTreeMap OutPoint Hash32

def Maps.empty : Maps := ⟨∅, ∅⟩

/-- `u64::from_le_bytes`, `u32::from_le_bytes` and `u16::from_le_bytes` of a
slice that is turned into an array first. -/
def fromLeBytes (width : Nat) (message : String) (b : Bytes) : Run Nat := do
  let array ← toFixed width (.expect message) b
  .ok (leNat array.val)

/-- `slice[0]`. -/
def firstByte : Bytes → Run UInt8
  | [] => .error .sliceIndex
  | b :: _ => .ok b

/-- The out point an input spends. -/
def inputOutPoint (inputs : Bytes) (k : Nat) : Run OutPoint := do
  let input ← FixVec.getUnchecked 44 inputs k
  toFixed 36 (.expect "OutPoint is always 36 bytes") (← CellInputReader.previousOutput input)

/-- One input: the vote that names the deposit it spends is removed. -/
def spendInput (maps : Maps) (op : OutPoint) : Maps :=
  match maps.daoOutpointToVoter[op]? with
  | some voterLockHash =>
      ⟨maps.voteMap.erase voterLockHash, maps.daoOutpointToVoter.erase op⟩
  | none => maps

/-- Whether a type script is the vote script of this poll. -/
def isVoteScript (poll : Poll) (typeScript : Bytes) : Run Bool := do
  if (← ScriptReader.codeHash typeScript) ≠ poll.voteCodeHash then .ok false
  else if (← ScriptReader.hashType typeScript) ≠ poll.voteHashType then .ok false
  else .ok ((← rawData (← ScriptReader.args typeScript)) == poll.proposalBlake160.val)

/-- The lock and the vote data of output `j` when it is a vote cell; the guards
are those that `continue` the loop. -/
def voteOutput (poll : Poll) (outputs outputsData : Bytes) (j : Nat) :
    Run (Option (Bytes × Bytes)) := do
  match ← DynVec.get outputs j with
  | none => .error (.expect "should exist")
  | some output =>
      match toOpt (← CellOutputReader.type_ output) with
      | none => .ok none
      | some typeScript =>
          if (← isVoteScript poll typeScript) then
            match ← DynVec.get outputsData j with
            | none => .ok none
            | some data =>
                match fromCompatibleSlice VoteReader.verify (← rawData data) with
                | .error _ => .ok none
                | .ok vote =>
                    let lock ← CellOutputReader.lock output
                    .ok (some (lock, vote))
          else .ok none

/-- The out point that entry `k` of `dao_index` names among the transaction's
own cell deps; an index out of range names none. -/
def namedOutPoint (cellDeps daoIndex : Bytes) (k : Nat) : Run (Option OutPoint) := do
  let entry ← FixVec.getUnchecked 2 daoIndex k
  let idx ← fromLeBytes 2 "called `Result::unwrap()` on an `Err` value" entry
  match ← FixVec.get 37 cellDeps idx with
  | none => .ok none
  | some cellDep =>
      let op ← toFixed 36 (.expect "OutPoint is always 36 bytes") (← CellDepReader.outPoint cellDep)
      .ok (some op)

/-- One turn of the loop over `dao_index`. -/
def insertNamed (cellDeps daoIndex : Bytes) (voterLockHash : Hash32) (k : Nat)
    (owners : Std.ExtTreeMap OutPoint Hash32) : Run (Std.ExtTreeMap OutPoint Hash32) := do
  match ← namedOutPoint cellDeps daoIndex k with
  | none => .ok owners
  | some op => .ok (owners.insert op voterLockHash)

/-- Recording a recognised vote: first the deposits it names, then the vote. -/
def recordVote (cellDeps lock vote : Bytes) (maps : Maps) : Run Maps := do
  let voterLockHash := blake2b256 lock
  let direction ← firstByte (← VoteReader.vote vote)
  let amount ← fromLeBytes 8 "Uint64 is 8 bytes" (← VoteReader.amount vote)
  let daoIndex ← VoteReader.daoIndex vote
  let daoOutpointToVoter ← forRange (insertNamed cellDeps daoIndex voterLockHash)
    (← FixVec.itemCount daoIndex) 0 maps.daoOutpointToVoter
  .ok ⟨maps.voteMap.insert voterLockHash (direction, amount), daoOutpointToVoter⟩

/-- One turn of the loop over the inputs. -/
def processInput (inputs : Bytes) (k : Nat) (maps : Maps) : Run Maps := do
  let op ← inputOutPoint inputs k
  .ok (spendInput maps op)

/-- One turn of the loop over the outputs. -/
def processOutput (poll : Poll) (outputs outputsData cellDeps : Bytes) (j : Nat) (maps : Maps) :
    Run Maps := do
  match ← voteOutput poll outputs outputsData j with
  | none => .ok maps
  | some (lock, vote) => recordVote cellDeps lock vote maps

/-- The body of the transaction loop: inputs first, then outputs. -/
def processTransaction (poll : Poll) (raw : Bytes) (maps : Maps) : Run Maps := do
  let inputs ← RawTransactionReader.inputs raw
  let maps ← forRange (processInput inputs) (← FixVec.itemCount inputs) 0 maps
  let outputs ← RawTransactionReader.outputs raw
  let outputsData ← RawTransactionReader.outputsData raw
  let cellDeps ← RawTransactionReader.cellDeps raw
  forRange (processOutput poll outputs outputsData cellDeps) (← itemCount outputs) 0 maps

/-- The body of the block loop. -/
def processBlock (poll : Poll) (block : Bytes) (maps : Maps) : Run Maps := do
  let txs ← BlockReader.transactions block
  forRange (fun k maps => do
    let raw ← rawTransaction txs k
    processTransaction poll raw maps) (← itemCount txs) 0 maps

/-- `blocks.get(i).expect("should exist")`. -/
def blockAt (blocks : Bytes) (i : Nat) : Run Bytes := do
  match ← DynVec.get blocks i with
  | none => .error (.expect "should exist")
  | some block => .ok block

/-- The loop over the blocks. -/
def tallyBlocks (poll : Poll) (blocks : Bytes) : Run Maps := do
  forRange (fun i maps => do
    let block ← blockAt blocks i
    processBlock poll block maps) (← itemCount blocks) 0 Maps.empty

/-- `u64::saturating_add`. -/
def saturatingAdd (a b : Nat) : Nat := min (a + b) (2 ^ 64 - 1)

/-- `u64::MAX`. -/
def maxU64 : Nat := 2 ^ 64 - 1

omit [Blake2b] in
/-- What was cut off once is not missed by a later cut. -/
theorem saturatingAdd_min (a b : Nat) :
    saturatingAdd (min a maxU64) b = min (a + b) maxU64 := by
  simp only [saturatingAdd, maxU64]
  omega

omit [Blake2b] in
/-- Saturating sums are cut off once, whatever the order. -/
theorem foldl_saturatingAdd (l : List Nat) (a : Nat) :
    l.foldl saturatingAdd (min a maxU64) = min (a + l.sum) maxU64 := by
  induction l generalizing a with
  | nil => simp
  | cons b l ih => rw [List.foldl_cons, saturatingAdd_min, ih, List.sum_cons, Nat.add_assoc]

/-- The two sums over `vote_map` in key order. -/
def sumVotes (voteMap : Std.ExtTreeMap Hash32 (UInt8 × Nat)) : Nat × Nat :=
  voteMap.foldl (fun sums _ vote =>
    if vote.1 = 1 then (saturatingAdd sums.1 vote.2, sums.2)
    else (sums.1, saturatingAdd sums.2 vote.2)) (0, 0)

/-- The verdict.  The minimal requirement is in CKBytes, votes are in shannon,
and the product is taken without an overflow check. -/
def verdict (proposal : Bytes) (minimalReq : Nat) (maps : Maps) : VoteResult :=
  let (yesVote, noVote) := sumVotes maps.voteMap
  let totalVote := saturatingAdd yesVote noVote
  let minShannon := minimalReq * 100000000 % 2 ^ 64
  ⟨proposal, yesVote, noVote, decide (yesVote > noVote) && decide (totalVote > minShannon)⟩

/-- The fields of the proposal that a count uses. -/
def readPoll (proposal proposalScript : Bytes) : Run Poll := do
  let voteCodeHash ← ProposalReader.voteCellCodeHash proposal
  let voteHashType ← ProposalReader.voteCellHashType proposal
  let minimalReq ← fromLeBytes 8 "Uint64 is 8 bytes" (← ProposalReader.minimalRequirement proposal)
  let duration ← fromLeBytes 4 "Uint32 is 4 bytes" (← ProposalReader.duration proposal)
  .ok ⟨voteCodeHash, voteHashType, minimalReq, duration, blake160 proposalScript⟩

/-- `count_vote`.  When no proposal is found the script's code hash is still
read, for the message. -/
def countVote (blocks proposalScript : Bytes) : Run VoteResult := do
  match ← findProposal blocks proposalScript with
  | none =>
      let _ ← ScriptReader.codeHash proposalScript
      .ok ⟨Proposal.default, 0, 0, false⟩
  | some proposal =>
      let poll ← readPoll proposal proposalScript
      if (← itemCount blocks) ≠ poll.duration + 1 then .ok ⟨proposal, 0, 0, false⟩
      else
        let maps ← tallyBlocks poll blocks
        .ok (verdict proposal poll.minimalReq maps)

/-- The run of `count_vote` finds a proposal and gets past the block-count
check. -/
def PastBlockCheck (blocks proposalScript : Bytes) (poll : Poll) : Prop :=
  ∃ proposal, findProposal blocks proposalScript = .ok (some proposal) ∧
    readPoll proposal proposalScript = .ok poll ∧ itemCount blocks = .ok (poll.duration + 1)

end Code

end CkbVote
