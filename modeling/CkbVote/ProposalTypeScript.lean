import CkbVote.VoteTypeScript

/-!
# The proposal type script

The on-chain script of a proposal cell.  A transaction that has the script
among its outputs creates the proposal, one that has it among its inputs only
settles it, and one with both is refused.  The checks of the script standard
library and of the proof verifier that are called here are parameters
(`External`).

`creation_of_run` and `settlement_of_run` state what an accepted run of either
kind has checked.
-/

namespace CkbVote

open Octets Molecule

namespace ProposalTypeScript

inductive Error
  | appearsOnBothSides
  | typeIdInvalid
  | argsInvalid
  | witnessInvalid
  | proofVerifyFailed
  | proposalMismatch
  | headerDepMissing
  | headerMismatch
  | scriptMismatch
  | notPassed
  | multipleProposalOutputs
  | proposalDataInvalid
deriving DecidableEq, Repr

/-- `check_type_id(offset, length)` of the script standard library, and
`PlonkVerifier::verify` of proof, public values and verifying key hash under the
fixed PLONK key. -/
structure External where
  checkTypeId : (rtx : ResolvedTx) → (script : Bytes) → (offset length : Nat) → Bool
  plonkVerify : (proof publicValues : Bytes) → (vkHash : List Char) → Bool

/-- `hex::encode`. -/
def hexEncode (b : Bytes) : List Char :=
  b.flatMap fun x => [Nat.digitChar (x.toNat / 16), Nat.digitChar (x.toNat % 16)]

def verifySp1VkHash (_vkHash : Bytes) : ScriptRun Error Unit := .ok ()
def verifyVoteCellScript (_proposal : Bytes) : ScriptRun Error Unit := .ok ()
def verifyDuration (_proposal : Bytes) : ScriptRun Error Unit := .ok ()
def verifyAmount (_proposal : Bytes) : ScriptRun Error Unit := .ok ()
def verifyMinimalRequirement (_proposal : Bytes) : ScriptRun Error Unit := .ok ()

/-- `load_header(i, Source::HeaderDep)`. -/
def loadHeader (rtx : ResolvedTx) (i : Nat) : Except SysError Bytes :=
  match rtx.headerDeps[i]? with
  | none => .error .indexOutOfBound
  | some header =>
      match HeaderReader.verify false header with
      | .ok () => .ok header
      | .error _ => .error .encoding

/-- A header that loads is the dep at that index. -/
theorem headerDep_of_loadHeader {rtx : ResolvedTx} {i : Nat} {header : Bytes}
    (h : loadHeader rtx i = .ok header) : rtx.headerDeps[i]? = some header := by
  unfold loadHeader at h
  cases hget : rtx.headerDeps[i]? with
  | none => simp [hget] at h
  | some found =>
      simp only [hget] at h
      split at h
      · exact congrArg some (Except.ok.inj h)
      · cases h

section Code

variable [Blake2b] (ext : External)

/-- `load_witness_args(0, Source::GroupInput)`. -/
def loadWitnessArgs (rtx : ResolvedTx) (script : Bytes) : Except SysError Bytes :=
  match (firstGroupInput rtx script).bind fun i => rtx.tx.witnesses[i]? with
  | none => .error .indexOutOfBound
  | some witness =>
      match WitnessArgsReader.verify false witness with
      | .ok () => .ok witness
      | .error _ => .error .encoding

def verifyCreation (rtx : ResolvedTx) (script args : Bytes) : ScriptRun Error Unit := do
  let scriptHash := blake2b256 script
  if !ext.checkTypeId rtx script 0 20 then .error (.exit .typeIdInvalid)
  else
    let proposalOutputCount ←
      queryCount Cell.loadTypeHash (fun h => h == some scriptHash) rtx.tx.outputs
    if proposalOutputCount ≠ 1 then .error (.exit .multipleProposalOutputs)
    else
      let cellData ← orExit .proposalDataInvalid
        (loadAt (group script rtx.tx.outputs) 0 Cell.loadData)
      let proposal ← orExit .proposalDataInvalid (fromSlice ProposalReader.verify cellData)
      verifySp1VkHash (slice args 20 52)
      verifyVoteCellScript proposal
      verifyDuration proposal
      verifyAmount proposal
      verifyMinimalRequirement proposal
      .ok ()

/-- The branch of `run` that settles a proposal. -/
def verifySettlement (rtx : ResolvedTx) (script args : Bytes) : ScriptRun Error Unit := do
  let witness ← orExit .witnessInvalid (loadWitnessArgs rtx script)
  match toOpt (← orPanic (WitnessArgsReader.inputType witness)) with
  | none => .error (.exit .witnessInvalid)
  | some inputType =>
      let rawWitness ← orPanic (rawData inputType)
      let proposalWitness ←
        orExit .witnessInvalid (fromSlice ProposalWitnessReader.verify rawWitness)
      let proof ← orPanic (ProposalWitnessReader.proof proposalWitness >>= rawData)
      let publicValues ← orPanic (ProposalWitnessReader.publicValues proposalWitness)
      let vkHashHex := '0' :: 'x' :: hexEncode (slice args 20 52)
      let cellData ← orExit .proposalMismatch (loadAt (group script rtx.inputs) 0 Cell.loadData)
      if (← orPanic (PublicValuesReader.proposal publicValues)) ≠ cellData then
        .error (.exit .proposalMismatch)
      else
        let startHeader ← orExit .headerDepMissing (loadHeader rtx 0)
        let endHeader ← orExit .headerDepMissing (loadHeader rtx 1)
        let startHash := blake2b256 startHeader
        let endHash := blake2b256 endHeader
        if (← orPanic (PublicValuesReader.startBlockHash publicValues)) ≠ startHash.val then
          .error (.exit .headerMismatch)
        else if (← orPanic (PublicValuesReader.endBlockHash publicValues)) ≠ endHash.val then
          .error (.exit .headerMismatch)
        else if (← orPanic (PublicValuesReader.proposalScript publicValues)) ≠ script then
          .error (.exit .scriptMismatch)
        else if (← orPanic (PublicValuesReader.passed publicValues >>= firstByte)) ≠ 1 then
          .error (.exit .notPassed)
        else if !ext.plonkVerify proof publicValues vkHashHex then
          .error (.exit .proofVerifyFailed)
        else .ok ()

/-- `run`. -/
def run (rtx : ResolvedTx) (script : Bytes) : ScriptRun Error Unit := do
  let script ← orExit .argsInvalid (checkScript script)
  let args ← orPanic (scriptArgs script)
  if args.length ≠ 52 then .error (.exit .argsInvalid)
  else
    let scriptHash := blake2b256 script
    let inInputs ← queryAny Cell.loadTypeHash (fun h => h == some scriptHash) rtx.inputs
    let inOutputs ← queryAny Cell.loadTypeHash (fun h => h == some scriptHash) rtx.tx.outputs
    if inInputs && inOutputs then .error (.exit .appearsOnBothSides)
    else if inOutputs then verifyCreation ext rtx script args
    else verifySettlement ext rtx script args

/-! ## What acceptance means -/

/-- What a run that accepts a creation has checked. -/
structure Creation (rtx : ResolvedTx) (script : Bytes) : Prop where
  no_input : group script rtx.inputs = []
  type_id : ext.checkTypeId rtx script 0 20 = true
  one_output : (group script rtx.tx.outputs).length = 1

/-- What a run that accepts a settlement has checked. -/
structure Settlement (rtx : ResolvedTx) (script : Bytes) (cell : Cell) (publicValues : Bytes) :
    Prop where
  first_input : (group script rtx.inputs)[0]? = some cell
  values_ok : PublicValuesReader.verify false publicValues = .ok ()
  proposal : PublicValuesReader.proposal publicValues = .ok cell.data
  start_hash : ∃ header, rtx.headerDeps[0]? = some header ∧
    PublicValuesReader.startBlockHash publicValues = .ok (blake2b256 header).val
  end_hash : ∃ header, rtx.headerDeps[1]? = some header ∧
    PublicValuesReader.endBlockHash publicValues = .ok (blake2b256 header).val
  script_eq : PublicValuesReader.proposalScript publicValues = .ok script
  passed : ∃ slice, PublicValuesReader.passed publicValues = .ok slice ∧ firstByte slice = .ok 1
  proof : ∃ proof args, scriptArgs script = .ok args ∧
    ext.plonkVerify proof publicValues ('0' :: 'x' :: hexEncode (slice args 20 52)) = true

variable {ext} {rtx : ResolvedTx} {script : Bytes}

/-- The `any` over type hashes asks whether the group is empty. -/
theorem queryAny_typeHash (cells : List Cell) :
    (queryAny Cell.loadTypeHash (fun h => h == some (blake2b256 script)) cells :
      ScriptRun Error Bool) = .ok (decide (group script cells ≠ [])) := by
  induction cells with
  | nil => rfl
  | cons cell cells ih =>
      simp only [queryAny, Cell.loadTypeHash, orPanic, ok_bind]
      by_cases hcell : cell.typeHash = some (blake2b256 script)
      · simp [group, hcell]
      · rw [if_neg (by simpa using hcell), ih]
        simp [group, hcell]

/-- The `count` over type hashes is the size of the group. -/
theorem queryCount_typeHash (cells : List Cell) :
    (queryCount Cell.loadTypeHash (fun h => h == some (blake2b256 script)) cells :
      ScriptRun Error Nat) = .ok (group script cells).length := by
  induction cells with
  | nil => rfl
  | cons cell cells ih =>
      simp only [queryCount, Cell.loadTypeHash, orPanic, ok_bind, ih]
      by_cases hcell : cell.typeHash = some (blake2b256 script) <;> simp [group, hcell]

/-- **Creation.**  A run that accepts a transaction with the script among its
outputs. -/
theorem creation_of_run (h : run ext rtx script = .ok ())
    (hout : group script rtx.tx.outputs ≠ []) : Creation ext rtx script := by
  obtain ⟨loaded, hload, h⟩ := bind_eq_ok.mp h
  obtain ⟨-, rfl⟩ := checkScript_eq_ok.mp (orExit_eq_ok.mp hload)
  obtain ⟨args, -, h⟩ := bind_eq_ok.mp h
  obtain ⟨-, h⟩ := guard_eq_ok.mp h
  simp only [queryAny_typeHash, ok_bind, hout, ne_eq, not_false_eq_true, decide_true,
    Bool.and_true] at h
  obtain ⟨hin, h⟩ := guard_eq_ok.mp h
  rw [if_pos trivial] at h
  obtain ⟨htypeId, h⟩ := guard_eq_ok.mp h
  simp only [queryCount_typeHash, ok_bind] at h
  obtain ⟨hone, -⟩ := guard_eq_ok.mp h
  exact ⟨by simpa using hin, by simpa using htypeId, not_not.mp hone⟩

/-- **Settlement.**  A run that accepts a transaction with the script among its
inputs. -/
theorem settlement_of_run (h : run ext rtx script = .ok ())
    (hin : group script rtx.inputs ≠ []) :
    ∃ cell publicValues, Settlement ext rtx script cell publicValues := by
  obtain ⟨loaded, hload, h⟩ := bind_eq_ok.mp h
  obtain ⟨-, rfl⟩ := checkScript_eq_ok.mp (orExit_eq_ok.mp hload)
  obtain ⟨args, hargs, h⟩ := bind_eq_ok.mp h
  obtain ⟨-, h⟩ := guard_eq_ok.mp h
  simp only [queryAny_typeHash, ok_bind, hin, ne_eq, not_false_eq_true, decide_true,
    Bool.true_and] at h
  obtain ⟨hout, h⟩ := guard_eq_ok.mp h
  rw [if_neg hout] at h
  obtain ⟨witness, -, h⟩ := bind_eq_ok.mp h
  obtain ⟨inputType, -, h⟩ := bind_eq_ok.mp h
  cases hopt : toOpt inputType with
  | none => simp [hopt] at h
  | some inputType =>
      simp only [hopt] at h
      obtain ⟨rawWitness, -, h⟩ := bind_eq_ok.mp h
      obtain ⟨proposalWitness, hwitness, h⟩ := bind_eq_ok.mp h
      obtain ⟨proof, -, h⟩ := bind_eq_ok.mp h
      obtain ⟨publicValues, hvalues, h⟩ := bind_eq_ok.mp h
      obtain ⟨cellData, hdata, h⟩ := bind_eq_ok.mp h
      obtain ⟨pvProposal, hproposal, h⟩ := bind_eq_ok.mp h
      obtain ⟨hproposalEq, h⟩ := guard_eq_ok.mp h
      obtain ⟨startHeader, hstart, h⟩ := bind_eq_ok.mp h
      obtain ⟨endHeader, hend, h⟩ := bind_eq_ok.mp h
      obtain ⟨pvStart, hpvStart, h⟩ := bind_eq_ok.mp h
      obtain ⟨hstartEq, h⟩ := guard_eq_ok.mp h
      obtain ⟨pvEnd, hpvEnd, h⟩ := bind_eq_ok.mp h
      obtain ⟨hendEq, h⟩ := guard_eq_ok.mp h
      obtain ⟨pvScript, hpvScript, h⟩ := bind_eq_ok.mp h
      obtain ⟨hscriptEq, h⟩ := guard_eq_ok.mp h
      obtain ⟨pvPassed, hpvPassed, h⟩ := bind_eq_ok.mp h
      obtain ⟨hpassedEq, h⟩ := guard_eq_ok.mp h
      obtain ⟨hplonk, -⟩ := guard_eq_ok.mp h
      obtain ⟨cell, hcell, hcellData⟩ := loadAt_eq_ok.mp (orExit_eq_ok.mp hdata)
      obtain rfl : cell.data = cellData := Except.ok.inj hcellData
      obtain ⟨hwitnessOk, rfl⟩ := fromSlice_eq_ok.mp (orExit_eq_ok.mp hwitness)
      obtain ⟨hfield, hfieldOk⟩ := Table.field_of_verify hwitnessOk 1 (by simp)
      obtain rfl : part rawWitness 1 = publicValues :=
        Except.ok.inj (hfield.symm.trans (orPanic_eq_ok.mp hvalues))
      obtain ⟨passedSlice, hpassedSlice, hpassedByte⟩ := bind_eq_ok.mp (orPanic_eq_ok.mp hpvPassed)
      refine ⟨cell, part rawWitness 1, hcell, hfieldOk, ?_, ⟨startHeader, ?_, ?_⟩,
        ⟨endHeader, ?_, ?_⟩, ?_, ⟨passedSlice, hpassedSlice, ?_⟩, proof, args, ?_, ?_⟩
      · rw [orPanic_eq_ok.mp hproposal, not_not.mp hproposalEq]
      · exact headerDep_of_loadHeader (orExit_eq_ok.mp hstart)
      · rw [orPanic_eq_ok.mp hpvStart, not_not.mp hstartEq]
      · exact headerDep_of_loadHeader (orExit_eq_ok.mp hend)
      · rw [orPanic_eq_ok.mp hpvEnd, not_not.mp hendEq]
      · rw [orPanic_eq_ok.mp hpvScript, not_not.mp hscriptEq]
      · rw [hpassedByte, not_not.mp hpassedEq]
      · exact orPanic_eq_ok.mp hargs
      · simpa using hplonk

end Code

end ProposalTypeScript

end CkbVote
