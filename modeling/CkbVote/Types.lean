import CkbVote.MoleculeBuild

/-!
# The molecule schema of the voting system

The readers of `blockchain.mol` and `types.mol` that the guest program, the
host and the two scripts use.  Every reader is an instance of the generic
verifiers and accessors with the sizes, the field order and the reader name of
its declaration; `compatible` is passed down the way the generated code does.

A reader over a byte string is the byte string itself, so an accessor is a
function from a slice to a slice that may panic.
-/

namespace CkbVote

open Octets Molecule

/-- `from_slice`: the slice itself once it verifies without extra fields. -/
def fromSlice (verify : Bool → Bytes → VerificationResult) (s : Bytes) :
    Except VerificationError Bytes := do
  verify false s
  .ok s

/-- `from_compatible_slice`: extra fields are admitted. -/
def fromCompatibleSlice (verify : Bool → Bytes → VerificationResult) (s : Bytes) :
    Except VerificationError Bytes := do
  verify true s
  .ok s

/-- `from_slice` returns the string itself, once it verifies strictly. -/
theorem fromSlice_eq_ok {verify : Bool → Bytes → VerificationResult} {s t : Bytes} :
    fromSlice verify s = .ok t ↔ verify false s = .ok () ∧ s = t := by
  simp [fromSlice, bind_unit_eq_ok]

/-- `from_compatible_slice` returns the string itself, once it verifies with extra
fields admitted. -/
theorem fromCompatibleSlice_eq_ok {verify : Bool → Bytes → VerificationResult} {s t : Bytes} :
    fromCompatibleSlice verify s = .ok t ↔ verify true s = .ok () ∧ s = t := by
  simp [fromCompatibleSlice, bind_unit_eq_ok]

/-! ## Arrays, structs and vectors of fixed-size items -/

def ByteReader.verify (_compatible : Bool) := verifyFixed "ByteReader" 1
def Uint16Reader.verify (_compatible : Bool) := verifyFixed "Uint16Reader" 2
def Uint32Reader.verify (_compatible : Bool) := verifyFixed "Uint32Reader" 4
def Uint64Reader.verify (_compatible : Bool) := verifyFixed "Uint64Reader" 8
def Byte32Reader.verify (_compatible : Bool) := verifyFixed "Byte32Reader" 32
def OutPointReader.verify (_compatible : Bool) := verifyFixed "OutPointReader" 36
def HeaderReader.verify (_compatible : Bool) := verifyFixed "HeaderReader" 208

def BytesReader.verify (_compatible : Bool) := verifyFixVec "BytesReader" 1
def Byte32VecReader.verify (_compatible : Bool) := verifyFixVec "Byte32VecReader" 32
def Uint16VecReader.verify (_compatible : Bool) := verifyFixVec "Uint16VecReader" 2
def ProposalShortIdVecReader.verify (_compatible : Bool) :=
  verifyFixVec "ProposalShortIdVecReader" 10
def OutPointVecReader.verify (_compatible : Bool) := verifyFixVec "OutPointVecReader" 36
def CellDepVecReader.verify (_compatible : Bool) := verifyFixVec "CellDepVecReader" 37
def CellInputVecReader.verify (_compatible : Bool) := verifyFixVec "CellInputVecReader" 44

/-- `CellInput { since: Uint64, previous_output: OutPoint }`. -/
def CellInputReader.previousOutput (s : Bytes) : Run Bytes := readSlice s 8 44

/-- `CellDep { out_point: OutPoint, dep_type: byte }`. -/
def CellDepReader.outPoint (s : Bytes) : Run Bytes := readSlice s 0 36
def CellDepReader.depType (s : Bytes) : Run Bytes := readSlice s 36 37

/-- `Header { raw: RawHeader, nonce: Uint128 }`. -/
def HeaderReader.raw (s : Bytes) : Run Bytes := readSlice s 0 192
def HeaderReader.nonce (s : Bytes) : Run Bytes := readSlice s 192 208

/-- `RawHeader { version: Uint32, compact_target: Uint32, timestamp: Uint64,
number: Uint64, epoch: Uint64, parent_hash: Byte32, transactions_root: Byte32,
proposals_hash: Byte32, extra_hash: Byte32, dao: Byte32 }`. -/
def RawHeaderReader.version (s : Bytes) : Run Bytes := readSlice s 0 4
def RawHeaderReader.compactTarget (s : Bytes) : Run Bytes := readSlice s 4 8
def RawHeaderReader.timestamp (s : Bytes) : Run Bytes := readSlice s 8 16
def RawHeaderReader.number (s : Bytes) : Run Bytes := readSlice s 16 24
def RawHeaderReader.epoch (s : Bytes) : Run Bytes := readSlice s 24 32
def RawHeaderReader.parentHash (s : Bytes) : Run Bytes := readSlice s 32 64
def RawHeaderReader.transactionsRoot (s : Bytes) : Run Bytes := readSlice s 64 96
def RawHeaderReader.proposalsHash (s : Bytes) : Run Bytes := readSlice s 96 128
def RawHeaderReader.extraHash (s : Bytes) : Run Bytes := readSlice s 128 160
def RawHeaderReader.dao (s : Bytes) : Run Bytes := readSlice s 160 192

/-! ## Tables of `blockchain.mol` -/

/-- `Script { code_hash: Byte32, hash_type: byte, args: Bytes }`. -/
def ScriptReader.verify (compatible : Bool) : Bytes → VerificationResult :=
  verifyTable "ScriptReader"
    [Byte32Reader.verify compatible, ByteReader.verify compatible, BytesReader.verify compatible]
    compatible

def ScriptReader.codeHash (s : Bytes) : Run Bytes := Table.field 3 s 0
def ScriptReader.hashType (s : Bytes) : Run Bytes := Table.field 3 s 1
def ScriptReader.args (s : Bytes) : Run Bytes := Table.field 3 s 2

def ScriptOptReader.verify (compatible : Bool) : Bytes → VerificationResult :=
  verifyOption (ScriptReader.verify compatible)

/-- `CellOutput { capacity: Uint64, lock: Script, type_: ScriptOpt }`. -/
def CellOutputReader.verify (compatible : Bool) : Bytes → VerificationResult :=
  verifyTable "CellOutputReader"
    [Uint64Reader.verify compatible, ScriptReader.verify compatible,
      ScriptOptReader.verify compatible]
    compatible

def CellOutputReader.capacity (s : Bytes) : Run Bytes := Table.field 3 s 0
def CellOutputReader.lock (s : Bytes) : Run Bytes := Table.field 3 s 1
def CellOutputReader.type_ (s : Bytes) : Run Bytes := Table.field 3 s 2

def CellOutputVecReader.verify (compatible : Bool) : Bytes → VerificationResult :=
  verifyDynVec "CellOutputVecReader" (CellOutputReader.verify compatible)

def BytesVecReader.verify (compatible : Bool) : Bytes → VerificationResult :=
  verifyDynVec "BytesVecReader" (BytesReader.verify compatible)

/-- `RawTransaction { version: Uint32, cell_deps: CellDepVec, header_deps:
Byte32Vec, inputs: CellInputVec, outputs: CellOutputVec, outputs_data: BytesVec }`. -/
def RawTransactionReader.verify (compatible : Bool) : Bytes → VerificationResult :=
  verifyTable "RawTransactionReader"
    [Uint32Reader.verify compatible, CellDepVecReader.verify compatible,
      Byte32VecReader.verify compatible, CellInputVecReader.verify compatible,
      CellOutputVecReader.verify compatible, BytesVecReader.verify compatible]
    compatible

def RawTransactionReader.cellDeps (s : Bytes) : Run Bytes := Table.field 6 s 1
def RawTransactionReader.headerDeps (s : Bytes) : Run Bytes := Table.field 6 s 2
def RawTransactionReader.inputs (s : Bytes) : Run Bytes := Table.field 6 s 3
def RawTransactionReader.outputs (s : Bytes) : Run Bytes := Table.field 6 s 4
def RawTransactionReader.outputsData (s : Bytes) : Run Bytes := Table.field 6 s 5

/-- `Transaction { raw: RawTransaction, witnesses: BytesVec }`. -/
def TransactionReader.verify (compatible : Bool) : Bytes → VerificationResult :=
  verifyTable "TransactionReader"
    [RawTransactionReader.verify compatible, BytesVecReader.verify compatible] compatible

def TransactionReader.raw (s : Bytes) : Run Bytes := Table.field 2 s 0

def TransactionVecReader.verify (compatible : Bool) : Bytes → VerificationResult :=
  verifyDynVec "TransactionVecReader" (TransactionReader.verify compatible)

/-- `UncleBlock { header: Header, proposals: ProposalShortIdVec }`. -/
def UncleBlockReader.verify (compatible : Bool) : Bytes → VerificationResult :=
  verifyTable "UncleBlockReader"
    [HeaderReader.verify compatible, ProposalShortIdVecReader.verify compatible] compatible

def UncleBlockVecReader.verify (compatible : Bool) : Bytes → VerificationResult :=
  verifyDynVec "UncleBlockVecReader" (UncleBlockReader.verify compatible)

/-- `Block { header: Header, uncles: UncleBlockVec, transactions:
TransactionVec, proposals: ProposalShortIdVec }`. -/
def BlockReader.verify (compatible : Bool) : Bytes → VerificationResult :=
  verifyTable "BlockReader"
    [HeaderReader.verify compatible, UncleBlockVecReader.verify compatible,
      TransactionVecReader.verify compatible, ProposalShortIdVecReader.verify compatible]
    compatible

def BlockReader.header (s : Bytes) : Run Bytes := Table.field 4 s 0
def BlockReader.uncles (s : Bytes) : Run Bytes := Table.field 4 s 1
def BlockReader.transactions (s : Bytes) : Run Bytes := Table.field 4 s 2
def BlockReader.proposals (s : Bytes) : Run Bytes := Table.field 4 s 3

def BytesOptReader.verify (compatible : Bool) : Bytes → VerificationResult :=
  verifyOption (BytesReader.verify compatible)

/-- `WitnessArgs { lock: BytesOpt, input_type: BytesOpt, output_type: BytesOpt }`. -/
def WitnessArgsReader.verify (compatible : Bool) : Bytes → VerificationResult :=
  verifyTable "WitnessArgsReader"
    [BytesOptReader.verify compatible, BytesOptReader.verify compatible,
      BytesOptReader.verify compatible]
    compatible

def WitnessArgsReader.inputType (s : Bytes) : Run Bytes := Table.field 3 s 1

/-! ## Tables of `types.mol` -/

def BlockVecReader.verify (compatible : Bool) : Bytes → VerificationResult :=
  verifyDynVec "BlockVecReader" (BlockReader.verify compatible)

/-- `Vote { vote: byte, amount: Uint64, dao_index: Uint16Vec }`. -/
def VoteReader.verify (compatible : Bool) : Bytes → VerificationResult :=
  verifyTable "VoteReader"
    [ByteReader.verify compatible, Uint64Reader.verify compatible,
      Uint16VecReader.verify compatible]
    compatible

def VoteReader.vote (s : Bytes) : Run Bytes := Table.field 3 s 0
def VoteReader.amount (s : Bytes) : Run Bytes := Table.field 3 s 1
def VoteReader.daoIndex (s : Bytes) : Run Bytes := Table.field 3 s 2

/-- `GuestProgramArguments { blocks: Bytes, witness_root: Byte32Vec,
proposal_script: Script }`. -/
def GuestProgramArgumentsReader.verify (compatible : Bool) : Bytes → VerificationResult :=
  verifyTable "GuestProgramArgumentsReader"
    [BytesReader.verify compatible, Byte32VecReader.verify compatible,
      ScriptReader.verify compatible]
    compatible

def GuestProgramArgumentsReader.blocks (s : Bytes) : Run Bytes := Table.field 3 s 0
def GuestProgramArgumentsReader.witnessRoot (s : Bytes) : Run Bytes := Table.field 3 s 1
def GuestProgramArgumentsReader.proposalScript (s : Bytes) : Run Bytes := Table.field 3 s 2

/-- `Proposal { duration: Uint32, vote_cell_code_hash: Byte32,
vote_cell_hash_type: byte, description: Bytes, receiver: Script, amount: Uint64,
minimal_requirement: Uint64 }`. -/
def ProposalReader.verify (compatible : Bool) : Bytes → VerificationResult :=
  verifyTable "ProposalReader"
    [Uint32Reader.verify compatible, Byte32Reader.verify compatible, ByteReader.verify compatible,
      BytesReader.verify compatible, ScriptReader.verify compatible,
      Uint64Reader.verify compatible, Uint64Reader.verify compatible]
    compatible

def ProposalReader.duration (s : Bytes) : Run Bytes := Table.field 7 s 0
def ProposalReader.voteCellCodeHash (s : Bytes) : Run Bytes := Table.field 7 s 1
def ProposalReader.voteCellHashType (s : Bytes) : Run Bytes := Table.field 7 s 2
def ProposalReader.description (s : Bytes) : Run Bytes := Table.field 7 s 3
def ProposalReader.receiver (s : Bytes) : Run Bytes := Table.field 7 s 4
def ProposalReader.amount (s : Bytes) : Run Bytes := Table.field 7 s 5
def ProposalReader.minimalRequirement (s : Bytes) : Run Bytes := Table.field 7 s 6

/-- `PublicValues { proposal: Proposal, start_block_hash: Byte32,
end_block_hash: Byte32, proposal_script: Script, passed: byte, yes_vote: Uint64,
no_vote: Uint64 }`. -/
def PublicValuesReader.verify (compatible : Bool) : Bytes → VerificationResult :=
  verifyTable "PublicValuesReader"
    [ProposalReader.verify compatible, Byte32Reader.verify compatible,
      Byte32Reader.verify compatible, ScriptReader.verify compatible,
      ByteReader.verify compatible, Uint64Reader.verify compatible,
      Uint64Reader.verify compatible]
    compatible

def PublicValuesReader.proposal (s : Bytes) : Run Bytes := Table.field 7 s 0
def PublicValuesReader.startBlockHash (s : Bytes) : Run Bytes := Table.field 7 s 1
def PublicValuesReader.endBlockHash (s : Bytes) : Run Bytes := Table.field 7 s 2
def PublicValuesReader.proposalScript (s : Bytes) : Run Bytes := Table.field 7 s 3
def PublicValuesReader.passed (s : Bytes) : Run Bytes := Table.field 7 s 4

/-- `ProposalWitness { proof: Bytes, public_values: PublicValues }`. -/
def ProposalWitnessReader.verify (compatible : Bool) : Bytes → VerificationResult :=
  verifyTable "ProposalWitnessReader"
    [BytesReader.verify compatible, PublicValuesReader.verify compatible] compatible

def ProposalWitnessReader.proof (s : Bytes) : Run Bytes := Table.field 2 s 0
def ProposalWitnessReader.publicValues (s : Bytes) : Run Bytes := Table.field 2 s 1

/-! ## Builders -/

def Script.newBuilder (codeHash hashType args : Bytes) : Bytes :=
  build [codeHash, hashType, buildBytes args]

/-- A missing type script is the empty slice. -/
def CellOutput.newBuilder (capacity : Nat) (lock type_ : Bytes) : Bytes :=
  build [leBytes 8 capacity, lock, type_]

def CellInput.newBuilder (since : Nat) (previousOutput : Bytes) : Bytes :=
  leBytes 8 since ++ previousOutput

def CellDep.newBuilder (outPoint : Bytes) (depType : UInt8) : Bytes := outPoint ++ [depType]

def RawTransaction.newBuilder (cellDeps headerDeps inputs outputs outputsData : List Bytes) :
    Bytes :=
  build [leBytes 4 0, buildFixVec cellDeps, buildFixVec headerDeps, buildFixVec inputs,
    build outputs, build (outputsData.map buildBytes)]

/-- A struct is its fields one after the other. -/
def RawHeader.newBuilder (version compactTarget timestamp number epoch parentHash transactionsRoot
    proposalsHash extraHash dao : Bytes) : Bytes :=
  version ++ compactTarget ++ timestamp ++ number ++ epoch ++ parentHash ++ transactionsRoot ++
    proposalsHash ++ extraHash ++ dao

def Header.newBuilder (raw nonce : Bytes) : Bytes := raw ++ nonce

def Transaction.newBuilder (raw : Bytes) (witnesses : List Bytes) : Bytes :=
  build [raw, build (witnesses.map buildBytes)]

def Block.newBuilder (header : Bytes) (transactions : List Bytes) : Bytes :=
  build [header, build [], build transactions, buildFixVec []]

def BlockVec.newBuilder (blocks : List Bytes) : Bytes := build blocks

def Vote.newBuilder (vote : UInt8) (amount : Nat) (daoIndex : List Nat) : Bytes :=
  build [[vote], leBytes 8 amount, buildFixVec (daoIndex.map (leBytes 2))]

def Proposal.newBuilder (duration : Nat) (voteCellCodeHash voteCellHashType description
    receiver : Bytes) (amount minimalRequirement : Nat) : Bytes :=
  build [leBytes 4 duration, voteCellCodeHash, voteCellHashType, buildBytes description, receiver,
    leBytes 8 amount, leBytes 8 minimalRequirement]

def PublicValues.newBuilder (proposal startBlockHash endBlockHash proposalScript passed yesVote
    noVote : Bytes) : Bytes :=
  build [proposal, startBlockHash, endBlockHash, proposalScript, passed, yesVote, noVote]

def GuestProgramArguments.newBuilder (blocks witnessRoot proposalScript : Bytes) : Bytes :=
  build [blocks, witnessRoot, proposalScript]

/-- Built bytes verify. -/
theorem BytesReader.verify_build (compatible : Bool) {content : Bytes}
    (h : content.length < 2 ^ 32) :
    BytesReader.verify compatible (buildBytes content) = .ok () := by
  refine verifyFixVec_eq_ok.mpr ?_
  rw [numberAt_buildBytes h]
  simp [buildBytes]

/-- A built vector of hashes verifies. -/
theorem Byte32VecReader.verify_build (compatible : Bool) {items : List Bytes}
    (hsize : ∀ item ∈ items, item.length = 32) (h : items.length < 2 ^ 32) :
    Byte32VecReader.verify compatible (buildFixVec items) = .ok () :=
  verifyFixVec_eq_ok.mpr (buildFixVec_layout hsize h)

/-! ## Default values -/

/-- `Script::default()`: a zero code hash, hash type 0 and no args. -/
def Script.default : Bytes :=
  [53, 0, 0, 0, 16, 0, 0, 0, 48, 0, 0, 0, 49, 0, 0, 0,
    0, 0, 0, 0, 0, 0, 0, 0, 0, 0, 0, 0, 0, 0, 0, 0, 0, 0, 0, 0, 0, 0, 0, 0, 0, 0, 0, 0, 0, 0, 0, 0,
    0, 0, 0, 0, 0]

/-- `Proposal::default()`. -/
def Proposal.default : Bytes :=
  [142, 0, 0, 0, 32, 0, 0, 0, 36, 0, 0, 0, 68, 0, 0, 0, 69, 0, 0, 0, 73, 0, 0, 0, 126, 0, 0, 0,
    134, 0, 0, 0, 0, 0, 0, 0, 0, 0, 0, 0, 0, 0, 0, 0, 0, 0, 0, 0, 0, 0, 0, 0, 0, 0, 0, 0, 0, 0, 0,
    0, 0, 0, 0, 0, 0, 0, 0, 0, 0, 0, 0, 0, 0, 53, 0, 0, 0, 16, 0, 0, 0, 48, 0, 0, 0, 49, 0, 0, 0,
    0, 0, 0, 0, 0, 0, 0, 0, 0, 0, 0, 0, 0, 0, 0, 0, 0, 0, 0, 0, 0, 0, 0, 0, 0, 0, 0, 0, 0, 0, 0, 0,
    0, 0, 0, 0, 0, 0, 0, 0, 0, 0, 0, 0, 0, 0, 0, 0, 0, 0, 0, 0, 0]

/-- Both defaults pass their own check. -/
theorem defaults_verify : ScriptReader.verify false Script.default = .ok () ∧
    ProposalReader.verify false Proposal.default = .ok () := by
  constructor <;> decide +kernel

end CkbVote
