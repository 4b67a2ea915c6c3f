import CkbVote.VoteTypeScript
import CkbVote.Sdk

/-!
# The transactions of the SDK

`createProposal`, `createVote`, `consumeVote` and `consumeProposal` up to the
transaction that they hand to `signer.sendTransaction`.  `@ckb-ccc` is the
parameter `Library`, and the signer with its client the parameter `Wallet`;
what the functions rely on is stated in `Library.Documented` and
`Wallet.Documented`.  A function that throws returns `none`.
-/

namespace CkbVote

open Octets Molecule

namespace Sdk

/-! ## Configuration -/

inductive HashType
  | type
  | data
  | data1
deriving DecidableEq, Repr

def HashType.name : HashType → String
  | .type => "type"
  | .data => "data"
  | .data1 => "data1"

structure ScriptInfo where
  codeHash : Hash32
  hashType : HashType
  /-- The cell that contains the code. -/
  outPoint : OutPoint

structure NetworkConfig where
  alwaysSuccess : ScriptInfo
  proposalTypeScript : ScriptInfo
  voteTypeScript : ScriptInfo
  /-- Hash of the verifying key of the guest program. -/
  sp1VerifyingKeyHash : Hash32

/-- The `hash_type` byte that a proposal records. -/
def hashTypeToByte (hashType : String) : Option Nat :=
  if hashType = "data" then some 0
  else if hashType = "type" then some 1
  else if hashType = "data1" then some 2
  else if hashType = "data2" then some 3
  else none

/-! ## Transactions, library and wallet -/

/-- `ccc.Transaction`, each output with its data. -/
structure Transaction where
  cellDeps : List CellDep
  headerDeps : List Hash32
  inputs : List CellInput
  outputs : List Cell
  witnesses : List Bytes
deriving DecidableEq

/-- The transaction with a dep; one that is there is not added again. -/
def Transaction.withCellDep (tx : Transaction) (dep : CellDep) : Transaction :=
  if dep ∈ tx.cellDeps then tx else { tx with cellDeps := tx.cellDeps ++ [dep] }

/-- `tx.outputs[0].type = script`. -/
def Transaction.setType (tx : Transaction) (script : Bytes) : Transaction :=
  match tx.outputs with
  | [] => tx
  | output :: outputs => { tx with outputs := { output with type_ := some script } :: outputs }

/-- A transaction with its hash, as a node takes it. -/
def Transaction.sealed (tx : Transaction) (hash : Hash32) : ChainTx :=
  ⟨hash, tx.cellDeps, tx.headerDeps, tx.inputs, tx.outputs, tx.witnesses⟩

/-- What the transactions need of `@ckb-ccc` beside the codecs. -/
structure Library extends Ccc where
  uint16Vec : Codec
  /-- A number array, as a codec takes it. -/
  array : List Nat → Value
  /-- `ccc.Address.fromString(address).script`. -/
  addressFromString : String → Option Value
  /-- `tx.addCellDeps(dep)`. -/
  addCellDeps : Transaction → CellDep → Transaction
  /-- `ccc.CellOutput.from({ capacity, lock, type }, data)`. -/
  cellOutputFrom : (capacity : Nat) → (lock : Bytes) → (type_ : Option Bytes) →
    (data : Bytes) → Cell
  /-- The capacity that `ccc.CellOutput.from` fills in for zero. -/
  minimalCapacity : (lock : Bytes) → (type_ : Option Bytes) → (data : Bytes) → Nat
  /-- `ccc.WitnessArgs.from({ inputType })`. -/
  witnessArgsFrom : Bytes → Bytes

/-- The signer and its client. -/
structure Wallet where
  /-- `signer.getRecommendedAddressObj().script`. -/
  signerLock : Value
  /-- `ccc.Script.fromKnownScript(client, NervosDao, "0x")`. -/
  nervosDao : Bytes
  getCell : OutPoint → Option Cell
  findCellsByLock : (lock type_ : Bytes) → List (OutPoint × Cell)
  /-- `cell.isNervosDao(client, "deposited")`. -/
  isNervosDao : Cell → Bool
  completeInputsByCapacity : Transaction → Option Transaction
  completeFeeBy : Transaction → Option Transaction

/-- What both completions do: they append inputs of the signer without type
scripts, change outputs without type scripts, and cell deps. -/
structure Completes (live : Live) (lock : Bytes) (tx tx' : Transaction) : Prop where
  inputs : ∃ added, tx'.inputs = tx.inputs ++ added ∧ ∀ input ∈ added,
    ∃ cell, live input.previousOutput = some cell ∧ cell.lock = lock ∧ cell.type_ = none
  outputs : ∃ change, tx'.outputs = tx.outputs ++ change ∧ ∀ cell ∈ change, cell.type_ = none
  cellDeps : ∃ deps, tx'.cellDeps = tx.cellDeps ++ deps
  headerDeps : tx'.headerDeps = tx.headerDeps
  witnesses : ∃ more, tx'.witnesses = tx.witnesses ++ more

/-- The type script of the Nervos DAO. -/
def daoType : Bytes :=
  Script.newBuilder VoteTypeScript.daoCodeHash [VoteTypeScript.daoHashType] []

/-- A deposit in the Nervos DAO that has not been withdrawn. -/
structure IsDeposited (lock : Bytes) (cell : Cell) : Prop where
  lock_eq : cell.lock = lock
  type_eq : cell.type_ = some daoType
  data_eq : cell.data = List.replicate 8 0

/-- A wallet over the live cells whose signer has the lock.  For a cell that is
not live, `getCell` may answer what it likes. -/
structure Wallet.Documented (lib : Library) (wallet : Wallet) (live : Live) (lock : Bytes) :
    Prop where
  lock_eq : lib.scriptEncode wallet.signerLock = some lock
  nervosDao_eq : wallet.nervosDao = daoType
  isNervosDao_iff : ∀ cell, cell.type_ = some daoType → cell.data.length = 8 →
    (wallet.isNervosDao cell = true ↔ cell.data = List.replicate 8 0)
  getCell_eq : ∀ op cell, live op = some cell → wallet.getCell op = some cell
  find_mem : ∀ lock type_ op cell, (op, cell) ∈ wallet.findCellsByLock lock type_ ↔
    live op = some cell ∧ cell.lock = lock ∧ cell.type_ = some type_
  find_nodup : ∀ lock type_, ((wallet.findCellsByLock lock type_).map Prod.fst).Nodup
  inputs_complete : ∀ tx tx', wallet.completeInputsByCapacity tx = some tx' →
    Completes live lock tx tx' ∧ (tx.outputs ≠ [] → tx'.inputs ≠ [])
  fee_completes : ∀ tx tx', wallet.completeFeeBy tx = some tx' → Completes live lock tx tx'

def scriptValue (codeHash : Bytes) (hashType : String) (args : Bytes) : Value :=
  .object [("codeHash", .hex codeHash), ("hashType", .str hashType), ("args", .hex args)]

/-- An output; for zero it has the least capacity. -/
def cellOutput (lib : Library) (capacity : Nat) (lock : Bytes) (type_ : Option Bytes)
    (data : Bytes) : Cell :=
  ⟨if capacity = 0 then lib.minimalCapacity lock type_ data else capacity, lock, type_, data⟩

/-- A `WitnessArgs` with an `input_type` and nothing else. -/
def witnessArgs (inputType : Bytes) : Bytes := build [[], buildBytes inputType, []]

/-- Numbers, scripts and witnesses encode as molecule has them. -/
structure Library.Documented (lib : Library) : Prop where
  ccc : lib.toCcc.Documented
  uint8_encode : ∀ n < 256, lib.uint8.encode (.num n) = some [UInt8.ofNat n]
  uint32_encode : ∀ n < 2 ^ 32, lib.uint32.encode (.num n) = some (leBytes 4 n)
  uint64_encode : ∀ n < 2 ^ 64, lib.uint64.encode (.num n) = some (leBytes 8 n)
  uint64_decode : ∀ s : Bytes, s.length = 8 → lib.uint64.decode s = some (.num (leNat s))
  byte32_encode : ∀ s : Bytes, s.length = 32 → lib.byte32.encode (.hex s) = some s
  uint16Vec_encode : ∀ entries : List Nat, entries.length < 2 ^ 32 → (∀ n ∈ entries, n < 2 ^ 16) →
    lib.uint16Vec.encode (lib.array entries) = some (buildFixVec (entries.map (leBytes 2)))
  script_encode : ∀ (codeHash : Bytes) (name : String) (t : UInt8) (args : Bytes),
    codeHash.length = 32 → (name, t) ∈ hashTypeNames →
      (Script.newBuilder codeHash [t] args).length < 2 ^ 32 →
        lib.scriptEncode (scriptValue codeHash name args) =
          some (Script.newBuilder codeHash [t] args)
  addCellDeps_eq : ∀ tx dep, lib.addCellDeps tx dep = tx.withCellDep dep
  cellOutputFrom_eq : ∀ capacity lock type_ data,
    lib.cellOutputFrom capacity lock type_ data = cellOutput lib capacity lock type_ data
  witnessArgsFrom_eq : ∀ inputType : Bytes, 20 + inputType.length < 2 ^ 32 →
    lib.witnessArgsFrom inputType = witnessArgs inputType

/-! ## Building blocks -/

section Build

variable (lib : Library) (wallet : Wallet) (config : NetworkConfig)

def voteCodec : Codec := lib.table [
  ("vote", lib.uint8),
  ("amount", lib.uint64),
  ("daoIndex", lib.uint16Vec)]

/-- `scriptFromInfo`, down to the bytes of the script. -/
def scriptFromInfo (info : ScriptInfo) (args : Bytes) : Option Bytes :=
  lib.scriptEncode (scriptValue info.codeHash.val info.hashType.name args)

def cellDepFromInfo (info : ScriptInfo) : CellDep := ⟨info.outPoint, 0⟩

def cellDepFromOutPoint (outPoint : OutPoint) : CellDep := ⟨outPoint, 0⟩

/-- The UTF-8 bytes of a text. -/
def textEncode (text : String) : Bytes := text.toUTF8.data.toList

/-- A property of a decoded object. -/
def property (name : String) : Value → Option Value
  | .object fields => fields.lookup name
  | _ => none

/-- A decoded `Uint64`. -/
def bigint : Value → Option Nat
  | .num n => some n
  | _ => none

section Hash

variable [Blake2b]

def computeBlake160TypeId (firstInput : CellInput) (outputIndex : Nat) : FixedBytes 20 :=
  blake160 (firstInput.asSlice ++ leBytes 8 outputIndex)

def buildProposalTypeScriptArgs (firstInput : CellInput) (outputIndex : Nat)
    (sp1VerifyingKeyHash : Hash32) : Bytes :=
  (computeBlake160TypeId firstInput outputIndex).val ++ sp1VerifyingKeyHash.val

end Hash

/-! ## Proposals -/

structure CreateProposalParams where
  duration : Nat
  description : String
  /-- The signer's own address when absent. -/
  receiver : Option String
  amount : Nat
  minimalRequirement : Nat

/-- The receiver's lock, before it is encoded. -/
def resolveReceiver (params : CreateProposalParams) : Option Value :=
  match params.receiver with
  | some address => lib.addressFromString address
  | none => some wallet.signerLock

def buildProposalData (params : CreateProposalParams) (receiverLock : Value) : Option Bytes := do
  let voteCellHashType ← hashTypeToByte config.voteTypeScript.hashType.name
  (proposalCodec lib.toCcc).encode (.object [
    ("duration", .num params.duration),
    ("voteCellCodeHash", .hex config.voteTypeScript.codeHash.val),
    ("voteCellHashType", .num voteCellHashType),
    ("description", .hex (textEncode params.description)),
    ("receiver", receiverLock),
    ("amount", .num params.amount),
    ("minimalRequirement", .num params.minimalRequirement)])

/-- The args are known once there is a first input, so they are set between the
two completions. -/
def createProposal [Blake2b] (params : CreateProposalParams) : Option Transaction := do
  let receiverLock ← resolveReceiver lib wallet params
  let alwaysSuccessLock ← scriptFromInfo lib config.alwaysSuccess []
  let placeholderTypeScript ← scriptFromInfo lib config.proposalTypeScript (List.replicate 52 0)
  let proposalData ← buildProposalData lib config params receiverLock
  let proposalOutput := lib.cellOutputFrom 0 alwaysSuccessLock
    (some placeholderTypeScript) proposalData
  let tx : Transaction := ⟨[], [], [], [proposalOutput], []⟩
  let tx := lib.addCellDeps tx (cellDepFromInfo config.alwaysSuccess)
  let tx := lib.addCellDeps tx (cellDepFromInfo config.proposalTypeScript)
  let tx ← wallet.completeInputsByCapacity tx
  match tx.inputs with
  | [] => none
  | firstInput :: _ =>
      let realArgs := buildProposalTypeScriptArgs firstInput 0 config.sp1VerifyingKeyHash
      let tx := tx.setType (← scriptFromInfo lib config.proposalTypeScript realArgs)
      wallet.completeFeeBy tx

structure ConsumeProposalParams where
  proposalOutPoint : OutPoint
  proof : Bytes
  publicValues : Bytes
  startBlockHash : Hash32
  endBlockHash : Hash32

def consumeProposal (params : ConsumeProposalParams) : Option Transaction := do
  let proposalCell ← wallet.getCell params.proposalOutPoint
  if proposalCell.data = [] then none
  else
    let proposalData ← (proposalCodec lib.toCcc).decode proposalCell.data
    let receiverLock ← lib.scriptEncode (← property "receiver" proposalData)
    let amount ← bigint (← property "amount" proposalData)
    let witness ← witnessBytes lib.toCcc params.proof params.publicValues
    let tx : Transaction := ⟨[], [params.startBlockHash, params.endBlockHash],
      [⟨FixedBytes.zero 8, params.proposalOutPoint⟩],
      [lib.cellOutputFrom amount receiverLock none []],
      [lib.witnessArgsFrom witness]⟩
    let tx := lib.addCellDeps tx (cellDepFromInfo config.proposalTypeScript)
    let tx := lib.addCellDeps tx (cellDepFromInfo config.alwaysSuccess)
    wallet.completeFeeBy tx

/-! ## Votes -/

inductive Direction
  | yes
  | no
deriving DecidableEq, Repr

structure CreateVoteParams where
  proposalOutPoint : OutPoint
  vote : Direction

/-- The deposits that a vote of the lock's owner names. -/
def daoCells (signerLock : Bytes) : List (OutPoint × Cell) :=
  (wallet.findCellsByLock signerLock wallet.nervosDao).filter fun p => wallet.isNervosDao p.2

def createVote [Blake2b] (params : CreateVoteParams) : Option Transaction := do
  let proposalCell ← wallet.getCell params.proposalOutPoint
  let proposalTypeScript ← proposalCell.type_
  let voteTypeArgs := blake160 proposalTypeScript
  let voteTypeScript ← scriptFromInfo lib config.voteTypeScript voteTypeArgs.val
  let signerLock ← lib.scriptEncode wallet.signerLock
  let daoCells := daoCells wallet signerLock
  if daoCells = [] then none
  else
    let totalDaoCapacity := (daoCells.map fun p => p.2.capacity).sum
    let daoIndexes := (List.range daoCells.length).map fun i => 2 + i
    let voteData ← (voteCodec lib).encode (.object [
      ("vote", .num (if params.vote = .yes then 1 else 0)),
      ("amount", .num totalDaoCapacity),
      ("daoIndex", lib.array daoIndexes)])
    let voteOutput := lib.cellOutputFrom 0 signerLock (some voteTypeScript) voteData
    let tx : Transaction := ⟨[], [], [], [voteOutput], []⟩
    let tx := lib.addCellDeps tx (cellDepFromInfo config.voteTypeScript)
    let tx := lib.addCellDeps tx (cellDepFromOutPoint params.proposalOutPoint)
    let tx := daoCells.foldl (fun tx p => lib.addCellDeps tx (cellDepFromOutPoint p.1)) tx
    let tx ← wallet.completeInputsByCapacity tx
    wallet.completeFeeBy tx

def consumeVote (voteOutPoint : OutPoint) : Option Transaction := do
  let voteCell ← wallet.getCell voteOutPoint
  let signerLock ← lib.scriptEncode wallet.signerLock
  let tx : Transaction := ⟨[], [], [⟨FixedBytes.zero 8, voteOutPoint⟩],
    [lib.cellOutputFrom voteCell.capacity signerLock none []], []⟩
  let tx := lib.addCellDeps tx (cellDepFromInfo config.voteTypeScript)
  wallet.completeFeeBy tx

end Build

end Sdk

end CkbVote
