import CkbVote.ChainSegment
import CkbVote.SdkVotes

/-!
# The proposals of the SDK

`createProposal` knows the args of its type script only once the wallet has
chosen a first input, and sets them between the two completions; what is added
later goes behind that input.  `consumeProposal` decodes the cell and the public
values to objects and encodes objects again.  Both transactions are accepted:
`createProposal_accepted` and `consumeProposal_accepted`.
-/

namespace CkbVote

open Octets Molecule

namespace Sdk

/-! ## The data of a proposal -/

section Data

variable {duration amount minimalRequirement : Nat}
  {codeHash hashType description receiver script : Bytes}

/-- Proposal data reads as what it was built from. -/
theorem proposal_readers (hsize : (Proposal.newBuilder duration codeHash hashType
      description receiver amount minimalRequirement).length < 2 ^ 32) :
    ProposalReader.duration (Proposal.newBuilder duration codeHash hashType description receiver
        amount minimalRequirement) = .ok (leBytes 4 duration) ∧
      ProposalReader.voteCellCodeHash (Proposal.newBuilder duration codeHash hashType description
        receiver amount minimalRequirement) = .ok codeHash ∧
      ProposalReader.voteCellHashType (Proposal.newBuilder duration codeHash hashType description
        receiver amount minimalRequirement) = .ok hashType ∧
      ProposalReader.receiver (Proposal.newBuilder duration codeHash hashType description receiver
        amount minimalRequirement) = .ok receiver ∧
      ProposalReader.amount (Proposal.newBuilder duration codeHash hashType description receiver
        amount minimalRequirement) = .ok (leBytes 8 amount) ∧
      ProposalReader.minimalRequirement (Proposal.newBuilder duration codeHash hashType description
        receiver amount minimalRequirement) = .ok (leBytes 8 minimalRequirement) := by
  rw [Proposal.newBuilder] at hsize ⊢
  exact ⟨field_build (k := 0) hsize (by simp), field_build (k := 1) hsize (by simp),
    field_build (k := 2) hsize (by simp), field_build (k := 4) hsize (by simp),
    field_build (k := 5) hsize (by simp), field_build (k := 6) hsize (by simp)⟩

/-- The description is no longer than the proposal. -/
theorem length_description_lt (hsize : (Proposal.newBuilder duration codeHash hashType description
      receiver amount minimalRequirement).length < 2 ^ 32) : description.length < 2 ^ 32 := by
  rw [Proposal.newBuilder, length_build] at hsize
  simp [buildBytes] at hsize
  omega

/-- A built proposal parses strictly when its receiver does. -/
theorem proposal_verify (hcode : codeHash.length = 32) (htype : hashType.length = 1)
    (hreceiver : ScriptReader.verify false receiver = .ok ())
    (hsize : (Proposal.newBuilder duration codeHash hashType description receiver amount
      minimalRequirement).length < 2 ^ 32) :
    ProposalReader.verify false (Proposal.newBuilder duration codeHash hashType description receiver
      amount minimalRequirement) = .ok () := by
  have hdescription := length_description_lt hsize
  rw [Proposal.newBuilder] at hsize ⊢
  refine verifyTable_build hsize (by simp) ?_
  have hdurationOk : Uint32Reader.verify false (leBytes 4 duration) = .ok () :=
    verifyFixed_eq_ok.mpr (length_leBytes 4 duration)
  have hcodeOk : Byte32Reader.verify false codeHash = .ok () := verifyFixed_eq_ok.mpr hcode
  have htypeOk : ByteReader.verify false hashType = .ok () := verifyFixed_eq_ok.mpr htype
  have hamountOk : Uint64Reader.verify false (leBytes 8 amount) = .ok () :=
    verifyFixed_eq_ok.mpr (length_leBytes 8 amount)
  have hminimalOk : Uint64Reader.verify false (leBytes 8 minimalRequirement) = .ok () :=
    verifyFixed_eq_ok.mpr (length_leBytes 8 minimalRequirement)
  exact .cons hdurationOk (.cons hcodeOk (.cons htypeOk (.cons
    (BytesReader.verify_build false hdescription) (.cons hreceiver (.cons hamountOk
      (.cons hminimalOk .nil))))))

/-- The poll of built proposal data. -/
theorem readPoll_build [Blake2b] (hduration : duration < 2 ^ 32)
    (hminimal : minimalRequirement < 2 ^ 64)
    (hsize : (Proposal.newBuilder duration codeHash hashType description receiver amount
      minimalRequirement).length < 2 ^ 32) :
    readPoll (Proposal.newBuilder duration codeHash hashType description receiver amount
        minimalRequirement) script =
      .ok ⟨codeHash, hashType, minimalRequirement, duration, blake160 script⟩ := by
  obtain ⟨hdurationField, hcode, htype, -, -, hminimalField⟩ := proposal_readers hsize
  have hdurationNat : leNat (leBytes 4 duration) = duration := leNat_leBytes (by omega)
  have hminimalNat : leNat (leBytes 8 minimalRequirement) = minimalRequirement :=
    leNat_leBytes (by omega)
  rw [readPoll, hcode, ok_bind, htype, ok_bind, hminimalField, ok_bind,
    fromLeBytes_ok (length_leBytes 8 _), ok_bind, hdurationField, ok_bind,
    fromLeBytes_ok (length_leBytes 4 _), ok_bind, hdurationNat, hminimalNat]

end Data

/-! ## What `createProposal` builds -/

section Create

variable [Blake2b] {lib : Library} {wallet : Wallet} {config : NetworkConfig}
  {params : CreateProposalParams} {live : Live} {lock receiver : Bytes} {tx : Transaction}

def proposalDataOf (config : NetworkConfig) (params : CreateProposalParams) (receiver : Bytes) :
    Bytes :=
  Proposal.newBuilder params.duration config.voteTypeScript.codeHash.val
    [config.voteTypeScript.hashType.byte] (textEncode params.description) receiver params.amount
    params.minimalRequirement

/-- The type script of a proposal that is paid for from a first input. -/
def proposalScriptOf (config : NetworkConfig) (firstInput : CellInput) : Bytes :=
  config.proposalTypeScript.script
    (buildProposalTypeScriptArgs firstInput 0 config.sp1VerifyingKeyHash)

/-- What a proposal needs: numbers that fit into their fields, a receiver that
is a script, and data that fits into a header word. -/
structure ProposalReady (lib : Library) (wallet : Wallet) (config : NetworkConfig)
    (params : CreateProposalParams) (receiver : Bytes) : Prop where
  duration : params.duration < 2 ^ 32
  amount : params.amount < 2 ^ 64
  minimalRequirement : params.minimalRequirement < 2 ^ 64
  receiver_eq : (resolveReceiver lib wallet params).bind lib.scriptEncode = some receiver
  receiver_ok : ScriptReader.verify false receiver = .ok ()
  size : (proposalDataOf config params receiver).length < 2 ^ 32

/-- A transaction with one proposal cell, whose args are those of its first
input. -/
structure ProposalBuilt (config : NetworkConfig) (params : CreateProposalParams) (live : Live)
    (receiver : Bytes) (firstInput : CellInput) (tx : Transaction) : Prop where
  first : tx.inputs.head? = some firstInput
  inputs : ∀ input ∈ tx.inputs, ∃ cell, live input.previousOutput = some cell ∧ cell.type_ = none
  outputs : ∃ capacity change, tx.outputs = ⟨capacity, config.alwaysSuccess.script [],
      some (proposalScriptOf config firstInput), proposalDataOf config params receiver⟩ :: change ∧
    ∀ cell ∈ change, cell.type_ = none

omit [Blake2b] in
/-- `buildProposalData` returns the proposal built of the parameters. -/
theorem buildProposalData_eq (hlib : lib.Documented)
    (hready : ProposalReady lib wallet config params receiver) {receiverLock : Value}
    (hreceiver : resolveReceiver lib wallet params = some receiverLock) :
    buildProposalData lib config params receiverLock =
      some (proposalDataOf config params receiver) := by
  have hencode : (scriptMolCodec lib.toCcc).encode receiverLock = some receiver := by
    have hsome := hready.receiver_eq
    rwa [hreceiver] at hsome
  have htype : lib.uint8.encode (.num config.voteTypeScript.hashType.byte.toNat) =
      some [config.voteTypeScript.hashType.byte] := by
    rw [hlib.uint8_encode _ (UInt8.toNat_lt _), UInt8.ofNat_toNat]
  have hdescription := length_description_lt hready.size
  have hfields : List.Forall₂ (fun field pair => field.2.encode pair.1 = some pair.2)
      [("duration", lib.uint32), ("voteCellCodeHash", lib.byte32), ("voteCellHashType", lib.uint8),
        ("description", lib.bytes), ("receiver", scriptMolCodec lib.toCcc), ("amount", lib.uint64),
        ("minimalRequirement", lib.uint64)]
      [(.num params.duration, _), (.hex config.voteTypeScript.codeHash.val, _), (_, _),
        (.hex (textEncode params.description), _), (receiverLock, _), (.num params.amount, _),
        (.num params.minimalRequirement, _)] :=
    .cons (hlib.uint32_encode _ hready.duration) (.cons
      (hlib.byte32_encode _ (FixedBytes.length_val _)) (.cons htype (.cons
        (hlib.ccc.bytes.encode_eq _ hdescription) (.cons hencode (.cons
          (hlib.uint64_encode _ hready.amount) (.cons
            (hlib.uint64_encode _ hready.minimalRequirement) .nil))))))
  rw [buildProposalData, hashTypeToByte_name]
  exact hlib.ccc.table.encode_zip (by simp) hfields hready.size

omit [Blake2b] in
/-- Setting the type script of a first output. -/
theorem setType_cons {output : Cell} {outputs : List Cell} (h : tx.outputs = output :: outputs)
    (script : Bytes) :
    tx.setType script = { tx with outputs := { output with type_ := some script } :: outputs } := by
  rw [Transaction.setType, h]

/-- **What `createProposal` returns.** -/
theorem built_of_createProposal (hlib : lib.Documented) (hwallet : wallet.Documented lib live lock)
    (hready : ProposalReady lib wallet config params receiver)
    (h : createProposal lib wallet config params = some tx) :
    ∃ firstInput, ProposalBuilt config params live receiver firstInput tx := by
  simp only [createProposal, hlib.addCellDeps_eq, hlib.cellOutputFrom_eq, Option.bind_eq_bind,
    Option.bind_eq_some_iff] at h
  obtain ⟨receiverLock, hreceiver, lockScript, hlock, placeholder, hplaceholder, data,
    hdata, filled, hfilled, h⟩ := h
  obtain rfl := Option.some.inj (hdata.symm.trans (buildProposalData_eq hlib hready hreceiver))
  obtain rfl := Option.some.inj (hlock.symm.trans (scriptFromInfo_eq hlib _ (by simp)))
  obtain ⟨hcompletes, -⟩ := hwallet.inputs_complete _ _ hfilled
  obtain ⟨added, hadded, hlive⟩ := hcompletes.inputs
  obtain ⟨change, hchange, htypes⟩ := hcompletes.outputs
  simp only [withCellDep_inputs, withCellDep_outputs, List.nil_append, List.singleton_append]
    at hadded hchange
  cases hinputs : filled.inputs with
  | nil => simp [hinputs] at h
  | cons firstInput rest =>
      simp only [hinputs, Option.bind_eq_some_iff] at h
      obtain ⟨script, hscript, hfee⟩ := h
      have hargs :
          (buildProposalTypeScriptArgs firstInput 0 config.sp1VerifyingKeyHash).length <
            2 ^ 31 := by
        simp [buildProposalTypeScriptArgs]
      obtain rfl := Option.some.inj (hscript.symm.trans (scriptFromInfo_eq hlib _ hargs))
      rw [setType_cons hchange] at hfee
      have hfee := hwallet.fee_completes _ _ hfee
      obtain ⟨more, hmore, hmoreLive⟩ := hfee.inputs
      obtain ⟨change', hchange', htypes'⟩ := hfee.outputs
      have hmore : tx.inputs = filled.inputs ++ more := hmore
      refine ⟨firstInput, ⟨by simp [hmore, hinputs], fun input hinput => ?_,
        _, change ++ change', hchange', fun cell hcell => ?_⟩⟩
      · rw [hmore, hadded] at hinput
        have hboth := (List.mem_append.mp hinput).elim (hlive input) (hmoreLive input)
        exact hboth.imp fun cell h => ⟨h.1, h.2.2⟩
      · exact (List.mem_append.mp hcell).elim (htypes cell) (htypes' cell)

/-! ## Creation is accepted -/

/-- The Type ID of the proposal hashes the first input and index zero. -/
theorem typeIdString_of_built {firstInput : CellInput} {hash : Hash32}
    (hbuilt : ProposalBuilt config params live receiver firstInput tx) :
    typeIdString (tx.sealed hash) (proposalScriptOf config firstInput) =
      some (firstInput.asSlice ++ leBytes 8 0) := by
  obtain ⟨capacity, change, houtputs, -⟩ := hbuilt.outputs
  rw [typeIdString, show (tx.sealed hash).inputs = tx.inputs from rfl, hbuilt.first,
    show (tx.sealed hash).outputs = tx.outputs from rfl, houtputs, List.findIdx?_cons]
  simp [Cell.typeHash]

theorem length_typeScriptArgs (config : NetworkConfig) (firstInput : CellInput) :
    (buildProposalTypeScriptArgs firstInput 0 config.sp1VerifyingKeyHash).length = 52 := by
  simp [buildProposalTypeScriptArgs]

/-- The first 20 bytes of the args are the Type ID. -/
theorem slice_typeScriptArgs (config : NetworkConfig) (firstInput : CellInput) :
    slice (buildProposalTypeScriptArgs firstInput 0 config.sp1VerifyingKeyHash) 0 20 =
      (blake160 (firstInput.asSlice ++ leBytes 8 0)).val := by
  rw [buildProposalTypeScriptArgs, slice, List.drop_zero, List.take_left']
  · rfl
  · simp

/-- The proposal script accepts the transaction. -/
theorem run_of_proposalBuilt {ext : ProposalTypeScript.External} {headerOf : Hash32 → Option Bytes}
    {hash : Hash32} {rtx : ResolvedTx} {firstInput : CellInput} (hcheck : ChecksTypeId ext)
    (hready : ProposalReady lib wallet config params receiver)
    (hbuilt : ProposalBuilt config params live receiver firstInput tx)
    (hresolve : resolve live headerOf (tx.sealed hash) = some rtx) :
    ProposalTypeScript.run ext rtx (proposalScriptOf config firstInput) = .ok () := by
  have hlen := length_typeScriptArgs config firstInput
  obtain ⟨hscript, -, -, hargs⟩ := config.proposalTypeScript.script_fields (by rw [hlen]; decide)
  obtain ⟨capacity, change, houtputs, hchange⟩ := hbuilt.outputs
  have htx := (resolves_of_resolve hresolve).tx_eq
  have hgroup : group (proposalScriptOf config firstInput) rtx.tx.outputs =
      [⟨capacity, config.alwaysSuccess.script [], some (proposalScriptOf config firstInput),
        proposalDataOf config params receiver⟩] := by
    rw [htx, show (tx.sealed hash).outputs = tx.outputs from rfl, houtputs]
    exact group_single rfl hchange
  have hin : group (proposalScriptOf config firstInput) rtx.inputs = [] := by
    refine List.filter_eq_nil_iff.mpr fun cell hcell => ?_
    simp [Cell.typeHash, type_of_input hbuilt.inputs hresolve hcell]
  have hid : ext.checkTypeId rtx (proposalScriptOf config firstInput) 0 20 = true := by
    refine (hcheck rtx _ hin (by rw [hgroup]; simp)).mpr ⟨by rw [hgroup]; simp, _, _, hargs, ?_,
      slice_typeScriptArgs config firstInput⟩
    rw [htx]
    exact typeIdString_of_built hbuilt
  have hdata := proposal_verify (FixedBytes.length_val _) rfl hready.receiver_ok hready.size
  exact ProposalTypeScript.run_of_accepts ⟨hscript, _, hargs, hlen,
    Or.inl ⟨hin, hid, _, hgroup, hdata⟩⟩

/-- The poll read off the proposal has its duration and minimum, and the vote
script of the network. -/
theorem pollOf_of_ready (hready : ProposalReady lib wallet config params receiver)
    (script : Bytes) :
    ∃ poll, readPoll (proposalDataOf config params receiver) script = .ok poll ∧
      PollOf config script poll ∧ poll.duration = params.duration ∧
      poll.minimalReq = params.minimalRequirement :=
  ⟨_, readPoll_build hready.duration hready.minimalRequirement hready.size, ⟨rfl, rfl, rfl⟩,
    rfl, rfl⟩

/-- **A built proposal is accepted** by the proposal type script. -/
theorem accepted_of_proposalBuilt {ext : ProposalTypeScript.External}
    {IsProposal IsVote : Bytes → Prop} {headerOf : Hash32 → Option Bytes} {hash : Hash32}
    {rtx : ResolvedTx} {firstInput : CellInput} (hdeployed : Deployed config IsProposal IsVote)
    (hcheck : ChecksTypeId ext) (hready : ProposalReady lib wallet config params receiver)
    (hbuilt : ProposalBuilt config params live receiver firstInput tx)
    (hresolve : resolve live headerOf (tx.sealed hash) = some rtx) :
    Accepted ext IsProposal IsVote live (tx.sealed hash) := by
  have hrun := run_of_proposalBuilt hcheck hready hbuilt hresolve
  have hproposal := hdeployed.proposal _ (length_typeScriptArgs config firstInput)
  obtain ⟨capacity, change, houtputs, hchange⟩ := hbuilt.outputs
  refine ⟨headerOf, rtx, hresolve, fun cell hcell script htype => ?_⟩
  rcases List.mem_append.mp hcell with hinput | houtput
  · rw [type_of_input hbuilt.inputs hresolve hinput] at htype
    cases htype
  · have houtput : cell ∈ tx.outputs := houtput
    rw [houtputs] at houtput
    rcases List.mem_cons.mp houtput with rfl | hmem
    · obtain rfl : _ = script := Option.some.inj htype
      exact ⟨fun _ => hrun, fun hvote => absurd hvote (hdeployed.disjoint _ hproposal)⟩
    · rw [hchange cell hmem] at htype
      cases htype

/-- **Proposals of the SDK are accepted.**  A transaction that `createProposal`
returns is accepted as soon as it resolves, whatever the wallet has added.  Its
first output holds what was asked for, and the poll that the tally reads off it
recognises the vote script that `createVote` builds for it. -/
theorem createProposal_accepted {ext : ProposalTypeScript.External}
    {IsProposal IsVote : Bytes → Prop} {headerOf : Hash32 → Option Bytes} {hash : Hash32}
    {rtx : ResolvedTx} (hlib : lib.Documented) (hdeployed : Deployed config IsProposal IsVote)
    (hwallet : wallet.Documented lib live lock) (hcheck : ChecksTypeId ext)
    (hready : ProposalReady lib wallet config params receiver)
    (hcreate : createProposal lib wallet config params = some tx)
    (hresolve : resolve live headerOf (tx.sealed hash) = some rtx) :
    Accepted ext IsProposal IsVote live (tx.sealed hash) ∧
    ∃ cell script poll, tx.outputs[0]? = some cell ∧ cell.type_ = some script ∧
      cell.lock = config.alwaysSuccess.script [] ∧ readPoll cell.data script = .ok poll ∧
      poll.duration = params.duration ∧ poll.minimalReq = params.minimalRequirement ∧
      ProposalReader.receiver cell.data = .ok receiver ∧
      ProposalReader.amount cell.data = .ok (leBytes 8 params.amount) ∧
      isVoteScript poll (config.voteTypeScript.script (blake160 script).val) = .ok true := by
  obtain ⟨firstInput, hbuilt⟩ := built_of_createProposal hlib hwallet hready hcreate
  obtain ⟨capacity, change, houtputs, -⟩ := hbuilt.outputs
  obtain ⟨poll, hpoll, hof, hduration, hminimal⟩ :=
    pollOf_of_ready hready (proposalScriptOf config firstInput)
  obtain ⟨-, -, -, hreceiver, hamount, -⟩ := proposal_readers hready.size
  refine ⟨accepted_of_proposalBuilt hdeployed hcheck hready hbuilt hresolve, ?_⟩
  rw [houtputs]
  exact ⟨⟨capacity, config.alwaysSuccess.script [], some (proposalScriptOf config firstInput),
    proposalDataOf config params receiver⟩, proposalScriptOf config firstInput, poll, rfl, rfl, rfl,
    hpoll, hduration, hminimal, hreceiver, hamount, isVoteScript_of_pollOf hof⟩

end Create

/-! ## What `consumeProposal` builds -/

section Consume

variable {lib : Library} {wallet : Wallet} {config : NetworkConfig} {live : Live} {lock : Bytes}
  {tx : Transaction} {params : ConsumeProposalParams}

/-- A decoder that does not throw has read a script, and the encoder gives it
back. -/
theorem script_encode_of_decode {ccc : Ccc} (hccc : ccc.Documented) {s script : Bytes} {v : Value}
    (h : ScriptReader.verify false s = .ok ()) (hdecode : (scriptMolCodec ccc).decode s = some v)
    (hencode : ccc.scriptEncode v = some script) : script = s := by
  by_cases hknown : HashTypeKnown s
  · obtain ⟨w, hw, hback⟩ := script_roundTrips hccc h hknown
    obtain rfl := Option.some.inj (hdecode.symm.trans hw)
    exact Option.some.inj (hencode.symm.trans hback)
  · rw [script_throws hccc h hknown] at hdecode
    cases hdecode

/-- What `consumeProposal` reads of the proposal. -/
theorem payment_of_decode (hlib : lib.Documented) {data receiverLock : Bytes} {v r a : Value}
    {amount : Nat} (h : ProposalReader.verify false data = .ok ())
    (hdecode : (proposalCodec lib.toCcc).decode data = some v) (hr : property "receiver" v = some r)
    (hreceiver : lib.scriptEncode r = some receiverLock) (ha : property "amount" v = some a)
    (hamount : bigint a = some amount) :
    ProposalReader.receiver data = .ok receiverLock ∧
      (ProposalReader.amount data >>= fromLeBytes 8 "") = .ok amount := by
  obtain ⟨hbuild, hlen, hsize⟩ := build_of_verifyTable h
  have hparts := parts_of_verifyTable h
  obtain ⟨hreceiverField, hreceiverOk⟩ := Table.field_of_verify h 4 (by simp)
  obtain ⟨hamountField, hamountOk⟩ := Table.field_of_verify h 5 (by simp)
  have hamountLen : (part data 5).length = 8 := verifyFixed_eq_ok.mp hamountOk
  rw [← hbuild, proposalCodec, hlib.ccc.table.decode_eq _ _ (by rw [hparts]; simp) hlen
    (by rw [hbuild]; exact hsize), Option.map_eq_some_iff] at hdecode
  obtain ⟨object, hobject, rfl⟩ := hdecode
  obtain ⟨r', hlookup, hr'⟩ := Codec.lookup_of_decodeFields (i := 4) (by simp) hobject rfl
    (by rw [hparts]; rfl)
  obtain ⟨a', hlookup', ha'⟩ := Codec.lookup_of_decodeFields (i := 5) (by simp) hobject rfl
    (by rw [hparts]; rfl)
  obtain rfl : r' = r := Option.some.inj (hlookup.symm.trans hr)
  obtain rfl : a' = a := Option.some.inj (hlookup'.symm.trans ha)
  have hnum : a' = .num (leNat (part data 5)) :=
    Option.some.inj (ha'.symm.trans (hlib.uint64_decode _ hamountLen))
  obtain rfl : leNat (part data 5) = amount := by
    rw [hnum] at hamount
    exact Option.some.inj hamount
  obtain rfl := script_encode_of_decode hlib.ccc hreceiverOk hr' hreceiver
  have hamountField : ProposalReader.amount data = .ok (part data 5) := hamountField
  refine ⟨hreceiverField, ?_⟩
  rw [hamountField, ok_bind, fromLeBytes_ok hamountLen]

/-- Public values that decode are given back by the encoder. -/
theorem publicValues_encode_of_decode {ccc : Ccc} (hccc : ccc.Documented)
    {values : Bytes} {v : Value} (h : PublicValuesReader.verify false values = .ok ())
    (hdecode : (publicValuesCodec ccc).decode values = some v) :
    (publicValuesCodec ccc).encode v = some values := by
  obtain ⟨-, hproposalOk⟩ := Table.field_of_verify h 0 (by simp)
  obtain ⟨-, hscriptOk⟩ := Table.field_of_verify h 3 (by simp)
  obtain ⟨-, hreceiverOk⟩ := Table.field_of_verify hproposalOk 4 (by simp)
  obtain ⟨hproposalRound, hproposalThrow⟩ := proposal_codec hccc hproposalOk
  obtain ⟨hround, hthrow⟩ := publicValues_codec hccc h
  -- a script of an unknown hash type would have made the decoder throw
  have hreceiver : HashTypeKnown (part (part values 0) 4) := by
    by_contra hunknown
    rw [hthrow (Or.inl (hproposalThrow (script_throws hccc hreceiverOk hunknown)))] at hdecode
    cases hdecode
  have hscript : HashTypeKnown (part values 3) := by
    by_contra hunknown
    rw [hthrow (Or.inr (script_throws hccc hscriptOk hunknown))] at hdecode
    cases hdecode
  obtain ⟨w, hw, hencode⟩ := hround (hproposalRound (script_roundTrips hccc hreceiverOk hreceiver))
    (script_roundTrips hccc hscriptOk hscript)
  obtain rfl := Option.some.inj (hdecode.symm.trans hw)
  exact hencode

theorem length_witness (proof values : Bytes) :
    (build [buildBytes proof, values]).length = 16 + proof.length + values.length := by
  rw [length_build]
  simp [buildBytes]
  omega

/-- The witness bytes, once they exist. -/
theorem witnessBytes_eq {ccc : Ccc} (hccc : ccc.Documented) {proof values witness : Bytes}
    (h : PublicValuesReader.verify false values = .ok ())
    (hsize : 16 + proof.length + values.length < 2 ^ 32)
    (hwitness : witnessBytes ccc proof values = some witness) :
    witness = build [buildBytes proof, values] := by
  rw [witnessBytes, Option.bind_eq_bind, Option.bind_eq_some_iff] at hwitness
  obtain ⟨v, hdecode, hencode⟩ := hwitness
  have hfields : List.Forall₂ (fun field pair => field.2.encode pair.1 = some pair.2)
      [("proof", ccc.bytes), ("publicValues", publicValuesCodec ccc)]
      [(.hex proof, buildBytes proof), (v, values)] :=
    .cons (hccc.bytes.encode_eq _ (by omega))
      (.cons (publicValues_encode_of_decode hccc h hdecode) .nil)
  have hbuild := hccc.table.encode_zip (by simp) hfields
    ((length_witness proof values).trans_lt hsize)
  exact Option.some.inj (hencode.symm.trans hbuild)

/-- The proposal witness parses, and so does the `WitnessArgs` around it. -/
theorem witness_fields {proof values : Bytes} (h : PublicValuesReader.verify false values = .ok ())
    (hsize : 36 + proof.length + values.length < 2 ^ 32) :
    ProposalWitnessReader.verify false (build [buildBytes proof, values]) = .ok () ∧
      (ProposalWitnessReader.proof (build [buildBytes proof, values]) >>= rawData) = .ok proof ∧
      ProposalWitnessReader.publicValues (build [buildBytes proof, values]) = .ok values := by
  have hlen := length_witness proof values
  have hbuild : (build [buildBytes proof, values]).length < 2 ^ 32 := by omega
  have hproofOk : BytesReader.verify false (buildBytes proof) = .ok () :=
    BytesReader.verify_build false (by omega)
  have hproof : ProposalWitnessReader.proof (build [buildBytes proof, values]) =
      .ok (buildBytes proof) := field_build (k := 0) hbuild (by simp)
  refine ⟨verifyTable_build hbuild (by simp) (.cons hproofOk (.cons h .nil)), ?_,
    field_build (k := 1) hbuild (by simp)⟩
  rw [hproof, ok_bind, rawData_buildBytes]

/-- The witness parses strictly and its input type is read. -/
theorem witnessArgs_fields {inputType : Bytes} (hsize : 20 + inputType.length < 2 ^ 32) :
    WitnessArgsReader.verify false (witnessArgs inputType) = .ok () ∧
      WitnessArgsReader.inputType (witnessArgs inputType) = .ok (buildBytes inputType) := by
  have hbuild : (build [[], buildBytes inputType, []]).length < 2 ^ 32 := by
    rw [length_build]
    simp [buildBytes]
    omega
  have hnone : BytesOptReader.verify false [] = .ok () := rfl
  have hsome : BytesOptReader.verify false (buildBytes inputType) = .ok () :=
    verifyOption_eq_ok.mpr (Or.inr (BytesReader.verify_build false (by omega)))
  rw [witnessArgs]
  exact ⟨verifyTable_build hbuild (by simp) (.cons hnone (.cons hsome (.cons hnone .nil))),
    field_build (k := 1) hbuild (by simp)⟩

/-- A settlement that is ready: the public values parse and say of the cell what
the script asks for, and the proof verifies. -/
structure SettleReady [Blake2b] (ext : ProposalTypeScript.External)
    (headerOf : Hash32 → Option Bytes) (params : ConsumeProposalParams) (cell : Cell)
    (script : Bytes) : Prop where
  values_ok : PublicValuesReader.verify false params.publicValues = .ok ()
  headers : ∃ startHeader endHeader, headerOf params.startBlockHash = some startHeader ∧
    headerOf params.endBlockHash = some endHeader ∧ startHeader.length = 208 ∧
    endHeader.length = 208 ∧
    ProposalTypeScript.Vouches params.publicValues script cell startHeader endHeader
  proof_ok : ∃ args, scriptArgs script = .ok args ∧ args.length = 52 ∧
    ext.plonkVerify params.proof params.publicValues
      ('0' :: 'x' :: ProposalTypeScript.hexEncode (slice args 20 52)) = true
  size : 36 + params.proof.length + params.publicValues.length < 2 ^ 32

/-- A transaction that settles a proposal. -/
structure SettlementBuilt (lib : Library) (params : ConsumeProposalParams) (live : Live)
    (cell : Cell) (tx : Transaction) : Prop where
  spends : Spends live params.proposalOutPoint tx
  headerDeps : tx.headerDeps = [params.startBlockHash, params.endBlockHash]
  payment : ∃ receiver amount, ProposalReader.receiver cell.data = .ok receiver ∧
    (ProposalReader.amount cell.data >>= fromLeBytes 8 "") = .ok amount ∧
    tx.outputs[0]? = some (cellOutput lib amount receiver none [])
  witness : tx.witnesses[0]? =
    some (witnessArgs (build [buildBytes params.proof, params.publicValues]))

@[simp] theorem withCellDep_headerDeps (dep : CellDep) :
    (tx.withCellDep dep).headerDeps = tx.headerDeps := by
  rw [Transaction.withCellDep]
  split_ifs <;> rfl

@[simp] theorem withCellDep_witnesses (dep : CellDep) :
    (tx.withCellDep dep).witnesses = tx.witnesses := by
  rw [Transaction.withCellDep]
  split_ifs <;> rfl

/-- **What `consumeProposal` returns.** -/
theorem built_of_consumeProposal {cell : Cell} (hlib : lib.Documented)
    (hwallet : wallet.Documented lib live lock) (hlive : live params.proposalOutPoint = some cell)
    (hdata : ProposalReader.verify false cell.data = .ok ())
    (hvalues : PublicValuesReader.verify false params.publicValues = .ok ())
    (hsize : 36 + params.proof.length + params.publicValues.length < 2 ^ 32)
    (h : consumeProposal lib wallet config params = some tx) :
    SettlementBuilt lib params live cell tx := by
  simp only [consumeProposal, hlib.addCellDeps_eq, hlib.cellOutputFrom_eq, Option.bind_eq_bind,
    Option.bind_eq_some_iff] at h
  obtain ⟨found, hfound, h⟩ := h
  obtain rfl : found = cell := Option.some.inj
    (hfound.symm.trans (hwallet.getCell_eq _ _ hlive))
  by_cases hempty : found.data = []
  · simp [hempty] at h
  · rw [if_neg hempty] at h
    simp only [Option.bind_eq_some_iff] at h
    obtain ⟨v, hdecode, r, hr, receiver, hreceiver, a, ha, amount, hamount, witness, hwitness,
      hfee⟩ := h
    obtain ⟨hreceiverField, hamountField⟩ :=
      payment_of_decode hlib hdata hdecode hr hreceiver ha hamount
    obtain rfl := witnessBytes_eq hlib.ccc hvalues (by omega) hwitness
    have hlength := length_witness params.proof params.publicValues
    rw [hlib.witnessArgsFrom_eq _ (by omega)] at hfee
    have hcompletes := hwallet.fee_completes _ _ hfee
    obtain ⟨added, hadded, hinputs⟩ := hcompletes.inputs
    obtain ⟨change, hchange, htypes⟩ := hcompletes.outputs
    obtain ⟨more, hmore⟩ := hcompletes.witnesses
    have hheaders := hcompletes.headerDeps
    simp only [withCellDep_inputs, withCellDep_outputs, withCellDep_witnesses,
      withCellDep_headerDeps, List.singleton_append] at hadded hchange hmore hheaders
    refine ⟨⟨⟨added, hadded,
      fun input hinput => (hinputs input hinput).imp fun cell h => ⟨h.1, h.2.2⟩⟩,
      fun output houtput => ?_⟩, hheaders, ⟨receiver, amount, hreceiverField, hamountField, ?_⟩, ?_⟩
    · rw [hchange] at houtput
      rcases List.mem_cons.mp houtput with rfl | hmem
      · rfl
      · exact htypes output hmem
    · rw [hchange]
      rfl
    · rw [hmore]
      rfl

/-! ## Settlement is accepted -/

section Settle

variable [Blake2b] {ext : ProposalTypeScript.External} {headerOf : Hash32 → Option Bytes}
  {hash : Hash32} {rtx : ResolvedTx} {cell : Cell} {script : Bytes}

/-- Public values that parse and vouch for a cell hold a proposal and a script. -/
theorem verified_of_vouches {values startHeader endHeader : Bytes}
    (h : PublicValuesReader.verify false values = .ok ())
    (hvouches : ProposalTypeScript.Vouches values script cell startHeader endHeader) :
    ProposalReader.verify false cell.data = .ok () ∧ ScriptReader.verify false script = .ok () := by
  obtain ⟨hproposal, hproposalOk⟩ := Table.field_of_verify h 0 (by simp)
  obtain ⟨hscript, hscriptOk⟩ := Table.field_of_verify h 3 (by simp)
  have hdata : part values 0 = cell.data := Except.ok.inj (hproposal.symm.trans hvouches.proposal)
  have hsame : part values 3 = script := Except.ok.inj (hscript.symm.trans hvouches.script_eq)
  exact ⟨hdata ▸ hproposalOk, hsame ▸ hscriptOk⟩

omit [Blake2b] in
/-- A header dep is loaded. -/
theorem loadHeader_of_resolve {tx : ChainTx} (hresolve : resolve live headerOf tx = some rtx)
    {i : Nat} {hash : Hash32} {header : Bytes} (hdep : tx.headerDeps[i]? = some hash)
    (hheader : headerOf hash = some header) (hlen : header.length = 208) :
    ProposalTypeScript.loadHeader rtx i = .ok header := by
  have hat : rtx.headerDeps[i]? = some header := by
    have hsame := congrArg (fun l => l[i]?) (resolves_of_resolve hresolve).headerDeps
    simp only [List.getElem?_map, hdep, Option.map_some, hheader] at hsame
    cases hget : rtx.headerDeps[i]? with
    | none => simp [hget] at hsame
    | some found =>
        rw [hget, Option.map_some] at hsame
        exact (Option.some.inj hsame).symm
  have hverify : HeaderReader.verify false header = .ok () := verifyFixed_eq_ok.mpr hlen
  rw [ProposalTypeScript.loadHeader, hat]
  simp only [hverify]

/-- The proposal script accepts the transaction. -/
theorem run_of_settlementBuilt (hready : SettleReady ext headerOf params cell script)
    (hbuilt : SettlementBuilt lib params live cell tx)
    (hlive : live params.proposalOutPoint = some cell)
    (htype : cell.type_ = some script)
    (hresolve : resolve live headerOf (tx.sealed hash) = some rtx) :
    ProposalTypeScript.run ext rtx script = .ok () := by
  obtain ⟨startHeader, endHeader, hstart, hend, hstartLen, hendLen, hvouches⟩ := hready.headers
  obtain ⟨args, hargs, hargsLen, hverifies⟩ := hready.proof_ok
  obtain ⟨-, hscript⟩ := verified_of_vouches hready.values_ok hvouches
  obtain ⟨⟨rest, hinputs, hrest⟩, houtputs⟩ := type_of_spends hbuilt.spends hlive hresolve
  obtain ⟨hwitnessOk, hproof, hvalues⟩ := witness_fields hready.values_ok hready.size
  have hsize := hready.size
  have hlen := length_witness params.proof params.publicValues
  obtain ⟨hargsOk, hinputType⟩ : WitnessArgsReader.verify false
      (witnessArgs (build [buildBytes params.proof, params.publicValues])) = .ok () ∧
      WitnessArgsReader.inputType (witnessArgs
        (build [buildBytes params.proof, params.publicValues])) =
        .ok (buildBytes (build [buildBytes params.proof, params.publicValues])) :=
    witnessArgs_fields (by omega)
  have hgroup : group script rtx.inputs = [cell] := by
    rw [hinputs]
    exact group_single htype hrest
  have hfirst : firstGroupInput rtx script = some 0 := by
    rw [firstGroupInput, hinputs, List.findIdx?_cons]
    simp [Cell.typeHash, htype]
  have hload : ProposalTypeScript.loadWitnessArgs rtx script =
      .ok (witnessArgs (build [buildBytes params.proof, params.publicValues])) := by
    have hwitness : rtx.tx.witnesses[0]? =
        some (witnessArgs (build [buildBytes params.proof, params.publicValues])) := by
      rw [(resolves_of_resolve hresolve).tx_eq]
      exact hbuilt.witness
    rw [ProposalTypeScript.loadWitnessArgs, hfirst, Option.bind_some, hwitness]
    simp only [hargsOk]
  have hdep : ∀ i : Nat, (tx.sealed hash).headerDeps[i]? =
      [params.startBlockHash, params.endBlockHash][i]? := by
    intro i
    rw [show (tx.sealed hash).headerDeps = tx.headerDeps from rfl, hbuilt.headerDeps]
  refine ProposalTypeScript.run_of_accepts ⟨hscript, args, hargs, hargsLen, Or.inr ⟨houtputs script,
    _, _, _, cell, startHeader, endHeader, ⟨hwitnessOk, _, _, hload, hinputType, ?_,
      rawData_buildBytes _⟩, hproof, hvalues, by rw [hgroup]; rfl,
    loadHeader_of_resolve hresolve (hdep 0) hstart hstartLen,
    loadHeader_of_resolve hresolve (hdep 1) hend hendLen, hvouches, hverifies⟩⟩
  simp [buildBytes, leBytes]

/-- What `consumeProposal` returns is accepted, and is a settlement. -/
theorem accepted_of_consumeProposal {IsProposal IsVote : Bytes → Prop} (hlib : lib.Documented)
    (hdeployed : Deployed config IsProposal IsVote) (hwallet : wallet.Documented lib live lock)
    (hlive : live params.proposalOutPoint = some cell) (htype : cell.type_ = some script)
    (hproposal : IsProposal script) (hready : SettleReady ext headerOf params cell script)
    (hconsume : consumeProposal lib wallet config params = some tx)
    (hresolve : resolve live headerOf (tx.sealed hash) = some rtx) :
    Accepted ext IsProposal IsVote live (tx.sealed hash) ∧
      SettlementBuilt lib params live cell tx := by
  obtain ⟨startHeader, endHeader, -, -, -, -, hvouches⟩ := hready.headers
  obtain ⟨hdata, -⟩ := verified_of_vouches hready.values_ok hvouches
  have hbuilt := built_of_consumeProposal hlib hwallet hlive hdata hready.values_ok
    hready.size hconsume
  refine ⟨accepted_of_spends hbuilt.spends hlive hresolve fun script' htype' => ?_, hbuilt⟩
  obtain rfl := Option.some.inj (htype.symm.trans htype')
  exact ⟨fun _ => run_of_settlementBuilt hready hbuilt hlive htype hresolve,
    fun hvote => absurd hvote (hdeployed.disjoint _ hproposal)⟩

end Settle

end Consume

section Sample

open CkbVote.Sample

/-- The cells before a proposal: the contracts and a cell to pay with. -/
def proposingCells : List (OutPoint × Cell) := [
  (outPoint 20 0, ⟨500, lockOf 1, none, []⟩),
  (outPoint 21 0, ⟨500, lockOf 1, none, []⟩),
  (outPoint 22 0, ⟨500, lockOf 1, none, []⟩),
  (outPoint 9 0, ⟨500, lockOf 9, none, []⟩)]

def bobWallet : Wallet := walletOf proposingCells
  (scriptValue (List.replicate 32 4) "type" (List.replicate 20 9)) (lockOf 9) (some founding)

theorem bobWallet_documented :
    bobWallet.Documented molLibrary (liveOf proposingCells) (lockOf 9) := by
  refine walletOf_documented (by decide +kernel) rfl fun input hinput => ?_
  obtain rfl := Option.some.inj hinput
  exact ⟨_, rfl, rfl, rfl⟩

def parkParams : CreateProposalParams := ⟨1, "a park", none, 70, 0⟩

def bobProposal : Transaction where
  cellDeps := [⟨outPoint 20 0, 0⟩, ⟨outPoint 21 0, 0⟩]
  headerDeps := []
  inputs := [founding]
  outputs := [⟨100, sampleConfig.alwaysSuccess.script [], some proposalScript,
    proposalDataOf sampleConfig parkParams (lockOf 9)⟩, ⟨400, lockOf 9, none, []⟩]
  witnesses := []

def bobResolved : ResolvedTx where
  tx := bobProposal.sealed (digest 12)
  inputs := [⟨500, lockOf 9, none, []⟩]
  cellDeps := [(outPoint 20 0, ⟨500, lockOf 1, none, []⟩),
    (outPoint 21 0, ⟨500, lockOf 1, none, []⟩)]
  headerDeps := []

local instance (priority := 2000) proposalHash : Blake2b := lifeBlake2b

/-- What `createProposal` returns to Bob, and that it resolves. -/
theorem bobProposal_reads :
    createProposal molLibrary bobWallet sampleConfig parkParams = some bobProposal ∧
    (resolveReceiver molLibrary bobWallet parkParams).bind molLibrary.scriptEncode =
      some (lockOf 9) ∧
    ScriptReader.verify false (lockOf 9) = .ok () ∧
    (proposalDataOf sampleConfig parkParams (lockOf 9)).length < 2 ^ 32 ∧
    resolve (liveOf proposingCells) (fun _ => none) (bobProposal.sealed (digest 12)) =
      some bobResolved := by
  decide +kernel

theorem createProposal_accepted_bob :
    Accepted typeIdOnly (hasCode (List.replicate 32 1)) (hasCode voteCodeHash)
      (liveOf proposingCells) (bobProposal.sealed (digest 12)) ∧
    ∃ cell script poll, bobProposal.outputs[0]? = some cell ∧ cell.type_ = some script ∧
      cell.lock = sampleConfig.alwaysSuccess.script [] ∧ readPoll cell.data script = .ok poll ∧
      poll.duration = parkParams.duration ∧ poll.minimalReq = parkParams.minimalRequirement ∧
      ProposalReader.receiver cell.data = .ok (lockOf 9) ∧
      ProposalReader.amount cell.data = .ok (leBytes 8 parkParams.amount) ∧
      isVoteScript poll (sampleConfig.voteTypeScript.script (blake160 script).val) = .ok true := by
  obtain ⟨hcreate, hreceiver, hreceiverOk, hsize, hresolve⟩ := bobProposal_reads
  exact createProposal_accepted molLibrary_documented sampleConfig_deployed bobWallet_documented
    typeIdOnly_checks ⟨by decide, by decide, by decide, hreceiver, hreceiverOk, hsize⟩
      hcreate hresolve

end Sample

section Settled

open CkbVote.Sample

local instance (priority := 2000) settlementHash : Blake2b := storyBlake2b

def startHash : Hash32 := digest 0x432771b2624c07f1b19395823ae7fbd79cb1507c6baf50a9105a8bead746a8e9
def endHash : Hash32 := digest 0xc7c151d9dbea305cdd0b233802aa0b05423a979bb40917329ebdc4e927e15f48

def storyHeaderOf (hash : Hash32) : Option Bytes :=
  if hash = startHash then some storyHeader0
  else if hash = endHash then some storyHeader1
  else none

/-- A verifier that accepts one proof. -/
def oneProof : ProposalTypeScript.External :=
  ⟨checkTypeId, fun proof _ _ => proof = shortProof⟩

end Settled

end Sdk

end CkbVote
