import CkbVote.TestTool
import CkbVote.Verdict

/-!
# What the mock generator's window counts

The blocks that `generate_from_templates` makes pass `verify_block_vec` and the
integrity check, and `count_vote` finds the stamped proposal in them and one
YES vote of 100 shannon for every block after the first.
-/

namespace CkbVote.TestTool

open Octets Molecule

/-! ## The stamped proposal -/

/-- The fields of a proposal behind another duration. -/
def stampedProposal (proposal : Bytes) (duration : Nat) : Bytes :=
  build [leBytes 4 duration, part proposal 1, part proposal 2, part proposal 3, part proposal 4,
    part proposal 5, part proposal 6]

section Stamped

variable {proposal : Bytes} (duration : Nat)

/-- Stamping does not lengthen a proposal. -/
theorem length_stampedProposal (h : ProposalReader.verify true proposal = .ok ()) :
    (stampedProposal proposal duration).length ≤ proposal.length := by
  obtain ⟨ht, hcount, -, -⟩ := verifyTable_eq_ok.mp h
  have hcount' : 7 ≤ headerCount proposal := hcount
  obtain ⟨⟨-, hfirst⟩, -⟩ := ProposalReader.fields_of_verify h
  have htake := congrArg List.length (ht.flatten_take_parts hcount')
  have hparts : (parts proposal).take 7 = [part proposal 0, part proposal 1, part proposal 2,
      part proposal 3, part proposal 4, part proposal 5, part proposal 6] := by
    rw [parts, ← List.map_take, List.take_range, Nat.min_eq_left hcount']
    rfl
  have hzero := ht.offsetAt_zero
  have hend := ht.offsetAt_le hcount'
  rw [hparts, length_slice hend] at htake
  rw [stampedProposal, length_build]
  simp only [List.flatten_cons, List.flatten_nil, List.length_append, List.length_nil,
    List.length_cons, length_leBytes, hfirst] at htake ⊢
  omega

/-- The stamped proposal is below 4 GiB. -/
theorem size_stampedProposal (h : ProposalReader.verify true proposal = .ok ()) :
    (stampedProposal proposal duration).length < 2 ^ 32 := by
  obtain ⟨ht, -⟩ := verifyTable_eq_ok.mp h
  have hlen := length_stampedProposal duration h
  have htotal := ht.total
  have hlt := numberAt_lt proposal 0
  omega

/-- Stamping sets the duration to the number of blocks after the first, modulo `2
^ 32`. -/
theorem stampDuration_eq (h : ProposalReader.verify true proposal = .ok ()) (numBlocks : Nat) :
    stampDuration proposal numBlocks =
      .ok (stampedProposal proposal (wrappingSub numBlocks 1 % 2 ^ 32)) := by
  obtain ⟨-, hcode, htype, hminimal, -⟩ := ProposalReader.fields_of_verify h
  obtain ⟨hdescription, -⟩ := Table.field_of_verify h 3 (by simp)
  obtain ⟨hreceiver, -⟩ := Table.field_of_verify h 4 (by simp)
  obtain ⟨hamount, -⟩ := Table.field_of_verify h 5 (by simp)
  have hdescription' : ProposalReader.description proposal = .ok (part proposal 3) := hdescription
  have hreceiver' : ProposalReader.receiver proposal = .ok (part proposal 4) := hreceiver
  have hamount' : ProposalReader.amount proposal = .ok (part proposal 5) := hamount
  rw [stampDuration, hcode, ok_bind, htype, ok_bind, hdescription', ok_bind, hreceiver', ok_bind,
    hamount', ok_bind, hminimal]
  rfl

/-- The stamped proposal parses, and reads as the proposal but for the duration. -/
theorem stampedProposal_fields (h : ProposalReader.verify true proposal = .ok ()) :
    ProposalReader.verify true (stampedProposal proposal duration) = .ok () ∧
      ProposalReader.duration (stampedProposal proposal duration) = .ok (leBytes 4 duration) ∧
      ProposalReader.voteCellCodeHash (stampedProposal proposal duration) =
        .ok (part proposal 1) ∧
      ProposalReader.voteCellHashType (stampedProposal proposal duration) =
        .ok (part proposal 2) ∧
      ProposalReader.minimalRequirement (stampedProposal proposal duration) =
        .ok (part proposal 6) := by
  have hsize := size_stampedProposal duration h
  obtain ⟨-, -, -, hfields⟩ := verifyTable_eq_ok.mp h
  simp only [verifyFields, bind_unit_eq_ok] at hfields
  obtain ⟨-, hcode, htype, hdescription, hreceiver, hamount, hminimal, -⟩ := hfields
  have hduration : Uint32Reader.verify true (leBytes 4 duration) = .ok () :=
    verifyFixed_eq_ok.mpr (length_leBytes 4 duration)
  rw [stampedProposal] at hsize ⊢
  refine ⟨verifyTable_build hsize (by simp) ?_, field_build (k := 0) hsize (by simp),
    field_build (k := 1) hsize (by simp), field_build (k := 2) hsize (by simp),
    field_build (k := 6) hsize (by simp)⟩
  exact .cons hduration (.cons hcode (.cons htype (.cons hdescription (.cons hreceiver
    (.cons hamount (.cons hminimal .nil))))))

end Stamped

/-! ## Scripts -/

section Scripts

variable {codeHash hashType : Bytes}

theorem length_script (args : Bytes) (hcode : codeHash.length = 32) (htype : hashType.length = 1) :
    (Script.newBuilder codeHash hashType args).length = 53 + args.length := by
  rw [Script.newBuilder, length_build]
  simp [hcode, htype, buildBytes]
  omega

/-- A built script parses and reads as its fields. -/
theorem script_fields (args : Bytes) (hcode : codeHash.length = 32) (htype : hashType.length = 1)
    (hargs : 53 + args.length < 2 ^ 32) :
    ScriptReader.verify false (Script.newBuilder codeHash hashType args) = .ok () ∧
      ScriptReader.codeHash (Script.newBuilder codeHash hashType args) = .ok codeHash ∧
      ScriptReader.hashType (Script.newBuilder codeHash hashType args) = .ok hashType ∧
      (ScriptReader.args (Script.newBuilder codeHash hashType args) >>= rawData) = .ok args := by
  have hsize := length_script args hcode htype
  rw [Script.newBuilder] at hsize ⊢
  have hbuild : (build [codeHash, hashType, buildBytes args]).length < 2 ^ 32 := by omega
  have hargsField : ScriptReader.args (build [codeHash, hashType, buildBytes args]) =
      .ok (buildBytes args) := field_build (k := 2) hbuild (by simp)
  refine ⟨verifyTable_build hbuild (by simp) ?_, field_build (k := 0) hbuild (by simp),
    field_build (k := 1) hbuild (by simp), ?_⟩
  · have hcodeOk : Byte32Reader.verify false codeHash = .ok () := verifyFixed_eq_ok.mpr hcode
    have htypeOk : ByteReader.verify false hashType = .ok () := verifyFixed_eq_ok.mpr htype
    have hargsOk : BytesReader.verify false (buildBytes args) = .ok () :=
      BytesReader.verify_build false (by omega)
    exact .cons hcodeOk (.cons htypeOk (.cons hargsOk .nil))
  · rw [hargsField]
    exact rawData_buildBytes args

theorem ne_nil_of_verify {compatible : Bool} {s : Bytes}
    (h : ScriptReader.verify compatible s = .ok ()) : s ≠ [] := by
  intro heq
  have hmin := ScriptReader.length_of_verify h
  simp [heq] at hmin

/-- The two scripts are the same to `count_vote`, which compares fields. -/
def SameFields (s t : Bytes) : Prop :=
  ScriptReader.codeHash s = ScriptReader.codeHash t ∧
    ScriptReader.hashType s = ScriptReader.hashType t ∧
    (ScriptReader.args s >>= rawData) = (ScriptReader.args t >>= rawData)

instance (s t : Bytes) : Decidable (SameFields s t) := by
  unfold SameFields
  infer_instance

/-- A script that differs from the vote script in a field is not recognised. -/
theorem isVoteScript_eq_false {poll : Poll} {s t : Bytes} {compatible : Bool}
    (h : ScriptReader.verify compatible s = .ok ())
    (hcode : ScriptReader.codeHash t = .ok poll.voteCodeHash)
    (htype : ScriptReader.hashType t = .ok poll.voteHashType)
    (hargs : (ScriptReader.args t >>= rawData) = .ok poll.proposalBlake160.val)
    (hne : ¬ SameFields s t) : isVoteScript poll s = .ok false := by
  obtain ⟨⟨hcodeS, -⟩, ⟨htypeS, -⟩, hargsS, hargsLen⟩ := ScriptReader.fields_of_verify h
  have hraw := rawData_ok hargsLen
  simp only [SameFields, hcodeS, htypeS, hargsS, hcode, htype, hargs, ok_bind, hraw,
    Except.ok.injEq] at hne
  simp only [isVoteScript, hcodeS, htypeS, hargsS, ok_bind, hraw]
  split_ifs with h1 h2
  · rfl
  · rfl
  · have h3 : slice (part s 2) 4 (part s 2).length ≠ poll.proposalBlake160.val :=
      fun heq => hne ⟨not_not.mp h1, not_not.mp h2, heq⟩
    simp [h3]

/-- A script with the fields of the vote script is recognised. -/
theorem isVoteScript_eq_true {poll : Poll} {t : Bytes}
    (hcode : ScriptReader.codeHash t = .ok poll.voteCodeHash)
    (htype : ScriptReader.hashType t = .ok poll.voteHashType)
    (hargs : (ScriptReader.args t >>= rawData) = .ok poll.proposalBlake160.val) :
    isVoteScript poll t = .ok true := by
  obtain ⟨args, hargsField, hraw⟩ := bind_eq_ok.mp hargs
  simp [isVoteScript, hcode, htype, hargsField, hraw]

end Scripts

/-! ## Transactions with one output -/

section OutputTx

variable (lock type_ data : Bytes)

theorem length_output : (CellOutput.newBuilder 0 lock type_).length =
    24 + lock.length + type_.length := by
  simp [CellOutput.newBuilder, length_build]
  omega

theorem length_outputRaw : (outputRaw lock type_ data).length =
    88 + lock.length + type_.length + data.length := by
  simp [outputRaw, RawTransaction.newBuilder, length_build, length_output, buildFixVec, buildBytes]
  omega

theorem length_outputTx : (Transaction.newBuilder (outputRaw lock type_ data) []).length =
    104 + lock.length + type_.length + data.length := by
  simp [Transaction.newBuilder, length_build, length_outputRaw]
  omega

variable {lock type_ data}

/-- The output alone: its fields are the scripts given. -/
theorem output_fields (hlock : ScriptReader.verify false lock = .ok ())
    (htype : ScriptReader.verify false type_ = .ok ())
    (hsize : (CellOutput.newBuilder 0 lock type_).length < 2 ^ 32) :
    CellOutputReader.verify false (CellOutput.newBuilder 0 lock type_) = .ok () ∧
      CellOutputReader.lock (CellOutput.newBuilder 0 lock type_) = .ok lock ∧
      CellOutputReader.type_ (CellOutput.newBuilder 0 lock type_) = .ok type_ := by
  rw [CellOutput.newBuilder] at hsize ⊢
  have hcapacity : Uint64Reader.verify false (leBytes 8 0) = .ok () :=
    verifyFixed_eq_ok.mpr (length_leBytes 8 0)
  have htypeOpt : ScriptOptReader.verify false type_ = .ok () :=
    verifyOption_eq_ok.mpr (Or.inr htype)
  exact ⟨verifyTable_build hsize (by simp) (.cons hcapacity (.cons hlock (.cons htypeOpt .nil))),
    field_build (k := 1) hsize (by simp), field_build (k := 2) hsize (by simp)⟩

/-- The parts of a transaction below 4 GiB are below it too. -/
theorem outputRaw_sizes
    (hsize : (Transaction.newBuilder (outputRaw lock type_ data) []).length < 2 ^ 32) :
    (outputRaw lock type_ data).length < 2 ^ 32 ∧
      (CellOutput.newBuilder 0 lock type_).length < 2 ^ 32 ∧
      (build [CellOutput.newBuilder 0 lock type_]).length < 2 ^ 32 ∧
      (build [buildBytes data]).length < 2 ^ 32 := by
  have hlen := length_outputTx lock type_ data
  have hrawLen := length_outputRaw lock type_ data
  have houtputLen := length_output lock type_
  refine ⟨by omega, by omega, ?_, ?_⟩
  · simp [length_build]
    omega
  · simp [length_build, buildBytes]
    omega

/-- The transaction holds its raw transaction, and that one output. -/
theorem outputRaw_layout (hlock : ScriptReader.verify false lock = .ok ())
    (htype : ScriptReader.verify false type_ = .ok ())
    (hsize : (Transaction.newBuilder (outputRaw lock type_ data) []).length < 2 ^ 32) :
    TransactionReader.raw (Transaction.newBuilder (outputRaw lock type_ data) []) =
        .ok (outputRaw lock type_ data) ∧
      part (Transaction.newBuilder (outputRaw lock type_ data) []) 0 = outputRaw lock type_ data ∧
      RawLayout (outputRaw lock type_ data) (buildFixVec []) (buildFixVec [])
        (build [CellOutput.newBuilder 0 lock type_]) (build [buildBytes data]) := by
  obtain ⟨hraw, houtput, houtputs, hdata⟩ := outputRaw_sizes hsize
  refine ⟨field_build (k := 0) hsize (by simp), part_build (k := 0) hsize (by simp) (by simp), ?_⟩
  refine ⟨field_build (k := 1) hraw (by simp), field_build (k := 3) hraw (by simp),
    field_build (k := 4) hraw (by simp), field_build (k := 5) hraw (by simp),
    buildFixVec_layout (by simp) (by simp), buildFixVec_layout (by simp) (by simp),
    dynVec_build_layout houtputs, dynVec_build_layout hdata, ?_, ?_⟩
  · rw [dynVec_items_build houtputs]
    intro output hmem
    rw [List.mem_singleton.mp hmem]
    exact ⟨false, (output_fields hlock htype houtput).1⟩
  · rw [dynVec_items_build hdata]
    intro datum hmem
    rw [List.mem_singleton.mp hmem]
    simp [buildBytes]

/-- Its only output has the type script and the data given. -/
theorem outputRaw_output (hlock : ScriptReader.verify false lock = .ok ())
    (htype : ScriptReader.verify false type_ = .ok ())
    (hsize : (Transaction.newBuilder (outputRaw lock type_ data) []).length < 2 ^ 32) :
    outputType (outputRaw lock type_ data) 0 = .ok (some type_) ∧
      outputContent (outputRaw lock type_ data) 0 = .ok (some data) ∧
      ∀ (j : Nat) (script : Bytes), outputType (outputRaw lock type_ data) j = .ok (some script) →
        j = 0 ∧ script = type_ := by
  obtain ⟨-, -, hlayout⟩ := outputRaw_layout hlock htype hsize
  obtain ⟨-, houtput, houtputs, hdata⟩ := outputRaw_sizes hsize
  obtain ⟨-, -, htypeField⟩ := output_fields hlock htype houtput
  have hne := ne_nil_of_verify htype
  have hfirst : outputType (outputRaw lock type_ data) 0 = .ok (some type_) := by
    rw [outputType, hlayout.outputs_eq, ok_bind, DynVec.get_eq hlayout.outputs_layout,
      dynVec_items_build houtputs, ok_bind]
    simp only [List.getElem?_cons_zero, htypeField, ok_bind, toOpt, if_neg hne]
  refine ⟨hfirst, ?_, ?_⟩
  · rw [outputContent, hlayout.outputsData_eq, ok_bind, DynVec.get_eq hlayout.outputsData_layout,
      dynVec_items_build hdata, ok_bind]
    simp only [List.getElem?_cons_zero, rawData_buildBytes, ok_bind]
  · intro j script hscript
    have hj := lt_of_outputType hlayout hscript
    rw [dynVec_items_build houtputs] at hj
    obtain rfl : j = 0 := by simpa using hj
    exact ⟨rfl, Option.some.inj (Except.ok.inj (hscript.symm.trans hfirst))⟩

end OutputTx

/-! ## What a count reads of a transaction -/

section Reading

variable [Blake2b] {poll : Poll} {raw cellDeps inputs outputs outputsData : Bytes}

/-- No output of the raw transaction is under the vote script of the poll. -/
def Unrecognised (poll : Poll) (raw : Bytes) : Prop :=
  ∀ (j : Nat) (script : Bytes), outputType raw j = .ok (some script) →
    isVoteScript poll script = .ok false

omit [Blake2b] in
/-- An output of an unrecognised transaction is no vote. -/
theorem voteOutput_eq_none (h : RawLayout raw cellDeps inputs outputs outputsData)
    (hnone : Unrecognised poll raw) {j : Nat} (hj : j < (DynVec.items outputs).length) :
    voteOutput poll outputs outputsData j = .ok none := by
  have hget : DynVec.get outputs j = .ok (some (DynVec.items outputs)[j]) := by
    rw [DynVec.get_eq h.outputs_layout, List.getElem?_eq_getElem hj]
  obtain ⟨c, houtput⟩ := h.output_ok _ (List.getElem_mem hj)
  obtain ⟨-, -, htype, -⟩ := CellOutputReader.fields_of_verify houtput
  have hscript : outputType raw j = .ok (toOpt (part (DynVec.items outputs)[j] 2)) := by
    rw [outputType, h.outputs_eq, ok_bind, hget, ok_bind]
    simp only [htype, ok_bind]
  rw [voteOutput, hget, ok_bind]
  simp only [htype, ok_bind]
  cases hopt : toOpt (part (DynVec.items outputs)[j] 2) with
  | none => rfl
  | some script =>
      simp only [hnone j script (hscript.trans (congrArg Except.ok hopt)), ok_bind]
      rfl

omit [Blake2b] in
/-- An unrecognised transaction has inputs and no vote. -/
theorem readTx_unrecognised (h : RawLayout raw cellDeps inputs outputs outputsData)
    (hnone : Unrecognised poll raw) : ∃ spent, readTx poll raw = .ok ⟨spent, []⟩ := by
  obtain ⟨spent, hspent⟩ : ∃ spent, readRange (inputOutPoint inputs)
      (FixVec.items 44 inputs).length 0 = .ok spent := by
    refine exists_readRange fun k hk => ?_
    rw [Nat.zero_add]
    exact inputOutPoint_ok h.inputs_len hk
  have hvotes : readRange (readOutput poll outputs outputsData cellDeps)
      (DynVec.items outputs).length 0 =
      .ok (List.replicate (DynVec.items outputs).length none) := by
    rw [readRange_eq_ok]
    refine ⟨List.length_replicate, fun j hj => ?_⟩
    rw [List.length_replicate] at hj
    rw [Nat.zero_add, readOutput, voteOutput_eq_none h hnone hj, List.getElem_replicate]
    rfl
  refine ⟨spent, ?_⟩
  rw [readTx, h.inputs_eq, ok_bind, FixVec.itemCount_eq h.inputs_len, ok_bind, hspent, ok_bind,
    h.outputs_eq, ok_bind, h.outputsData_eq, ok_bind, h.cellDeps_eq, ok_bind,
    DynVec.itemCount_eq h.outputs_layout, ok_bind, hvotes, ok_bind]
  simp

omit [Blake2b] in
/-- The data of a generated vote. -/
theorem vote_reads : VoteReader.verify true (Vote.newBuilder 1 100 []) = .ok () ∧
    VoteReader.vote (Vote.newBuilder 1 100 []) = .ok [1] ∧
    VoteReader.amount (Vote.newBuilder 1 100 []) = .ok (leBytes 8 100) ∧
    VoteReader.daoIndex (Vote.newBuilder 1 100 []) = .ok (buildFixVec []) ∧
    readNamed (buildFixVec []) (buildFixVec []) = .ok [] := by
  decide +kernel

omit [Blake2b] in
/-- The generated vote is read: YES, 100 shannon, nothing named. -/
theorem readVote_generated (lock : Bytes) :
    readVote (buildFixVec []) lock (Vote.newBuilder 1 100 []) = .ok ⟨lock, (1, 100), []⟩ := by
  obtain ⟨-, hdirection, hamount, hdao, hnamed⟩ := vote_reads
  have hnumber : leNat (leBytes 8 100) = 100 := leNat_leBytes (by decide)
  rw [readVote, hdirection, ok_bind, hamount, firstByte, ok_bind, ok_bind,
    fromLeBytes_ok (length_leBytes 8 100), hnumber, ok_bind, hdao, ok_bind, hnamed]
  rfl

omit [Blake2b] in
/-- A generated vote reads as one YES vote of 100 shannon that spends nothing
and names nothing. -/
theorem readTx_vote {lock script : Bytes} (hlock : ScriptReader.verify false lock = .ok ())
    (hscript : ScriptReader.verify false script = .ok ())
    (hvote : isVoteScript poll script = .ok true)
    (hsize : (Transaction.newBuilder (outputRaw lock script (Vote.newBuilder 1 100 [])) []).length <
      2 ^ 32) :
    readTx poll (outputRaw lock script (Vote.newBuilder 1 100 [])) =
      .ok ⟨[], [⟨lock, (1, 100), []⟩]⟩ := by
  obtain ⟨-, -, hlayout⟩ := outputRaw_layout hlock hscript hsize
  obtain ⟨-, houtput, houtputs, hdata⟩ := outputRaw_sizes hsize
  obtain ⟨-, hlockField, htypeField⟩ := output_fields hlock hscript houtput
  have hparse : fromCompatibleSlice VoteReader.verify (Vote.newBuilder 1 100 []) =
      .ok (Vote.newBuilder 1 100 []) := fromCompatibleSlice_eq_ok.mpr ⟨vote_reads.1, rfl⟩
  have hfound : voteOutput poll (build [CellOutput.newBuilder 0 lock script])
      (build [buildBytes (Vote.newBuilder 1 100 [])]) 0 =
      .ok (some (lock, Vote.newBuilder 1 100 [])) := by
    rw [voteOutput, DynVec.get_eq hlayout.outputs_layout, dynVec_items_build houtputs, ok_bind]
    simp only [List.getElem?_cons_zero, htypeField, ok_bind, toOpt,
      if_neg (ne_nil_of_verify hscript), hvote, if_true,
      DynVec.get_eq hlayout.outputsData_layout, dynVec_items_build hdata, rawData_buildBytes,
        hparse,
      hlockField]
  have hread : readOutput poll (build [CellOutput.newBuilder 0 lock script])
      (build [buildBytes (Vote.newBuilder 1 100 [])]) (buildFixVec []) 0 =
      .ok (some ⟨lock, (1, 100), []⟩) := by
    rw [readOutput, hfound, ok_bind]
    simp only [readVote_generated, ok_bind]
  rw [readTx, hlayout.inputs_eq, ok_bind, FixVec.itemCount_eq hlayout.inputs_len, ok_bind,
    fixVec_items_build (by simp) (by simp), hlayout.outputs_eq, hlayout.outputsData_eq,
    hlayout.cellDeps_eq]
  simp only [List.length_nil, readRange, ok_bind, DynVec.itemCount_eq hlayout.outputs_layout,
    dynVec_items_build houtputs, List.length_cons, hread]
  rfl

/-! ## What a count does with it -/

omit [Blake2b] in
/-- Spending changes no map without named deposits. -/
theorem foldl_spendInput (spent : List OutPoint) (voteMap : Std.ExtTreeMap Hash32 Ballot) :
    spent.foldl spendInput ⟨voteMap, ∅⟩ = ⟨voteMap, ∅⟩ := by
  induction spent with
  | nil => rfl
  | cons op spent ih =>
      rw [List.foldl_cons]
      simpa [spendInput] using ih

/-- An unrecognised transaction changes no map without named deposits. -/
theorem processTransaction_unrecognised (h : RawLayout raw cellDeps inputs outputs outputsData)
    (hnone : Unrecognised poll raw) (voteMap : Std.ExtTreeMap Hash32 Ballot) :
    processTransaction poll raw ⟨voteMap, ∅⟩ = .ok ⟨voteMap, ∅⟩ := by
  obtain ⟨spent, hread⟩ := readTx_unrecognised h hnone
  rw [processTransaction_eq, hread, ok_bind, applyMaps, foldl_spendInput]
  rfl

/-- The vote map with the ballot of one more voter. -/
def addVoter (voteMap : Std.ExtTreeMap Hash32 Ballot) : Option Hash32 → Std.ExtTreeMap Hash32 Ballot
  | none => voteMap
  | some voter => voteMap.insert voter (1, 100)

/-- Counting the transactions, as long as no vote names a deposit, adds the
ballot of this voter and nothing else. -/
def Adds (poll : Poll) (raws : List Bytes) (voter : Option Hash32) : Prop :=
  ∀ voteMap, raws.foldlM (fun maps raw => processTransaction poll raw maps) ⟨voteMap, ∅⟩ =
    .ok ⟨addVoter voteMap voter, ∅⟩

/-- Unrecognised transactions add no voter. -/
theorem adds_unrecognised {raws : List Bytes} (h : ∀ raw ∈ raws, Unrecognised poll raw ∧
      ∃ cellDeps inputs outputs outputsData, RawLayout raw cellDeps inputs outputs outputsData) :
    Adds poll raws none := by
  intro voteMap
  induction raws with
  | nil => rfl
  | cons raw raws ih =>
      obtain ⟨⟨hnone, _, _, _, _, hlayout⟩, hrest⟩ := List.forall_mem_cons.mp h
      rw [List.foldlM_cons, processTransaction_unrecognised hlayout hnone, ok_bind]
      exact ih hrest

/-- A generated vote adds its voter. -/
theorem adds_vote {lock script : Bytes} (hlock : ScriptReader.verify false lock = .ok ())
    (hscript : ScriptReader.verify false script = .ok ())
    (hvote : isVoteScript poll script = .ok true)
    (hsize : (Transaction.newBuilder (outputRaw lock script (Vote.newBuilder 1 100 [])) []).length <
      2 ^ 32) :
    Adds poll [outputRaw lock script (Vote.newBuilder 1 100 [])] (some (blake2b256 lock)) := by
  intro voteMap
  rw [List.foldlM_cons, processTransaction_eq, readTx_vote hlock hscript hvote hsize]
  rfl

/-- A voter is added after transactions that add none. -/
theorem Adds.append {raws raws' : List Bytes} {voter : Option Hash32} (h : Adds poll raws none)
    (h' : Adds poll raws' voter) : Adds poll (raws ++ raws') voter := by
  intro voteMap
  rw [List.foldlM_append, h voteMap, ok_bind]
  exact h' voteMap

/-- The loop over the blocks adds one voter after the other. -/
theorem tallyRaws_adds {raws : List (List Bytes)} {voters : List (Option Hash32)}
    (h : List.Forall₂ (Adds poll) raws voters) :
    tallyRaws poll raws = .ok ⟨voters.foldl addVoter ∅, ∅⟩ := by
  have hrun : ∀ voteMap, raws.foldlM (fun maps block =>
      block.foldlM (fun maps raw => processTransaction poll raw maps) maps) ⟨voteMap, ∅⟩ =
      .ok ⟨voters.foldl addVoter voteMap, ∅⟩ := by
    induction h with
    | nil => exact fun _ => rfl
    | cons hfirst _ ih =>
        intro voteMap
        rw [List.foldlM_cons, hfirst voteMap, ok_bind, ih, List.foldl_cons]
  exact hrun ∅

omit [Blake2b] in
/-- After voters are added, each of them has voted YES with 100 shannon. -/
theorem getElem?_foldl_addVoter (voters : List (Option Hash32))
    (voteMap : Std.ExtTreeMap Hash32 Ballot) (v : Hash32) :
    (voters.foldl addVoter voteMap)[v]? =
      if v ∈ voters.filterMap id then some (1, 100) else voteMap[v]? := by
  induction voters generalizing voteMap with
  | nil => simp
  | cons voter voters ih =>
      rw [List.foldl_cons, ih]
      cases voter with
      | none => simp [addVoter]
      | some voter =>
          by_cases hv : voter = v
          · simp [addVoter, hv]
          · simp [addVoter, hv, Ne.symm hv, Std.ExtTreeMap.getElem?_insert]

omit [Blake2b] in
/-- Different voters all count. -/
theorem exactSum_addVoter (weight : Ballot → Nat) {voters : List (Option Hash32)}
    (hnodup : (voters.filterMap id).Nodup) :
    exactSum weight (voters.foldl addVoter ∅) =
      weight (1, 100) * (voters.filterMap id).length := by
  have hkeys : ∀ v : Hash32, (voters.foldl addVoter ∅)[v]? ≠ none → v ∈ voters.filterMap id := by
    intro v hv
    by_contra hmem
    rw [getElem?_foldl_addVoter, if_neg hmem] at hv
    simp at hv
  have hconst : (voters.filterMap id).map (fun v =>
      ((voters.foldl addVoter ∅)[v]?).elim 0 weight) =
      List.replicate (voters.filterMap id).length (weight (1, 100)) := by
    rw [← List.map_const']
    refine List.map_congr_left fun v hv => ?_
    rw [getElem?_foldl_addVoter, if_pos hv]
    rfl
  rw [exactSum_eq weight hnodup hkeys, hconst, List.sum_replicate_nat, Nat.mul_comm]

end Reading

/-! ## The generated scripts -/

section Code

variable [Blake2b]

/-- What the scripts and the stamped proposal have to do with each other. -/
structure Generated.Consistent (generated : Generated) (poll : Poll) : Prop where
  proposal_ok : ProposalReader.verify true generated.proposal = .ok ()
  poll_eq : readPoll generated.proposal generated.proposalScript = .ok poll
  script_ok : ScriptReader.verify false generated.proposalScript = .ok ()
  length_script : generated.proposalScript.length = 53
  vote_ok : ScriptReader.verify false generated.voteTypeScript = .ok ()
  vote_codeHash : ScriptReader.codeHash generated.voteTypeScript = .ok poll.voteCodeHash
  vote_hashType : ScriptReader.hashType generated.voteTypeScript = .ok poll.voteHashType
  vote_args : (ScriptReader.args generated.voteTypeScript >>= rawData) =
    .ok poll.proposalBlake160.val
  script_ne_vote : ¬ SameFields generated.proposalScript generated.voteTypeScript

/-- The generated scripts form a poll over as many blocks as there are. -/
theorem generateScripts_consistent {proposal : Bytes}
    (h : ProposalReader.verify true proposal = .ok ()) (numBlocks : Nat) :
    ∃ generated poll, generateScripts proposal numBlocks = .ok generated ∧
      generated.Consistent poll ∧ poll.duration = wrappingSub numBlocks 1 % 2 ^ 32 := by
  obtain ⟨hverify, hduration, hcode, htype, hminimal⟩ :=
    stampedProposal_fields (wrappingSub numBlocks 1 % 2 ^ 32) h
  obtain ⟨-, -, -, -, hminimalLen⟩ := ProposalReader.fields_of_verify h
  obtain ⟨-, hcodeOk⟩ := Table.field_of_verify h 1 (by simp)
  obtain ⟨-, htypeOk⟩ := Table.field_of_verify h 2 (by simp)
  have hcodeLen : (part proposal 1).length = 32 := verifyFixed_eq_ok.mp hcodeOk
  have htypeLen : (part proposal 2).length = 1 := verifyFixed_eq_ok.mp htypeOk
  have hnumber : leNat (leBytes 4 (wrappingSub numBlocks 1 % 2 ^ 32)) =
      wrappingSub numBlocks 1 % 2 ^ 32 := leNat_leBytes (Nat.mod_lt _ (by decide))
  let stamped := stampedProposal proposal (wrappingSub numBlocks 1 % 2 ^ 32)
  let script := Script.newBuilder (blake2b256 stamped).val [0] []
  have hhash : (blake2b256 stamped).val.length = 32 := (blake2b256 stamped).property
  have hblake : (blake160 script).val.length = 20 := (blake160 script).property
  have hone : ([0] : Bytes).length = 1 := rfl
  have hscript := script_fields [] hhash hone (by simp)
  have hvote := script_fields (blake160 script).val hcodeLen htypeLen (by omega)
  obtain ⟨hvoteOk, hvoteCode, hvoteType, hvoteArgs⟩ := hvote
  refine ⟨⟨stamped, script, Script.newBuilder (part proposal 1) (part proposal 2)
    (blake160 script).val⟩, ⟨part proposal 1, part proposal 2, leNat (part proposal 6),
    wrappingSub numBlocks 1 % 2 ^ 32, blake160 script⟩, ?_, ?_, rfl⟩
  · rw [generateScripts, stampDuration_eq h, ok_bind, hcode, ok_bind, htype]
    rfl
  · refine ⟨hverify, ?_, hscript.1, length_script _ hhash hone, hvoteOk, hvoteCode, hvoteType,
      hvoteArgs, ?_⟩
    · rw [readPoll, hcode, ok_bind, htype, ok_bind, hminimal, ok_bind, fromLeBytes_ok hminimalLen,
        ok_bind, hduration, ok_bind, fromLeBytes_ok (length_leBytes 4 _), hnumber]
      rfl
    · intro hsame
      -- the args of one are empty, the other's are a hash
      have hargs := hscript.2.2.2.symm.trans (hsame.2.2.trans hvoteArgs)
      have hlen := congrArg List.length (Except.ok.inj hargs)
      rw [hblake] at hlen
      cases hlen

/-! ## Templates -/

omit [Blake2b] in
/-- The type scripts of all outputs of the blocks. -/
def typeScripts (blocks : Bytes) : List Bytes :=
  (blockSlices blocks).flatMap fun block => (transactionSlices block).flatMap fun tx =>
    (DynVec.items (part (part tx 0) 4)).filterMap fun output => toOpt (part output 2)

omit [Blake2b] in
/-- A type script in the blocks is listed, and verifies. -/
theorem mem_typeScripts {blocks block tx script : Bytes} {j : Nat}
    (h : BlockVecReader.verify true blocks = .ok ()) (hblock : block ∈ blockSlices blocks)
    (htx : tx ∈ transactionSlices block)
    (hscript : outputType (part tx 0) j = .ok (some script)) :
    script ∈ typeScripts blocks ∧ ∃ c, ScriptReader.verify c script = .ok () := by
  obtain ⟨-, hblocks⟩ := DynVec.verify_eq_ok.mp h
  obtain ⟨-, hraws⟩ := rawTransactions_of_verify (hblocks block hblock)
  have hlayout := RawTransactionReader.layout_of_verify (hraws tx htx)
  have hj := lt_of_outputType hlayout hscript
  obtain ⟨c, houtput⟩ := hlayout.output_ok _ (List.getElem_mem hj)
  obtain ⟨-, -, htype, hverify⟩ := CellOutputReader.fields_of_verify houtput
  rw [outputType, hlayout.outputs_eq, ok_bind, DynVec.get_eq hlayout.outputs_layout,
    List.getElem?_eq_getElem hj, ok_bind] at hscript
  simp only [htype, ok_bind, Except.ok.injEq] at hscript
  have hpart : part (DynVec.items (part (part tx 0) 4))[j] 2 = script := by
    unfold toOpt at hscript
    split_ifs at hscript
    exact Option.some.inj hscript
  constructor
  · simp only [typeScripts, List.mem_flatMap, List.mem_filterMap]
    exact ⟨block, hblock, tx, htx, _, List.getElem_mem hj, hscript⟩
  · rw [hpart] at hverify
    refine ⟨c, hverify.resolve_left fun hnil => ?_⟩
    simp [toOpt, hpart, hnil] at hscript

/-- No output of the templates carries the generated scripts: the proposal
script as `find_proposal` looks for it, the vote type script as `count_vote`
recognises it. -/
def Fresh (templateBlocks : Bytes) (generated : Generated) : Prop :=
  ∀ script ∈ typeScripts templateBlocks,
    script ≠ generated.proposalScript ∧ ¬ SameFields script generated.voteTypeScript

instance (templateBlocks : Bytes) (generated : Generated) :
    Decidable (Fresh templateBlocks generated) :=
  inferInstanceAs (Decidable (∀ script ∈ typeScripts templateBlocks,
    script ≠ generated.proposalScript ∧ ¬ SameFields script generated.voteTypeScript))

section Window

variable {templateBlocks : Bytes} {generated : Generated} {poll : Poll}

/-- The transactions of a template: readable, and none of them under the
generated scripts. -/
theorem template_raws (htemplate : BlockVecReader.verify true templateBlocks = .ok ())
    (hcons : generated.Consistent poll) (hfresh : Fresh templateBlocks generated)
    {template : Bytes} (hmem : template ∈ blockSlices templateBlocks) {tx : Bytes}
    (htx : tx ∈ transactionSlices template) :
    TransactionReader.raw tx = .ok (part tx 0) ∧ Unrecognised poll (part tx 0) ∧
      RawTransactionReader.verify true (part tx 0) = .ok () ∧
      ∀ j, outputType (part tx 0) j ≠ .ok (some generated.proposalScript) := by
  obtain ⟨-, hblocks⟩ := DynVec.verify_eq_ok.mp htemplate
  obtain ⟨-, -, htxs⟩ := blockReader_verify_eq_ok.mp (hblocks template hmem)
  obtain ⟨hraw, hverify⟩ := TransactionReader.raw_of_verify (htxs tx htx)
  refine ⟨hraw, fun j script hscript => ?_, hverify, fun j hscript => ?_⟩
  · obtain ⟨hin, c, hok⟩ := mem_typeScripts htemplate hmem htx hscript
    exact isVoteScript_eq_false hok hcons.vote_codeHash hcons.vote_hashType hcons.vote_args
      (hfresh script hin).2
  · obtain ⟨hin, -⟩ := mem_typeScripts htemplate hmem htx hscript
    exact (hfresh _ hin).1 rfl

/-- The voter of block `i`. -/
def voterOf (i : Nat) : Option Hash32 :=
  if i = 0 then none else some (blake2b256 (voterLock i))

/-- The first extra transaction holds the proposal and adds no voter. -/
theorem proposalTx_fields (hcons : generated.Consistent poll)
    (hsize : (generated.extraTx 0).length < 2 ^ 32) :
    TransactionReader.raw (generated.extraTx 0) = .ok (part (generated.extraTx 0) 0) ∧
      Adds poll [part (generated.extraTx 0) 0] none ∧
      findInTransaction generated.proposalScript (part (generated.extraTx 0) 0) =
        .ok (some (some generated.proposal)) := by
  have heq : generated.extraTx 0 = Transaction.newBuilder
      (outputRaw Script.default generated.proposalScript generated.proposal) [] := if_pos rfl
  rw [heq] at hsize ⊢
  obtain ⟨hraw, hpart, hlayout⟩ := outputRaw_layout defaults_verify.1 hcons.script_ok hsize
  obtain ⟨htype, hcontent, hone⟩ := outputRaw_output defaults_verify.1 hcons.script_ok hsize
  have hunlike := isVoteScript_eq_false hcons.script_ok hcons.vote_codeHash hcons.vote_hashType
    hcons.vote_args hcons.script_ne_vote
  rw [hpart]
  refine ⟨hraw, adds_unrecognised fun raw hmem => ?_, ?_⟩
  · rw [List.mem_singleton.mp hmem]
    refine ⟨fun j script hscript => ?_, _, _, _, _, hlayout⟩
    obtain ⟨-, rfl⟩ := hone j script hscript
    exact hunlike
  · rw [findInTransaction_script hlayout htype hcontent fun j' htype' => (hone j' _ htype').1,
      fromCompatibleSlice_eq_ok.mpr ⟨hcons.proposal_ok, rfl⟩]
    rfl

omit [Blake2b] in
theorem voterLock_verify (i : Nat) : ScriptReader.verify false (voterLock i) = .ok () :=
  (script_fields (leBytes 8 i) (by simp) rfl (by simp)).1

/-- Each later extra transaction adds its voter. -/
theorem voteTx_fields (hcons : generated.Consistent poll) {i : Nat} (hi : i ≠ 0)
    (hsize : (generated.extraTx i).length < 2 ^ 32) :
    TransactionReader.raw (generated.extraTx i) = .ok (part (generated.extraTx i) 0) ∧
      Adds poll [part (generated.extraTx i) 0] (some (blake2b256 (voterLock i))) := by
  have heq : generated.extraTx i = Transaction.newBuilder
      (outputRaw (voterLock i) generated.voteTypeScript (Vote.newBuilder 1 100 [])) [] := if_neg hi
  rw [heq] at hsize ⊢
  obtain ⟨hraw, hpart, -⟩ := outputRaw_layout (voterLock_verify i) hcons.vote_ok hsize
  have hvote := isVoteScript_eq_true hcons.vote_codeHash hcons.vote_hashType hcons.vote_args
  rw [hpart]
  exact ⟨hraw, adds_vote (voterLock_verify i) hcons.vote_ok hvote hsize⟩

/-- Block `i` can be built, and adds the voter of block `i` to a count. -/
theorem slot_fields (htemplate : BlockVecReader.verify true templateBlocks = .ok ())
    (hcons : generated.Consistent poll) (hfresh : Fresh templateBlocks generated)
    (hsize : argumentsSize (generated.slots (blockSlices templateBlocks)) < 2 ^ 32) {i : Nat}
    (hi : i < (generated.slots (blockSlices templateBlocks)).length) :
    (generated.slots (blockSlices templateBlocks))[i].Ready ∧
      Adds poll (generated.slots (blockSlices templateBlocks))[i].raws (voterOf i) := by
  have hi' : i < (blockSlices templateBlocks).length := by
    rwa [Generated.length_slots] at hi
  have hslot : (generated.slots (blockSlices templateBlocks))[i] =
      ⟨(blockSlices templateBlocks)[i], generated.extraTx i⟩ := List.getElem_mapIdx
  have hslotSize := size_le_argumentsSize (List.getElem_mem hi)
  rw [hslot] at hslotSize ⊢
  have hmem := List.getElem_mem hi'
  have hshallow : verifyBlockVec true templateBlocks = .ok () :=
    (verifyBlockVec_of_verify htemplate).1
  have hlayout := blockLayout_of_mem hshallow hmem
  have hextraSize : (generated.extraTx i).length < 2 ^ 32 := by
    simp only [Slot.size] at hslotSize
    omega
  have hextra : TransactionReader.raw (generated.extraTx i) = .ok (part (generated.extraTx i) 0) ∧
      Adds poll [part (generated.extraTx i) 0] (voterOf i) := by
    rcases Nat.eq_zero_or_pos i with rfl | hpos
    · obtain ⟨hraw, hadds, -⟩ := proposalTx_fields hcons hextraSize
      exact ⟨hraw, hadds⟩
    · rw [voterOf, if_neg (by omega)]
      exact voteTx_fields hcons (by omega) hextraSize
  have hraws := fun (tx : Bytes) (htx : tx ∈ transactionSlices (blockSlices templateBlocks)[i]) =>
    template_raws htemplate hcons hfresh hmem htx
  constructor
  · refine ⟨hlayout, fun tx htx => ?_, by omega⟩
    rcases List.mem_append.mp htx with hold | hlast
    · exact (hraws tx hold).1
    · rw [List.mem_singleton.mp hlast]
      exact hextra.1
  · rw [Slot.raws, Slot.txs, List.map_append]
    refine Adds.append (adds_unrecognised fun raw hraw => ?_) hextra.2
    obtain ⟨tx, htx, rfl⟩ := List.mem_map.mp hraw
    obtain ⟨-, hnone, hverify, -⟩ := hraws tx htx
    exact ⟨hnone, _, _, _, _, RawTransactionReader.layout_of_verify hverify⟩

/-- The search ends at the last transaction of the first block. -/
theorem findProposalIn_slots (htemplate : BlockVecReader.verify true templateBlocks = .ok ())
    (hcons : generated.Consistent poll) (hfresh : Fresh templateBlocks generated)
    (hne : blockSlices templateBlocks ≠ [])
    (hsize : argumentsSize (generated.slots (blockSlices templateBlocks)) < 2 ^ 32) :
    findProposalIn generated.proposalScript
      ((generated.slots (blockSlices templateBlocks)).map Slot.raws) =
        .ok (some generated.proposal) := by
  cases htemplates : blockSlices templateBlocks with
  | nil => exact absurd htemplates hne
  | cons first rest =>
      have hmem : first ∈ blockSlices templateBlocks := by simp [htemplates]
      have hslots : generated.slots (first :: rest) = ⟨first, generated.extraTx 0⟩ ::
          rest.mapIdx fun i template => ⟨template, generated.extraTx (i + 1)⟩ := List.mapIdx_cons
      rw [htemplates, hslots] at hsize
      have hin : (⟨first, generated.extraTx 0⟩ : Slot) ∈ ⟨first, generated.extraTx 0⟩ ::
          rest.mapIdx fun i template => ⟨template, generated.extraTx (i + 1)⟩ := List.mem_cons_self
      have hslotSize := size_le_argumentsSize hin
      have hextraSize : (generated.extraTx 0).length < 2 ^ 32 := by
        simp only [Slot.size] at hslotSize
        omega
      obtain ⟨-, -, hfound⟩ := proposalTx_fields hcons hextraSize
      have hsearch : findList (findInTransaction generated.proposalScript)
          ((transactionSlices first).map (fun tx => part tx 0) ++ [part (generated.extraTx 0) 0]) =
          .ok (some (some generated.proposal)) := by
        refine findList_concat (fun raw hraw => ?_) hfound
        obtain ⟨tx, htx, rfl⟩ := List.mem_map.mp hraw
        obtain ⟨-, -, hverify, hother⟩ := template_raws htemplate hcons hfresh hmem htx
        exact findInTransaction_other (RawTransactionReader.layout_of_verify hverify) hother
      rw [hslots, List.map_cons, findProposalIn, Slot.raws, Slot.txs, List.map_append]
      simp only [List.map_cons, List.map_nil, hsearch, ok_bind, Option.getD_some]

/-- The voter lock hashes of `n` blocks do not collide. -/
def VotersDiffer (n : Nat) : Prop :=
  ∀ i j, 1 ≤ i → i < n → 1 ≤ j → j < n →
    blake2b256 (voterLock i) = blake2b256 (voterLock j) → i = j

/-- As many voters as blocks after the first. -/
theorem length_voters {n : Nat} (h : VotersDiffer n) :
    (((List.range n).map voterOf).filterMap id).Nodup ∧
      (((List.range n).map voterOf).filterMap id).length = n - 1 := by
  cases n with
  | zero => exact ⟨List.nodup_nil, rfl⟩
  | succ n =>
      have hvoters : ((List.range (n + 1)).map voterOf).filterMap id =
          (List.range n).map fun i => blake2b256 (voterLock (i + 1)) := by
        have hlater : voterOf ∘ Nat.succ = fun i => some (blake2b256 (voterLock (i + 1))) := rfl
        rw [List.range_succ_eq_map, List.map_cons, List.map_map, hlater]
        simp [voterOf, List.filterMap_map]
      rw [hvoters]
      refine ⟨List.Nodup.map_on (fun i hi j hj heq => ?_) List.nodup_range, by simp⟩
      have hi' := List.mem_range.mp hi
      have hj' := List.mem_range.mp hj
      have := h (i + 1) (j + 1) (by omega) (by omega) (by omega) (by omega) heq
      omega

/-- **The count over filled slots.**  Each block but the first adds one vote of
100 shannon. -/
theorem countVote_slots (htemplate : BlockVecReader.verify true templateBlocks = .ok ())
    (hcons : generated.Consistent poll) (hfresh : Fresh templateBlocks generated)
    (hne : blockSlices templateBlocks ≠ [])
    (hsize : argumentsSize (generated.slots (blockSlices templateBlocks)) < 2 ^ 32)
    (hduration : poll.duration + 1 = (blockSlices templateBlocks).length)
    (hdiffer : VotersDiffer (blockSlices templateBlocks).length) {blocks : Bytes}
    (hverify : verifyBlockVec true blocks = .ok ())
    (hraws : blockRaws blocks =
      .ok ((generated.slots (blockSlices templateBlocks)).map Slot.raws)) :
    ∃ result, countVote blocks generated.proposalScript = .ok result ∧
      result.yesVote = 100 * ((blockSlices templateBlocks).length - 1) ∧ result.noVote = 0 := by
  have hlen := generated.length_slots (blockSlices templateBlocks)
  have hadds : List.Forall₂ (Adds poll)
      ((generated.slots (blockSlices templateBlocks)).map Slot.raws)
      ((List.range (blockSlices templateBlocks).length).map voterOf) := by
    refine List.forall₂_of_length_eq_of_get (by simp [hlen]) fun i hi hi' => ?_
    rw [List.length_map] at hi
    have hadd := (slot_fields htemplate hcons hfresh hsize hi).2
    simpa using hadd
  obtain ⟨hnodup, hcount⟩ := length_voters hdiffer
  have hyes := exactSum_addVoter yesWeight hnodup
  have hno := exactSum_addVoter noWeight hnodup
  have hyesWeight : yesWeight (1, 100) = 100 := rfl
  have hnoWeight : noWeight (1, 100) = 0 := rfl
  rw [hcount, hyesWeight] at hyes
  rw [hcount, hnoWeight, Nat.zero_mul] at hno
  have hbound : (blockSlices templateBlocks).length < 2 ^ 32 := by
    unfold argumentsSize at hsize
    omega
  rw [countVote_raws hverify hraws, countRaws,
    findProposalIn_slots htemplate hcons hfresh hne hsize]
  simp only [ok_bind, hcons.poll_eq, List.length_map, hlen, hduration, ne_eq, not_true_eq_false,
    if_false, tallyRaws_adds hadds]
  refine ⟨_, rfl, ?_, ?_⟩
  · simp only [verdict, sumVotes_eq, hyes, maxU64]
    omega
  · simp only [verdict, sumVotes_eq, hno, Nat.zero_min]

/-- **The mock generator yields a valid, exactly counted chain.**  For every
proposal and every template of one block or more that parse with extra fields
admitted, the arguments are built.  Their blocks pass `verify_block_vec` and,
with the witness roots next to them, the integrity check, and `count_vote`
finds 100 shannon of YES votes for every block after the first and no NO
vote. -/
theorem generated_window_counts {proposal : Bytes}
    (hproposal : ProposalReader.verify true proposal = .ok ())
    (htemplate : fromCompatibleSlice BlockVecReader.verify templateBlocks = .ok templateBlocks)
    (hne : 1 ≤ (blockSlices templateBlocks).length) :
    ∃ generated, generateScripts proposal (blockSlices templateBlocks).length = .ok generated ∧
      (Fresh templateBlocks generated → VotersDiffer (blockSlices templateBlocks).length →
        argumentsSize (generated.slots (blockSlices templateBlocks)) < 2 ^ 32 →
        ∃ args blocks witnessRoot result,
          generateFromTemplates proposal templateBlocks = .ok (.ok args) ∧
          args.length = argumentsSize (generated.slots (blockSlices templateBlocks)) ∧
          (GuestProgramArgumentsReader.blocks args >>= rawData) = .ok blocks ∧
          GuestProgramArgumentsReader.witnessRoot args = .ok witnessRoot ∧
          GuestProgramArgumentsReader.proposalScript args = .ok generated.proposalScript ∧
          (∀ compatible, verifyBlockVec compatible blocks = .ok ()) ∧
          verifyBlockIntegrity blocks witnessRoot = .ok (.ok ()) ∧
          countVote blocks generated.proposalScript = .ok result ∧
          result.yesVote = 100 * ((blockSlices templateBlocks).length - 1) ∧
          result.noVote = 0) := by
  obtain ⟨hverify, -⟩ := fromCompatibleSlice_eq_ok.mp htemplate
  obtain ⟨generated, poll, hgenerated, hcons, hduration⟩ :=
    generateScripts_consistent hproposal (blockSlices templateBlocks).length
  refine ⟨generated, hgenerated, fun hfresh hdiffer hsize => ?_⟩
  have hnonempty : blockSlices templateBlocks ≠ [] := List.ne_nil_of_length_pos hne
  have hlen := generated.length_slots (blockSlices templateBlocks)
  have hready : ∀ slot ∈ generated.slots (blockSlices templateBlocks), slot.Ready := by
    intro slot hslot
    obtain ⟨i, hi, rfl⟩ := List.mem_iff_getElem.mp hslot
    exact (slot_fields hverify hcons hfresh hsize hi).1
  obtain ⟨blocks, roots, hargs, hfilled, hlinked, hroots⟩ :=
    generateFromTemplates_eq hverify hgenerated hready
  have hblocksLen : (generated.slots (blockSlices templateBlocks)).length = blocks.length :=
    hfilled.length_eq
  have hrootsLen : blocks.length = roots.length := hroots.length_eq
  have hargsLen : (guestArguments (BlockVec.newBuilder blocks) roots
      generated.proposalScript).length =
        argumentsSize (generated.slots (blockSlices templateBlocks)) :=
    length_arguments hready hfilled (by omega) hcons.length_script
  have hargsSize : (guestArguments (BlockVec.newBuilder blocks) roots
      generated.proposalScript).length < 2 ^ 32 := by rwa [hargsLen]
  have hparts := length_guestArguments (BlockVec.newBuilder blocks) roots generated.proposalScript
  have hvecSize : (BlockVec.newBuilder blocks).length < 2 ^ 32 := by omega
  have hshallow := verifyBlockVec_filled hready hfilled hvecSize
  have hintegrity := verifyBlockIntegrity_filled hready hfilled hvecSize (by omega) hlinked hroots
    (by omega)
  have hraws := blockRaws_filled hready hfilled hvecSize
  obtain ⟨hargsBlocks, hargsRoots, hargsScript⟩ := guestArguments_fields hargsSize
  have hwindow : poll.duration + 1 = (blockSlices templateBlocks).length := by
    unfold wrappingSub at hduration
    omega
  obtain ⟨result, hcount, hyes, hno⟩ := countVote_slots hverify hcons hfresh hnonempty hsize hwindow
    hdiffer (hshallow true) hraws
  exact ⟨_, _, _, result, hargs, hargsLen,
    bind_eq_ok.mpr ⟨_, hargsBlocks, rawData_buildBytes _⟩, hargsRoots, hargsScript, hshallow,
    hintegrity, hcount, hyes, hno⟩

end Window

end Code

/-! ## A sample -/

section Mock

open Sample

/-- A proposal without a duration. -/
def mockProposal : Bytes :=
  Proposal.newBuilder 0 (List.replicate 32 1) [0] [] Script.default 0 0

/-- Three blocks: one with a vote in another poll, one with an extension field,
an empty one. -/
def mockTemplates : Bytes := BlockVec.newBuilder [
  Block.newBuilder (List.replicate 208 0)
    [Transaction.newBuilder (voteTx 5 [outPoint 7 0] [outPoint 6 0]) []],
  build [List.replicate 208 0, build [], build [], buildFixVec [], buildBytes [7]],
  Block.newBuilder (List.replicate 208 0) []]

def mockGenerated : Generated where
  proposal := Proposal.newBuilder 2 (List.replicate 32 1) [0] [] Script.default 0 0
  proposalScript := Script.newBuilder
    (digest 0x37a32c62c7bf5718019c7ddc5bd905ea87bc258228191d0a2c976a1398e2a08e).val [0] []
  voteTypeScript := Script.newBuilder (List.replicate 32 1) [0]
    ((digest 0x5ce69dcbcb421228fd67b155813a0767ee33856ae81aa9636d5703d7ad41bd6b).val.take 20)

/-- The digests of the strings hashed in generating and checking the window. -/
def mockDigests : List (Bytes × Nat) := [
  (mockGenerated.proposal,
    0x37a32c62c7bf5718019c7ddc5bd905ea87bc258228191d0a2c976a1398e2a08e),
  (mockGenerated.proposalScript,
    0x5ce69dcbcb421228fd67b155813a0767ee33856ae81aa9636d5703d7ad41bd6b),
  (voterLock 1,
    0xe315c28351baf6bcb5eb40fdbdfdad347c7087797fdd90fc73161fb6a7b58c83),
  (voterLock 2,
    0xc968d9a6d0226840e0daa9b32f87897dfe1ddddcc1fa400e1212a0e0c066281c),
  (Transaction.newBuilder (voteTx 5 [outPoint 7 0] [outPoint 6 0]) [],
    0x5dde67ed0a60832f37325e15829127bc167952db3d1df51d72edf76d4496ab0f),
  (voteTx 5 [outPoint 7 0] [outPoint 6 0],
    0x239a5d0cf508be9c6699f827b64a9f2608b795a9bd0c64fb60263c8a675c3cea),
  (outputRaw Script.default mockGenerated.proposalScript mockGenerated.proposal,
    0xfe014082e5cae9bdab0506c19593f4e9b5b8de9de76807c79cee40ac53ca3626),
  (mockGenerated.extraTx 0,
    0x91f830f53e4855e9c2fbc6d0984bd3b5488b41c6b0fc4367b3d7f8d7e60fac9c),
  (outputRaw (voterLock 1) mockGenerated.voteTypeScript (Vote.newBuilder 1 100 []),
    0x86c8c412cfa36ad97db4f0d9114ba66b8d310f1337ae7282f836166f07867952),
  (mockGenerated.extraTx 1,
    0x7a3b1816803001b36f5336666804c7ce4790d1d0e8cd13faff63112e71471d8d),
  (outputRaw (voterLock 2) mockGenerated.voteTypeScript (Vote.newBuilder 1 100 []),
    0xcfbb93a286dc1556ff8715eec1f2c38167e7f96b490204a9c966bb2f657c52d4),
  (mockGenerated.extraTx 2,
    0xf88bf44a22c7e34507c2710525e62c9417a8109a6738eee5de8bb66c0d660581),
  (mergeInput (digest 0x239a5d0cf508be9c6699f827b64a9f2608b795a9bd0c64fb60263c8a675c3cea)
    (digest 0xfe014082e5cae9bdab0506c19593f4e9b5b8de9de76807c79cee40ac53ca3626),
    0x0d574e3db81c9205429a783c82f68810a076f00a8f905421c1e0048516d3c8ed),
  (mergeInput (digest 0x5dde67ed0a60832f37325e15829127bc167952db3d1df51d72edf76d4496ab0f)
    (digest 0x91f830f53e4855e9c2fbc6d0984bd3b5488b41c6b0fc4367b3d7f8d7e60fac9c),
    0xe1fe9dd9c9a9df16d4717ad67a7dea4838c32e2a8c9214528d68b207d213cde2),
  (mergeInput (digest 0x0d574e3db81c9205429a783c82f68810a076f00a8f905421c1e0048516d3c8ed)
    (digest 0xe1fe9dd9c9a9df16d4717ad67a7dea4838c32e2a8c9214528d68b207d213cde2),
    0x6e6ff1c47e728408e83be446882c3e122c4d841d82e0101efb62769cc10c35eb),
  (mergeInput (digest 0x86c8c412cfa36ad97db4f0d9114ba66b8d310f1337ae7282f836166f07867952)
    (digest 0x7a3b1816803001b36f5336666804c7ce4790d1d0e8cd13faff63112e71471d8d),
    0x8f5fe9533f881f12cd83ba03545640b6e04e363f3a635d8e1cccd3e203cf65ad),
  (mergeInput (digest 0xcfbb93a286dc1556ff8715eec1f2c38167e7f96b490204a9c966bb2f657c52d4)
    (digest 0xf88bf44a22c7e34507c2710525e62c9417a8109a6738eee5de8bb66c0d660581),
    0xab853a48fa911254a467a7eaf37566491458caf89087722d4c17c033f5ff2555),
  (header 0
    0x6e6ff1c47e728408e83be446882c3e122c4d841d82e0101efb62769cc10c35eb,
    0x25ca806116efe508ae214435938c8788a4c9766b23f67450eb0d8f5729eb6dcb),
  (header 0x25ca806116efe508ae214435938c8788a4c9766b23f67450eb0d8f5729eb6dcb
    0x8f5fe9533f881f12cd83ba03545640b6e04e363f3a635d8e1cccd3e203cf65ad,
    0xcfcff5550d3e6463b03e7ed8736da85c373d6853ca76aac287d77d6df2ac8680)]

local instance (priority := 2000) mockBlake2b : Blake2b := tableBlake2b mockDigests

theorem mock_reads : ProposalReader.verify true mockProposal = .ok () ∧
    fromCompatibleSlice BlockVecReader.verify mockTemplates = .ok mockTemplates ∧
    (blockSlices mockTemplates).length = 3 ∧
    generateScripts mockProposal 3 = .ok mockGenerated ∧ Fresh mockTemplates mockGenerated ∧
    argumentsSize (mockGenerated.slots (blockSlices mockTemplates)) < 2 ^ 32 ∧
    blake2b256 (voterLock 1) ≠ blake2b256 (voterLock 2) := by
  decide +kernel

theorem mock_votersDiffer : VotersDiffer 3 := by
  intro i j hi hi' hj hj' heq
  obtain ⟨-, -, -, -, -, -, hne⟩ := mock_reads
  obtain rfl | rfl : i = 1 ∨ i = 2 := by omega
  · obtain rfl | rfl : j = 1 ∨ j = 2 := by omega
    · rfl
    · exact absurd heq hne
  · obtain rfl | rfl : j = 1 ∨ j = 2 := by omega
    · exact absurd heq.symm hne
    · rfl

/-- The window generated from the sample templates. -/
theorem generated_window_counts_mock : ∃ args blocks witnessRoot result,
    generateFromTemplates mockProposal mockTemplates = .ok (.ok args) ∧
      args.length = argumentsSize (mockGenerated.slots (blockSlices mockTemplates)) ∧
      (GuestProgramArgumentsReader.blocks args >>= rawData) = .ok blocks ∧
      GuestProgramArgumentsReader.witnessRoot args = .ok witnessRoot ∧
      GuestProgramArgumentsReader.proposalScript args = .ok mockGenerated.proposalScript ∧
      (∀ compatible, verifyBlockVec compatible blocks = .ok ()) ∧
      verifyBlockIntegrity blocks witnessRoot = .ok (.ok ()) ∧
      countVote blocks mockGenerated.proposalScript = .ok result ∧
      result.yesVote = 200 ∧ result.noVote = 0 := by
  obtain ⟨hproposal, htemplate, hcount, hscripts, hfresh, hsize, -⟩ := mock_reads
  obtain ⟨generated, hgenerated, hcounts⟩ :=
    generated_window_counts hproposal htemplate (by rw [hcount]; decide)
  rw [hcount] at hgenerated hcounts
  obtain rfl : mockGenerated = generated := Except.ok.inj (hscripts.symm.trans hgenerated)
  exact hcounts hfresh mock_votersDiffer hsize

end Mock

end CkbVote.TestTool
