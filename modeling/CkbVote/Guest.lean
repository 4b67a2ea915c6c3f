import CkbVote.BlockBinding

/-!
# The guest program

`main` of the program that runs in the zkVM: it reads one byte string, chosen
by the prover, and commits one byte string, the public values.

`guestMain_eq_ok` states when a run commits: the arguments parse strictly, the
block vector passes the optimised verifier and the integrity check, and the
count ends.  What is committed are the count, the hashes of the first and the
last header, and the proposal script of the arguments.
-/

namespace CkbVote

open Octets Molecule

/-- `.expect(message)` on a result. -/
def expectOk {ε α : Type} (message : String) : Except ε α → Run α
  | .ok a => .ok a
  | .error _ => .error (.expect message)

theorem expectOk_eq_ok {ε α : Type} {message : String} {x : Except ε α} {a : α} :
    expectOk message x = .ok a ↔ x = .ok a := by
  cases x <;> simp [expectOk]

section Code

variable [Blake2b]

/-- `PublicValues::new_builder()` with every field set. -/
def publicValues (result : VoteResult) (startHash endHash : Hash32) (proposalScript : Bytes) :
    Bytes :=
  PublicValues.newBuilder result.proposal startHash.val endHash.val proposalScript
    [if result.passed then 1 else 0] (leBytes 8 result.yesVote) (leBytes 8 result.noVote)

/-- `main`: the committed bytes. -/
def guestMain (argsBytes : Bytes) : Run Bytes := do
  let args ← expectOk "failed to load guest program arguments"
    (fromSlice GuestProgramArgumentsReader.verify argsBytes)
  let blocks ← rawData (← GuestProgramArgumentsReader.blocks args)
  expectOk "failed to verify BlockVec in molecule format" (verifyBlockVec false blocks)
  let witnessRoot ← GuestProgramArgumentsReader.witnessRoot args
  expectOk "block integrity verification failed" (← verifyBlockIntegrity blocks witnessRoot)
  match ← DynVec.get blocks 0 with
  | none => .error (.expect "should have at least one block")
  | some firstBlock =>
      let startHash := computeHeaderHash (← BlockReader.header firstBlock)
      let lastIdx := (← itemCount blocks) - 1
      let lastBlock ← blockAt blocks lastIdx
      let endHash := computeHeaderHash (← BlockReader.header lastBlock)
      let proposalScript ← GuestProgramArgumentsReader.proposalScript args
      let result ← countVote blocks proposalScript
      .ok (publicValues result startHash endHash proposalScript)

/-- The data of a run that commits. -/
structure GuestRun (argsBytes blocks witnessRoot proposalScript firstBlock lastBlock : Bytes)
    (result : VoteResult) : Prop where
  args_ok : GuestProgramArgumentsReader.verify false argsBytes = .ok ()
  blocks_eq : GuestProgramArgumentsReader.blocks argsBytes >>= rawData = .ok blocks
  witnessRoot_eq : GuestProgramArgumentsReader.witnessRoot argsBytes = .ok witnessRoot
  script_eq : GuestProgramArgumentsReader.proposalScript argsBytes = .ok proposalScript
  verified : verifyBlockVec false blocks = .ok ()
  integrity : verifyBlockIntegrity blocks witnessRoot = .ok (.ok ())
  first_eq : (blockSlices blocks).head? = some firstBlock
  last_eq : (blockSlices blocks).getLast? = some lastBlock
  counted : countVote blocks proposalScript = .ok result

variable {argsBytes values : Bytes}

/-- The two blocks whose hashes a run commits, by position. -/
theorem GuestRun.ends {blocks witnessRoot proposalScript firstBlock lastBlock : Bytes}
    {result : VoteResult} {n : Nat}
    (h : GuestRun argsBytes blocks witnessRoot proposalScript firstBlock lastBlock result)
    (hn : (blockSlices blocks).length = n + 1) :
    (blockSlices blocks)[0]? = some firstBlock ∧ (blockSlices blocks)[n]? = some lastBlock := by
  have hfirst := h.first_eq
  have hlast := h.last_eq
  rw [List.head?_eq_getElem?] at hfirst
  rw [List.getLast?_eq_getElem?, hn, Nat.add_sub_cancel] at hlast
  exact ⟨hfirst, hlast⟩

omit [Blake2b] in
/-- The first and the last block of a verified vector, read as `main` does. -/
theorem ends_eq {blocks : Bytes} (hverify : verifyBlockVec false blocks = .ok ())
    (hne : blockSlices blocks ≠ []) :
    ∃ firstBlock lastBlock, (blockSlices blocks).head? = some firstBlock ∧
      (blockSlices blocks).getLast? = some lastBlock ∧
      DynVec.get blocks 0 = .ok (some firstBlock) ∧
      itemCount blocks = .ok (blockSlices blocks).length ∧
      blockAt blocks ((blockSlices blocks).length - 1) = .ok lastBlock ∧
      BlockReader.header firstBlock = .ok (headerSlice firstBlock) ∧
      BlockReader.header lastBlock = .ok (headerSlice lastBlock) := by
  have hpos := List.length_pos_iff.mpr hne
  have hfirst : (blockSlices blocks)[0] ∈ blockSlices blocks := List.getElem_mem hpos
  have hlast := List.getLast_mem hne
  have hget := DynVec.get_eq (verifyBlockVec_eq_ok.mp hverify).1 0
  refine ⟨_, _, List.head?_eq_getElem? ▸ List.getElem?_eq_getElem hpos,
    List.getLast?_eq_some_getLast hne, ?_, itemCount_blocks hverify, ?_,
    (blockLayout_of_mem hverify hfirst).header_eq, (blockLayout_of_mem hverify hlast).header_eq⟩
  · rw [hget]
    exact congrArg Except.ok (List.getElem?_eq_getElem hpos)
  · rw [blockAt_eq hverify (by omega), List.getLast_eq_getElem]

/-- **A guest run commits** the public values of its count, its first and last
header and its script, exactly when the checks in front of the count pass and
the count ends. -/
theorem guestMain_eq_ok : guestMain argsBytes = .ok values ↔
    ∃ blocks witnessRoot proposalScript firstBlock lastBlock result,
      GuestRun argsBytes blocks witnessRoot proposalScript firstBlock lastBlock result ∧
        values = publicValues result (headerHash (headerSlice firstBlock))
          (headerHash (headerSlice lastBlock)) proposalScript := by
  constructor
  · intro h
    obtain ⟨args, hargs, h⟩ := bind_eq_ok.mp h
    obtain ⟨hargsOk, rfl⟩ := fromSlice_eq_ok.mp (expectOk_eq_ok.mp hargs)
    obtain ⟨blocksField, hfield, h⟩ := bind_eq_ok.mp h
    obtain ⟨blocks, hblocks, h⟩ := bind_eq_ok.mp h
    obtain ⟨hverify, h⟩ := bind_unit_eq_ok.mp h
    obtain ⟨witnessRoot, hwitness, h⟩ := bind_eq_ok.mp h
    obtain ⟨checked, hchecked, h⟩ := bind_eq_ok.mp h
    obtain ⟨hpassed, h⟩ := bind_unit_eq_ok.mp h
    rw [expectOk_eq_ok] at hverify hpassed
    rw [hpassed] at hchecked
    have hne := ((verifyBlockIntegrity_ok hverify).mp hchecked).1
    obtain ⟨firstBlock, lastBlock, hfirst, hlast, hget, hcount, hat, hfirstHeader, hlastHeader⟩ :=
      ends_eq hverify hne
    simp only [hget, hcount, hat, hfirstHeader, hlastHeader, ok_bind] at h
    obtain ⟨proposalScript, hscript, h⟩ := bind_eq_ok.mp h
    obtain ⟨result, hresult, h⟩ := bind_eq_ok.mp h
    exact ⟨blocks, witnessRoot, proposalScript, firstBlock, lastBlock, result,
      ⟨hargsOk, bind_eq_ok.mpr ⟨blocksField, hfield, hblocks⟩, hwitness, hscript, hverify, hchecked,
        hfirst, hlast, hresult⟩, (Except.ok.inj h).symm⟩
  · intro h
    obtain ⟨blocks, witnessRoot, proposalScript, firstBlock, lastBlock, result, hrun, rfl⟩ := h
    obtain ⟨blocksField, hfield, hblocks⟩ := bind_eq_ok.mp hrun.blocks_eq
    have hne := ((verifyBlockIntegrity_ok hrun.verified).mp hrun.integrity).1
    obtain ⟨firstBlock', lastBlock', hfirst, hlast, hget, hcount, hat, hfirstHeader, hlastHeader⟩ :=
      ends_eq hrun.verified hne
    obtain rfl : firstBlock' = firstBlock := Option.some.inj (hfirst.symm.trans hrun.first_eq)
    obtain rfl : lastBlock' = lastBlock := Option.some.inj (hlast.symm.trans hrun.last_eq)
    rw [guestMain, expectOk_eq_ok.mpr (fromSlice_eq_ok.mpr ⟨hrun.args_ok, rfl⟩), ok_bind, hfield,
      ok_bind, hblocks, ok_bind, expectOk_eq_ok.mpr hrun.verified, ok_bind, hrun.witnessRoot_eq,
      ok_bind, hrun.integrity, ok_bind]
    simp only [expectOk, ok_bind, hget, hcount, hat, hfirstHeader, hlastHeader, hrun.script_eq,
      hrun.counted]
    rfl

/-! ## The committed bytes, read back -/

section PublicValues

variable {result : VoteResult} {startHash endHash : Hash32} {proposalScript : Bytes}

omit [Blake2b] in
theorem length_publicValues : (publicValues result startHash endHash proposalScript).length =
    113 + result.proposal.length + proposalScript.length := by
  rw [publicValues, PublicValues.newBuilder, length_build]
  simp only [List.length_cons, List.length_nil, List.flatten_cons, List.flatten_nil,
    List.length_append, FixedBytes.length_val, length_leBytes]
  omega

omit [Blake2b] in
/-- **The committed fields** are read back as they were set. -/
theorem publicValues_fields
    (h : (publicValues result startHash endHash proposalScript).length < 2 ^ 32) :
    PublicValuesReader.proposal (publicValues result startHash endHash proposalScript) =
        .ok result.proposal ∧
      PublicValuesReader.startBlockHash (publicValues result startHash endHash proposalScript) =
        .ok startHash.val ∧
      PublicValuesReader.endBlockHash (publicValues result startHash endHash proposalScript) =
        .ok endHash.val ∧
      PublicValuesReader.proposalScript (publicValues result startHash endHash proposalScript) =
        .ok proposalScript ∧
      PublicValuesReader.passed (publicValues result startHash endHash proposalScript) =
        .ok [if result.passed then 1 else 0] := by
  have hbuild : (build [result.proposal, startHash.val, endHash.val, proposalScript,
    [if result.passed then 1 else 0], leBytes 8 result.yesVote,
    leBytes 8 result.noVote]).length < 2 ^ 32 := h
  exact ⟨field_build (k := 0) hbuild (by simp), field_build (k := 1) hbuild (by simp),
    field_build (k := 2) hbuild (by simp), field_build (k := 3) hbuild (by simp),
    field_build (k := 4) hbuild (by simp)⟩

omit [Blake2b] in
/-- The public values parse strictly when proposal and script do. -/
theorem publicValues_verify
    (h : (publicValues result startHash endHash proposalScript).length < 2 ^ 32)
    (hproposal : ProposalReader.verify false result.proposal = .ok ())
    (hscript : ScriptReader.verify false proposalScript = .ok ()) :
    PublicValuesReader.verify false (publicValues result startHash endHash proposalScript) =
      .ok () := by
  have hbuild : (build [result.proposal, startHash.val, endHash.val, proposalScript,
    [if result.passed then 1 else 0], leBytes 8 result.yesVote,
    leBytes 8 result.noVote]).length < 2 ^ 32 := h
  have hbyte32 : ∀ hash : Hash32, Byte32Reader.verify false hash.val = .ok () :=
    fun hash => verifyFixed_eq_ok.mpr hash.length_val
  have huint64 : ∀ n, Uint64Reader.verify false (leBytes 8 n) = .ok () :=
    fun n => verifyFixed_eq_ok.mpr (length_leBytes 8 n)
  have hpassed : ByteReader.verify false [if result.passed then 1 else 0] = .ok () :=
    verifyFixed_eq_ok.mpr rfl
  refine verifyTable_build hbuild (by simp) ?_
  exact .cons hproposal (.cons (hbyte32 startHash) (.cons (hbyte32 endHash) (.cons hscript
    (.cons hpassed (.cons (huint64 result.yesVote) (.cons (huint64 result.noVote) .nil))))))

end PublicValues

/-! ## Counts that end -/

/-- On blocks that verify in full, a count that finds a proposal ends with it. -/
theorem countVote_of_proposal {blocks proposalScript proposal : Bytes} {compatible : Bool}
    (hverify : BlockVecReader.verify true blocks = .ok ())
    (hfind : findProposal blocks proposalScript = .ok (some proposal))
    (hproposal : ProposalReader.verify compatible proposal = .ok ()) :
    ∃ result, countVote blocks proposalScript = .ok result ∧ result.proposal = proposal := by
  obtain ⟨⟨hduration, hdurationLen⟩, hcode, htype, hminimal, hminimalLen⟩ :=
    ProposalReader.fields_of_verify hproposal
  obtain ⟨poll, hpoll⟩ : ∃ poll, readPoll proposal proposalScript = .ok poll := by
    rw [readPoll, hcode, ok_bind, htype, ok_bind, hminimal, ok_bind, fromLeBytes_ok hminimalLen,
      ok_bind, hduration, ok_bind, fromLeBytes_ok hdurationLen]
    exact ⟨_, rfl⟩
  obtain ⟨txs, hwindow⟩ := (window_of_verify hverify : ∃ txs, window poll blocks = .ok txs)
  obtain ⟨maps, htally, -⟩ := voteMap_tally hwindow
  have hshallow : verifyBlockVec true blocks = .ok () := (verifyBlockVec_of_verify hverify).1
  simp only [countVote, hfind, ok_bind, hpoll, itemCount_blocks hshallow, htally]
  split_ifs
  · exact ⟨_, rfl, rfl⟩
  · exact ⟨_, rfl, rfl⟩

end Code

end CkbVote
