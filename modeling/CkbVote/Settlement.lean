import CkbVote.Host
import CkbVote.ProposalTypeScript

/-!
# Settlement

Four pieces decide whether a proposal cell can be consumed: the script's
comparisons, the verifier of the proof, the guest's checks, and the chain the
headers come from.  `settlement_sound` puts them together.  Whatever the prover
feeds the guest, an accepted settlement is about the segment of the main chain
between the two header deps: it has the length the cell asks for, starts with
the block of the cell, and its own count passes.  The exceptions are a
coincidence of the hash and a raw transaction of 64 bytes among the guest's.
-/

namespace CkbVote

open Octets Molecule

section Code

variable [Blake2b]

/-! ## The main chain -/

/-- The blocks of the main chain, from the genesis block on. -/
structure MainChain (chain : List Bytes) : Prop where
  verified : ∀ block ∈ chain, BlockReader.verify true block = .ok ()
  genesis : ∀ block, chain.head? = some block →
    parentField (headerSlice block) = (FixedBytes.zero 32).val
  linked : Linked chain
  rooted : ∀ block ∈ chain, HonestRoot block
  distinct : (chain.map headerSlice).Nodup
  spends : ∀ block ∈ chain, ∀ tx ∈ transactionSlices block, numberAt (part (part tx 0) 3) 0 ≠ 0

/-- The strings hashed for the headers, raw transactions and roots of the chain. -/
def chainStrings : List Bytes → Run (List Bytes)
  | [] => .ok []
  | block :: chain => do
      let witness ← witnessRootOf block
      let strings ← blockStrings block witness.val
      let rest ← chainStrings chain
      .ok (strings ++ rest)

/-- A block of the chain with its roots, and its strings among the chain's. -/
theorem chainStrings_eq {chain : List Bytes}
    (hverified : ∀ block ∈ chain, BlockReader.verify true block = .ok ())
    (hrooted : ∀ block ∈ chain, HonestRoot block) :
    ∃ strings, chainStrings chain = .ok strings ∧
      ∀ block ∈ chain, ∃ raws, RootedIn strings block raws := by
  induction chain with
  | nil => exact ⟨[], rfl, by simp⟩
  | cons block chain ih =>
      obtain ⟨rest, hrest, hblocks⟩ := ih (fun b hb => hverified b (List.mem_cons_of_mem _ hb))
        (fun b hb => hrooted b (List.mem_cons_of_mem _ hb))
      have hlayout := (blockReader_verify_eq_ok.mp (hverified block List.mem_cons_self)).1
      obtain ⟨raws, rawRoot, witness, root, hraws, hrawRoot, hwitness, hroot, hfield⟩ :=
        hrooted block List.mem_cons_self
      obtain rfl : merge rawRoot witness = root := Except.ok.inj hroot
      have hroots : BlockRoots block raws rawRoot witness := ⟨hraws, hrawRoot, hfield⟩
      refine ⟨(headerSlice block :: (Cbmt.strings blake2b256 mergeInput raws ++
        [mergeInput rawRoot witness])) ++ rest, ?_, ?_⟩
      · rw [chainStrings, witnessRootOf_eq hlayout, hwitness, ok_bind,
          blockStrings_eq hlayout hroots,
          ok_bind, hrest]
        rfl
      · intro b hb
        rcases List.mem_cons.mp hb with rfl | hb
        · exact ⟨raws, rawRoot, witness, hroots, fun m hm => List.mem_append_left _ hm⟩
        · obtain ⟨raws', rawRoot', witness', hroots', hmem⟩ := hblocks b hb
          exact ⟨raws', rawRoot', witness', hroots', fun m hm => List.mem_append_right _
            (hmem m hm)⟩

omit [Blake2b] in
/-- A transaction with an input is longer than two digests. -/
theorem length_raw_of_spends {raw : Bytes} (h : RawTransactionReader.verify true raw = .ok ())
    (hspends : numberAt (part raw 3) 0 ≠ 0) : raw.length ≠ 64 := by
  obtain ⟨ht, hcount, -, -⟩ := verifyTable_eq_ok.mp h
  have hcount' : 6 ≤ headerCount raw := hcount
  have hinputs := (RawTransactionReader.layout_of_verify h).inputs_len
  have hle := ht.header_add_part_le (k := 3) (by omega)
  omega

/-! ## What a count that passes has read -/

/-- A count passes only behind the block-count check. -/
theorem past_of_passed {blocks proposalScript : Bytes} {result : VoteResult}
    (h : countVote blocks proposalScript = .ok result) (hpassed : result.passed = true) :
    ∃ poll, findProposal blocks proposalScript = .ok (some result.proposal) ∧
      readPoll result.proposal proposalScript = .ok poll ∧
      itemCount blocks = .ok (poll.duration + 1) := by
  obtain ⟨found, hfound, h⟩ := bind_eq_ok.mp h
  cases found with
  | none =>
      obtain ⟨_, -, h⟩ := bind_eq_ok.mp h
      obtain rfl := Except.ok.inj h
      cases hpassed
  | some proposal =>
      obtain ⟨poll, hpoll, h⟩ := bind_eq_ok.mp h
      obtain ⟨count, hcount, h⟩ := bind_eq_ok.mp h
      by_cases hlen : count ≠ poll.duration + 1
      · rw [if_pos hlen] at h
        obtain rfl := Except.ok.inj h
        cases hpassed
      · rw [if_neg hlen] at h
        obtain ⟨maps, -, h⟩ := bind_eq_ok.mp h
        obtain rfl := Except.ok.inj h
        exact ⟨poll, hfound, hpoll, not_not.mp hlen ▸ hcount⟩

/-- The `duration` field of a proposal. -/
def proposalDuration (proposal : Bytes) : Run Nat := do
  let duration ← ProposalReader.duration proposal
  fromLeBytes 4 "Uint32 is 4 bytes" duration

/-- The duration of the poll is that of the proposal. -/
theorem proposalDuration_of_poll {proposal proposalScript : Bytes} {poll : Poll}
    (h : readPoll proposal proposalScript = .ok poll) :
    proposalDuration proposal = .ok poll.duration := by
  obtain ⟨_, -, h⟩ := bind_eq_ok.mp h
  obtain ⟨_, -, h⟩ := bind_eq_ok.mp h
  obtain ⟨_, -, h⟩ := bind_eq_ok.mp h
  obtain ⟨_, -, h⟩ := bind_eq_ok.mp h
  obtain ⟨slice, hslice, h⟩ := bind_eq_ok.mp h
  obtain ⟨duration, hduration, h⟩ := bind_eq_ok.mp h
  obtain rfl := Except.ok.inj h
  rw [proposalDuration, hslice, ok_bind, hduration]

omit [Blake2b] in
/-- A proposal that the guest finds stands on an output of its first block. -/
theorem outputIn_of_findProposal {blocks proposalScript content : Bytes} {raws : List (List Bytes)}
    {compatible : Bool} (hverify : verifyBlockVec compatible blocks = .ok ())
    (hraws : blockRaws blocks = .ok raws)
    (h : findProposal blocks proposalScript = .ok (some content)) :
    ∃ (first : List Bytes) (rest : List (List Bytes)) (k j : Nat) (raw : Bytes),
      raws = first :: rest ∧ first[k]? = some raw ∧
      outputType raw j = .ok (some proposalScript) ∧ outputContent raw j = .ok (some content) := by
  rw [findProposal_raws hverify hraws] at h
  cases raws with
  | nil => cases h
  | cons first rest =>
      obtain ⟨found, hfound, h⟩ := bind_eq_ok.mp h
      cases found with
      | none => cases h
      | some found =>
          obtain rfl : found = some content := Except.ok.inj h
          obtain ⟨k, raw, hraw, hsearch⟩ := exists_of_findList hfound
          obtain ⟨j, htype, hcontent⟩ := output_of_findInTransaction hsearch
          exact ⟨first, rest, k, j, raw, rfl, hraw, htype, hcontent⟩

/-! ## The guest's blocks are a segment of the chain -/

variable {chain blocks hashed strings : List Bytes}

/-- A chain of blocks that ends in the header of a main-chain block, and whose
headers do not coincide with the main chain's, is the segment that ends there. -/
theorem segment_of_end {n e : Nat} (hchain : MainChain chain) (hlen : blocks.length = n + 1)
    (he : e < chain.length) (hlinks : Linked blocks)
    (hblocks : ∀ header ∈ blocks.map headerSlice, header ∈ hashed)
    (hstrings : ∀ header ∈ chain.map headerSlice, header ∈ strings)
    (hcol : ∀ x ∈ hashed, ∀ y ∈ strings, blake2b256 x = blake2b256 y → x = y)
    (hzero : ∀ x ∈ hashed ++ strings, blake2b256 x ≠ FixedBytes.zero 32)
    (hend : headerSlice blocks[n] = headerSlice chain[e]) :
    n ≤ e ∧ ∀ (j : Nat) (hj : j ≤ n) (hje : j ≤ e),
      headerSlice blocks[n - j] = headerSlice chain[e - j] := by
  have hback : ∀ (j : Nat) (hj : j ≤ n) (hje : j ≤ e),
      headerSlice blocks[n - j] = headerSlice chain[e - j] := by
    intro j hj hje
    have hstep := links_back (fun header => (blake2b256 header).val) parentField
      (blocks.map headerSlice) (chain.map headerSlice) (n := n) (e := e)
      (by simp [hlen]) (by simpa using he) hlinks.headers hchain.linked.headers
      (fun x hx y hy heq => hcol _ (hblocks x hx) _ (hstrings y hy) (FixedBytes.ext heq))
      (by simp [hend]) j hj hje
    simpa using hstep
  refine ⟨?_, hback⟩
  -- below the genesis block there is nothing to link to
  by_contra hlt
  have hgenesis := hback e (by omega) (Nat.le_refl e)
  have hparent := hlinks (n - e - 1) (by omega)
  have hidx : n - e - 1 + 1 = n - e := by omega
  have hzeroField := hchain.genesis chain[0] (by
    rw [List.head?_eq_getElem?, List.getElem?_eq_getElem (by omega)])
  simp only [hidx, hgenesis, Nat.sub_self] at hparent
  rw [hzeroField] at hparent
  have hmem := hblocks _ (List.mem_map_of_mem (List.getElem_mem (n := n - e - 1) (by omega)))
  exact hzero _ (List.mem_append_left _ hmem) (FixedBytes.ext hparent)

/-- Such a chain that also starts in the header of a main-chain block is the
segment between the two. -/
theorem segment_of_ends {n s e : Nat} (hchain : MainChain chain) (hlen : blocks.length = n + 1)
    (hs : s < chain.length) (he : e < chain.length) (hlinks : Linked blocks)
    (hblocks : ∀ header ∈ blocks.map headerSlice, header ∈ hashed)
    (hstrings : ∀ header ∈ chain.map headerSlice, header ∈ strings)
    (hcol : ∀ x ∈ hashed, ∀ y ∈ strings, blake2b256 x = blake2b256 y → x = y)
    (hzero : ∀ x ∈ hashed ++ strings, blake2b256 x ≠ FixedBytes.zero 32)
    (hstart : headerSlice blocks[0] = headerSlice chain[s])
    (hend : headerSlice blocks[n] = headerSlice chain[e]) :
    s + n = e ∧ ∀ (i : Nat) (hi : i < blocks.length) (hsi : s + i < chain.length),
      headerSlice blocks[i] = headerSlice chain[s + i] := by
  obtain ⟨hle, hback⟩ := segment_of_end hchain hlen he hlinks hblocks hstrings hcol hzero hend
  -- one header stands at one place
  have hfirst : s = e - n := by
    have hzeroth := hback n (Nat.le_refl n) hle
    simp only [Nat.sub_self, hstart] at hzeroth
    have hs' : s < (chain.map headerSlice).length := by simpa using hs
    have he' : e - n < (chain.map headerSlice).length := by
      rw [List.length_map]
      omega
    have hsame : (chain.map headerSlice)[s] = (chain.map headerSlice)[e - n] := by
      simpa using hzeroth
    exact hchain.distinct.getElem_inj_iff.mp hsame
  refine ⟨by omega, fun i hi hsi => ?_⟩
  have hidx : n - (n - i) = i := by omega
  have hidx' : e - (n - i) = s + i := by omega
  have hheader := hback (n - i) (by omega) (by omega)
  simpa only [hidx, hidx'] using hheader

/-- A guest block under a main-chain header has the raw transactions of the
main-chain block. -/
theorem rawTransactions_of_header {block guestBlock : Bytes} {raws : List Bytes}
    (hchain : MainChain chain) (hblock : block ∈ chain) (hguest : RootedIn hashed guestBlock raws)
    (hmain : ∃ raws', RootedIn strings block raws')
    (hheader : headerSlice guestBlock = headerSlice block)
    (hcol : ∀ x ∈ hashed, ∀ y ∈ strings, blake2b256 x = blake2b256 y → x = y)
    (hzero : ∀ x ∈ hashed ++ strings, blake2b256 x ≠ FixedBytes.zero 32)
    (h64 : ∀ raw ∈ raws, raw.length ≠ 64) : rawTransactions block = .ok raws := by
  obtain ⟨raws', hmain⟩ := hmain
  obtain ⟨hraws, hverify⟩ := rawTransactions_of_verify (hchain.verified block hblock)
  have h64' : ∀ raw ∈ raws', raw.length ≠ 64 := by
    intro raw hraw
    rw [Except.ok.inj (hmain.raws_eq.symm.trans hraws)] at hraw
    obtain ⟨tx, htx, rfl⟩ := List.mem_map.mp hraw
    exact length_raw_of_spends (hverify tx htx) (hchain.spends block hblock tx htx)
  rw [hguest.raws_unique hmain hheader hcol hzero h64 h64']
  exact hmain.raws_eq

/-! ## The result -/

/-- The settled proposal on the main chain: the segment of `n + 1` blocks from
block `start` on. -/
structure Settled (chain : List Bytes) (rtx : ResolvedTx) (script : Bytes) (cell : Cell)
    (result : VoteResult) (start n : Nat) : Prop where
  start_header : ∃ block, chain[start]? = some block ∧ rtx.headerDeps[0]? = some (headerSlice block)
  end_header : ∃ block, chain[start + n]? = some block ∧
    rtx.headerDeps[1]? = some (headerSlice block)
  duration : proposalDuration cell.data = .ok n
  created : ∃ block typeScript k j, chain[start]? = some block ∧ cell.type_ = some typeScript ∧
    OutputIn block k j typeScript cell.data
  counted : ∀ compatible segment, verifyBlockVec compatible segment = .ok () →
    blockSlices segment = (chain.drop start).take (n + 1) →
    countVote segment script = .ok result
  passed : result.passed = true ∧ result.proposal = cell.data

variable {ext : ProposalTypeScript.External} {rtx : ResolvedTx}

/-- What the script has compared, in terms of the guest run that committed. -/
theorem compared_of_settlement {script values guestScript firstBlock lastBlock : Bytes}
    {cell : Cell} {result : VoteResult}
    (hsettlement : ProposalTypeScript.Settlement ext rtx script cell values)
    (hvalues : values = publicValues result (headerHash (headerSlice firstBlock))
      (headerHash (headerSlice lastBlock)) guestScript) :
    guestScript = script ∧ result.proposal = cell.data ∧ result.passed = true ∧
      (∃ header, rtx.headerDeps[0]? = some header ∧
        blake2b256 (headerSlice firstBlock) = blake2b256 header) ∧
      ∃ header, rtx.headerDeps[1]? = some header ∧
        blake2b256 (headerSlice lastBlock) = blake2b256 header := by
  have hsize : values.length < 2 ^ 32 := by
    rw [(verifyTable_eq_ok.mp hsettlement.values_ok).1.total]
    exact numberAt_lt values 0
  rw [hvalues] at hsize
  obtain ⟨hproposal, hstart, hend, hscript, hpassed⟩ := publicValues_fields hsize
  rw [← hvalues] at hproposal hstart hend hscript hpassed
  obtain ⟨startHeader, hstartDep, hstartHash⟩ := hsettlement.start_hash
  obtain ⟨endHeader, hendDep, hendHash⟩ := hsettlement.end_hash
  obtain ⟨slice, hslice, hbyte⟩ := hsettlement.passed
  refine ⟨Except.ok.inj (hscript.symm.trans hsettlement.script_eq),
    Except.ok.inj (hproposal.symm.trans hsettlement.proposal), ?_,
    ⟨startHeader, hstartDep, ?_⟩, ⟨endHeader, hendDep, ?_⟩⟩
  · obtain rfl := Except.ok.inj (hpassed.symm.trans hslice)
    have hone : (if result.passed then 1 else 0) = (1 : UInt8) := Except.ok.inj hbyte
    by_contra hfalse
    rw [if_neg hfalse] at hone
    cases hone
  · exact FixedBytes.ext (Except.ok.inj (hstart.symm.trans hstartHash))
  · exact FixedBytes.ext (Except.ok.inj (hend.symm.trans hendHash))

/-- A passing count over a segment of the main chain settles its proposal. -/
theorem settled_of_segment {script guestBlocks : Bytes} {cell : Cell} {result : VoteResult}
    {raws : List (List Bytes)} {s n : Nat} (hverify : verifyBlockVec false guestBlocks = .ok ())
    (hn : (blockSlices guestBlocks).length = n + 1) (hraws : blockRaws guestBlocks = .ok raws)
    (hlt : s + n < chain.length)
    (hsegment : ∀ (i : Nat) (hi : i < raws.length) (hsi : s + i < chain.length),
      rawTransactions chain[s + i] = .ok raws[i])
    (hstart : rtx.headerDeps[0]? = some (headerSlice chain[s]))
    (hend : rtx.headerDeps[1]? = some (headerSlice chain[s + n]))
    (htype : cell.type_ = some script) (hcounted : countVote guestBlocks script = .ok result)
    (hpassed : result.passed = true) (hproposal : result.proposal = cell.data) :
    Settled chain rtx script cell result s n := by
  obtain ⟨poll, hfind, hpoll, hcount⟩ := past_of_passed hcounted hpassed
  rw [hproposal] at hfind hpoll
  obtain ⟨hlen, -⟩ := (blockRaws_eq_ok hverify).mp hraws
  have hduration : n = poll.duration := by
    have := Except.ok.inj ((itemCount_blocks hverify).symm.trans hcount)
    omega
  refine ⟨⟨chain[s], List.getElem?_eq_getElem (by omega), hstart⟩,
    ⟨chain[s + n], List.getElem?_eq_getElem hlt, hend⟩,
    hduration ▸ proposalDuration_of_poll hpoll, ?_, ?_, hpassed, hproposal⟩
  · obtain ⟨first, rest, k, j, raw, rfl, hraw, hrawType, hcontent⟩ :=
      outputIn_of_findProposal hverify hraws hfind
    have hfirstRaws := hsegment 0 (by simp) (by omega)
    exact ⟨chain[s], _, k, j, List.getElem?_eq_getElem (by omega), htype, first, raw, hfirstRaws,
      hraw, hrawType, hcontent⟩
  · intro compatible segment hverify' hslices
    have hsegmentRaws : blockRaws segment = .ok raws := by
      refine (blockRaws_eq_ok hverify').mpr ⟨?_, fun i hi hi' => ?_⟩
      · rw [hslices, List.length_take, List.length_drop]
        omega
      · have hget : (blockSlices segment)[i] = chain[s + i] := by
          simp only [hslices, List.getElem_take, List.getElem_drop]
        rw [hget]
        exact hsegment i hi (by omega)
    rw [countVote_raws hverify' hsegmentRaws, ← countVote_raws hverify hraws, hcounted]

/-- **Settlement is sound.**  An accepted settlement rests on a guest run whose
blocks are the segment of the main chain between the two header deps, which
has as many blocks as the cell asks for, starts with the block of the cell and
passes its own count; or the strings hashed by that run and for the chain show
a coincidence; or a raw transaction of that run has 64 bytes. -/
theorem settlement_sound {script args guestVk : Bytes} {cell : Cell} (hchain : MainChain chain)
    (hheaders : ∀ header ∈ rtx.headerDeps, ∃ block ∈ chain, headerSlice block = header)
    (hplonk : ∀ proof values,
      ext.plonkVerify proof values ('0' :: 'x' :: ProposalTypeScript.hexEncode guestVk) = true →
      ∃ argsBytes, guestMain argsBytes = .ok values)
    (hargs : scriptArgs script = .ok args) (hvk : slice args 20 52 = guestVk)
    (hcell : (group script rtx.inputs)[0]? = some cell) (htype : cell.type_ = some script)
    (haccept : ProposalTypeScript.run ext rtx script = .ok ()) :
    ∃ values argsBytes blocks witnessRoot firstBlock lastBlock result raws hashed strings,
      ProposalTypeScript.Settlement ext rtx script cell values ∧
      guestMain argsBytes = .ok values ∧
      GuestRun argsBytes blocks witnessRoot script firstBlock lastBlock result ∧
      blockRaws blocks = .ok raws ∧ hashedStrings blocks witnessRoot = .ok hashed ∧
      chainStrings chain = .ok strings ∧
      ((∃ start n, Settled chain rtx script cell result start n) ∨
        Coincidence (hashed ++ strings) ∨ ∃ block ∈ raws, ∃ raw ∈ block, raw.length = 64) := by
  have hgroup : group script rtx.inputs ≠ [] :=
    List.ne_nil_of_mem (List.mem_of_getElem? hcell)
  obtain ⟨cell', values, hsettlement⟩ := ProposalTypeScript.settlement_of_run haccept hgroup
  obtain rfl : cell' = cell := Option.some.inj (hsettlement.first_input.symm.trans hcell)
  obtain ⟨proof, args', hargs', hproof⟩ := hsettlement.proof
  obtain rfl : args' = args := Except.ok.inj (hargs'.symm.trans hargs)
  rw [hvk] at hproof
  obtain ⟨argsBytes, hmain⟩ := hplonk proof values hproof
  obtain ⟨blocks, witnessRoot, guestScript, firstBlock, lastBlock, result, hrun, hvalues⟩ :=
    guestMain_eq_ok.mp hmain
  obtain ⟨rfl, hproposal, hpassed, ⟨startHeader, hstartDep, hstartHash⟩,
    endHeader, hendDep, hendHash⟩ := compared_of_settlement hsettlement hvalues
  obtain ⟨raws, hashed, hraws, hhashed, hlen, hblocks⟩ :=
    blockRaws_of_integrity hrun.verified hrun.integrity
  obtain ⟨strings, hstrings, hchainBlocks⟩ := chainStrings_eq hchain.verified hchain.rooted
  refine ⟨values, argsBytes, blocks, witnessRoot, firstBlock, lastBlock, result, raws, hashed,
    strings, hsettlement, hmain, hrun, hraws, hhashed, hstrings, ?_⟩
  rw [or_iff_not_imp_right, not_or]
  intro h
  obtain ⟨hclean, hshort⟩ := h
  obtain ⟨hcol, hzero⟩ := separated_of_not_coincidence hclean
  obtain ⟨hne, hlinks, -⟩ := (verifyBlockIntegrity_ok hrun.verified).mp hrun.integrity
  obtain ⟨n, hn⟩ : ∃ n, (blockSlices blocks).length = n + 1 :=
    Nat.exists_eq_succ_of_ne_zero (by simpa using hne)
  have hguestHeader := mem_hashed_of_header hlen hblocks
  have hchainHeader : ∀ header ∈ chain.map headerSlice, header ∈ strings := by
    intro header hheader
    obtain ⟨block, hblock, rfl⟩ := List.mem_map.mp hheader
    obtain ⟨raws', hroots⟩ := hchainBlocks block hblock
    exact hroots.header_mem
  -- the two header deps are the headers of the guest's first and last block
  have hheaderOf : ∀ {header block : Bytes} {i : Nat}, rtx.headerDeps[i]? = some header →
      block ∈ blockSlices blocks → blake2b256 (headerSlice block) = blake2b256 header →
      ∃ (k : Nat) (hk : k < chain.length), header = headerSlice chain[k] ∧
        headerSlice block = headerSlice chain[k] := by
    intro header block i hdep hblock hhash
    obtain ⟨found, hfound, rfl⟩ := hheaders header (List.mem_of_getElem? hdep)
    obtain ⟨k, hk, rfl⟩ := List.mem_iff_getElem.mp hfound
    exact ⟨k, hk, rfl, hcol _ (hguestHeader _ (List.mem_map_of_mem hblock)) _
      (hchainHeader _ (List.mem_map_of_mem hfound)) hhash⟩
  obtain ⟨s, hs, rfl, hfirst⟩ := hheaderOf hstartDep (List.mem_of_head? hrun.first_eq) hstartHash
  obtain ⟨e, he, rfl, hlast⟩ := hheaderOf hendDep (List.mem_of_getLast? hrun.last_eq) hendHash
  obtain ⟨hfirstAt, hlastAt⟩ := hrun.ends hn
  obtain rfl := (List.getElem_eq_iff (h := by omega)).mpr hfirstAt
  obtain rfl := (List.getElem_eq_iff (h := by omega)).mpr hlastAt
  obtain ⟨rfl, hback⟩ := segment_of_ends hchain hn hs he hlinks hguestHeader hchainHeader hcol hzero
    hfirst hlast
  -- block by block, the guest's raw transactions are the segment's
  have hsegment : ∀ (i : Nat) (hi : i < raws.length) (hsi : s + i < chain.length),
      rawTransactions chain[s + i] = .ok raws[i] := by
    intro i hi hsi
    exact rawTransactions_of_header hchain (List.getElem_mem hsi) (hblocks i (by omega) hi)
      (hchainBlocks _ (List.getElem_mem hsi)) (hback i (by omega) hsi) hcol hzero
      fun raw hraw heq => hshort ⟨raws[i], List.getElem_mem hi, raw, hraw, heq⟩
  exact ⟨s, n, settled_of_segment hrun.verified hn hraws he hsegment hstartDep hendDep htype
    hrun.counted hpassed hproposal⟩

end Code

namespace Sample

scoped instance settlementBlake2b : Blake2b := hostBlake2b

theorem mainChain : MainChain [block0 [], block1 []] := by
  have hblocks : (∀ block ∈ [block0 [], block1 []], BlockReader.verify true block = .ok ()) ∧
      parentField (headerSlice (block0 [])) = (FixedBytes.zero 32).val ∧
      ([block0 [], block1 []].map headerSlice).Nodup ∧
      ∀ block ∈ [block0 [], block1 []], ∀ tx ∈ transactionSlices block,
        numberAt (part (part tx 0) 3) 0 ≠ 0 := by
    decide +kernel
  obtain ⟨hverified, hgenesis, hdistinct, hspends⟩ := hblocks
  refine ⟨hverified, ?_, chain_linked, chain_honestRoot, hdistinct, hspends⟩
  intro block hblock
  obtain rfl := Option.some.inj hblock
  exact hgenesis

def proposalCell : Cell := ⟨100, lockOf 9, some Sample.proposalScript, proposal⟩

/-- What the guest commits on `chain`. -/
def committed : Bytes :=
  publicValues ⟨proposal, 100, 0, true⟩ (headerHash header0) (headerHash header1)
    Sample.proposalScript

def guestVk : Bytes := List.replicate 32 2

/-- One string proves one guest run. -/
def oneProof : ProposalTypeScript.External :=
  ⟨fun _ _ _ _ => false, fun proof values vkHash => proof == [7] && values == committed &&
    vkHash == '0' :: 'x' :: ProposalTypeScript.hexEncode guestVk⟩

/-- A transaction that settles the proposal. -/
def settleTx : ResolvedTx :=
  ⟨⟨digest 14, [], [headerHash header0, headerHash header1],
    [⟨FixedBytes.zero 8, proposalOutPoint⟩], [⟨100, Script.default, none, []⟩],
    [build [[], buildBytes (build [buildBytes [7], committed]), []]]⟩,
    [proposalCell], [], [header0, header1]⟩

/-- The guest commits `committed`, and the proposal script accepts the transaction. -/
theorem settleTx_reads :
    (∀ header ∈ settleTx.headerDeps, ∃ block ∈ [block0 [], block1 []],
      headerSlice block = header) ∧
    guestMain (guestArguments chain [witnessRoot0, witnessRoot1] Sample.proposalScript) =
      .ok committed ∧
    scriptArgs Sample.proposalScript = .ok (Sample.proposalScript.drop 53) ∧
    slice (Sample.proposalScript.drop 53) 20 52 = guestVk ∧
    (group Sample.proposalScript settleTx.inputs)[0]? = some proposalCell ∧
    ProposalTypeScript.run oneProof settleTx Sample.proposalScript = .ok () := by
  decide +kernel

end Sample

open Sample in
theorem settlement_sound_settleTx :
    ∃ values argsBytes blocks witnessRoot firstBlock lastBlock result raws hashed strings,
      ProposalTypeScript.Settlement oneProof settleTx Sample.proposalScript proposalCell values ∧
      guestMain argsBytes = .ok values ∧
      GuestRun argsBytes blocks witnessRoot Sample.proposalScript firstBlock lastBlock result ∧
      blockRaws blocks = .ok raws ∧ hashedStrings blocks witnessRoot = .ok hashed ∧
      chainStrings [block0 [], block1 []] = .ok strings ∧
      ((∃ start n, Settled [block0 [], block1 []] settleTx Sample.proposalScript proposalCell
          result start n) ∨
        Coincidence (hashed ++ strings) ∨ ∃ block ∈ raws, ∃ raw ∈ block, raw.length = 64) := by
  obtain ⟨hheaders, hmain, hargs, hvk, hcell, hrun⟩ := settleTx_reads
  refine settlement_sound mainChain hheaders ?_ hargs hvk hcell rfl hrun
  intro proof values hverify
  obtain rfl : values = committed := by
    simp only [oneProof, Bool.and_eq_true, beq_iff_eq] at hverify
    exact hverify.1.2
  exact ⟨_, hmain⟩

end CkbVote
