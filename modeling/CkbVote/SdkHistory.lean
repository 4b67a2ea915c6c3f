import CkbVote.SdkProposals

/-!
# Histories that the SDK writes

A run is a sequence of transactions each of which one of the four functions
returned for some signer, at the cells that were live then, or which has nothing
to do with the two scripts.  Nobody coordinates the signers: the steps come in
any order.  Every run is a history, so what holds of histories holds of runs
(`history_of_run`), and the votes in it select their deposits plainly.
-/

namespace CkbVote

open Octets Molecule VoteTypeScript

/-! ## Out points are spent once -/

section Spent

variable {live0 : Live} {txs : List ChainTx} {op : OutPoint} {cell : Cell}

/-- A live out point is not created again. -/
theorem DistinctHashes.created_of_live (h : DistinctHashes live0 txs) {k k' : Nat} {tx : ChainTx}
    (hlive : liveAt live0 txs k op = some cell) (hk : k ≤ k') (htx : txs[k']? = some tx) :
    tx.created op = none := by
  by_contra hcreated
  obtain ⟨created, hcreated⟩ := Option.ne_none_iff_exists'.mp hcreated
  obtain ⟨i, hcell, hop⟩ := ChainTx.created_eq_some hcreated
  cases origin_of_live hlive with
  | initial hstart =>
      rw [← hop, h.new tx (List.mem_of_getElem? htx) i] at hstart
      cases hstart
  | output t j tx' ht htx' hcell' hop' _ =>
      obtain ⟨htt, -⟩ := h.output_unique htx' hcell' htx hcell (hop'.trans hop.symm)
      omega

/-- An output is live after its transaction. -/
theorem DistinctHashes.live_of_output (h : DistinctHashes live0 txs) {t i : Nat} {tx : ChainTx}
    (htx : txs[t]? = some tx) (hcell : tx.outputs[i]? = some cell) :
    liveAt live0 txs (t + 1) (outPointOf tx.hash i) = some cell := by
  have hfound : (tx.outputs.zipIdx.find? fun p => outPointOf tx.hash p.2 = outPointOf tx.hash i) ≠
      none := fun hnone =>
    List.find?_eq_none.mp hnone (cell, i) (List.mk_mem_zipIdx_iff_getElem?.mpr hcell) (by simp)
  obtain ⟨p, hp⟩ := Option.ne_none_iff_exists'.mp hfound
  have hcreated : tx.created (outPointOf tx.hash i) = some p.1 := congrArg (Option.map Prod.fst) hp
  obtain ⟨j, hj, hop⟩ := ChainTx.created_eq_some hcreated
  rw [liveAt_succ htx, ChainTx.applyTo, hcreated, (h.output_unique htx hj htx hcell hop).2]

/-- What is spent is gone. -/
theorem DistinctHashes.gone_of_spent (h : DistinctHashes live0 txs) {k : Nat}
    (hlive : liveAt live0 txs k op = some cell) (hspent : SpentAt txs k op) :
    ∀ d, liveAt live0 txs (k + 1 + d) op = none := by
  obtain ⟨tx, htx, hmem⟩ := hspent
  intro d
  induction d with
  | zero =>
      rw [Nat.add_zero, liveAt_succ htx, ChainTx.applyTo, h.created_of_live hlive le_rfl htx]
      exact if_pos hmem
  | succ d ih =>
      rw [← Nat.add_assoc]
      cases htx' : txs[k + 1 + d]? with
      | none => rw [liveAt_succ_of_none htx', ih]
      | some tx' =>
          rw [liveAt_succ htx', ChainTx.applyTo, h.created_of_live hlive (by omega) htx']
          simp only [ih, ite_self]

/-- Where every input is live when it is spent, no out point is spent twice. -/
theorem DistinctHashes.spent_once (h : DistinctHashes live0 txs)
    (hinputs : ∀ t tx, txs[t]? = some tx → ∀ input ∈ tx.inputs,
      ∃ cell, liveAt live0 txs t input.previousOutput = some cell)
    {t t' : Nat} (hspent : SpentAt txs t op) (hspent' : SpentAt txs t' op) : t = t' := by
  have hlive : ∀ {u}, SpentAt txs u op → ∃ cell, liveAt live0 txs u op = some cell := by
    rintro u ⟨tx, htx, hmem⟩
    obtain ⟨input, hinput, rfl⟩ := List.mem_map.mp hmem
    exact hinputs u tx htx input hinput
  have horder : ∀ {u u'}, SpentAt txs u op → SpentAt txs u' op → ¬ u < u' := by
    intro u u' hu hu' hlt
    obtain ⟨cell, hcell⟩ := hlive hu
    obtain ⟨cell', hcell'⟩ := hlive hu'
    have hgone := h.gone_of_spent hcell hu (u' - (u + 1))
    rw [Nat.add_sub_cancel' hlt, hcell'] at hgone
    cases hgone
  exact Nat.le_antisymm (Nat.le_of_not_lt (horder hspent' hspent))
    (Nat.le_of_not_lt (horder hspent hspent'))

/-- A transaction resolves on live inputs. -/
theorem live_of_resolve {live : Live} {headerOf : Hash32 → Option Bytes} {tx : ChainTx}
    {rtx : ResolvedTx} (h : resolve live headerOf tx = some rtx) {input : CellInput}
    (hinput : input ∈ tx.inputs) : ∃ cell, live input.previousOutput = some cell := by
  have hmem : live input.previousOutput ∈ rtx.inputs.map some := by
    rw [← (resolves_of_resolve h).inputs]
    exact List.mem_map_of_mem hinput
  obtain ⟨cell, -, hcell⟩ := List.mem_map.mp hmem
  exact ⟨cell, hcell.symm⟩

/-- What a history spends is live. -/
theorem History.live_of_spent [Blake2b] {ext : ProposalTypeScript.External}
    {IsProposal IsVote : Bytes → Prop} (hhist : History ext IsProposal IsVote live0 txs) {t : Nat}
    (h : SpentAt txs t op) : ∃ cell, liveAt live0 txs t op = some cell := by
  obtain ⟨tx, htx, hmem⟩ := h
  obtain ⟨input, hinput, rfl⟩ := List.mem_map.mp hmem
  rcases hhist.accepted t tx htx with hcellbase | ⟨headerOf, rtx, hresolve, -⟩
  · rw [hcellbase.1] at hinput
    cases hinput
  · exact live_of_resolve hresolve hinput

/-- A prefix of a history sees the same live cells. -/
theorem liveAt_take (live0 : Live) (txs : List ChainTx) {k n : Nat} (hk : k ≤ n) :
    liveAt live0 (txs.take n) k = liveAt live0 txs k := by
  rw [liveAt, liveAt, List.take_take, Nat.min_eq_left hk]

end Spent

namespace Sdk

/-! ## Steps and runs -/

section Runs

variable [Blake2b] (lib : Library) (config : NetworkConfig) (ext : ProposalTypeScript.External)
  (IsProposal IsVote : Bytes → Prop)

/-- The cell is under neither script. -/
def Untouched (cell : Cell) : Prop :=
  ∀ script, cell.type_ = some script → ¬ IsProposal script ∧ ¬ IsVote script

/-- A transaction of the SDK, or one that touches neither script. -/
inductive Step (live : Live) (headerOf : Hash32 → Option Bytes) : ChainTx → Prop
  | createProposal (wallet : Wallet) (lock receiver : Bytes) (params : CreateProposalParams)
      (tx : Transaction) (hash : Hash32) (hwallet : wallet.Documented lib live lock)
      (hready : ProposalReady lib wallet config params receiver)
      (hcreate : createProposal lib wallet config params = some tx) :
      Step live headerOf (tx.sealed hash)
  | createVote (wallet : Wallet) (lock : Bytes) (params : CreateVoteParams) (tx : Transaction)
      (hash : Hash32) (hwallet : wallet.Documented lib live lock)
      (hready : VoteReady wallet config params lock)
      (hcreate : createVote lib wallet config params = some tx) :
      Step live headerOf (tx.sealed hash)
  | consumeVote (wallet : Wallet) (lock : Bytes) (voteOutPoint : OutPoint) (cell : Cell)
      (script : Bytes) (tx : Transaction) (hash : Hash32)
      (hwallet : wallet.Documented lib live lock)
      (hlive : live voteOutPoint = some cell) (htype : cell.type_ = some script)
      (hvote : IsVote script) (hconsume : consumeVote lib wallet config voteOutPoint = some tx) :
      Step live headerOf (tx.sealed hash)
  | consumeProposal (wallet : Wallet) (lock : Bytes) (params : ConsumeProposalParams) (cell : Cell)
      (script : Bytes) (tx : Transaction) (hash : Hash32)
      (hwallet : wallet.Documented lib live lock)
      (hlive : live params.proposalOutPoint = some cell) (htype : cell.type_ = some script)
      (hproposal : IsProposal script) (hready : SettleReady ext headerOf params cell script)
      (hconsume : consumeProposal lib wallet config params = some tx) :
      Step live headerOf (tx.sealed hash)
  | other (tx : ChainTx) (hinputs : ∀ input ∈ tx.inputs, ∀ cell,
        live input.previousOutput = some cell → Untouched IsProposal IsVote cell)
      (houtputs : ∀ cell ∈ tx.outputs, Untouched IsProposal IsVote cell) : Step live headerOf tx

/-- Cellbases, and steps that a node can resolve. -/
structure Run (live0 : Live) (txs : List ChainTx) : Prop where
  starts_without : ∀ op cell, live0 op = some cell → Untouched IsProposal IsVote cell
  steps : ∀ t tx, txs[t]? = some tx → Cellbase tx ∨ ∃ headerOf rtx,
    resolve (liveAt live0 txs t) headerOf tx = some rtx ∧ rtx.WellFormed ∧
      Step lib config ext IsProposal IsVote (liveAt live0 txs t) headerOf tx

end Runs

section Results

variable [Blake2b] {lib : Library} {config : NetworkConfig} {ext : ProposalTypeScript.External}
  {IsProposal IsVote : Bytes → Prop} {live0 : Live} {txs : List ChainTx}

/-! ## Recycling -/

section Recycle

variable {wallet : Wallet} {live : Live} {lock : Bytes} {tx : Transaction} {voteOutPoint : OutPoint}

omit [Blake2b] in
/-- `consumeVote` spends the vote cell and pays the signer. -/
theorem spends_of_consumeVote (hlib : lib.Documented) (hwallet : wallet.Documented lib live lock)
    (h : consumeVote lib wallet config voteOutPoint = some tx) : Spends live voteOutPoint tx := by
  simp only [consumeVote, hlib.addCellDeps_eq, hlib.cellOutputFrom_eq, Option.bind_eq_bind,
    Option.bind_eq_some_iff] at h
  obtain ⟨voteCell, -, signerLock, -, hfee⟩ := h
  have hcompletes := hwallet.fee_completes _ _ hfee
  obtain ⟨added, hadded, hlive⟩ := hcompletes.inputs
  obtain ⟨change, hchange, htypes⟩ := hcompletes.outputs
  simp only [withCellDep_inputs, withCellDep_outputs, List.singleton_append] at hadded hchange
  refine ⟨⟨added, hadded, fun input hinput => (hlive input hinput).imp fun cell h => ⟨h.1, h.2.2⟩⟩,
    fun cell hcell => ?_⟩
  rw [hchange] at hcell
  rcases List.mem_cons.mp hcell with rfl | hmem
  · rfl
  · exact htypes cell hmem

/-- A run without a group output ends well once the script and its args do. -/
theorem run_of_no_output {rtx : ResolvedTx} {script args : Bytes}
    (hscript : ScriptReader.verify false script = .ok ()) (hargs : scriptArgs script = .ok args)
    (hlen : args.length = 20) (hnone : group script rtx.tx.outputs = []) :
    VoteTypeScript.run rtx script = .ok () := by
  have hcheck : checkScript script = .ok script := checkScript_eq_ok.mpr ⟨hscript, rfl⟩
  rw [VoteTypeScript.run, hcheck, orExit, ok_bind, hargs, orPanic, ok_bind,
    if_neg (not_not.mpr hlen), hnone]
  rfl

/-- Anyone can recycle a vote cell, at every moment of a history. -/
theorem accepted_of_consumeVote {k : Nat} {cell : Cell} {script : Bytes}
    {headerOf : Hash32 → Option Bytes} {hash : Hash32} {rtx : ResolvedTx} (hlib : lib.Documented)
    (hhist : History ext IsProposal IsVote live0 txs)
    (hdeployed : Deployed config IsProposal IsVote)
    (hwallet : wallet.Documented lib (liveAt live0 txs k) lock)
    (hlive : liveAt live0 txs k voteOutPoint = some cell) (htype : cell.type_ = some script)
    (hvote : IsVote script) (hconsume : consumeVote lib wallet config voteOutPoint = some tx)
    (hresolve : resolve (liveAt live0 txs k) headerOf (tx.sealed hash) = some rtx) :
    Accepted ext IsProposal IsVote (liveAt live0 txs k) (tx.sealed hash) := by
  have hspends := spends_of_consumeVote hlib hwallet hconsume
  refine accepted_of_spends hspends hlive hresolve fun script' htype' => ?_
  obtain rfl := Option.some.inj (htype.symm.trans htype')
  refine ⟨fun hproposal => absurd hvote (hdeployed.disjoint _ hproposal), fun _ => ?_⟩
  obtain ⟨t, -, tx', headerOf', rtx', -, -, -, -, hrun⟩ :=
    accepted_of_live hhist hlive htype (Or.inr hvote)
  obtain ⟨hscript, args, hargs, hlen, -⟩ := accepts_of_run (hrun hvote)
  exact run_of_no_output hscript hargs hlen ((type_of_spends hspends hlive hresolve).2 script)

end Recycle

/-! ## Every run is a history -/

/-- **One step.**  Behind a history, every step that resolves is accepted. -/
theorem accepted_of_step {k : Nat} {tx : ChainTx} {headerOf : Hash32 → Option Bytes}
    {rtx : ResolvedTx} (hlib : lib.Documented) (hdeployed : Deployed config IsProposal IsVote)
    (hcheck : ChecksTypeId ext) (hhist : History ext IsProposal IsVote live0 txs)
    (hresolve : resolve (liveAt live0 txs k) headerOf tx = some rtx) (hwell : rtx.WellFormed)
    (hstep : Step lib config ext IsProposal IsVote (liveAt live0 txs k) headerOf tx) :
    Accepted ext IsProposal IsVote (liveAt live0 txs k) tx := by
  cases hstep with
  | createProposal wallet lock receiver params tx hash hwallet hready hcreate =>
      obtain ⟨firstInput, hbuilt⟩ := built_of_createProposal hlib hwallet hready hcreate
      exact accepted_of_proposalBuilt hdeployed hcheck hready hbuilt hresolve
  | createVote wallet lock params tx hash hwallet hready hcreate =>
      obtain ⟨proposalScript, hbuilt⟩ :=
        voteBuilt_of_createVote hlib hwallet hready hcreate hresolve
      exact accepted_of_built hdeployed hwallet hready hbuilt hresolve hwell
  | consumeVote wallet lock voteOutPoint cell script tx hash hwallet hlive htype hvote hconsume =>
      exact accepted_of_consumeVote hlib hhist hdeployed hwallet hlive htype hvote hconsume hresolve
  | consumeProposal wallet lock params cell script tx hash hwallet hlive htype hproposal hready
    hconsume =>
      exact (accepted_of_consumeProposal hlib hdeployed hwallet hlive htype hproposal
        hready hconsume hresolve).1
  | other _ hinputs houtputs =>
      refine ⟨headerOf, rtx, hresolve, fun cell hcell script htype => ?_⟩
      have hnone : ¬ IsProposal script ∧ ¬ IsVote script := by
        rcases List.mem_append.mp hcell with hinput | houtput
        · have hmem :
              some cell ∈ tx.inputs.map fun input => liveAt live0 txs k input.previousOutput := by
            rw [(resolves_of_resolve hresolve).inputs]
            exact List.mem_map_of_mem hinput
          obtain ⟨input, hinput, hlive⟩ := List.mem_map.mp hmem
          exact hinputs input hinput cell hlive script htype
        · exact houtputs cell houtput script htype
      exact ⟨fun h => absurd h hnone.1, fun h => absurd h hnone.2⟩

/-- Every input of a run is live when it is spent. -/
theorem Run.input_live (hrun : Run lib config ext IsProposal IsVote live0 txs) {t : Nat}
    {tx : ChainTx} (htx : txs[t]? = some tx) {input : CellInput} (hinput : input ∈ tx.inputs) :
    ∃ cell, liveAt live0 txs t input.previousOutput = some cell := by
  rcases hrun.steps t tx htx with hcellbase | ⟨headerOf, rtx, hresolve, -⟩
  · rw [hcellbase.1] at hinput
    cases hinput
  · exact live_of_resolve hresolve hinput

/-- The history so far, by induction on its length. -/
theorem history_take (hlib : lib.Documented) (hdeployed : Deployed config IsProposal IsVote)
    (hcheck : ChecksTypeId ext) (hdistinct : DistinctHashes live0 txs)
    (hrun : Run lib config ext IsProposal IsVote live0 txs) (n : Nat) :
    History ext IsProposal IsVote live0 (txs.take n) := by
  induction n with
  | zero =>
      refine ⟨fun op cell script hlive => hrun.starts_without op cell hlive script, ?_, ?_⟩
      · rintro t t' op ⟨tx, htx, -⟩
        simp at htx
      · intro t tx htx
        simp at htx
  | succ n ih =>
      have hof : ∀ {t tx}, (txs.take (n + 1))[t]? = some tx → t ≤ n ∧ txs[t]? = some tx := by
        intro t tx htx
        rw [List.getElem?_take] at htx
        split_ifs at htx with hlt
        exact ⟨Nat.le_of_lt_succ hlt, htx⟩
      refine ⟨ih.starts_without, ?_, fun t tx htx => ?_⟩
      · rintro t t' op ⟨tx, htx, hmem⟩ ⟨tx', htx', hmem'⟩
        exact hdistinct.spent_once (fun _ _ h _ hinput => hrun.input_live h hinput)
          ⟨tx, (hof htx).2, hmem⟩ ⟨tx', (hof htx').2, hmem'⟩
      · obtain ⟨hle, htx⟩ := hof htx
        rw [liveAt_take live0 txs (by omega : t ≤ n + 1)]
        rcases hrun.steps t tx htx with hcellbase | ⟨headerOf, rtx, hresolve, hwell, hstep⟩
        · exact Or.inl hcellbase
        · rw [← liveAt_take live0 txs hle] at hresolve hstep ⊢
          exact Or.inr (accepted_of_step hlib hdeployed hcheck ih hresolve hwell hstep)

/-! ## The votes of a run -/

omit [Blake2b] in
/-- A transaction without cells of the vote script casts no vote of a poll. -/
theorem votesSelect_of_untouched {tx : ChainTx} {poll : Poll}
    (hvotes : ∀ script, isVoteScript poll script = .ok true → IsVote script)
    (hnone : ∀ cell ∈ tx.outputs, ∀ script, cell.type_ = some script → ¬ IsVote script) :
    VotesSelect PlainVote poll [tx] := by
  intro tx' htx' cell hcell script htype hscript
  obtain rfl := List.mem_singleton.mp htx'
  exact absurd (hvotes script hscript) (hnone cell hcell script htype)

/-- **Votes of a step** select their deposits plainly. -/
theorem votesSelect_of_step {live : Live} {tx : ChainTx} {headerOf : Hash32 → Option Bytes}
    {rtx : ResolvedTx} {poll : Poll} (hlib : lib.Documented)
    (hdeployed : Deployed config IsProposal IsVote)
    (hvotes : ∀ script, isVoteScript poll script = .ok true → IsVote script)
    (hresolve : resolve live headerOf tx = some rtx)
    (hstep : Step lib config ext IsProposal IsVote live headerOf tx) :
    VotesSelect PlainVote poll [tx] := by
  cases hstep with
  | createProposal wallet lock receiver params tx hash hwallet hready hcreate =>
      obtain ⟨firstInput, hbuilt⟩ := built_of_createProposal hlib hwallet hready hcreate
      obtain ⟨capacity, change, houtputs, hchange⟩ := hbuilt.outputs
      refine votesSelect_of_untouched hvotes fun cell hcell script htype => ?_
      have hcell : cell ∈ tx.outputs := hcell
      rw [houtputs] at hcell
      rcases List.mem_cons.mp hcell with rfl | hmem
      · obtain rfl : _ = script := Option.some.inj htype
        exact hdeployed.disjoint _ (hdeployed.proposal _ (length_typeScriptArgs config firstInput))
      · rw [hchange cell hmem] at htype
        cases htype
  | createVote wallet lock params tx hash hwallet hready hcreate =>
      obtain ⟨proposalScript, hbuilt⟩ :=
        voteBuilt_of_createVote hlib hwallet hready hcreate hresolve
      obtain ⟨change, houtputs, hchange⟩ := hbuilt.outputs
      intro tx' htx' cell hcell script htype _ indices hindices
      obtain rfl := List.mem_singleton.mp htx'
      have hcell : cell ∈ tx.outputs := hcell
      rw [houtputs] at hcell
      rcases List.mem_cons.mp hcell with rfl | hmem
      · have hdata := (voteData_fields hready params.vote).2.2
        obtain rfl : daoIndexes wallet lock = indices := Except.ok.inj (hdata.symm.trans hindices)
        exact plainVote_of_built hwallet hready hbuilt hresolve
      · rw [hchange cell hmem] at htype
        cases htype
  | consumeVote wallet lock voteOutPoint cell script tx hash hwallet hlive htype hvote hconsume =>
      refine votesSelect_of_untouched hvotes fun cell hcell script htype => ?_
      rw [(spends_of_consumeVote hlib hwallet hconsume).outputs cell hcell] at htype
      cases htype
  | consumeProposal wallet lock params cell script tx hash hwallet hlive htype hproposal hready
    hconsume =>
      have hbuilt := (accepted_of_consumeProposal hlib hdeployed hwallet hlive htype
        hproposal hready hconsume hresolve).2
      refine votesSelect_of_untouched hvotes fun cell hcell script htype => ?_
      rw [hbuilt.spends.outputs cell hcell] at htype
      cases htype
  | other _ hinputs houtputs =>
      exact votesSelect_of_untouched hvotes fun cell hcell script htype =>
        (houtputs cell hcell script htype).2

/-- A run is a history. -/
theorem history_of_run (hlib : lib.Documented) (hdeployed : Deployed config IsProposal IsVote)
    (hcheck : ChecksTypeId ext) (hdistinct : DistinctHashes live0 txs)
    (hrun : Run lib config ext IsProposal IsVote live0 txs) :
    History ext IsProposal IsVote live0 txs := by
  have hhist := history_take hlib hdeployed hcheck hdistinct hrun txs.length
  rwa [List.take_length] at hhist

/-- The votes of a run select plainly. -/
theorem votesSelect_of_run {poll : Poll} (hlib : lib.Documented)
    (hdeployed : Deployed config IsProposal IsVote)
    (hrun : Run lib config ext IsProposal IsVote live0 txs)
    (hvotes : ∀ script, isVoteScript poll script = .ok true → IsVote script) :
    VotesSelect PlainVote poll txs := by
  intro tx htx
  obtain ⟨t, ht⟩ := List.mem_iff_getElem?.mp htx
  have hselect : VotesSelect PlainVote poll [tx] := by
    rcases hrun.steps t tx ht with hcellbase | ⟨headerOf, rtx, hresolve, -, hstep⟩
    · refine votesSelect_of_untouched hvotes fun cell hcell script htype => ?_
      rw [hcellbase.2 cell hcell] at htype
      cases htype
    · exact votesSelect_of_step hlib hdeployed hvotes hresolve hstep
  exact hselect tx (List.mem_singleton_self tx)

section Stands

variable {blocks proposalScript : Bytes} {poll : Poll} {wallet : Wallet} {params : CreateVoteParams}
  {lock : Bytes} {start t s n : Nat} {window : List WindowTx}

/-- Transaction `t` is a vote of the SDK on the proposal, for the owner of the
lock. -/
structure Cast (lib : Library) (config : NetworkConfig) (live0 : Live) (txs : List ChainTx)
    (wallet : Wallet) (params : CreateVoteParams) (lock proposalScript : Bytes) (t : Nat) :
    Prop where
  wallet_ok : wallet.Documented lib (liveAt live0 txs t) lock
  ready : VoteReady wallet config params lock
  created : ∃ tx hash, createVote lib wallet config params = some tx ∧
    txs[t]? = some (tx.sealed hash)
  proposal : ∃ cell, liveAt live0 txs t params.proposalOutPoint = some cell ∧
    cell.type_ = some proposalScript

/-- After transaction `t` and before transaction `e`, the owner of the lock
casts no vote in the poll and spends none of the deposits held at `t`. -/
structure Keeps (live0 : Live) (txs : List ChainTx) (poll : Poll) (lock : Bytes) (t e : Nat) :
    Prop where
  no_vote : ∀ t', t < t' → t' < e → ∀ tx, txs[t']? = some tx → ∀ cell ∈ tx.outputs, ∀ script,
    cell.type_ = some script → isVoteScript poll script = .ok true →
      blake2b256 cell.lock ≠ blake2b256 lock
  kept : ∀ op cell, liveAt live0 txs (t + 1) op = some cell → IsDeposit cell.lock cell →
    blake2b256 cell.lock = blake2b256 lock → ∀ t', t < t' → t' < e → ¬ SpentAt txs t' op

/-- The vote that the tally reads of a cast. -/
def castOf (wallet : Wallet) (params : CreateVoteParams) (lock : Bytes) : CastVote :=
  ⟨lock, (params.vote.byte, totalDaoCapacity wallet lock), (daoCells wallet lock).map Prod.fst⟩

/-- What stands behind a cast: the vote as it was built, and its resolution. -/
theorem built_of_cast (hlib : lib.Documented)
    (hrun : Run lib config ext IsProposal IsVote live0 txs)
    (hcast : Cast lib config live0 txs wallet params lock proposalScript t) :
    ∃ tx hash headerOf rtx, txs[t]? = some (tx.sealed hash) ∧
      VoteBuilt lib wallet config params (liveAt live0 txs t) lock proposalScript tx ∧
      resolve (liveAt live0 txs t) headerOf (tx.sealed hash) = some rtx := by
  obtain ⟨tx, hash, hcreate, htx⟩ := hcast.created
  obtain ⟨cell, hlive, htype⟩ := hcast.proposal
  obtain ⟨script, hbuilt⟩ := voteBuilt_of_live hlib hcast.wallet_ok hcast.ready hcreate hlive
  obtain ⟨cell', hlive', htype'⟩ := hbuilt.proposal
  obtain rfl := Option.some.inj (hlive.symm.trans hlive')
  obtain rfl := Option.some.inj (htype.symm.trans htype')
  rcases hrun.steps t _ htx with hcellbase | ⟨headerOf, rtx, hresolve, -⟩
  · exact absurd hcellbase.1 hbuilt.inputs_ne
  · exact ⟨tx, hash, headerOf, rtx, htx, hbuilt, hresolve⟩

/-- Of the transaction of a cast the tally reads this one vote. -/
theorem mem_votes_of_cast (hlib : lib.Documented)
    (hrun : Run lib config ext IsProposal IsVote live0 txs)
    (hcast : Cast lib config live0 txs wallet params lock proposalScript t)
    (hpoll : PollOf config proposalScript poll) {tx : ChainTx} {raw : Bytes} {wtx : WindowTx}
    (htx : txs[t]? = some tx) (hholds : Holds raw tx) (hread : readTx poll raw = .ok wtx)
    (w : CastVote) : w ∈ wtx.votes ↔ w = castOf wallet params lock := by
  obtain ⟨built, hash, headerOf, rtx, hat, hbuilt, hresolve⟩ := built_of_cast hlib hrun hcast
  obtain rfl : tx = built.sealed hash := Option.some.inj (htx.symm.trans hat)
  obtain ⟨change, houtputs, hchange⟩ := hbuilt.outputs
  obtain ⟨hvote, hballot, hindices⟩ := voteData_fields hcast.ready params.vote
  have hselected : selected ((built.sealed hash).cellDeps.map CellDep.outPoint)
      (daoIndexes wallet lock) = (daoCells wallet lock).map Prod.fst :=
    selected_of_built hcast.wallet_ok hcast.ready hbuilt hresolve
  constructor
  · intro hw
    obtain ⟨i, cell, script, hcell, htype, -, hlock, hball, hnamed⟩ := vote_of_holds hholds hread hw
    have hmem : cell ∈ built.outputs := List.mem_of_getElem? hcell
    rw [houtputs] at hmem
    rcases List.mem_cons.mp hmem with rfl | hrest
    · have hsame := Except.ok.inj (hball.symm.trans hballot)
      have hnames := (hnamed _ hindices).trans hselected
      obtain ⟨wlock, wballot, wnamed⟩ := w
      obtain rfl : wlock = lock := hlock
      obtain rfl : wballot = _ := hsame
      obtain rfl : wnamed = _ := hnames
      rfl
    · rw [hchange cell hrest] at htype
      cases htype
  · rintro rfl
    obtain ⟨tx', cellDeps, inputs, outputs, outputsData, hdecoded, hdeps, houts, -⟩ :=
      hholds.decoded
    obtain ⟨-, votes, hvotes, hwtx⟩ := readTx_decoded hdecoded hread
    have hcell :
        tx'.outputs[0]? = some (voteCellOf lib wallet config params lock proposalScript) := by
      rw [← houts, show (built.sealed hash).outputs = built.outputs from rfl, houtputs]
      rfl
    obtain ⟨hlen, hreads⟩ := readRange_eq_ok.mp hvotes
    obtain ⟨hpos, -⟩ := List.getElem?_eq_some_iff.mp hcell
    have hzero := hreads 0 (by omega)
    rw [Nat.zero_add, readOutput_vote hdecoded hcell rfl (isVoteScript_of_pollOf hpoll)
      hvote hindices hballot, ← hdeps, hselected] at hzero
    rw [hwtx]
    refine List.mem_filterMap.mpr ⟨_, List.getElem_mem (by omega : 0 < votes.length), ?_⟩
    exact (Except.ok.inj hzero).symm

/-- A deposit that is live before and after a moment is live at that moment. -/
theorem Run.live_between (hrun : Run lib config ext IsProposal IsVote live0 txs)
    (hdistinct : DistinctHashes live0 txs) {a b c : Nat} {op : OutPoint} {cell cell' : Cell}
    (hab : a ≤ b) (hbc : b ≤ c) (hlive : liveAt live0 txs a op = some cell)
    (hlive' : liveAt live0 txs c op = some cell') : liveAt live0 txs b op = some cell := by
  have hunspent : ∀ u, a ≤ u → u < a + (b - a) → ¬ SpentAt txs u op := by
    rintro u hau hub ⟨tx, htx, hmem⟩
    obtain ⟨input, hinput, rfl⟩ := List.mem_map.mp hmem
    obtain ⟨there, hthere⟩ := hrun.input_live htx hinput
    have hgone := hdistinct.gone_of_spent hthere ⟨tx, htx, hmem⟩ (c - (u + 1))
    rw [Nat.add_sub_cancel' (by omega : u + 1 ≤ c), hlive'] at hgone
    cases hgone
  have hat := hdistinct.live_of_unspent hlive (b - a) hunspent
  rwa [Nat.add_sub_cancel' hab] at hat

omit [Blake2b] in
/-- No cell lives at the null out point. -/
theorem not_live_null (hdistinct : DistinctHashes live0 txs) (hnull : live0 nullOutPoint = none)
    (k : Nat) : liveAt live0 txs k nullOutPoint = none := by
  by_contra hlive
  obtain ⟨cell, hlive⟩ := Option.ne_none_iff_exists'.mp hlive
  generalize hop : nullOutPoint = op at hlive
  cases origin_of_live hlive with
  | initial hstart =>
      rw [← hop, hnull] at hstart
      cases hstart
  | output j i tx hj htx hcell hcreated _ =>
      have hi := (List.getElem?_eq_some_iff.mp hcell).1
      have hlt := hdistinct.outputs_lt tx (List.mem_of_getElem? htx)
      have hsame : outPointOf tx.hash i = outPointOf (FixedBytes.zero 32) (2 ^ 32 - 1) :=
        hcreated.trans (hop.symm.trans rfl)
      obtain ⟨-, rfl⟩ := outPointOf_inj (by omega) (by omega) hsame
      omega

/-- What a window spends, the chain spends. -/
theorem spentAt_of_mem_inputsAt (hviews : Views poll txs start window) {k : Nat} {op : OutPoint}
    (h : op ∈ Replay.inputsAt window k) : SpentAt txs (start + k) op ∨ op = nullOutPoint := by
  obtain ⟨wtx, hwtx, hop⟩ : ∃ wtx, window[k]? = some wtx ∧ op ∈ wtx.inputs := by
    rw [Replay.inputsAt] at h
    cases hwtx : window[k]? with
    | none => simp [hwtx] at h
    | some wtx => exact ⟨wtx, rfl, by simpa [hwtx] using h⟩
  obtain ⟨tx, raw, htx, hholds, hread⟩ := hviews k wtx hwtx
  cases hholds with
  | spending _ witnesses hof =>
      obtain ⟨-, cellDeps, inputs, outputs, outputsData, hdecoded⟩ := decoded_of_ofRaw hof
      rw [(readTx_decoded hdecoded hread).1] at hop
      exact Or.inl ⟨tx, htx, hop⟩
  | cellbase tx' witnesses hof hnull =>
      obtain ⟨-, cellDeps, inputs, outputs, outputsData, hdecoded⟩ := decoded_of_ofRaw hof
      rw [(readTx_decoded hdecoded hread).1, hnull] at hop
      exact Or.inr (List.mem_singleton.mp hop)

/-- A kept cast is the voter's last vote of the window. -/
theorem lastVote_of_cast (hlib : lib.Documented)
    (hrun : Run lib config ext IsProposal IsVote live0 txs)
    (hviews : Views poll txs start window)
    (hcast : Cast lib config live0 txs wallet params lock proposalScript (start + n))
    (hn : n < window.length) (hpoll : PollOf config proposalScript poll)
    (hkeeps : Keeps live0 txs poll lock (start + n) (start + window.length)) :
    Replay.lastVote blake2b256 window (blake2b256 lock) = some (n, castOf wallet params lock) := by
  have hwtx : window[n]? = some window[n] := List.getElem?_eq_getElem hn
  have hvotes : ∀ w, (n, w) ∈ Replay.events window ↔ w = castOf wallet params lock := by
    intro w
    obtain ⟨tx, raw, htx, hholds, hread⟩ := hviews n _ hwtx
    rw [Replay.mem_events, ← mem_votes_of_cast hlib hrun hcast hpoll htx hholds hread w]
    exact ⟨fun ⟨wtx, hat, hw⟩ => Option.some.inj (hwtx.symm.trans hat) ▸ hw,
      fun hw => ⟨_, hwtx, hw⟩⟩
  have hmem := (hvotes _).mpr rfl
  cases hlast : Replay.lastVote blake2b256 window (blake2b256 lock) with
  | none =>
      rw [Replay.lastVote, List.getLast?_eq_none_iff, List.filter_eq_nil_iff] at hlast
      exact absurd (decide_eq_true rfl) (hlast _ hmem)
  | some last =>
      obtain ⟨k, w⟩ := last
      obtain ⟨hevent, hvoter⟩ := Replay.lastVote_spec hlast
      have hle := Replay.le_of_lastVote hlast hmem rfl
      have hlt := Replay.lt_length_of_mem_events hevent
      obtain rfl : n = k := by
        refine Nat.le_antisymm hle (Nat.le_of_not_lt fun hgt => ?_)
        obtain ⟨wtx, hat, hw⟩ := Replay.mem_events.mp hevent
        obtain ⟨tx, raw, htx, hholds, hread⟩ := hviews k wtx hat
        obtain ⟨i, cell, script, hcell, htype, hscript, hlock, -⟩ := vote_of_holds hholds hread hw
        exact hkeeps.no_vote (start + k) (by omega) (by omega) tx htx cell
          (List.mem_of_getElem? hcell) script htype hscript (hlock ▸ hvoter)
      rw [(hvotes w).mp hevent]

/-- The voter of a kept cast has not withdrawn. -/
theorem not_withdrawn_of_keeps (hrun : Run lib config ext IsProposal IsVote live0 txs)
    (hhist : History ext IsProposal IsVote live0 txs) (hdistinct : DistinctHashes live0 txs)
    (hnull : live0 nullOutPoint = none)
    (hvotes : ∀ script, isVoteScript poll script = .ok true → IsVote script)
    (hcode : VotesSelect CodeDeps poll txs) (hviews : Views poll txs start window)
    (hkeeps : Keeps live0 txs poll lock (start + n) (start + window.length)) :
    ¬ Replay.Withdrawn blake2b256 window (blake2b256 lock) n := by
  rintro ⟨k, u, hu, hkn, hvoter, op, hop, -, t', ht', hspent⟩
  obtain ⟨deps, hbacked⟩ := vote_of_views hhist hvotes hcode hviews hu
  obtain ⟨dep, hdep, rfl⟩ := List.mem_map.mp (hbacked.named ▸ hop)
  have hlive := hbacked.live dep hdep
  have hdeposit := hbacked.deposits dep hdep
  rcases spentAt_of_mem_inputsAt hviews hspent with hspent' | hop'
  · obtain ⟨tx, htx, hmem⟩ := hspent'
    obtain ⟨input, hinput, hinput'⟩ := List.mem_map.mp hmem
    obtain ⟨there, hthere⟩ := hrun.input_live htx hinput
    rw [hinput'] at hthere
    have hat := hrun.live_between hdistinct (by omega : start + k ≤ start + n + 1) (by omega)
      hlive hthere
    have hlt := Replay.lt_length_of_mem_inputsAt hspent
    exact hkeeps.kept dep.1 dep.2 hat (hdeposit.lock_eq.symm ▸ hdeposit)
      (hdeposit.lock_eq.symm ▸ hvoter) (start + t') (by omega) (by omega) ⟨tx, htx, hmem⟩
  · rw [hop', not_live_null hdistinct hnull] at hlive
    cases hlive

/-- **A kept vote is counted in full.**  In a run, take a segment of the chain
that a poll on the proposal is counted over, and in it a vote of the SDK whose
signer, to the end of the segment, neither votes again nor spends a deposit.
Then the loop of `count_vote` ends with that vote under the signer's lock: the
direction asked for, and the CKB of all the deposits that the signer had when the
vote was cast, whatever anyone else does and also after the vote cell is recycled. -/
theorem sdk_vote_stands {chain : List Bytes} {raws : List (List Bytes)} (hlib : lib.Documented)
    (hdeployed : Deployed config IsProposal IsVote) (hcheck : ChecksTypeId ext)
    (hdistinct : DistinctHashes live0 txs) (hnull : live0 nullOutPoint = none)
    (hrun : Run lib config ext IsProposal IsVote live0 txs) (hexec : Executes chain raws txs)
    (hverify : BlockVecReader.verify true blocks = .ok ())
    (hslices : blockSlices blocks = (chain.drop s).take n)
    (hpast : PastBlockCheck blocks proposalScript poll)
    (hpoll : PollOf config proposalScript poll)
    (hvotes : ∀ script, isVoteScript poll script = .ok true → IsVote script)
    (hcast : Cast lib config live0 txs wallet params lock proposalScript t)
    (hstart : (raws.take s).flatten.length ≤ t) (hend : t < (raws.take (s + n)).flatten.length)
    (hkeeps : Keeps live0 txs poll lock t (raws.take (s + n)).flatten.length) :
    FindsDeposits wallet (liveAt live0 txs t) lock ∧
      ∃ maps, LoopEnds blocks proposalScript poll maps ∧
        maps.voteMap[blake2b256 lock]? =
          some (params.vote.byte, totalDaoCapacity wallet lock) := by
  refine ⟨findsDeposits hcast.wallet_ok, ?_⟩
  have hhist := history_of_run hlib hdeployed hcheck hdistinct hrun
  have hcode := codeDeps_of_plain (votesSelect_of_run hlib hdeployed hrun hvotes)
  obtain ⟨wtxs, hwindow⟩ : ∃ wtxs, window poll blocks = .ok wtxs := window_of_verify hverify
  obtain ⟨hviews, hlen⟩ := window_of_segment hexec hverify hslices hwindow
  obtain ⟨k, rfl⟩ := Nat.exists_eq_add_of_le hstart
  rw [← hlen] at hend hkeeps
  have hlast := lastVote_of_cast hlib hrun hviews hcast (by omega) hpoll hkeeps
  have hwithdrawn := not_withdrawn_of_keeps hrun hhist hdistinct hnull hvotes hcode hviews hkeeps
  obtain ⟨maps, hends, hmaps⟩ := loopEnds_of_window hpast hwindow
  refine ⟨maps, hends, ?_⟩
  rw [hmaps]
  exact (Replay.standing_iff_not_withdrawn
    (oneLock_of_views hhist hdistinct hvotes hcode hviews) hlast).mpr hwithdrawn

end Stands

end Results

/-! ## A sample run -/

section Sample

open CkbVote.Sample

/-- The raw transaction of what the SDK builds. -/
def rawOf (tx : Transaction) : Bytes :=
  RawTransaction.newBuilder (tx.cellDeps.map fun dep =>
    CellDep.newBuilder dep.outPoint.val dep.depType)
    (tx.headerDeps.map FixedBytes.val) (tx.inputs.map CellInput.asSlice)
    (tx.outputs.map fun cell => CellOutput.newBuilder cell.capacity cell.lock (cell.type_.getD []))
    (tx.outputs.map Cell.data)

def parkHash : Hash32 := digest 0x3fca2e97a1c08e5e77135a8269855d5f8bbd71f1c07bd2668ef623ecd455b339
def ballotHash : Hash32 := digest 0xfc7b6d69277187215e6cf727b696de93684d96dd252b3c5610ec7f0c02a25673
def reclaimHash : Hash32 :=
  digest 0x10dc92209d3c2e21ee0b1a718694ccc32d8f349fbd8c0ac4525d83a4bfc1e582

/-- The contracts, two cells to pay with and a deposit. -/
def parkStart : List (OutPoint × Cell) := [
  (outPoint 20 0, ⟨500, lockOf 1, none, []⟩),
  (outPoint 21 0, ⟨500, lockOf 1, none, []⟩),
  (outPoint 22 0, ⟨500, lockOf 1, none, []⟩),
  (outPoint 9 0, ⟨500, lockOf 9, none, []⟩),
  (outPoint 6 0, ⟨100, lockOf 5, some daoScript, List.replicate 8 0⟩),
  (outPoint 7 0, ⟨500, lockOf 5, none, []⟩)]

def signerOf (n : UInt8) : Value := scriptValue (List.replicate 32 4) "type" (List.replicate 20 n)

/-- Bob creates a proposal. -/
def parkBob : Wallet := walletOf parkStart (signerOf 9) (lockOf 9) (some founding)

def parkCreated : ChainTx := bobProposal.sealed parkHash

def parkCells : List (OutPoint × Cell) := cellsAfter parkStart parkCreated

/-- Alice votes on it. -/
def parkAlice : Wallet := walletOf parkCells (signerOf 5) (lockOf 5) (some voteInput)

def parkVote : CreateVoteParams := ⟨outPointOf parkHash 0, .yes⟩

def parkBallot : Transaction where
  cellDeps := [⟨outPoint 22 0, 0⟩, ⟨outPointOf parkHash 0, 0⟩, ⟨outPoint 6 0, 0⟩]
  headerDeps := []
  inputs := [voteInput]
  outputs := [⟨100, lockOf 5, some voteScript, Vote.newBuilder 1 100 [2]⟩,
    ⟨400, lockOf 5, none, []⟩]
  witnesses := []

def parkVoted : ChainTx := parkBallot.sealed ballotHash

def ballotCells : List (OutPoint × Cell) := cellsAfter parkCells parkVoted

/-- Carol takes the vote cell. -/
def parkCarol : Wallet := walletOf ballotCells (signerOf 8) (lockOf 8) none

def parkReclaim : Transaction where
  cellDeps := [⟨outPoint 22 0, 0⟩]
  headerDeps := []
  inputs := [⟨FixedBytes.zero 8, outPointOf ballotHash 0⟩]
  outputs := [⟨100, lockOf 8, none, []⟩, ⟨400, lockOf 8, none, []⟩]
  witnesses := []

def parkRecycled : ChainTx := parkReclaim.sealed reclaimHash

def parkRun : List ChainTx := [parkCreated, parkVoted, parkRecycled]

/-- The digests of everything that is hashed for the run. -/
def parkDigests : List (Bytes × Nat) := lifeDigests ++ [
  (lockOf 5, 0xd4c922f948a3451ef3bd1560856194cfb058754617869065f508aaf014aa7d68),
  (rawOf bobProposal, 0x3fca2e97a1c08e5e77135a8269855d5f8bbd71f1c07bd2668ef623ecd455b339),
  (rawOf parkBallot, 0xfc7b6d69277187215e6cf727b696de93684d96dd252b3c5610ec7f0c02a25673),
  (rawOf parkReclaim, 0x10dc92209d3c2e21ee0b1a718694ccc32d8f349fbd8c0ac4525d83a4bfc1e582)]

local instance (priority := 3000) parkBlake2b : Blake2b := tableBlake2b parkDigests

def parkResolved (inputs : List Cell) (cells : List (OutPoint × Cell)) (tx : ChainTx) :
    ResolvedTx :=
  ⟨tx, inputs,
    tx.cellDeps.filterMap fun dep => (liveOf cells dep.outPoint).map (dep.outPoint, ·), []⟩

def parkResolved0 : ResolvedTx := parkResolved [⟨500, lockOf 9, none, []⟩] parkStart parkCreated
def parkResolved1 : ResolvedTx := parkResolved [⟨500, lockOf 5, none, []⟩] parkCells parkVoted
def parkResolved2 : ResolvedTx :=
  parkResolved [⟨100, lockOf 5, some voteScript, Vote.newBuilder 1 100 [2]⟩] ballotCells
    parkRecycled

/-- Each transaction is what its function returns, serializes, and resolves. -/
theorem parkRun_reads :
    (createProposal molLibrary parkBob sampleConfig parkParams = some bobProposal ∧
      createVote molLibrary parkAlice sampleConfig parkVote = some parkBallot ∧
      consumeVote molLibrary parkCarol sampleConfig (outPointOf ballotHash 0) = some parkReclaim) ∧
    (ChainTx.ofRaw (rawOf bobProposal) [] = .ok parkCreated ∧
      ChainTx.ofRaw (rawOf parkBallot) [] = .ok parkVoted ∧
      ChainTx.ofRaw (rawOf parkReclaim) [] = .ok parkRecycled) ∧
    (resolve (liveOf parkStart) (fun _ => none) parkCreated = some parkResolved0 ∧
      resolve (liveOf parkCells) (fun _ => none) parkVoted = some parkResolved1 ∧
      resolve (liveOf ballotCells) (fun _ => none) parkRecycled = some parkResolved2) ∧
    (parkResolved0.WellFormed ∧ parkResolved1.WellFormed ∧ parkResolved2.WellFormed) := by
  decide +kernel

/-- The cells of the run, and the parameters for them. -/
theorem parkCells_reads :
    ((parkStart.map Prod.fst).Nodup ∧ (parkCells.map Prod.fst).Nodup ∧
      (ballotCells.map Prod.fst).Nodup) ∧
    (liveOf parkStart nullOutPoint = none ∧
      liveOf parkCells voteInput.previousOutput = some ⟨500, lockOf 5, none, []⟩ ∧
      liveOf parkCells (outPointOf parkHash 0) = some ⟨100, sampleConfig.alwaysSuccess.script [],
        some proposalScript, proposalDataOf sampleConfig parkParams (lockOf 9)⟩ ∧
      liveOf ballotCells (outPointOf ballotHash 0) =
        some ⟨100, lockOf 5, some voteScript, Vote.newBuilder 1 100 [2]⟩) ∧
    ((∀ p ∈ parkStart, p.2.type_ = none ∨ p.2.type_ = some daoScript) ∧
      (¬ hasCode (List.replicate 32 1) daoScript ∧ ¬ hasCode voteCodeHash daoScript) ∧
      hasCode voteCodeHash voteScript ∧ ScriptReader.codeHash voteScript ≠ .ok daoCodeHash) ∧
    ((resolveReceiver molLibrary parkBob parkParams).bind molLibrary.scriptEncode =
      some (lockOf 9) ∧ ScriptReader.verify false (lockOf 9) = .ok () ∧
      (proposalDataOf sampleConfig parkParams (lockOf 9)).length < 2 ^ 32) ∧
    (daoCells parkAlice (lockOf 5) =
        [(outPoint 6 0, ⟨100, lockOf 5, some daoScript, List.replicate 8 0⟩)] ∧
      (layout parkAlice sampleConfig parkVote (lockOf 5)).Nodup) := by
  decide +kernel

/-- The cells live before each step. -/
theorem parkRun_live : liveAt (liveOf parkStart) parkRun 0 = liveOf parkStart ∧
    liveAt (liveOf parkStart) parkRun 1 = liveOf parkCells ∧
    liveAt (liveOf parkStart) parkRun 2 = liveOf ballotCells := by
  have hone : liveAt (liveOf parkStart) parkRun 1 = liveOf parkCells := applyTo_liveOf _ _
  exact ⟨rfl, hone, (congrArg parkVoted.applyTo hone).trans (applyTo_liveOf _ _)⟩

theorem parkBob_documented : parkBob.Documented molLibrary (liveOf parkStart) (lockOf 9) := by
  refine walletOf_documented parkCells_reads.1.1 rfl fun input hinput => ?_
  obtain rfl := Option.some.inj hinput
  exact ⟨_, rfl, rfl, rfl⟩

theorem parkAlice_documented : parkAlice.Documented molLibrary (liveOf parkCells) (lockOf 5) := by
  obtain ⟨⟨-, hkeys, -⟩, ⟨-, hfunding, -⟩, -⟩ := parkCells_reads
  refine walletOf_documented hkeys rfl fun input hinput => ?_
  obtain rfl := Option.some.inj hinput
  exact ⟨_, hfunding, rfl, rfl⟩

theorem parkCarol_documented : parkCarol.Documented molLibrary (liveOf ballotCells) (lockOf 8) :=
  walletOf_documented parkCells_reads.1.2.2 rfl (by simp)

theorem parkBob_ready : ProposalReady molLibrary parkBob sampleConfig parkParams (lockOf 9) := by
  obtain ⟨-, -, -, ⟨hreceiver, hverify, hsize⟩, -⟩ := parkCells_reads
  exact ⟨by decide, by decide, by decide, hreceiver, hverify, hsize⟩

theorem parkAlice_ready : VoteReady parkAlice sampleConfig parkVote (lockOf 5) := by
  obtain ⟨-, -, -, -, hcells, hlayout⟩ := parkCells_reads
  have htotal : totalDaoCapacity parkAlice (lockOf 5) = 100 := by
    rw [totalDaoCapacity, hcells]
    rfl
  exact ⟨hlayout, by rw [hcells]; decide, htotal ▸ by decide, htotal ▸ by decide⟩

theorem mem_of_liveOf {cells : List (OutPoint × Cell)} {op : OutPoint} {cell : Cell}
    (h : liveOf cells op = some cell) : (op, cell) ∈ cells := by
  obtain ⟨p, hp, rfl⟩ := Option.map_eq_some_iff.mp h
  obtain rfl : p.1 = op := by simpa using List.find?_some hp
  exact List.mem_of_find?_eq_some hp

/-- The three calls are a run. -/
theorem parkRun_run : Run molLibrary sampleConfig typeIdOnly (hasCode (List.replicate 32 1))
    (hasCode voteCodeHash) (liveOf parkStart) parkRun := by
  obtain ⟨hzero, hone, htwo⟩ := parkRun_live
  obtain ⟨⟨hcreate, hvote, hconsume⟩, -, ⟨hresolve0, hresolve1, hresolve2⟩, hwell0, hwell1,
    hwell2⟩ := parkRun_reads
  obtain ⟨-, ⟨-, -, -, hlive⟩, ⟨hall, hdao, hballot, -⟩, -⟩ := parkCells_reads
  constructor
  · intro op cell hlive script htype
    rcases hall _ (mem_of_liveOf hlive) with hnone | hsome
    · cases htype.symm.trans hnone
    · obtain rfl := Option.some.inj (htype.symm.trans hsome)
      exact hdao
  · intro t tx htx
    rcases getElem?_triple htx with ⟨rfl, rfl⟩ | ⟨rfl, rfl⟩ | ⟨rfl, rfl⟩
    · rw [hzero]
      exact Or.inr ⟨_, _, hresolve0, hwell0,
        .createProposal parkBob (lockOf 9) (lockOf 9) parkParams bobProposal parkHash
          parkBob_documented parkBob_ready hcreate⟩
    · rw [hone]
      exact Or.inr ⟨_, _, hresolve1, hwell1,
        .createVote parkAlice (lockOf 5) parkVote parkBallot ballotHash parkAlice_documented
          parkAlice_ready hvote⟩
    · rw [htwo]
      exact Or.inr ⟨_, _, hresolve2, hwell2,
        .consumeVote parkCarol (lockOf 8) (outPointOf ballotHash 0) _ voteScript parkReclaim
          reclaimHash parkCarol_documented hlive rfl hballot hconsume⟩

theorem parkRun_distinct : DistinctHashes (liveOf parkStart) parkRun := by
  have hhashes : (parkRun.map ChainTx.hash).Nodup ∧
      (∀ p ∈ parkStart, ∀ tx ∈ parkRun, p.1.val.take 32 ≠ tx.hash.val) ∧
      ∀ tx ∈ parkRun, tx.outputs.length = 2 := by decide +kernel
  obtain ⟨hnodup, hstart, hlength⟩ := hhashes
  exact distinctHashes_of_nodup hnodup (fun op cell hcell => hstart _ (mem_of_liveOf hcell))
    fun tx htx => by simp [hlength tx htx]

/-- The run in two blocks. -/
def parkBlock0 : Bytes :=
  Block.newBuilder (header 0 0) [CkbVote.Transaction.newBuilder (rawOf bobProposal) []]
def parkBlock1 : Bytes := Block.newBuilder (header 1 1)
  [CkbVote.Transaction.newBuilder (rawOf parkBallot) [],
    CkbVote.Transaction.newBuilder (rawOf parkReclaim) []]

def parkBlocks : Bytes := BlockVec.newBuilder [parkBlock0, parkBlock1]

def parkRaws : List (List Bytes) := [[rawOf bobProposal], [rawOf parkBallot, rawOf parkReclaim]]

/-- What the programs read in the blocks of the park. -/
theorem parkBlocks_reads :
    (rawTransactions parkBlock0 = .ok [rawOf bobProposal] ∧
      rawTransactions parkBlock1 = .ok [rawOf parkBallot, rawOf parkReclaim]) ∧
    (findProposal parkBlocks proposalScript =
        .ok (some (proposalDataOf sampleConfig parkParams (lockOf 9))) ∧
      readPoll (proposalDataOf sampleConfig parkParams (lockOf 9)) proposalScript = .ok poll ∧
      itemCount parkBlocks = .ok 2) ∧
    (BlockVecReader.verify true parkBlocks = .ok () ∧
      blockSlices parkBlocks = [parkBlock0, parkBlock1]) ∧
    poll.proposalBlake160 = blake160 proposalScript := by
  decide +kernel

theorem parkRun_executes : Executes [parkBlock0, parkBlock1] parkRaws parkRun := by
  obtain ⟨⟨hraws0, hraws1⟩, -⟩ := parkBlocks_reads
  obtain ⟨-, ⟨hcreate, hvote, hreclaim⟩, -⟩ := parkRun_reads
  exact ⟨.cons hraws0 (.cons hraws1 .nil), .cons (.spending _ [] hcreate)
    (.cons (.spending _ [] hvote) (.cons (.spending _ [] hreclaim) .nil))⟩

/-- Alice has cast her vote with the second call. -/
theorem parkAlice_cast : Cast molLibrary sampleConfig (liveOf parkStart) parkRun parkAlice parkVote
    (lockOf 5) proposalScript 1 := by
  obtain ⟨-, hone, -⟩ := parkRun_live
  obtain ⟨⟨-, hvote, -⟩, -⟩ := parkRun_reads
  obtain ⟨-, ⟨-, -, hlive, -⟩, -⟩ := parkCells_reads
  exact ⟨hone ▸ parkAlice_documented, parkAlice_ready, ⟨parkBallot, ballotHash, hvote, rfl⟩,
    ⟨_, hone ▸ hlive, rfl⟩⟩

/-- Alice's vote cell is taken, her deposit is not. -/
theorem parkAlice_keeps :
    Keeps (liveOf parkStart) parkRun poll (lockOf 5) 1
      (parkRaws.take (0 + 2)).flatten.length := by
  obtain ⟨-, -, htwo⟩ := parkRun_live
  obtain ⟨-, ⟨-, -, -, hcell⟩, ⟨-, -, -, hnotDao⟩, -⟩ := parkCells_reads
  have hlater : ∀ {t' tx}, 1 < t' → parkRun[t']? = some tx → t' = 2 ∧ tx = parkRecycled := by
    intro t' tx ht' htx
    rcases getElem?_triple htx with ⟨rfl, -⟩ | ⟨rfl, -⟩ | h
    · omega
    · omega
    · exact h
  constructor
  · intro t' ht' _ tx htx cell hcell script htype
    obtain ⟨rfl, rfl⟩ := hlater ht' htx
    have hnone : ∀ cell ∈ parkRecycled.outputs, cell.type_ = none :=
      fun cell h => by rcases List.mem_pair.mp h with rfl | rfl <;> rfl
    cases htype.symm.trans (hnone cell hcell)
  · rintro op cell hlive hdeposit - t' ht' - ⟨tx, htx, hmem⟩
    obtain ⟨rfl, rfl⟩ := hlater ht' htx
    obtain rfl : op = outPointOf ballotHash 0 := List.mem_singleton.mp hmem
    have hlive : liveAt (liveOf parkStart) parkRun 2 (outPointOf ballotHash 0) = some cell := hlive
    rw [htwo, hcell] at hlive
    obtain rfl := Option.some.inj hlive
    obtain ⟨script, htype, hcode, -⟩ := hdeposit.dao
    obtain rfl := Option.some.inj htype
    exact hnotDao hcode

/-- Alice's vote counts although Carol has taken the vote cell. -/
theorem sdk_vote_stands_park :
    FindsDeposits parkAlice (liveAt (liveOf parkStart) parkRun 1) (lockOf 5) ∧
      ∃ maps, LoopEnds parkBlocks proposalScript poll maps ∧
        maps.voteMap[blake2b256 (lockOf 5)]? =
          some (parkVote.vote.byte, totalDaoCapacity parkAlice (lockOf 5)) := by
  obtain ⟨-, ⟨hfind, hread, hcount⟩, ⟨hverify, hslices⟩, hblake⟩ := parkBlocks_reads
  have hpast : PastBlockCheck parkBlocks proposalScript poll := ⟨_, hfind, hread, hcount⟩
  have hpoll : PollOf sampleConfig proposalScript poll := ⟨rfl, rfl, hblake⟩
  obtain ⟨-, ⟨hnull, -⟩, -⟩ := parkCells_reads
  have h := sdk_vote_stands (s := 0) (n := 2) molLibrary_documented sampleConfig_deployed
    typeIdOnly_checks parkRun_distinct hnull parkRun_run parkRun_executes hverify hslices
      hpast hpoll
    (fun _ h => codeHash_of_isVoteScript h) parkAlice_cast (by decide) (by decide) parkAlice_keeps
  exact h

end Sample

end Sdk

end CkbVote
