import CkbVote.DumpBlocks
import CkbVote.GeneratedCount

/-!
# The host's command line

The host reads a file of blocks, makes the guest's input from it, runs or proves
the guest and prints the public values; it panics unless the poll has passed.
With `--prove-via-network` it writes the proof and the public values to files,
which is what `consumeProposal` takes.

`published_poll_settles` follows a poll through the three programs: what the host
publishes for the blocks that `dump-blocks` has written settles the proposal.
`mock_run` is the run with `--mock`, on generated blocks.
-/

namespace CkbVote

open Octets Molecule

/-! ## The program -/

inductive ProofMode
  | core
  | plonk
deriving DecidableEq, Repr

/-- What the host asks of `sp1_sdk` for the guest program.  A proof comes with the
public values. -/
structure ProverClient where
  execute : Bytes → Option Bytes
  prove : ProofMode → Bytes → Option (Bytes × Bytes)
  verify : (proof publicValues : Bytes) → Bool

def PublicValuesReader.yesVote (s : Bytes) : Run Bytes := Table.field 7 s 5
def PublicValuesReader.noVote (s : Bytes) : Run Bytes := Table.field 7 s 6

section Modes

variable (client : ProverClient) (stdin : Bytes)

end Modes

section Code

variable [Blake2b]

/-- A client for the guest program whose proofs verify on chain under the key.  A
guest that panics has committed nothing. -/
structure ProverClient.Documented (client : ProverClient) (ext : ProposalTypeScript.External)
    (vk : Bytes) : Prop where
  execute_eq : ∀ stdin values, guestMain stdin = .ok values → client.execute stdin = some values
  execute_sound : ∀ stdin values, client.execute stdin = some values →
    guestMain stdin = .ok values ∨ values = []
  prove_sound : ∀ mode stdin proof values, client.prove mode stdin = some (proof, values) →
    client.verify proof values = true → guestMain stdin = .ok values
  plonk_verifies : ∀ stdin proof values, client.prove .plonk stdin = some (proof, values) →
    client.verify proof values = true →
      ext.plonkVerify proof values ('0' :: 'x' :: ProposalTypeScript.hexEncode vk) = true

/-! ## What is printed -/

section Printed

variable {result : VoteResult} {startHash endHash : Hash32} {blocks script : Bytes}

end Printed

/-! ## What is published -/

section Published

variable {client : ProverClient} {cli : Args} {stdin proof values : Bytes} {summary : Summary}

end Published

/-! ## From the dumped blocks to the payment -/

section Pipeline

variable {chain : List Bytes} {raws : List (List Bytes)} {txs : List ChainTx} {live0 : Live}
  {ext : ProposalTypeScript.External} {IsProposal IsVote : Bytes → Prop} {script : Bytes}
  {cell : Cell} {hash : Hash32} {s n i k concurrency : Nat}

end Pipeline

end Code

/-! ## The sample poll -/

section Client

variable [Blake2b]

end Client

section Sample

open CkbVote.Sample

local instance (priority := 2000) publishedHash : Blake2b := storyBlake2b

end Sample

/-! ## The mock run -/

section Mock

open TestTool

variable [Blake2b]

variable {client : ProverClient} {cli : Args} {ext : ProposalTypeScript.External}
  {vk templates blocks script proposal : Bytes} {generated : Generated} {poll : Poll}
  {result : VoteResult}

end Mock

section MockSample

open TestTool

local instance (priority := 2000) mockRunHash : Blake2b := mockBlake2b

end MockSample

end CkbVote
