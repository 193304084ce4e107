import Corestack.Brain.Types

/-!
# Requests and responses (`libballotclient/client.h`)

The messages between the clients and ballotd. A response is zeroed before
it is filled, so what an operation does not fill reads as zero.
-/

namespace Corestack.Client

open Lib Brain

/-- `bcl_op_t`. The last three are for the admin channel only. -/
inductive BclOp where
  | join
  | cast
  | update
  | results
  | check
  | create
  | opening
  | closing
  | publish
  | adminResults
  | adminCheck
  | adminNextId
deriving DecidableEq, Repr

structure BclRequest where
  op : BclOp
  certName : CertName
  electionId : Id
  ballot : BbBallot
  hash : Hash
  config : BbConfig
deriving DecidableEq

/-- `bcl_response_t`. A status of `none` is `BB_OK`; the hashes are listed up
to `hash_count`. -/
structure BclResponse where
  status : Option BbErr
  election : BbElection
  hasPriorBallot : Bool
  priorBallotVersion : Int
  receipt : BbReceipt
  tally : Fin bbMaxOptions → Nat
  optionCount : Nat
  options : Fin bbMaxOptions → OptionName
  hashes : List BbBallotHash
  found : Bool
  foundOption : Int
  foundOptionName : OptionName
deriving DecidableEq

/-- What `memset` leaves. -/
instance : Inhabited BclResponse :=
  ⟨⟨none, default, false, 0, default, fun _ => 0, 0, fun _ => default, [], false, 0, default⟩⟩

/-- A zeroed response with a status. -/
def BclResponse.of (status : Option BbErr) : BclResponse := { (default : BclResponse) with status }

instance : Inhabited BbBallot := ⟨⟨default, default, fun _ => 0, 0⟩⟩

instance : Inhabited BbConfig :=
  ⟨⟨default, [], [], default, default, Nat.zero_le _, Nat.zero_le _⟩⟩

/-- A zeroed request for an operation. -/
def BclRequest.of (op : BclOp) : BclRequest := ⟨op, default, default, default, default, default⟩

end Corestack.Client
