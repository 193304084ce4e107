import Corestack.Lib.Text

/-!
# The domain model of libballotbrain (`types.h`)

Text fields are C strings of the capacity the header gives them. An array
with its count is the list of the entries in use where entries are filled
from the front, and a function on its indices otherwise.
-/

namespace Corestack.Brain

open Lib

abbrev bbIdLen : Nat := 16
abbrev bbTitleLen : Nat := 64
abbrev bbOptionLen : Nat := 32
abbrev bbCertLen : Nat := 32
abbrev bbTimeLen : Nat := 32
abbrev bbHashLen : Nat := 65
abbrev bbNonceLen : Nat := 33
abbrev bbMaxOptions : Nat := 16
abbrev bbMaxVoters : Nat := 64
abbrev bbCiphertextMax : Nat := 256

abbrev Id := CStr bbIdLen
abbrev Title := CStr bbTitleLen
abbrev OptionName := CStr bbOptionLen
abbrev CertName := CStr bbCertLen
abbrev Time := CStr bbTimeLen
abbrev Hash := CStr bbHashLen
abbrev Nonce := CStr bbNonceLen

inductive BbState where
  | draft
  | opened
  | closed
  | published
deriving DecidableEq, Repr

inductive BbCertStatus where
  | invalid
  | expired
  | notEligible
  | valid
deriving DecidableEq, Repr

/-- The `BB_ERR_*` codes of `bb_result_t`. `BB_OK` is success. -/
inductive BbErr where
  | configTitle
  | configOptions
  | configTime
  | configIdTaken
  | illegalTransition
  | notOpen
  | closed
  | notPublished
  | notEligible
  | certInvalid
  | certExpired
  | badOption
  | replay
  | decrypt
  | notFound
  | notJoined
  | db
  | notImplemented
  | retry
deriving DecidableEq, Repr

/-- The value of the code in the C enumeration. -/
def BbErr.code : BbErr → Int
  | .configTitle => 1
  | .configOptions => 2
  | .configTime => 3
  | .configIdTaken => 4
  | .illegalTransition => 5
  | .notOpen => 6
  | .closed => 7
  | .notPublished => 8
  | .notEligible => 9
  | .certInvalid => 10
  | .certExpired => 11
  | .badOption => 12
  | .replay => 13
  | .decrypt => 14
  | .notFound => 15
  | .notJoined => 16
  | .db => 17
  | .notImplemented => 18
  | .retry => 19

structure BbConfig where
  title : Title
  options : List OptionName
  eligible : List CertName
  openTime : Time
  closeTime : Time
  options_le : options.length ≤ bbMaxOptions
  eligible_le : eligible.length ≤ bbMaxVoters
deriving DecidableEq

/-- `options` is filled by index and may have gaps below `optionCount`. -/
structure BbElection where
  id : Id
  title : Title
  state : BbState
  options : Fin bbMaxOptions → OptionName
  optionCount : Nat
  eligible : List CertName
  openTime : Time
  closeTime : Time
deriving DecidableEq

/-- `payload` is the whole array; `payloadLen` bytes of it are in use. -/
structure BbBallot where
  certName : CertName
  nonce : Nonce
  payload : Fin bbCiphertextMax → UInt8
  payloadLen : Nat
deriving DecidableEq

structure BbBallotHash where
  hash : Hash
  optionIndex : Int
  version : Int
  superseded : Int
deriving DecidableEq

structure BbResults where
  title : Title
  tally : Fin bbMaxOptions → Nat
  optionCount : Nat
  options : Fin bbMaxOptions → OptionName
  hashes : List BbBallotHash
deriving DecidableEq

structure BbReceipt where
  hash : Hash
  issuedAt : Time
deriving DecidableEq

/-- What `memset` leaves. -/
instance : Inhabited BbElection :=
  ⟨⟨default, default, .draft, fun _ => default, 0, [], default, default⟩⟩

instance : Inhabited BbBallotHash := ⟨⟨default, 0, 0, 0⟩⟩

instance : Inhabited BbReceipt := ⟨⟨default, default⟩⟩

end Corestack.Brain
