import KeysharpInput.Keys
import KeysharpInput.SwapRemove

/-!
The hold tables of synthesis.
A claim records the keys that one owner holds. The table also counts the holders of each key,
and an owner without keys has no claim. One table follows written output and one admitted
output; both are changed by the same functions.
-/

namespace KeysharpInput.Output

open SwapRemove Function

structure SynthOwner where
  target : Nat := 0
  connectionId : Nat := 0
  hookType : Nat := 0
  sourceType : Nat := 0
  sourceCode : Nat := 0
  deriving DecidableEq

/-- `owner_matches`. -/
def SynthOwner.matchesFilter (owner filter : SynthOwner) : Bool :=
  (filter.target == 0 || owner.target == filter.target) &&
  (filter.connectionId == 0 || owner.connectionId == filter.connectionId) &&
  (filter.hookType == 0 || owner.hookType == filter.hookType) &&
  (filter.sourceType == 0 || owner.sourceType == filter.sourceType) &&
  (filter.sourceCode == 0 || owner.sourceCode == filter.sourceCode)

structure SynthClaim where
  owner : SynthOwner
  keys : KeyBits
  deriving DecidableEq

/-- `KSI_SYNTH_CLAIM_CAPACITY`. -/
def synthClaimCapacity : Nat := 1024

/-- `overflowed` is history: a hold was refused for lack of a free claim. -/
structure SynthHolds where
  epoch : Nat := 0
  claims : List SynthClaim := []
  holders : Code → Nat := fun _ => 0
  held : KeyBits := ∅
  overflowed : Bool := false

namespace SynthHolds

variable (holds : SynthHolds)

def findClaim (owner : SynthOwner) : Option Nat :=
  holds.claims.findIdx? (·.owner = owner)

def ownerHolds (owner : SynthOwner) (code : Code) : Bool :=
  ((holds.findClaim owner).bind fun i => holds.claims[i]?).any (code ∈ ·.keys)

def removeHolder (code : Code) : Bool × SynthHolds :=
  let count := holds.holders code - 1
  let holds := { holds with holders := update holds.holders code count }
  if count ≠ 0 then (false, holds) else (true, { holds with held := holds.held.erase code })

def addKey (i : Nat) (code : Code) : SynthHolds :=
  match holds.claims[i]? with
  | none => holds
  | some claim =>
    if code ∈ claim.keys then holds
    else
      { holds with
        claims := holds.claims.modify i fun claim => { claim with keys := insert code claim.keys }
        holders := update holds.holders code (holds.holders code + 1)
        held := if holds.holders code = 0 then insert code holds.held else holds.held }

def holdKey (owner : SynthOwner) (code : Code) : Bool × SynthHolds :=
  match holds.findClaim owner with
  | some i => (true, holds.addKey i code)
  | none =>
    if holds.claims.length = synthClaimCapacity then (false, { holds with overflowed := true })
    else
      let fresh := { holds with claims := holds.claims ++ [SynthClaim.mk owner ∅] }
      (true, fresh.addKey holds.claims.length code)

def dropKey (i : Nat) (code : Code) : SynthHolds :=
  match holds.claims[i]? with
  | none => holds
  | some claim =>
    let keys := claim.keys.erase code
    let holds :=
      { holds with claims := holds.claims.modify i fun claim => { claim with keys := keys } }
    let holds := (holds.removeHolder code).2
    if keys = ∅ then { holds with claims := swapRemove holds.claims i } else holds

/-- The walk of `release_code` below position `i`; it ends early without a holder. -/
def releaseCodeFrom (code : Code) : Nat → SynthHolds → SynthHolds
  | 0, holds => holds
  | i + 1, holds =>
    if code ∉ holds.held then holds
    else if holds.claims[i]?.any (code ∈ ·.keys) then
      releaseCodeFrom code i (holds.dropKey i code)
    else releaseCodeFrom code i holds

def releaseCode (code : Code) : SynthHolds :=
  releaseCodeFrom code holds.claims.length holds

/-- The loop of `remove_claim` over the claim's keys, with the keys left without holder. -/
def removeHolders (codes : List Code) (holds : SynthHolds) (released : KeyBits) :
    SynthHolds × KeyBits :=
  codes.foldl (fun acc code =>
    let (last, holds) := acc.1.removeHolder code
    (holds, if last then insert code acc.2 else acc.2)) (holds, released)

def removeClaim (i : Nat) (released : KeyBits) : SynthHolds × KeyBits :=
  match holds.claims[i]? with
  | none => (holds, released)
  | some claim =>
    let (holds, released) := removeHolders (setBits claim.keys) holds released
    ({ holds with claims := swapRemove holds.claims i }, released)

/-- The walk of `drop_claims` below position `i`. -/
def dropClaimsFrom (drops : SynthOwner → Bool) : Nat → SynthHolds → KeyBits → SynthHolds × KeyBits
  | 0, holds, released => (holds, released)
  | i + 1, holds, released =>
    if holds.claims[i]?.any (drops ·.owner) then
      let (holds, released) := holds.removeClaim i released
      dropClaimsFrom drops i holds released
    else dropClaimsFrom drops i holds released

def dropClaims (drops : SynthOwner → Bool) (released : KeyBits) : SynthHolds × KeyBits :=
  dropClaimsFrom drops holds.claims.length holds released

/-- `sweep_dead_targets`, with the forwarding epoch and the owners whose target has ended. -/
def sweepDeadTargets (epoch : Nat) (dead : SynthOwner → Bool)
    (released : KeyBits) : SynthHolds × KeyBits :=
  if holds.epoch = epoch then (holds, released)
  else { holds with epoch := epoch }.dropClaims dead released

/-- `used`, `holders` and `held` cleared, as every reset of a table does. -/
def clear : SynthHolds :=
  { holds with claims := [], holders := fun _ => 0, held := ∅ }

def keysOf (owner : SynthOwner) : KeyBits :=
  ((holds.claims.find? (·.owner = owner)).map (·.keys)).getD ∅

end SynthHolds

end KeysharpInput.Output
