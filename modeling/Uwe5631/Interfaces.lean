import Uwe5631.MachineIntegers

/-!
# Interfaces and peers

The modes an interface can be in, and what the driver records of its peers.
-/
namespace Uwe5631

/-- `SPRDWL_MODE_MAX` -/
abbrev SPRDWL_MODE_MAX : ℕ := 8

/-- `enum sprdwl_mode`. The number 3 is no mode, but the loops over all modes meet it. -/
abbrev Mode := Fin SPRDWL_MODE_MAX

instance neZero_modes : NeZero SPRDWL_MODE_MAX := ⟨by decide⟩

def SPRDWL_MODE_NONE : Mode := 0
def SPRDWL_MODE_STATION : Mode := 1
def SPRDWL_MODE_AP : Mode := 2
def SPRDWL_MODE_P2P_CLIENT : Mode := 5
def SPRDWL_MODE_P2P_GO : Mode := 6

/-- `MAX_LUT_NUM`, the number of peers. -/
abbrev MAX_LUT_NUM : ℕ := 32

/-- The fields of `struct sprdwl_peer_entry` that name the peer. -/
structure PeerEntry where
  lutIndex : BitVec 8
  ctxId : BitVec 8
  deriving DecidableEq, Repr

end Uwe5631
