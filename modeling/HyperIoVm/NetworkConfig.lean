import HyperIoVm.Resources

/-!
# The networks of the appliance (`service/network-config.c`)

`hyper_networks_read` reads the inventory of networks from a text file: a header, then one network a
line, with its bridge and its uplink. No interface is used twice.
-/

namespace HyperIoVm

open Data

/-- `struct hyper_network`. -/
structure HyperNetwork where
  name : List Char
  bridge : List Char
  uplink : List Char
  deriving DecidableEq, Repr

/-- `name_valid`. -/
def nameValid (name : List Char) (interface : Bool) : Bool :=
  !name.isEmpty && (interface || name.head?.any (·.isLower)) && name.all fun c =>
    c.isLower || c.isDigit || c == '-' || interface && (c.isUpper || c == '_')

/-- The comparison of a new network with an earlier one. -/
def HyperNetwork.clashes (n earlier : HyperNetwork) : Bool :=
  n.name == earlier.name || n.bridge == earlier.bridge || n.uplink == earlier.uplink ||
    n.bridge == earlier.uplink || n.uplink == earlier.bridge

/-- The field widths of `%31s %15s %15s`. -/
def networkWidths : List Nat := [31, 15, 15]

/-- The checks of one line on its own. -/
def parseNetwork (fields : List (List Char)) : Option HyperNetwork :=
  let n : HyperNetwork := ⟨fields.getD 0 [], fields.getD 1 [], fields.getD 2 []⟩
  if nameValid n.name false && nameValid n.bridge true && nameValid n.uplink true &&
    n.bridge != n.uplink then some n else none

/-- One line after the header, when `networks` have been read. -/
def readNetwork (networks : List HyperNetwork) (buffer : List Char) : Option HyperNetwork := do
  let line := cString buffer
  let fields ← scan isSpace networkWidths line
  let n ← parseNetwork fields
  if networks.length = hyperMaxNetworks ∨ '\n' ∉ line ∨ networks.any n.clashes then none else some n

def networksHeader : List Char := "hyper.networks.v1".toList

/-- `hyper_networks_read` on an open file. -/
def readNetworksFile (file : Stream) : Option (List HyperNetwork) :=
  match file.fgets 128 with
  | [] => none
  | buffer :: buffers =>
    if cString buffer = networksHeader ++ ['\n'] then do
      let networks ← readEntries readNetwork [] buffers
      if file.fails then none else some networks
    else none

/-- `hyper_networks_read`; `none` is a file that cannot be opened. -/
def hyperNetworksRead (file : Option Stream) : Option (List HyperNetwork) :=
  file.bind readNetworksFile

/-- `network_bridge`. -/
def networkBridge (file : Option Stream) (name : List Char) : Option (List Char) := do
  let networks ← hyperNetworksRead file
  (networks.find? fun n => name == n.name).map (·.bridge)

end HyperIoVm
