import HyperIoVm.Resources

/-!
# The client table (`service/client-config.c`)

`hyper_clients_read` reads the table of clients from a text file: a header that names the version,
then one client a line. The versions share one loop; the fields a version lacks get defaults.
-/

namespace HyperIoVm

open Data

/-- `struct hyper_client`. -/
structure HyperClient where
  id : UInt32
  requestQueues : UInt32
  sgPrealloc : UInt32
  netResources : NetworkResources
  network : List Char
  mac : List Char
  deriving DecidableEq, Repr

/-- The versions of the table, by their headers. -/
inductive ClientsVersion where
  | v3 | v4 | v5
  deriving DecidableEq, Repr

namespace ClientsVersion

def header : ClientsVersion → List Char
  | .v3 => "hyper.clients.v3".toList
  | .v4 => "hyper.clients.v4".toList
  | .v5 => "hyper.clients.v5".toList

/-- A line has the SCSI resources. -/
def resources : ClientsVersion → Bool
  | .v3 => false
  | .v4 | .v5 => true

/-- A line has the network resources. -/
def netResources : ClientsVersion → Bool
  | .v3 | .v4 => false
  | .v5 => true

/-- The field widths of the version's `sscanf` format: `%7s %31s %17s`, then `%7s %7s` for the SCSI
resources and `%11s %11s` for the network resources. -/
def widths (version : ClientsVersion) : List Nat :=
  [7, 31, 17] ++ (if version.resources then [7, 7] else []) ++
    (if version.netResources then [11, 11] else [])

end ClientsVersion

/-- `network_name`. -/
def networkName (name : List Char) : Bool :=
  name.head?.any (·.isLower) && name.all fun c => c.isLower || c.isDigit || c == '-'

/-- The network resources of a line, or the defaults. -/
def clientNetResources (version : ClientsVersion) (rx tx : List Char) : Option NetworkResources :=
  if version.netResources then hyperNetworkResourcesParse rx tx
  else some ⟨hyperNetRxBacklogPackets, 0⟩

/-- The SCSI resources of a line, digits only and in range, or the defaults. -/
def clientScsi (version : ClientsVersion) (queues sg : List Char) : Option ScsiResources :=
  if version.resources then
    let scsi : ScsiResources := ⟨(strtoul queues).1.toUInt32, (strtoul sg).1.toUInt32⟩
    if queues.all (·.isDigit) && sg.all (·.isDigit) &&
      hyperScsiResourcesValid scsi.requestQueues scsi.sgPrealloc then some scsi else none
  else some ⟨hyperScsiRequestQueues, hyperScsiSgPrealloc⟩

/-- The identifier of a line. -/
def clientId (id : List Char) : Option UInt32 :=
  if id.all (·.isDigit) && (strtoul id).1.toNat < hyperBlockClients then
    some (strtoul id).1.toUInt32
  else none

/-- The network of an entry and its address, both `-` for an entry without one. -/
def clientNetworkValid (id : UInt32) (network mac : List Char) : Bool :=
  if network == ['-'] then mac == ['-']
  else id != 0 && networkName network && (hyperMacParse mac).isSome

/-- The checks of one line on its own. -/
def parseClient (version : ClientsVersion) (fields : List (List Char)) : Option HyperClient := do
  let field (i : Nat) := fields.getD i []
  let netResources ← clientNetResources version (field 5) (field 6)
  let scsi ← clientScsi version (field 3) (field 4)
  let id ← clientId (field 0)
  if clientNetworkValid id (field 1) (field 2) then
    some { id, requestQueues := scsi.requestQueues, sgPrealloc := scsi.sgPrealloc, netResources,
           network := field 1, mac := field 2 }
  else none

/-- The entry has a network. -/
def HyperClient.networked (client : HyperClient) : Bool := client.network != ['-']

/-- The comparison of a new entry with an earlier one. -/
def HyperClient.clashes (client earlier : HyperClient) : Bool :=
  earlier.id == client.id || client.networked && earlier.mac == client.mac

/-- One line after the header, when `clients` have been read. -/
def readClient (version : ClientsVersion) (clients : List HyperClient) (buffer : List Char) :
    Option HyperClient := do
  let line := cString buffer
  let fields ← scan isSpace version.widths line
  let client ← parseClient version fields
  if clients.length = hyperBlockClients ∨ '\n' ∉ line ∨ clients.any client.clashes then none
  else some client

/-- The version a first line names. -/
def clientsVersion (line : List Char) : Option ClientsVersion :=
  [.v5, .v4, .v3].find? fun version => line == version.header ++ ['\n']

/-- `hyper_clients_read` on an open file. -/
def readClientsFile (file : Stream) : Option (List HyperClient) :=
  match file.fgets 160 with
  | [] => none
  | buffer :: buffers => do
    let version ← clientsVersion (cString buffer)
    let clients ← readEntries (readClient version) [] buffers
    if file.fails ∨ clients.countP (·.id == 0) ≠ 1 then none else some clients

/-- `hyper_clients_read`; `none` is a file that cannot be opened. -/
def hyperClientsRead (file : Option Stream) : Option (List HyperClient) :=
  file.bind readClientsFile

end HyperIoVm
