import AstraVeil.Daemon.Services

/-!
# The request handler of the daemon

The handler that `main.cpp` installs in the socket server.  The first byte of a request selects the
service and comes back as the first byte of the response; the rest of the response is built either
by the codec or by concatenation.  A response `none` is an exception that leaves the handler, for
which the server has no handler either.
-/

namespace AstraVeil.Daemon

open Json (FloatText)
open Utf16 (ascii)

/-- `RequestType`. -/
inductive RequestType
  | getCapability
  | getProvider
  | execute
  | ping
  | getCapabilityMatrix
  | installModule
  | removeModule
  | startModule
  | stopModule
  | listModules
  | queryPermission
  | grantPermission
  | revokePermission
  | getRiskScore
  | getAuditLog
  deriving DecidableEq

/-- The request types by their discriminator. -/
def RequestType.ofByte (b : UInt8) : Option RequestType :=
  if b = 0x01 then some .getCapability
  else if b = 0x02 then some .getProvider
  else if b = 0x03 then some .execute
  else if b = 0x04 then some .ping
  else if b = 0x05 then some .getCapabilityMatrix
  else if b = 0x06 then some .installModule
  else if b = 0x07 then some .removeModule
  else if b = 0x08 then some .startModule
  else if b = 0x09 then some .stopModule
  else if b = 0x0A then some .listModules
  else if b = 0x0B then some .queryPermission
  else if b = 0x0C then some .grantPermission
  else if b = 0x0D then some .revokePermission
  else if b = 0x0E then some .getRiskScore
  else if b = 0x0F then some .getAuditLog
  else none

/-- The state that the handler captures, with the audit log on disk and the commands that have been
handed to the executor. -/
structure State where
  provider : RootProvider
  activeProvider : List UInt8
  providerOnline : Bool
  matrix : CapabilityMatrix
  modules : List Module
  database : PermissionDatabase
  auditFile : List UInt8
  executed : List (List UInt8)

/-- `json_escape` of one byte. -/
def jsonEscapeByte (c : UInt8) : List UInt8 :=
  if c = 0x22 then [0x5C, 0x22]
  else if c = 0x5C then [0x5C, 0x5C]
  else if c = 0x0A then [0x5C, 0x6E]
  else if c = 0x0D then [0x5C, 0x72]
  else if c = 0x09 then [0x5C, 0x74]
  else if c < 0x20 then Json.unicodeEscape c.toNat
  else [c]

/-- `json_escape`. -/
def jsonEscape (s : List UInt8) : List UInt8 := s.flatMap jsonEscapeByte

section Handler

variable {F : Type} (fl : FloatText F) (dev : Device) (s : State)

/-- What a service gives: the body of the response and the next state. -/
abbrev Reply := Option (List UInt8) × State

/-- `GetCapability`. -/
def handleGetCapability : Reply := (makeCapabilityResponse fl (detectCapabilities dev), s)

/-- The provider that `GetProvider` makes the active one. -/
def activeProviderId (providers : List ProviderInfo) : List UInt8 :=
  match providers.find? (·.available) with
  | some p => p.id
  | none => ascii "none"

/-- `GetProvider`. -/
def handleGetProvider : Reply :=
  match makeProvidersResponse fl (detectProviders dev) with
  | none => (none, s)
  | some text =>
      -- the detection runs once, and the response is built before the state changes
      let active := activeProviderId (detectProviders dev)
      (some text, { s with activeProvider := active, providerOnline := active ≠ ascii "none" })

/-- `Execute`: the parsed request, the provider, the policy, and only then the command. -/
def handleExecute (body : List UInt8) : Reply :=
  match parseExecuteRequest fl body with
  | none => (makeErrorResponse fl (ascii "bad_request")
      (ascii "malformed or incomplete execute request " ++
        ascii "(need moduleId/capability/riskLevel/approved/caller/command)"), s)
  | some req =>
    match s.provider.available dev with
    | none => (none, s)
    | some false => (makeErrorResponse fl (ascii "permission_denied")
        (ascii "no active root provider"), s)
    | some true =>
      match checkWith dev req.moduleId req.capability req.riskLevel req.approved with
      | .deny => (makeErrorResponse fl (ascii "policy_denied")
          (ascii "Rust policy denied execution for module '" ++ req.moduleId ++
            ascii "' capability '" ++ req.capability ++ ascii "'"), s)
      | .approval => (makeErrorResponse fl (ascii "approval_required")
          (ascii "execution requires user approval"), s)
      | .allow =>
          -- the command has run, whether or not its output can be printed
          let result := execute dev req.command
          (makeExecResponse fl (result.exitCode = 0) result.exitCode result.stdout result.stderr,
            { s with executed := s.executed ++ [req.command] })

/-- `Ping`. -/
def handlePing : Reply := (makePingResponse fl (ascii "0.1.0") dev.uptimeMs, s)

/-- `GetCapabilityMatrix`. -/
def handleGetCapabilityMatrix : Reply :=
  match detect dev s.provider with
  | none => (none, s)
  | some matrix => (some matrix.json, { s with matrix := matrix })

/-- `InstallModule`. -/
def handleInstallModule (body : List UInt8) : Reply :=
  let (ok, modules) := installModule body s.modules
  (some (if ok then ascii "\x7b\"installed\":true\x7d"
    else ascii "\x7b\"installed\":false,\"error\":\"install_failed\"\x7d"),
    { s with modules := modules })

/-- `RemoveModule`. -/
def handleRemoveModule (body : List UInt8) : Reply :=
  let (ok, modules) := removeModule body s.modules
  (some (if ok then ascii "\x7b\"removed\":true\x7d"
    else ascii "\x7b\"removed\":false,\"error\":\"not_found\"\x7d"), { s with modules := modules })

/-- `StartModule`. -/
def handleStartModule (body : List UInt8) : Reply :=
  let started :=
    match findModule body s.modules with
    | some m => checkPermissions s.matrix m.manifest
    | none => false
  (some (if started then ascii "\x7b\"started\":true\x7d"
    else ascii "\x7b\"started\":false,\"error\":\"denied_or_not_found\"\x7d"), s)

/-- `StopModule`. -/
def handleStopModule (body : List UInt8) : Reply :=
  (some (if stopModule body then ascii "\x7b\"stopped\":true\x7d"
    else ascii "\x7b\"stopped\":false\x7d"), s)

/-- A module in the answer to `ListModules`. -/
def moduleJson (m : Module) : List UInt8 :=
  ascii "\x7b\"id\":\"" ++ jsonEscape m.manifest.id ++ ascii "\"" ++
    ascii ",\"name\":\"" ++ jsonEscape m.manifest.name ++ ascii "\"" ++
    ascii ",\"version\":\"" ++ jsonEscape m.manifest.version ++ ascii "\"" ++
    ascii ",\"path\":\"" ++ jsonEscape m.path ++ ascii "\"\x7d"

/-- `ListModules`. -/
def handleListModules : Reply :=
  (some (ascii "[" ++ [0x2C].intercalate (s.modules.map moduleJson) ++ ascii "]"), s)

/-- The module and the permission of a body, cut at its first colon. -/
def splitColon (body : List UInt8) : Option (List UInt8 × List UInt8) :=
  if 0x3A ∈ body then
    some (body.takeWhile (· ≠ 0x3A), (body.dropWhile (· ≠ 0x3A)).tail)
  else none

/-- The common form of the requests about a permission: `bad` answers a body without colon,
`unknown` one without a known permission. -/
def withPermission (body bad unknown : List UInt8)
    (act : List UInt8 → List UInt8 → Permission → Reply) : Reply :=
  match splitColon body with
  | none => (some bad, s)
  | some (mod, permName) =>
    match permissionFromName permName with
    | none => (some unknown, s)
    | some perm => act mod permName perm

/-- `QueryPermission`. -/
def handleQueryPermission (body : List UInt8) : Reply :=
  withPermission s body (ascii "\x7b\"granted\":false,\"message\":\"bad request\"\x7d")
    (ascii "\x7b\"granted\":false,\"message\":\"unknown permission\"\x7d") fun mod permName perm =>
      let ok := authorize s.database s.matrix mod perm
      (some (if ok then ascii "\x7b\"granted\":true,\"message\":\"allow\"\x7d"
        else ascii "\x7b\"granted\":false,\"message\":\"denied\"\x7d"),
        { s with auditFile := auditLog dev mod permName ok s.auditFile })

/-- `GrantPermission`. -/
def handleGrantPermission (body : List UInt8) : Reply :=
  withPermission s body (ascii "\x7b\"granted\":false\x7d") (ascii "\x7b\"granted\":false\x7d")
    fun mod permName perm =>
      let (ok, database) := s.database.grant mod perm
      (some (if ok then ascii "\x7b\"granted\":true\x7d" else ascii "\x7b\"granted\":false\x7d"),
        { s with
          database := database
          auditFile := auditLog dev mod (ascii "GRANT:" ++ permName) ok s.auditFile })

/-- `RevokePermission`. -/
def handleRevokePermission (body : List UInt8) : Reply :=
  withPermission s body (ascii "\x7b\"revoked\":false\x7d") (ascii "\x7b\"revoked\":false\x7d")
    fun mod permName perm =>
      let (ok, database) := s.database.revoke mod perm
      (some (if ok then ascii "\x7b\"revoked\":true\x7d" else ascii "\x7b\"revoked\":false\x7d"),
        { s with
          database := database
          auditFile := auditLog dev mod (ascii "REVOKE:" ++ permName) ok s.auditFile })

/-- `GetRiskScore`. -/
def handleGetRiskScore (body : List UInt8) : Reply :=
  match findModule body s.modules with
  | none => (some (ascii "\x7b\"error\":\"not_found\"\x7d"), s)
  | some m =>
      let score := calculate m.manifest
      (some (ascii "\x7b\"module\":\"" ++ jsonEscape body ++ ascii "\",\"risk\":" ++
        Json.decimal score ++ ascii ",\"level\":\"" ++ ascii (levelForScore score) ++
        ascii "\"\x7d"), s)

/-- `GetAuditLog`. -/
def handleGetAuditLog : Reply :=
  (makeAuditArray fl ((getlines s.auditFile).flatMap fun line => line ++ ascii "\n"), s)

/-- A request type outside the enumeration. -/
def handleUnknown : Reply :=
  (makeErrorResponse fl (ascii "unknown_request_type") (ascii "unrecognized type byte"), s)

/-- The switch over the request type. -/
def serve (type : Option RequestType) (body : List UInt8) : Reply :=
  match type with
  | some .getCapability => handleGetCapability fl dev s
  | some .getProvider => handleGetProvider fl dev s
  | some .execute => handleExecute fl dev s body
  | some .ping => handlePing fl dev s
  | some .getCapabilityMatrix => handleGetCapabilityMatrix dev s
  | some .installModule => handleInstallModule s body
  | some .removeModule => handleRemoveModule s body
  | some .startModule => handleStartModule s body
  | some .stopModule => handleStopModule s body
  | some .listModules => handleListModules s
  | some .queryPermission => handleQueryPermission dev s body
  | some .grantPermission => handleGrantPermission dev s body
  | some .revokePermission => handleRevokePermission dev s body
  | some .getRiskScore => handleGetRiskScore s body
  | some .getAuditLog => handleGetAuditLog fl s
  | none => handleUnknown fl s

/-- The handler: the response echoes the first byte of the request. -/
def handler (req : List UInt8) : Reply :=
  match req with
  | [] => (some [], s)
  | type :: body =>
      let (text, s') := serve fl dev s (RequestType.ofByte type) body
      (text.map (type :: ·), s')

end Handler

end AstraVeil.Daemon
