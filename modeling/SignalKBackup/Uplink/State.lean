import Mathlib.Data.List.Basic

/-!
# Uplink states

The values of `network.internet.state` the backup server knows, and the deltas they arrive in.
-/

namespace SignalKBackup
namespace Uplink

/-- The link states signalk-internet publishes. -/
inductive Link
  | online
  | metered
  | captive
  | offline
  deriving DecidableEq, Repr

/-- `UplinkState`: a known link state, or `none` for the source's `null`. -/
abbrev UplinkState := Option Link

/-- A published JavaScript value, as far as the reporter looks at it. -/
inductive Value
  | undefined
  | null
  | string (s : String)
  | other
  deriving DecidableEq, Repr

def Link.name : Link → String
  | .online => "online"
  | .metered => "metered"
  | .captive => "captive"
  | .offline => "offline"

def KNOWN_STATES : List Link :=
  [.online, .metered, .captive, .offline]

/-- One of the states the backup server knows, or null for anything else. -/
def toUplinkState : Value → UplinkState
  | .string s => KNOWN_STATES.find? fun l => l.name == s
  | _ => none

def UPLINK_PATH : String := "network.internet.state"

/-- `UPLINK_RESEND_MS`, in milliseconds. -/
def UPLINK_RESEND_MS : Nat := 2 * 60000

/-- `FIRST_STATE_WAIT_MS`, in milliseconds. -/
def FIRST_STATE_WAIT_MS : Nat := 60000

structure PathValue where
  path : String
  value : Value
  deriving DecidableEq, Repr

/-- One update of a delta; only those that carry `values` are read. -/
inductive Update
  | values (vs : List PathValue)
  | withoutValues
  deriving DecidableEq, Repr

abbrev Delta := List Update

/-- An entry of the server's plugin list. -/
structure PluginListEntry where
  id : String
  enabled : Bool
  deriving DecidableEq, Repr

def SIGNALK_INTERNET_PLUGIN_ID : String := "signalk-internet"

/-- What `getPluginsList()` settles with; `none` when it rejects. -/
abbrev PluginsAnswer := Option (List PluginListEntry)

/-- `publisherEnabled` once the plugin list has answered. -/
def publisherEnabled : PluginsAnswer → Bool
  | some plugins => plugins.any fun p => p.id == SIGNALK_INTERNET_PLUGIN_ID && p.enabled
  | none => false

end Uplink
end SignalKBackup
