import AssetGroups.Rule.Basic

/-!
Kinds of assets and the domains made of them, in which the complement of a condition is taken.
-/

namespace AssetGroups

/-- The broad classes of assets: places; hypervisors, infrastructure services and connectors; virtual
machines; and all the rest. -/
inductive Kind where
  | location
  | device
  | virtualMachine
  | virtualization
deriving DecidableEq, Repr

namespace Kind

def ofType (type : String) : Kind :=
  if ["datacenter", "room", "row", "rack"].contains type then .location
  else if ["virtual-machine", "virtual_machine", "vm"].contains type then .virtualMachine
  else if ["hypervisor", "infra-service", "infra_service", "connector"].contains type then
    .virtualization
  else .device

def text : Kind → String
  | .location => "location"
  | .device => "device"
  | .virtualMachine => "virtual-machine"
  | .virtualization => "virtualization"

end Kind

inductive Domain where
  | all
  | nonLocation
  | devicesAndVms
  | virtualMachines
deriving DecidableEq, Repr

namespace Domain

def contains : Domain → Kind → Bool
  | .all, _ => true
  | .nonLocation, k => k != .location
  | .devicesAndVms, k => k == .device || k == .virtualMachine
  | .virtualMachines, k => k == .virtualMachine

def text : Domain → String
  | .all => "all"
  | .nonLocation => "non-location"
  | .devicesAndVms => "devices-and-vms"
  | .virtualMachines => "virtual-machines"

def every : List Domain := [.all, .nonLocation, .devicesAndVms, .virtualMachines]

def ofText? (s : String) : Option Domain := every.find? (·.text == s)

end Domain

/-- The domain of a negated condition on the field: an asset that cannot have the field does not
answer its negation either. -/
def Field.domain : Field → Domain
  | .internalName | .type | .subtype | .contact => .all
  | .hostName | .ipAddress => .devicesAndVms
  | .hostedBy => .virtualMachines
  | .name | .location | .group | .unknown => .nonLocation

end AssetGroups
