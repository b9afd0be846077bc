import AssetGroups.Store.Access

/-!
Instances that share one store file, and what others do to that file.
-/

namespace AssetGroups

/-- An instance: what it knows of the store, and its own feed. -/
structure Instance where
  slot : Slot := {}
  feed : Feed := {}
deriving Repr

/-- An instance that has just been opened, with one receiver of its events. -/
def Instance.opened : Instance := { feed := (Feed.subscribe {}).2 }

structure Cluster where
  disk : Disk := {}
  instances : List Instance := []
deriving Repr

namespace Cluster

/-- So many instances that have just been opened on a disk. -/
def opened (n : Nat) (disk : Disk := {}) : Cluster := { disk, instances := List.replicate n .opened }

def instanceAt (c : Cluster) (i : Nat) : Instance := c.instances.getD i .opened

def site (c : Cluster) (i : Nat) : Site :=
  let n := c.instanceAt i
  ⟨n.slot, n.feed, c.disk⟩

def setSite (c : Cluster) (i : Nat) (s : Site) : Cluster :=
  ⟨s.disk, c.instances.set i ⟨s.slot, s.feed⟩⟩

def run {α : Type} (c : Cluster) (i : Nat) (script : Script Site α) : α × Cluster :=
  let (a, s) := script.run (c.site i)
  (a, c.setSite i s)

/-- Opens one more instance. -/
def join (c : Cluster) : Cluster := { c with instances := c.instances ++ [.opened] }

/-- Puts a new instance in the place of one. -/
def reopen (c : Cluster) (i : Nat) : Cluster := { c with instances := c.instances.set i .opened }

/-- Hands over the events that wait for the first receiver of an instance. -/
def drain (c : Cluster) (i : Nat) : Delivery × Cluster :=
  let n := c.instanceAt i
  let (delivery, feed) := n.feed.drain 0
  (delivery, { c with instances := c.instances.set i { n with feed } })

/-! ## Behind the back of all instances -/

def place (c : Cluster) (e : Entry) : Cluster := { c with disk := { c.disk with store := e } }

/-- Writes the store file, unless a folder stands in its place. -/
def writeFile (c : Cluster) (octets : List UInt8) : Cluster :=
  if c.disk.store = .folder then c else c.place (.file octets)

/-- Removes the store file, but not a folder that stands in its place. -/
def removeFile (c : Cluster) : Cluster := if c.disk.store = .folder then c else c.place .missing

def block (c : Cluster) : Cluster := c.place .folder

/-- Removes the folder that stands in the place of the store file, if there is one. -/
def unblock (c : Cluster) : Cluster := if c.disk.store = .folder then c.place .missing else c

end Cluster

end AssetGroups
