import AssetGroups.Json.Decoder

/-!
Notifications about changed groups. A feed keeps everything that was published; a receiver that falls
further behind than the window is told how many events it lost.
-/

namespace AssetGroups

open Json

inductive EventSubject where
  | created
  | updated
  | deleted
deriving DecidableEq, Repr

namespace EventSubject

def text : EventSubject → String
  | .created => "CREATED"
  | .updated => "UPDATED"
  | .deleted => "DELETED"

def ofText? (s : String) : Option EventSubject :=
  ([.created, .updated, .deleted] : List EventSubject).find? (·.text == s)

def decoder : Decoder EventSubject := .named ofText?

end EventSubject

structure Event where
  subject : EventSubject
  id : Nat
deriving DecidableEq, Repr

namespace Event

def toJson (e : Event) : Value := .object [("subject", .string e.subject.text), ("id", .nat e.id)]

def decoder : Decoder Event :=
  .record ⟨.created, 0⟩ [
    .needed "subject" EventSubject.decoder fun v e => { e with subject := v },
    .needed "id" .word fun v e => { e with id := v }]

end Event

/-- What was published, oldest first, and for each receiver how much of it is behind it. -/
structure Feed where
  published : List Event := []
  receivers : List Nat := []
deriving Repr

/-- What a receiver finds: the number of events that it lost, if any, and the events that are left. -/
structure Delivery where
  lagged : Option Nat
  events : List Event
deriving DecidableEq, Repr

namespace Feed

/-- How many events are kept for a receiver. -/
def window : Nat := 256

def publish (e : Event) (f : Feed) : Feed := { f with published := f.published ++ [e] }

def publishAll (es : List Event) (f : Feed) : Feed := { f with published := f.published ++ es }

/-- A new receiver and its number; it sees what is published from now on. -/
def subscribe (f : Feed) : Nat × Feed :=
  (f.receivers.length, { f with receivers := f.receivers ++ [f.published.length] })

def drain (receiver : Nat) (f : Feed) : Delivery × Feed :=
  let waiting := f.published.drop (f.receivers.getD receiver f.published.length)
  let lost := waiting.length - window
  (⟨if lost = 0 then none else some lost, waiting.drop lost⟩,
    { f with receivers := f.receivers.set receiver f.published.length })

end Feed

end AssetGroups
