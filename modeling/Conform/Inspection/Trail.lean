/-
  Conform.Inspection.Trail

  Inspections move along one location: they step down before a member and back
  up after it. A violation leaves the location where it was found. On the way
  they report events, as guarded calls do.
-/

import Conform.Inspection.Violation

namespace Conform

/-! ## Events -/

/-- How important an event is. -/
inductive Level where
  | trace
  | debug
  | warn
deriving Repr, DecidableEq

namespace Level

/-- The name of a level. -/
def name : Level → String
  | trace => "TRACE"
  | debug => "DEBUG"
  | warn => "WARN"

end Level

/-- Something worth a line in a log. -/
inductive Event where
  /-- Some member of the container at a location failed the test of tags. -/
  | batchRejected (location : Location)
  /-- The schemas of a callable are made. -/
  | schemasMade (callable : String) (annotations : Nat) (declaresResult : Bool)
  /-- The guard is off, so arguments are not checked. -/
  | argumentsSkipped (callable : String)
  /-- The guard is off, so the result is not checked. -/
  | resultSkipped (callable : String)
  /-- A violation that does not stop the call. -/
  | violation (callable : String) (v : Violation)
deriving Repr, DecidableEq

namespace Event

/-- The level of an event. -/
def level : Event → Level
  | batchRejected _ => .trace
  | schemasMade .. | argumentsSkipped _ | resultSkipped _ => .debug
  | violation .. => .warn

/-- The text of an event. -/
def message : Event → String
  | batchRejected _ => "batch check rejected members, checking each"
  | schemasMade .. => "compiling descriptors"
  | argumentsSkipped _ => "enforcement disabled, skipping arguments"
  | resultSkipped _ => "enforcement disabled, skipping return"
  | violation _ v => v.message

end Event

/-! ## Trails -/

/-- What an inspection carries along: where it is and the events so far. -/
structure Trail where
  location : Location
  events : List Event
deriving Repr, DecidableEq

namespace Trail

/-- The trail at the start of an inspection. -/
def start (location : Location) : Trail := ⟨location, []⟩

/-- Steps down to a member. -/
def down (t : Trail) (s : Step) : Trail := { t with location := t.location.down s }

/-- Steps back up. -/
def up (t : Trail) : Trail := { t with location := t.location.up }

/-- Goes back up to a depth. -/
def upTo (t : Trail) (depth : Nat) : Trail := { t with location := t.location.upTo depth }

/-- Adds an event. -/
def log (t : Trail) (e : Event) : Trail := { t with events := t.events ++ [e] }

end Trail

/-- An inspection that moves along a trail and may stop with a violation. -/
abbrev Inspector (α : Type) := EStateM Violation Trail α

/-- What an inspection comes to: accepted or stopped, and the trail it left. -/
abbrev Verdict := EStateM.Result Violation Trail Unit

namespace Inspector

/-- Stops at the current location. -/
def stop {α : Type} (s : Schema) (value : Value) (cause : ViolationCause) : Inspector α :=
  fun t => .error (.located t.location s value cause) t

/-- Runs the inspection of a member, one step down. -/
def below (step : Step) (member : Inspector Unit) : Inspector Unit := fun t =>
  match member (t.down step) with
  | .ok () t => .ok () t.up
  | .error v t => .error v t

end Inspector

end Conform
