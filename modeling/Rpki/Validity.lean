import Rpki.Time.Generalized

/-!
# Validity windows

The update interval of a manifest, from `thisUpdate` to `nextUpdate`, and where a given time lies
with regard to it.  An interval that ends before it starts is never a window, whatever the time.

The time asked about is truncated and the ends of the window are taken as they are.  For a window
read from GeneralizedTimes, whose ends are whole seconds, that makes both ends inclusive.
-/

set_option autoImplicit false

namespace Rpki

/-- What is wrong with the times of a window. -/
inductive MalformedTime
  /-- One of the times is not a time. -/
  | format
  /-- The window ends before it starts. -/
  | interval
deriving DecidableEq

namespace MalformedTime

/-- The text of the error. -/
def message : MalformedTime → String
  | format => "embedded time format invalid"
  | interval => "bad update interval"

end MalformedTime

/-- Where a time lies with regard to a window. -/
inductive Verdict
  /-- Before its start. -/
  | tooEarly
  /-- After its end. -/
  | stale
  /-- Inside it. -/
  | current
deriving DecidableEq

/-- An update interval. -/
structure ValidityWindow where
  thisUpdate : Time
  nextUpdate : Time
deriving DecidableEq

namespace ValidityWindow

/-- The window between two times, which must not be in the wrong order. -/
def ofTimes (thisUpdate nextUpdate : Time) : Except MalformedTime ValidityWindow :=
  if nextUpdate < thisUpdate then .error .interval else .ok ⟨thisUpdate, nextUpdate⟩

/-- The window between two times given as the content of GeneralizedTimes. -/
def ofGeneralizedTimes (thisUpdate nextUpdate : Octets) : Except MalformedTime ValidityWindow :=
  match GeneralizedTime.read? thisUpdate, GeneralizedTime.read? nextUpdate with
  | some a, some b => ofTimes a b
  | _, _ => .error .format

/-- Where `now` lies with regard to the window. -/
def check (w : ValidityWindow) (now : Time) : Verdict :=
  if now.truncated < w.thisUpdate then .tooEarly
  else if w.nextUpdate < now.truncated then .stale
  else .current

end ValidityWindow

/-- Where `now` lies with regard to the window between two GeneralizedTimes. -/
def checkValidity (thisUpdate nextUpdate : Octets) (now : Time) : Except MalformedTime Verdict :=
  (ValidityWindow.ofGeneralizedTimes thisUpdate nextUpdate).map (·.check now)

end Rpki
