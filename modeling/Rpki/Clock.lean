import Std.Time.DateTime.Timestamp
import Rpki.Time.Basic

/-!
# The clock

The one place where the time of day comes from outside.
-/

set_option autoImplicit false

namespace Rpki

/-- The time it is. -/
def Time.now : IO Time := do
  let stamp ← Std.Time.Timestamp.now
  match Time.ofNanos? stamp.toNanosecondsSinceUnixEpoch.val with
  | some t => return t
  | none => throw (IO.userError "the clock is out of range")

end Rpki
