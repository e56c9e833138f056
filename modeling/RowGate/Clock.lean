import RowGate.Value.Order
/-!
A clock that moves only when told to, and never backwards.
-/
namespace RowGate

/-- A clock and the seconds that it shows. -/
structure Clock where
  now : Number

/-- The clock a number of seconds later. -/
def Clock.advance (c : Clock) (seconds : Value) : Except Fault Clock := do
  let s ← seconds.comparable
  if s.less (.int 0) then .error (.badValue (.clockBackwards seconds))
  else return ⟨← Number.lift (c.now.add s)⟩

end RowGate
