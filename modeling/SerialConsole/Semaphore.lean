/-!
# Binary semaphores

A binary semaphore holds one token or none.  Releasing it makes the token available, and releasing
it again changes nothing; taking the token leaves none.

    s.release.release = s.release              (release_release)
    s.release.acquire? = some drained          (acquire?_release)
    drained.acquire? = none                    (acquire?_drained)
-/

namespace SerialConsole

/-- One token at most. -/
structure Semaphore where
  /-- The token is there. -/
  available : Bool
  deriving Repr, DecidableEq

namespace Semaphore

/-- A semaphore without its token. -/
def drained : Semaphore := ⟨false⟩

/-- Makes the token available. -/
def release (_ : Semaphore) : Semaphore := ⟨true⟩

/-- Takes the token; `none` if there is none, so that a taker would have to wait. -/
def acquire? (s : Semaphore) : Option Semaphore := if s.available then some drained else none

@[simp] theorem release_release (s : Semaphore) : s.release.release = s.release := rfl

@[simp] theorem acquire?_release (s : Semaphore) : s.release.acquire? = some drained := rfl

@[simp] theorem acquire?_drained : drained.acquire? = none := rfl

end Semaphore

end SerialConsole
