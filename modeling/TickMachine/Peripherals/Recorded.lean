import TickMachine.Peripherals

/-!
# Recorded peripherals

Peripherals that pass everything on to others and keep a list of what they were asked and told.
The fixed-point requests have no effect and are not kept.
-/

namespace TickMachine

inductive Call where
  | frameStart
  | frameEnd
  | request (r : Request)
  deriving DecidableEq, Repr

/-- Whether a request can be told from its effect on the world. -/
def Request.observable : Request → Bool
  | .sin _ | .cos _ | .mul .. => false
  | _ => true

structure Recorded (σ : Type) where
  inner : σ
  calls : Array Call := #[]

namespace Recorded

variable {σ : Type}

def push (s : Recorded σ) (c : Call) : Recorded σ := { s with calls := s.calls.push c }

def clear (s : Recorded σ) : Recorded σ := { s with calls := #[] }

def peripherals (p : Peripherals σ) : Peripherals (Recorded σ) where
  answer r s :=
    let (v, inner) := p.answer r s.inner
    let s := { s with inner := inner }
    (v, if r.observable then s.push (.request r) else s)
  frameStart s := { s with inner := p.frameStart s.inner }.push .frameStart
  frameEnd s := { s with inner := p.frameEnd s.inner }.push .frameEnd

end Recorded
end TickMachine
