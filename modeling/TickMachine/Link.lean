/-!
# Links

A link carries bytes between a machine and its debugger: a queue of bytes that came in, and the
bytes sent out so far.  A link can break: it then refuses to send.
-/

namespace TickMachine

inductive LinkError where
  | notConnected
  deriving DecidableEq, Repr

def LinkError.message : LinkError → String
  | .notConnected => "no debugger connected"

structure Link where
  incoming : List UInt8 := []
  outgoing : Array UInt8 := #[]
  /-- How many more messages the link will send; without a number there is no end. -/
  budget : Option Nat := none
  deriving DecidableEq, Repr

namespace Link

def unattended : Link := { budget := some 0 }

def push (l : Link) (bytes : List UInt8) : Link := { l with incoming := l.incoming ++ bytes }

def receive? (l : Link) : Option (UInt8 × Link) :=
  match l.incoming with
  | [] => none
  | b :: rest => some (b, { l with incoming := rest })

def send (l : Link) (bytes : List UInt8) : Except LinkError Link :=
  match l.budget with
  | none => .ok { l with outgoing := l.outgoing ++ bytes }
  | some 0 => .error .notConnected
  | some (n + 1) => .ok { l with outgoing := l.outgoing ++ bytes, budget := some n }

def take (l : Link) : List UInt8 × Link := (l.outgoing.toList, { l with outgoing := #[] })

end Link
end TickMachine
