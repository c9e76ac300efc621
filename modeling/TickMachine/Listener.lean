import TickMachine.Link

/-!
# Listeners

A listener holds a TCP socket and waits for one debugger at a time.  While nobody is connected
nothing comes in and nothing can be sent.
-/

namespace TickMachine

/-- The sockets of the machine's surroundings, by number. -/
structure Sockets where
  taken : Nat → Bool
  /-- The socket handed out when none is asked for. -/
  spare : Nat

inductive ListenError where
  | addressInUse (socket : Nat)
  deriving DecidableEq, Repr

def ListenError.message : ListenError → String
  | .addressInUse _ => "Address already in use (os error 98)"

structure Listener where
  socket : Nat
  /-- The link to the debugger that is connected. -/
  client : Option Link := none
  deriving DecidableEq, Repr

namespace Listener

/-- The socket listened on when none is named. -/
def defaultSocket : Nat := 5000

/-- Listen on a socket; number 0 asks for any. -/
def bind (sockets : Sockets) (socket : Nat) : Except ListenError Listener :=
  if socket = 0 then .ok { socket := sockets.spare }
  else if sockets.taken socket then .error (.addressInUse socket)
  else .ok { socket := socket }

def isConnected (l : Listener) : Bool := l.client.isSome

def link (l : Listener) : Link := l.client.getD .unattended

def occupy (l : Listener) (sockets : Sockets) : Sockets :=
  { sockets with taken := fun socket => socket == l.socket || sockets.taken socket }

end Listener
end TickMachine
