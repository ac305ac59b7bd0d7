import I8086.Cpu
import I8086.Record

/-!
# Host handlers and the interrupt bus

A handler serves interrupts on the host's side. It may change the processor state and the world,
which is all that lies outside the machine: consoles, keys waiting to be read. The bus maps ranges
of vectors to handlers; where ranges overlap, the earliest registration keeps its vectors.
-/

namespace I8086

/-- What a handler did with an interrupt. -/
inductive Service where
  /-- The request was served. -/
  | done
  /-- The handler has no function with this number. -/
  | unimplemented (function : Byte)
  /-- The program asked to end with this code. -/
  | terminate (code : Byte)
deriving DecidableEq

/-- A handler's answer: its service, or the fault that it has given up with, and the states that it
leaves in either case. -/
structure Reply (World : Type) where
  service : Except Fault Service
  cpu : Cpu
  world : World

/-- A host-side implementation of one or more interrupts. `records` tells what serving an
interrupt adds to the log. -/
structure Handler (World : Type) where
  name : String
  serve : Byte → Cpu → World → Reply World
  records : Byte → Cpu → List Record := fun _ _ => []

/-- A handler that leaves a mark in AL and gives the same answer to every request. -/
def Handler.fixed {World : Type} (name : String) (mark : Byte) (service : Service) :
    Handler World where
  name
  serve _ c world := ⟨.ok service, c.setLow .ax mark, world⟩

/-- A range of vectors and what they are mapped to. A range whose ends are in the wrong order is
empty. -/
structure Registration (α : Type) where
  first : Byte
  last : Byte
  target : α

/-- Whether a registered range contains a vector. -/
def Registration.claims {α : Type} (r : Registration α) (vector : Byte) : Bool :=
  r.first ≤ vector && vector ≤ r.last

/-- The registrations, the earliest first. -/
structure Bus (α : Type) where
  registrations : List (Registration α)

namespace Bus

variable {α : Type}

/-- A bus without registrations. -/
def empty : Bus α := ⟨[]⟩

/-- Adds a registration, which takes the vectors that no earlier one has. -/
def register (b : Bus α) (r : Registration α) : Bus α := ⟨b.registrations ++ [r]⟩

/-- What a vector is mapped to. -/
def target? (b : Bus α) (vector : Byte) : Option α :=
  (b.registrations.find? (·.claims vector)).map (·.target)

/-- Whether a vector is mapped to anything. -/
def claimed (b : Bus α) (vector : Byte) : Bool := b.registrations.any (·.claims vector)

/-- Whether a new range contains a vector that is already mapped. -/
def overlaps (b : Bus α) (r : Registration α) : Bool :=
  (List.range 256).any fun v => r.claims (BitVec.ofNat 8 v) && b.claimed (BitVec.ofNat 8 v)

end Bus

end I8086
