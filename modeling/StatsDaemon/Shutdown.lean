namespace StatsDaemon

inductive ShutdownMode where
  | graceful
  | immediate
  deriving DecidableEq, Repr

-- What services are told. The time limit is in milliseconds.
structure Shutdown where
  timeout : Option Nat
  deriving DecidableEq, Repr

structure Controller where
  timeout : Nat
  requested : Option Shutdown := none

namespace Controller

def shutdown (c : Controller) (mode : ShutdownMode) : Controller :=
  { c with
    requested := some <| match mode with
      | .graceful => ⟨some c.timeout⟩
      | .immediate => ⟨none⟩ }

end Controller

inductive Signal where
  | interrupt
  | quit
  | terminate
  deriving DecidableEq, Repr

def Signal.mode : Signal → ShutdownMode
  | .interrupt | .terminate => .graceful
  | .quit => .immediate

end StatsDaemon
