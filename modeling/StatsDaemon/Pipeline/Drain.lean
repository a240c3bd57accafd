import StatsDaemon.Pipeline.Intake

namespace StatsDaemon.Pipeline

structure Drain where
  delivery : Delivery Binary64
  client : Telemetry.Client
  capacity : Nat
  packets : List (List UInt8) := []

namespace Drain

def emit (d : Drain) (line : String) : Drain :=
  if d.packets.length < d.capacity then { d with packets := d.packets ++ [line.toUTF8.toList] }
  else d

-- Takes one packet out and handles it; the lines are those of a client that sends everything.
def step (d : Drain) (now : Nat) : Drain :=
  match d.packets with
  | [] => d
  | packet :: rest =>
    let (delivery, measurements) := Intake.receiveOwn d.delivery packet now
    (d.client.lines measurements).foldl emit { d with delivery, packets := rest }

def after (d : Drain) (times : List Nat) : Drain :=
  times.foldl step d

end Drain

end StatsDaemon.Pipeline
