import StatsDaemon.Config.Backends

namespace StatsDaemon.Config

inductive Mode where
  | udp
  | tcp
  deriving DecidableEq, Repr

namespace Mode

def name : Mode → String
  | .udp => "udp"
  | .tcp => "tcp"

def ofName? (name : String) : Option Mode :=
  if name = "udp" then some .udp
  else if name = "tcp" then some .tcp
  else none

theorem ofName_name (m : Mode) : ofName? m.name = some m := by
  cases m <;> rfl

end Mode

structure Receiver where
  mode : Mode := .udp
  bind : Net.SocketAddress := { ip := .v4 [0, 0, 0, 0], port := 8125 }
  maxReaders : Nat
  batchSize : Nat := 50
  -- Whether each reader has a socket of its own.
  socketPerReader : Bool := false
  maxPacketSize : Nat := 65535
  maxLineLength : Nat := 65536
  maxParsers : Nat
  parserQueueSize : Nat := 1000
  deriving DecidableEq

namespace Receiver

open Document

def default (processors : Nat) : Receiver :=
  { maxReaders := min processors 8, maxParsers := processors }

-- Bytes read of a datagram: one more than allowed, to tell a longer one.
def readSize (r : Receiver) : Nat :=
  r.maxPacketSize + 1

def fieldNames : List String :=
  ["mode", "bind", "max_readers", "receive_batch_size", "conn_per_reader", "max_packet_size",
    "max_line_length", "max_parsers", "parser_queue_size"]

def ofDocument? {δ : Type} [Document δ] (processors : Nat) (d : δ) : Option Receiver := do
  let [mode, bind, maxReaders, batchSize, socketPerReader, maxPacketSize, maxLineLength,
    maxParsers, parserQueueSize] ← record? fieldNames d | none
  let default := default processors
  some
    { mode := ← orElse default.mode (choose? Mode.ofName?) mode
      bind := ← orElse default.bind socket? bind
      maxReaders := ← orElse default.maxReaders natural? maxReaders
      batchSize := ← orElse default.batchSize natural? batchSize
      socketPerReader := ← orElse default.socketPerReader flag? socketPerReader
      maxPacketSize := ← orElse default.maxPacketSize natural? maxPacketSize
      maxLineLength := ← orElse default.maxLineLength natural? maxLineLength
      maxParsers := ← orElse default.maxParsers natural? maxParsers
      parserQueueSize := ← orElse default.parserQueueSize natural? parserQueueSize }

def toJson (r : Receiver) : Json :=
  .obj
    [("mode", .str r.mode.name),
      ("bind", .str r.bind.text),
      ("max_readers", .ofNat r.maxReaders),
      ("receive_batch_size", .ofNat r.batchSize),
      ("conn_per_reader", .bool r.socketPerReader),
      ("max_packet_size", .ofNat r.maxPacketSize),
      ("max_line_length", .ofNat r.maxLineLength),
      ("max_parsers", .ofNat r.maxParsers),
      ("parser_queue_size", .ofNat r.parserQueueSize)]

end Receiver

end StatsDaemon.Config
