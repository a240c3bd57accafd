import StatsDaemon.Pipeline.Counts

namespace StatsDaemon.Receiver

inductive Item where
  | line (data : List UInt8)
  | tooLong
  deriving DecidableEq, Repr

-- Of a line over the limit nothing is kept but the fact that there was one.
structure Framing where
  limit : Nat
  buffer : List UInt8 := []
  -- Bytes at the front of the buffer that are known to hold no line break.
  searched : Nat := 0
  -- Whether the rest of an overlong line is being dropped.
  discarding : Bool := false
  deriving DecidableEq

namespace Framing

def lineBreak : UInt8 := 10

def ofLimit (limit : Nat) : Framing :=
  { limit := max limit 1 }

-- Bytes that are looked at: one more than a line may have.
def window (f : Framing) : Nat :=
  min (f.limit + 1) f.buffer.length

def breakAt? (f : Framing) : Option Nat :=
  (((f.buffer.take f.window).drop f.searched).findIdx? (· == lineBreak)).map (f.searched + ·)

def advance (f : Framing) (count : Nat) : Framing :=
  { f with buffer := f.buffer.drop count, searched := 0 }

-- Takes the next item out of the buffer, if there is a whole one. The fuel bounds how often more of
-- an overlong line is dropped.
def nextWith : Nat → Framing → Framing × Option Item
  | 0, f => (f, none)
  | fuel + 1, f =>
    match f.breakAt? with
    | some i =>
      if f.discarding then nextWith fuel { f.advance (i + 1) with discarding := false }
      else (f.advance (i + 1), some (.line (f.buffer.take i)))
    | none =>
      if f.discarding then
        let f := f.advance f.window
        if f.buffer.isEmpty then (f, none) else nextWith fuel f
      else if f.limit < f.buffer.length then ({ f with discarding := true }, some .tooLong)
      else ({ f with searched := f.window }, none)

def next (f : Framing) : Framing × Option Item :=
  f.nextWith (f.buffer.length + 1)

-- The next item at the end of the connection, where the rest is a line if it is not empty.
def nextAtEnd (f : Framing) : Framing × Option Item :=
  match f.next with
  | (f, some item) => (f, some item)
  | (f, none) =>
    if f.buffer.isEmpty then (f, none)
    else (f.advance f.buffer.length, some (.line f.buffer))

def takeAll (take : Framing → Framing × Option Item) : Nat → Framing → Framing × List Item
  | 0, f => (f, [])
  | fuel + 1, f =>
    match take f with
    | (f, some item) =>
      let (f, items) := takeAll take fuel f
      (f, item :: items)
    | (f, none) => (f, [])

-- An item uses a byte up or says that a line is too long, which is said once for a byte at most.
def itemBound (f : Framing) : Nat :=
  2 * f.buffer.length + 2

def read (f : Framing) (chunk : List UInt8) : Framing × List Item :=
  let f := { f with buffer := f.buffer ++ chunk }
  takeAll next f.itemBound f

def finish (f : Framing) : Framing × List Item :=
  takeAll nextAtEnd f.itemBound f

def readAll (limit : Nat) (chunks : List (List UInt8)) : List Item :=
  let (f, items) := chunks.foldl (fun (f, items) chunk =>
    let (f, more) := f.read chunk
    (f, items ++ more)) (ofLimit limit, [])
  items ++ f.finish.2

end Framing

-- Counts an item, and hands a line on. A line counts as a packet, with its line break.
def receiveItem (item : Item) (counts : Pipeline.Counts) :
    Pipeline.Counts × Option (List UInt8) :=
  match item with
  | .line data =>
    ({ counts with packets := counts.packets + 1, bytes := counts.bytes + data.length + 1 },
      some data)
  | .tooLong => ({ counts with truncated := counts.truncated + 1 }, none)

end StatsDaemon.Receiver
