import StatsDaemon.Pipeline.Counts

namespace StatsDaemon.Receiver

-- One byte more than the size limit is read, to tell a longer datagram from one that just fits.
def bufferSize (maxSize : Nat) : Nat :=
  max maxSize 1 + 1

def readDatagram (maxSize : Nat) (data : List UInt8) : List UInt8 :=
  data.take (bufferSize maxSize)

def receiveDatagram (maxSize : Nat) (data : List UInt8) (counts : Pipeline.Counts) :
    Pipeline.Counts × Option (List UInt8) :=
  let read := readDatagram maxSize data
  let counts := { counts with packets := counts.packets + 1, bytes := counts.bytes + read.length }
  if max maxSize 1 < read.length then
    ({ counts with truncated := counts.truncated + 1 }, none)
  else (counts, some read)

end StatsDaemon.Receiver
