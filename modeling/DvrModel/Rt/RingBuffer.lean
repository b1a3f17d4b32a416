import DvrModel.Lib.Block

-- The ring buffer of the device drivers. The indices stay below the size, which is a positive `rt_int32_t`,
-- so that none of the operations on them overflows.
namespace Rt

-- `RT_ALIGN_SIZE` and `RT_ALIGN_DOWN`, for the alignments that are powers of two.
def alignSize : Nat := 8

def alignDown (size align : Nat) : Nat := size / align * align

-- Copies into a buffer and out of it.
def memcpy (dst : Nat → UInt8) (off : Nat) : List UInt8 → Nat → UInt8
  | []         => dst
  | byte :: bs => memcpy (Function.update dst off byte) (off + 1) bs

def bytesAt (src : Nat → UInt8) (off length : Nat) : List UInt8 :=
  (List.range length).map fun i => src (off + i)

structure RingBuffer where
  buf         : Nat → UInt8
  readMirror  : Bool
  readIndex   : Nat
  writeMirror : Bool
  writeIndex  : Nat
  bufferSize  : Nat

inductive RingBufferState
  | empty
  | full
  | halffull

namespace RingBuffer

def status (rb : RingBuffer) : RingBufferState :=
  if rb.readIndex = rb.writeIndex then
    if rb.readMirror = rb.writeMirror then .empty else .full
  else
    .halffull

def init (pool : Nat → UInt8) (size : Nat) : RingBuffer where
  buf         := pool
  readMirror  := false
  readIndex   := 0
  writeMirror := false
  writeIndex  := 0
  bufferSize  := alignDown size alignSize

def reset (rb : RingBuffer) : RingBuffer :=
  { rb with readMirror := false, readIndex := 0, writeMirror := false, writeIndex := 0 }

def dataLen (rb : RingBuffer) : Nat :=
  match rb.status with
  | .empty    => 0
  | .full     => rb.bufferSize
  | .halffull =>
    if rb.writeIndex > rb.readIndex
    then rb.writeIndex - rb.readIndex
    else rb.bufferSize - (rb.readIndex - rb.writeIndex)

def spaceLen (rb : RingBuffer) : Nat :=
  rb.bufferSize - rb.dataLen

-- The copy and the new write index, which `rt_ringbuffer_put` and `rt_ringbuffer_put_force` have in common.
def copyIn (rb : RingBuffer) (data : List UInt8) : RingBuffer :=
  if rb.bufferSize - rb.writeIndex > data.length then
    { rb with
      buf        := memcpy rb.buf rb.writeIndex data
      writeIndex := rb.writeIndex + data.length }
  else
    { rb with
      buf         := memcpy (memcpy rb.buf rb.writeIndex (data.take (rb.bufferSize - rb.writeIndex))) 0
        (data.drop (rb.bufferSize - rb.writeIndex))
      writeMirror := !rb.writeMirror
      writeIndex  := data.length - (rb.bufferSize - rb.writeIndex) }

-- Data that does not fit is dropped.
def put (rb : RingBuffer) (data : List UInt8) : RingBuffer × Nat :=
  if rb.spaceLen = 0
  then (rb, 0)
  else (rb.copyIn (data.take rb.spaceLen), min rb.spaceLen data.length)

-- The end of `rt_ringbuffer_put_force`: when there has not been enough space for the `length` bytes, the
-- oldest data is given up. `before` is the buffer as it has been before the copy.
def giveUp (before rb : RingBuffer) (length : Nat) : RingBuffer :=
  if length > before.spaceLen then
    if before.bufferSize - before.writeIndex > length then
      { rb with readIndex := rb.writeIndex }
    else if rb.writeIndex ≤ rb.readIndex then
      { rb with readMirror := !rb.readMirror, readIndex := rb.writeIndex }
    else
      { rb with readIndex := rb.writeIndex }
  else
    rb

def putForce (rb : RingBuffer) (data : List UInt8) : RingBuffer × Nat :=
  let data := if data.length > rb.bufferSize then data.drop (data.length - rb.bufferSize) else data
  (rb.giveUp (rb.copyIn data) data.length, data.length)

def get (rb : RingBuffer) (length : Nat) : RingBuffer × List UInt8 :=
  if rb.dataLen = 0 then
    (rb, [])
  else
    let length := min rb.dataLen length
    if rb.bufferSize - rb.readIndex > length then
      ({ rb with readIndex := rb.readIndex + length }, bytesAt rb.buf rb.readIndex length)
    else
      ({ rb with
        readMirror := !rb.readMirror
        readIndex  := length - (rb.bufferSize - rb.readIndex) },
      bytesAt rb.buf rb.readIndex (rb.bufferSize - rb.readIndex) ++
        bytesAt rb.buf 0 (length - (rb.bufferSize - rb.readIndex)))

-- The bytes that `*ptr` points to, as many as the function returns.
def peek (rb : RingBuffer) : RingBuffer × List UInt8 :=
  if rb.dataLen = 0 then
    (rb, [])
  else if rb.bufferSize - rb.readIndex > rb.dataLen then
    ({ rb with readIndex := rb.readIndex + rb.dataLen }, bytesAt rb.buf rb.readIndex rb.dataLen)
  else
    ({ rb with readMirror := !rb.readMirror, readIndex := 0 },
      bytesAt rb.buf rb.readIndex (rb.bufferSize - rb.readIndex))

-- The write index after one byte more.
def advanceWrite (rb : RingBuffer) : RingBuffer :=
  if rb.writeIndex = rb.bufferSize - 1
  then { rb with writeMirror := !rb.writeMirror, writeIndex := 0 }
  else { rb with writeIndex := rb.writeIndex + 1 }

def putchar (rb : RingBuffer) (ch : UInt8) : RingBuffer × Nat :=
  if rb.spaceLen = 0
  then (rb, 0)
  else ({ rb with buf := Function.update rb.buf rb.writeIndex ch }.advanceWrite, 1)

def putcharForce (rb : RingBuffer) (ch : UInt8) : RingBuffer × Nat :=
  let rb' := { rb with buf := Function.update rb.buf rb.writeIndex ch }.advanceWrite
  match rb.status with
  | .full =>
    if rb.writeIndex = rb.bufferSize - 1
    then ({ rb' with readMirror := !rb'.readMirror, readIndex := rb'.writeIndex }, 1)
    else ({ rb' with readIndex := rb'.writeIndex }, 1)
  | _     => (rb', 1)

-- The byte, if the function returns 1.
def getchar (rb : RingBuffer) : RingBuffer × List UInt8 :=
  if rb.dataLen = 0 then
    (rb, [])
  else if rb.readIndex = rb.bufferSize - 1 then
    ({ rb with readMirror := !rb.readMirror, readIndex := 0 }, [rb.buf rb.readIndex])
  else
    ({ rb with readIndex := rb.readIndex + 1 }, [rb.buf rb.readIndex])

-- The operations, and what they return.
inductive Op
  | put (data : List UInt8)
  | putForce (data : List UInt8)
  | get (length : Nat)
  | peek
  | putchar (ch : UInt8)
  | putcharForce (ch : UInt8)
  | getchar
  | dataLen
  | reset

inductive Reply
  | size (n : Nat)
  | data (bs : List UInt8)
  | done

def act (rb : RingBuffer) : Op → RingBuffer × Reply
  | .put data        => ((rb.put data).1, .size (rb.put data).2)
  | .putForce data   => ((rb.putForce data).1, .size (rb.putForce data).2)
  | .get length      => ((rb.get length).1, .data (rb.get length).2)
  | .peek            => (rb.peek.1, .data rb.peek.2)
  | .putchar ch      => ((rb.putchar ch).1, .size (rb.putchar ch).2)
  | .putcharForce ch => ((rb.putcharForce ch).1, .size (rb.putcharForce ch).2)
  | .getchar         => (rb.getchar.1, .data rb.getchar.2)
  | .dataLen         => (rb, .size rb.dataLen)
  | .reset           => (rb.reset, .done)

def run (rb : RingBuffer) : List Op → RingBuffer × List Reply
  | []        => (rb, [])
  | op :: ops => ((run (rb.act op).1 ops).1, (rb.act op).2 :: (run (rb.act op).1 ops).2)

end RingBuffer

-- What the ring buffer is for: a queue of at most `cap` bytes. `peek` hands out some bytes from its front, at
-- least one if there is one.
namespace Queue

inductive Step (cap : Nat) (q : List UInt8) : RingBuffer.Op → RingBuffer.Reply → List UInt8 → Prop
  | put (data) : Step cap q (.put data) (.size (min (cap - q.length) data.length))
      (q ++ data.take (cap - q.length))
  | putForce (data) : Step cap q (.putForce data) (.size (min data.length cap))
      (Circular.latest cap (q ++ data))
  | get (length) : Step cap q (.get length) (.data (q.take length)) (q.drop length)
  | peek (n) (h : q ≠ [] → 0 < n) : Step cap q .peek (.data (q.take n)) (q.drop n)
  | putchar (ch) : Step cap q (.putchar ch) (.size (min (cap - q.length) 1)) (q ++ [ch].take (cap - q.length))
  | putcharForce (ch) : Step cap q (.putcharForce ch) (.size 1) (Circular.latest cap (q ++ [ch]))
  | getchar : Step cap q .getchar (.data (q.take 1)) (q.drop 1)
  | dataLen : Step cap q .dataLen (.size q.length) q
  | reset : Step cap q .reset .done []

inductive Steps (cap : Nat) : List UInt8 → List RingBuffer.Op → List RingBuffer.Reply → List UInt8 → Prop
  | nil {q} : Steps cap q [] [] q
  | cons {q q₁ q₂ op ops reply replies} :
    Step cap q op reply q₁ → Steps cap q₁ ops replies q₂ → Steps cap q (op :: ops) (reply :: replies) q₂

end Queue

end Rt
