import Liby.Infra.Block
import Liby.Infra.Loop

/-!
# Buffer

`Buffer.h` and `Buffer.cpp`: a block of `capacity_` bytes and a window `[leftIndex_, rightIndex_)`
of it. What `new char[n]` leaves in a block is zero here; it is outside the window.
-/

namespace Liby

open Infra

/-- `class Buffer`. -/
structure Buffer where
  buffer_ : Option Bytes
  leftIndex_ : Nat
  rightIndex_ : Nat
  capacity_ : Nat
  deriving DecidableEq, Repr

namespace Buffer

/-- `new char[n]`. -/
def newBlock (n : Nat) : Bytes := List.replicate n 0

/-- `Buffer()`. -/
def init : Buffer := { buffer_ := none, leftIndex_ := 0, rightIndex_ := 0, capacity_ := 0 }

/-- `Buffer(const off_t)`. -/
def ofLength (length : Nat) : Buffer where
  buffer_ := some (newBlock length)
  leftIndex_ := 0
  rightIndex_ := 0
  capacity_ := length

/-- `Buffer(const char *, off_t)`. -/
def ofBytes (buf : Bytes) : Buffer where
  buffer_ := some buf
  leftIndex_ := 0
  rightIndex_ := buf.length
  capacity_ := buf.length

/-- The block; every function that reaches it has `buffer_` set, or faults. -/
def block (b : Buffer) : Exec Bytes :=
  match b.buffer_ with
  | some block => .ok block
  | none => .error .nullDeref

/-- `size`. -/
def size (b : Buffer) : Exec Nat := do
  guardOr .assertFailed (b.leftIndex_ ≤ b.rightIndex_)
  return b.rightIndex_ - b.leftIndex_

/-- `empty`. -/
def empty (b : Buffer) : Bool := b.leftIndex_ == b.rightIndex_

/-- The bytes from `data()` to `data() + size()`. -/
def data (b : Buffer) : Exec Bytes := do
  guardOr .assertFailed (b.buffer_.isSome ∧ b.leftIndex_ ≤ b.rightIndex_)
  let block ← b.block
  Block.read block b.leftIndex_ (b.rightIndex_ - b.leftIndex_)

/-- `data()` and `data() + size()`, as places in the block. -/
def range (b : Buffer) : Exec (Bytes × Nat × Nat) := do
  guardOr .assertFailed (b.buffer_.isSome ∧ b.leftIndex_ ≤ b.rightIndex_)
  let block ← b.block
  return (block, b.leftIndex_, b.rightIndex_)

/-- `availbleSize`. -/
def availbleSize (b : Buffer) : Exec Nat := do
  guardOr .assertFailed (b.buffer_.isSome ∧ b.leftIndex_ ≤ b.rightIndex_)
  return b.capacity_ - b.rightIndex_

/-- `append(off_t)`: the `n` bytes at `wdata()` now count. -/
def appendLength (b : Buffer) (n : Int) : Exec Buffer := do
  guardOr .assertFailed (0 ≤ n ∧ b.rightIndex_ + n ≤ b.capacity_)
  return { b with rightIndex_ := b.rightIndex_ + n.toNat }

/-- The bytes written at `wdata()` by someone else. -/
def writeAtEnd (b : Buffer) (bytes : Bytes) : Exec Buffer := do
  let block ← b.block
  let block ← Block.write block b.rightIndex_ bytes
  return { b with buffer_ := some block }

/-- `retrieve()`. -/
def clear (b : Buffer) : Buffer := { b with leftIndex_ := 0, rightIndex_ := 0 }

/-- `retrieve(off_t)`. -/
def retrieve (b : Buffer) (len : Int) : Exec Buffer := do
  guardOr .assertFailed (0 ≤ len)
  let size ← b.size
  if size = 0 then return b
  else if size < len then return b.clear
  else return { b with leftIndex_ := b.leftIndex_ + len.toNat }

/-- `forward(0)`: the window moves to the start of the block. -/
def forward (b : Buffer) : Exec Buffer :=
  if b.leftIndex_ = 0 then .ok b
  else do
    let size ← b.size
    let block ← b.block
    let block ← Block.move block 0 b.leftIndex_ size
    return { b with
      buffer_ := some block, leftIndex_ := 0, rightIndex_ := b.rightIndex_ - b.leftIndex_ }

/-- `forward(off_t)`. -/
def forwardBy (b : Buffer) (offset : Int) : Exec Buffer := do
  guardOr .assertFailed (0 ≤ offset)
  let offset := offset.toNat
  if offset = 0 then b.forward
  else if b.rightIndex_ ≤ offset then return { b with leftIndex_ := 0, rightIndex_ := 0 }
  else if offset ≤ b.leftIndex_ then
    let block ← b.block
    let block ← Block.move block (b.leftIndex_ - offset) b.leftIndex_ (b.rightIndex_ - b.leftIndex_)
    return { b with
      buffer_ := some block
      leftIndex_ := b.leftIndex_ - offset
      rightIndex_ := b.rightIndex_ - offset }
  else
    let block ← b.block
    -- the bytes that stay are those from `offset` on, but the copy starts elsewhere
    let block ← Block.move block 0 (b.rightIndex_ - offset) (b.rightIndex_ - offset)
    return { b with
      buffer_ := some block, leftIndex_ := 0, rightIndex_ := b.rightIndex_ - offset }

/-- `backward(off_t)`. -/
def backward (b : Buffer) (offset : Int) : Exec Buffer := do
  guardOr .assertFailed (0 ≤ offset)
  let offset := offset.toNat
  if offset = 0 then
    if b.rightIndex_ = b.capacity_ then return b
    else
      let block ← b.block
      -- as many bytes as there is room behind the window, not as there are in it
      let block ← Block.move block (b.leftIndex_ + (b.capacity_ - b.rightIndex_)) b.leftIndex_
        (b.capacity_ - b.rightIndex_)
      return { b with
        buffer_ := some block
        leftIndex_ := b.leftIndex_ + (b.capacity_ - b.rightIndex_)
        rightIndex_ := b.capacity_ }
  else if b.capacity_ - b.leftIndex_ ≤ offset then
    return { b with leftIndex_ := b.capacity_, rightIndex_ := b.capacity_ }
  else if offset ≤ b.capacity_ - b.rightIndex_ then
    let block ← b.block
    let block ← Block.move block (b.leftIndex_ + offset) b.leftIndex_ (b.rightIndex_ - b.leftIndex_)
    return { b with
      buffer_ := some block
      leftIndex_ := b.leftIndex_ + offset
      rightIndex_ := b.rightIndex_ + offset }
  else
    let block ← b.block
    let block ← Block.move block (b.leftIndex_ + offset) b.leftIndex_
      (b.capacity_ - b.leftIndex_ - offset)
    return { b with
      buffer_ := some block
      -- the number of bytes that stay, where the offset is meant
      leftIndex_ := b.leftIndex_ + (b.capacity_ - b.leftIndex_ - offset)
      rightIndex_ := b.capacity_ }

/-- The `n` bytes at `data()` that a `memcpy` reads. No bytes can be copied from a null pointer. -/
def source (b : Buffer) (n : Nat) : Exec Bytes :=
  if n = 0 then .ok []
  else do
    let block ← b.block
    Block.read block b.leftIndex_ n

/-- `resize`. -/
def resize (b : Buffer) (minSize : Int) : Exec Buffer :=
  if minSize < b.capacity_ then .ok b
  else do
    let size ← b.size
    let bytes ← b.source size
    let newBuffer ← Block.write (newBlock minSize.toNat) b.leftIndex_ bytes
    return { b with buffer_ := some newBuffer, capacity_ := minSize.toNat }

/-- `n << 1` of an `off_t`, whose highest bit is its sign. -/
def shl (n : Int) : Int := (2 * n).bmod (2 ^ 64)

/-- A pass of the loop of `reserve`. -/
def doublingPass (minSize newSize : Int) : Exec (Pass Int Int) :=
  if newSize < minSize then .ok (.next (shl newSize)) else .ok (.done newSize)

/-- The loop of `reserve`. 64 shifts leave zero, which is shifted for ever. -/
def doubled (newSize minSize : Int) : Exec Int :=
  (Loop.passes (doublingPass minSize) 65 newSize).getD (.error .diverges)

/-- `reserve`. -/
def reserve (b : Buffer) (minSize : Int) : Exec Buffer :=
  if minSize < b.capacity_ then .ok b
  else do
    let newSize ← doubled (shl b.capacity_) minSize
    b.resize newSize

/-- No block in memory is longer; a list may be. -/
def maxBlock : Nat := 2 ^ 61

/-- The call of `reserve` by `append`, for bytes that are in memory. There is always room for a list. -/
def grow (b : Buffer) (minSize : Nat) : Exec Buffer :=
  if minSize ≤ maxBlock then b.reserve minSize else b.resize minSize

/-- `safeAppend`. -/
def safeAppend (b : Buffer) (buf : Bytes) : Exec Buffer := do
  let block ← b.block
  let block ← Block.write block b.rightIndex_ buf
  return { b with buffer_ := some block, rightIndex_ := b.rightIndex_ + buf.length }

/-- `append(const char *, off_t)`. -/
def append (b : Buffer) (buf : Bytes) : Exec Buffer := do
  guardOr .assertFailed (0 < buf.length)
  if b.empty then return ofBytes buf
  else do
    let size ← b.size
    let b ←
      if b.rightIndex_ + buf.length ≤ b.capacity_ then pure b
      else if buf.length + size ≤ b.capacity_ then b.forward
      else b.grow (size + buf.length + b.leftIndex_)
    b.safeAppend buf

/-- `append(const std::string &)`, which takes the NUL after the string as well. -/
def appendString (b : Buffer) (str : Bytes) : Exec Buffer := b.append (str ++ [0])

/-- `append(const Buffer &)`, for a `that` which is another buffer. -/
def appendBuffer (b that : Buffer) : Exec Buffer :=
  if that.empty then .ok b
  else do
    let bytes ← that.data
    b.append bytes

/-- `deepCopy`, for a `that` which is another buffer. -/
def deepCopy (b that : Buffer) : Exec Buffer :=
  if that.empty then .ok b.clear
  else do
    let size ← that.size
    let bytes ← that.data
    let block ← Block.write (newBlock size) 0 bytes
    return { buffer_ := some block, leftIndex_ := 0, rightIndex_ := size, capacity_ := size }

/-- `Buffer(const Buffer &)`. -/
def copyConstruct (that : Buffer) : Exec Buffer := init.deepCopy that

/-- `swap`, the two buffers afterwards. -/
def swap (b that : Buffer) : Buffer × Buffer := (that, b)

/-- `safePreappend`: a copy to `data() - len`. -/
def safePreappend (b : Buffer) (buf : Bytes) : Exec Buffer := do
  guardOr .assertFailed (b.buffer_.isSome ∧ b.leftIndex_ ≤ b.rightIndex_)
  let block ← b.block
  guardOr .outOfBounds (buf.length ≤ b.leftIndex_)
  let block ← Block.write block (b.leftIndex_ - buf.length) buf
  return { b with buffer_ := some block, leftIndex_ := b.leftIndex_ - buf.length }

/-- `prepend(const char *, off_t)`. -/
def prepend (b : Buffer) (buf : Bytes) : Exec Buffer := do
  guardOr .assertFailed (0 < buf.length)
  let b ←
    if buf.length ≤ b.leftIndex_ then pure b
    else do
      let size ← b.size
      if buf.length + size ≤ b.capacity_ then b.backward ((buf.length : Int) - b.leftIndex_)
      else do
        let nb ← (ofLength (buf.length + size)).appendBuffer b
        pure (b.swap nb).1
  b.safePreappend buf

/-- `Buffer(Buffer &&)`: the new buffer, and `that` afterwards. -/
def moveConstruct (that : Buffer) : Buffer × Buffer := init.swap that

/-- `std::string ret(data(), len)` and `retrieve(len)`. -/
def takeString (b : Buffer) (len : Nat) : Exec (Bytes × Buffer) := do
  let (block, left, _) ← b.range
  let ret ← Block.read block left len
  let b ← b.retrieve len
  return (ret, b)

/-- `retriveveAsString`. With nothing in the buffer it calls itself for ever. -/
def retriveveAsString (b : Buffer) (len : Int) : Exec (Bytes × Buffer) := do
  guardOr .assertFailed (0 ≤ len)
  let size ← b.size
  if len = 0 ∨ size < len then
    if size = 0 then .error .diverges else b.takeString size
  else b.takeString len.toNat

end Buffer

end Liby
