import TwinHeap.Fault

/-! How large an array can be. Whether the machine has the memory for it is not asked here. -/
namespace TwinHeap.Capacity

/-- No array takes up this many bytes. -/
def byteLimit : Nat := UInt64.size / 2

/-- The number of bytes that a program can address, which is 2^47. -/
def addressLimit : Nat := 140737488355328

/-- Asks for an array of `count` items, of `width` bytes each, that the caller can do without. -/
def reserve (count width : Nat) : Except Fault Unit :=
  if count * width < addressLimit then .ok ()
  else if count * width < byteLimit then
    .error (.exhausted "memory allocation failed because the memory allocator returned an error")
  else
    .error (.exhausted ("memory allocation failed because the computed capacity exceeded " ++
      "the collection's maximum"))

/-- Asks for an array without which nothing can go on. -/
def require (count width : Nat) : Except Fault Unit :=
  if count * width < byteLimit then .ok () else .error (.oversized count)

end TwinHeap.Capacity
