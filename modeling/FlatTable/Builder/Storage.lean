import FlatTable.Layout

/-! Storage that is filled from its end and grows at its front, so bytes once written keep their
distance from the end. -/
namespace FlatTable

structure Front where
  bytes : List UInt8
  nonempty : bytes ≠ []

/-- How a storage answers a request for more bytes: with a new front, or by refusing, and then it
tells the size it would have had. The answer may depend on the number of the request and on the
size. -/
structure Growth where
  answer : Nat → Nat → Except Nat Front

namespace Growth

def doubled (size : Nat) : Nat := max (2 * size) 1

def doubling (limit : Nat) : Growth where
  answer _ size :=
    if limit < doubled size then .error (doubled size)
    else .ok ⟨0 :: List.replicate (doubled size - size - 1) 0, by simp⟩

/-- The growth used by default, which stops where no buffer can be larger. -/
def standard : Growth := doubling (Layout.maxBufferSize + 1)

end Growth

structure Storage where
  bytes : List UInt8
  growth : Growth
  requests : Nat

namespace Storage

def zeros (capacity : Nat) (growth : Growth) : Storage := ⟨List.replicate capacity 0, growth, 0⟩

def size (s : Storage) : Nat := s.bytes.length

def grow (s : Storage) : Except Nat Storage := do
  let front ← s.growth.answer s.requests s.size
  return { s with bytes := front.bytes ++ s.bytes, requests := s.requests + 1 }

end Storage
end FlatTable
