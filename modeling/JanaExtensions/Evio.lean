import JanaExtensions.ModuleParser

/-! The part of the EVIO library that the plugins read: banks with a header, a
payload and child banks, and the events of a file. -/

namespace JanaExtensions

/-- A bank or segment. `number` and `dataType` are header fields, the payload is
given as the library reads it in 32-bit and in 64-bit units. -/
inductive BaseStructure where
  | node (tag : UInt16) (number dataType : UInt8) (uintData : List UInt32)
      (ulongData : List UInt64) (children : List BaseStructure)

structure EvioEvent where
  tag : UInt16
  uintData : List UInt32
  children : List BaseStructure

end JanaExtensions
