/-! `zirl-header.hpp`: the checksum of strings and payloads, and the record of a dependency. -/

namespace Zith.Zirl

/-- One round of the loop of `fnv1a32`. -/
def fnv1aStep (hash : UInt32) (byte : UInt8) : UInt32 := (hash ^^^ byte.toUInt32) * 0x01000193

def fnv1a32 (data : List UInt8) : UInt32 := data.foldl fnv1aStep 0x811c9dc5

/-- `cache::DependencyRecord`. -/
structure DependencyRecord where
  canonicalPath : List UInt8
  importKey : List UInt8
  publicAbiHi : UInt32 := 0
  publicAbiLo : UInt32 := 0
deriving DecidableEq

end Zith.Zirl
