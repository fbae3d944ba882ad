/-
**Byte sources and their errors.**

The loaders read from storages: random access sources of bytes of a fixed length.  A storage is a
byte string here, and a read that leaves it fails.
-/

import Nixe.Parsing

set_option autoImplicit false

namespace Nixe.Loader

inductive StorageError where
  | outOfBounds
  | io (error : String)
  | invalidData (reason : String)
deriving DecidableEq, Repr

/-- The text of an error (`Display`). -/
def StorageError.text : StorageError → String
  | .outOfBounds => "the requested range is out of bounds"
  | .io error => "storage I/O error: " ++ error
  | .invalidData reason => "invalid stored data: " ++ reason

inductive LoadError where
  | storage (error : StorageError)
  | invalid (format reason : String)
deriving DecidableEq, Repr

end Nixe.Loader
