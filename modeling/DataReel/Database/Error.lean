/-! # Error codes of the database engine -/

namespace DataReel

/-- The `gxDatabaseError` codes that the modelled functions set. -/
inductive DatabaseError
  | nullPtr
  | badBlockError
  | badHeader
  | cacheError
  | duplicateEntry
  | entryNotFound
  | filelockAccessError
  | filelockError
  | fileReadError
  | fileWriteError
  | insertionError
  | recordlockAccessError
  | recordlockError
  | syncError
  deriving DecidableEq, Repr

end DataReel
