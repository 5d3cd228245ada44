/-
What the program raises. An error is its class and its text, as the source
builds it; the text of an error raised by a library, which no code here
reads, is left empty.
-/
namespace GptCache

inductive ErrorClass where
  | KeyError
  | ValueError
  | IndexError
  | TypeError
  | AttributeError
  | AssertionError
  | OverflowError
  | ZeroDivisionError
  | MemoryError
  | NameError
  | CacheError
  | NotInitError
  | NotFoundError
  | ParamError
  /-- Raised by pydantic for a field of the wrong type. -/
  | ValidationError
  /-- Raised by mongoengine for a document that is not there. -/
  | DoesNotExist
  /-- Raised by a store: whatever the database, the index or the object store raises. -/
  | StorageError
  deriving DecidableEq, Repr

structure PyError where
  cls : ErrorClass
  msg : String := ""
  deriving DecidableEq, Repr

/-- A `str` whose characters are worked on. -/
abbrev Text := List Char

end GptCache
