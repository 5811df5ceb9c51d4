/-!
# Flaws of labels

Why a part of a host name cannot be read.
-/
namespace Ecash.Host

/-- What is wrong with a label, the first flaw that is found. -/
inductive Flaw where
  /-- It is empty, is not put together from the fewest characters, begins or ends
  with what may not stand there, joins what cannot be joined, or is no Punycode. -/
  | form
  /-- It holds a character that no label may hold. -/
  | letter
  /-- It holds a visible character without the neighbours that it needs. -/
  | company
  /-- Its directions do not agree. -/
  | direction
  deriving DecidableEq, Repr

end Ecash.Host
