import ElixirReader.Token.Span
import ElixirReader.Token.Kind

/-
  This file defines tokens.

  Key definitions include:
    * `Token`
-/

namespace ElixirReader

------------------------------------------------------------
-- Tokens
------------------------------------------------------------

/- A stretch of the source with its kind, text and place. -/
structure Token where
  kind : Kind
  text : String
  span : Span
deriving DecidableEq, Repr, Inhabited

end ElixirReader
