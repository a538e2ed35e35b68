/-
What the HTTP client keeps, and for how long.

`HttpShouldCache` says whether a response may be kept, `HttpGetCacheState` whether a response
that was kept is fresh: its lifetime is then greater than its age.  Ages and lifetimes are
differences of an `unsigned long`.
-/
import Jingle.Base.HttpDate

namespace Jingle.Base.Http

open Numeral

/-! ### Transactions -/

inductive HttpVerb where
  | HV_GET | HV_POST | HV_PUT | HV_DELETE | HV_CONNECT | HV_HEAD
  deriving DecidableEq

/-- `HttpHeader`: the headers that the cache reads. -/
inductive HttpHeader where
  | HH_AGE | HH_CACHE_CONTROL | HH_CONTENT_RANGE | HH_DATE | HH_EXPIRES | HH_LAST_MODIFIED
  deriving DecidableEq

/-- `ToString` of a header. -/
def HttpHeader.toString : HttpHeader → Text
  | HH_AGE => textBytes "Age"
  | HH_CACHE_CONTROL => textBytes "Cache-Control"
  | HH_CONTENT_RANGE => textBytes "Content-Range"
  | HH_DATE => textBytes "Date"
  | HH_EXPIRES => textBytes "Expires"
  | HH_LAST_MODIFIED => textBytes "Last-Modified"

/-- `HeaderMap`, in the order of a walk through it. -/
abbrev HeaderMap := List (Text × Text)

structure HttpRequestData where
  verb : HttpVerb
  path : Text

structure HttpResponseData where
  headers : HeaderMap
  scode : Word

structure HttpTransaction where
  request : HttpRequestData
  response : HttpResponseData

/-- `hasHeader`: the value of the first header of the name. -/
def HttpResponseData.hasHeader (d : HttpResponseData) (header : HttpHeader) : Option Text :=
  (d.headers.find? fun it => stricmpEq it.1 header.toString).map (·.2)

def httpCodeIsCacheable (code : Word) : Bool :=
  code = 200#32 || code = 203#32 || code = 206#32 || code = 300#32 || code = 301#32
    || code = 410#32

/-! ### What is kept -/

/-- The attributes of the header `Cache-Control`. -/
def HttpResponseData.cacheControl (d : HttpResponseData) : HttpAttributeList :=
  match d.hasHeader .HH_CACHE_CONTROL with
  | some value => httpParseAttributes value
  | none => []

def httpShouldCache (t : HttpTransaction) : Bool :=
  let verb_allows_cache := t.request.verb = .HV_GET || t.request.verb = .HV_HEAD
  let is_range_response := (t.response.hasHeader .HH_CONTENT_RANGE).isSome
  let has_expires := (t.response.hasHeader .HH_EXPIRES).isSome
  let request_allows_cache := has_expires || t.request.path.contains 63#8
  let response_allows_cache := has_expires || httpCodeIsCacheable t.response.scode
  let may_cache := verb_allows_cache && request_allows_cache && response_allows_cache
    && !is_range_response
  match t.response.hasHeader .HH_CACHE_CONTROL with
  | none => may_cache
  | some value =>
    let directives := httpParseAttributes value
    if (httpHasAttribute directives (textBytes "no-store")).isSome then false
    else if (httpHasAttribute directives (textBytes "public")).isSome then true
    else may_cache

/-! ### What is fresh -/

inductive HttpCacheState where
  | HCS_FRESH | HCS_STALE | HCS_NONE
  deriving DecidableEq

def httpStringToInt (str : Text) : Option (BitVec 64) :=
  let read := strtoulIn 10 (cString str)
  if read.2 = [] then some (BitVec.ofNat 64 read.1) else none

/-- The seconds of a header that is a date. -/
def HttpResponseData.dateOf (d : HttpResponseData) (tz : TimeZone) (header : HttpHeader) :
    Option (BitVec 64) :=
  (d.hasHeader header).bind (httpDateToSeconds tz)

/-- The number of the header `Age`. -/
def HttpResponseData.ageOf (d : HttpResponseData) : Option (BitVec 64) :=
  (d.hasHeader .HH_AGE).bind httpStringToInt

/-- The age of the document. -/
def HttpResponseData.documentAge (d : HttpResponseData) (now date : BitVec 64) : BitVec 64 :=
  let request_time := date
  let response_time := date
  let apparent_age := if response_time > date then response_time - date else 0
  let corrected_received_age :=
    match d.ageOf with
    | some i_temp => maxOf apparent_age i_temp
    | none => apparent_age
  let response_delay := response_time - request_time
  let corrected_initial_age := corrected_received_age + response_delay
  let resident_time := now - response_time
  corrected_initial_age + resident_time

/-- The lifetime of the document. -/
def HttpResponseData.documentLifetime (d : HttpResponseData) (tz : TimeZone)
    (now date : BitVec 64) : Option (BitVec 64) :=
  match httpHasAttribute d.cacheControl (textBytes "max-age") with
  | some s_temp => some (BitVec.ofInt 64 (atoi (cString s_temp)))
  | none =>
    match d.dateOf tz .HH_EXPIRES with
    | some i_temp => some (i_temp - date)
    | none => (d.dateOf tz .HH_LAST_MODIFIED).map fun i_temp => (now - i_temp) / 10

/-- `HttpGetCacheState` at the time `now`. -/
def httpGetCacheState (tz : TimeZone) (t : HttpTransaction) (now : BitVec 64) : HttpCacheState :=
  match t.response.dateOf tz .HH_DATE with
  | none => .HCS_NONE
  | some date =>
    match t.response.documentLifetime tz now date with
    | none => .HCS_STALE
    | some lifetime =>
      if lifetime > t.response.documentAge now date then .HCS_FRESH else .HCS_STALE

end Jingle.Base.Http
