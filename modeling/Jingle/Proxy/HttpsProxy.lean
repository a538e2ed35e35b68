/-
The client of an HTTP proxy that is asked for a tunnel.

`processInput` is the parser that runs over what a `BufferedReadAdapter` holds: lines
up to the end of a header, then the body that a response announces.  A response to a
`CONNECT` opens the tunnel, is answered by another `CONNECT` with credentials, on the
same connection or on a new one, or ends the attempt.

How credentials are computed is not modelled: `Authenticate` is any function of the
challenge and of the context that `HttpAuthenticate` keeps between its calls.

* `processInput_eq` — the parser, which moves indices over the buffer, is one that
  takes a byte at a time.
-/
import Jingle.Lib.Strtoul
import Jingle.Proxy.BufferedReadAdapter

namespace Jingle.Proxy

open Numeral

/-- The states of the parser, in their order. -/
inductive ProxyState
  | init
  | leader
  | authenticate
  | skipHeaders
  | errorHeaders
  | tunnelHeaders
  | skipBody
  | tunnel
  | waitClose
  | error
  deriving DecidableEq

/-- `state_ < PS_TUNNEL`. -/
def ProxyState.parsing : ProxyState → Bool
  | tunnel => false
  | waitClose => false
  | error => false
  | _ => true

/-- What `HttpAuthenticate` answers. -/
inductive HttpAuthResult
  /-- The method is not known. -/
  | ignore (auth_method : List Byte)
  /-- The value of the next `Proxy-Authorization`. -/
  | response (response : List Byte)
  | credentials
  | error

/-- `HttpAuthenticate`, for the user, the password and the proxy of a socket. -/
abbrev Authenticate (Context : Type) :=
  Option Context → List Byte → HttpAuthResult × Option Context

/-- What the socket does to the outside. -/
inductive ProxyEffect
  | send (request : List Byte)
  | close
  | connect
  | signalConnectEvent
  | signalReadEvent
  | signalCloseEvent (error : ℕ)
  deriving DecidableEq

/-- The destination as it is printed: with the port, and the address alone. -/
structure Destination where
  text : List Byte
  ip : List Byte

def Destination.clear : Destination := ⟨textBytes "0.0.0.0:0", textBytes "0.0.0.0"⟩

/-- The members of `AsyncHttpsProxySocket`. -/
structure HttpsProxy (Context : Type) where
  adapter : BufferedReadAdapter
  dest : Destination
  agent : List Byte
  headers : List Byte
  content_length : ℕ
  defer_error : ℕ
  expect_close : Bool
  state : ProxyState
  context : Option Context
  unknown_mechanisms : List Byte

/-- The error of a connection that is refused. -/
def socketEacces : ℕ := 13

namespace HttpsProxy

variable {Context : Type}

/-- A socket on which `Connect` was called, to a port that asks for a `CONNECT`. -/
def connecting (agent : List Byte) (dest : Destination) : HttpsProxy Context where
  adapter := (BufferedReadAdapter.create 1024).bufferInput true
  dest := dest
  agent := agent
  headers := []
  content_length := 0
  defer_error := 0
  expect_close := false
  state := .init
  context := none
  unknown_mechanisms := []

abbrev Result (Context : Type) := HttpsProxy Context × List ProxyEffect

def request (p : HttpsProxy Context) : List Byte :=
  textBytes "CONNECT " ++ p.dest.text ++ textBytes " HTTP/1.0\r\n" ++
    textBytes "User-Agent: " ++ p.agent ++ textBytes "\r\n" ++
    textBytes "Host: " ++ p.dest.ip ++ textBytes "\r\n" ++
    textBytes "Content-Length: 0\r\n" ++ textBytes "Proxy-Connection: Keep-Alive\r\n" ++
    p.headers ++ textBytes "\r\n"

def sendRequest (p : HttpsProxy Context) : Result Context :=
  ({ p with state := .leader, expect_close := true, content_length := 0, headers := [] },
    [.send p.request])

/-- `Error`, which closes the socket. -/
def onError (p : HttpsProxy Context) (error : ℕ) : Result Context :=
  ({ p with
      adapter := p.adapter.bufferInput false, headers := [], state := .error,
      dest := .clear, context := none },
    [.close, .signalCloseEvent error])

/-- `EndResponse`.  A connection that the proxy will close is closed now, and
`OnCloseEvent` makes a new one. -/
def endResponse (p : HttpsProxy Context) : Result Context :=
  if p.expect_close = false then p.sendRequest
  else ({ p with state := .init, adapter := p.adapter.bufferInput true }, [.close, .connect])

/-- `n` bytes of a body are skipped. -/
def skip (p : HttpsProxy Context) (n : ℕ) : Result Context :=
  let p := { p with content_length := p.content_length - n }
  if p.content_length = 0 then p.endResponse else (p, [])

/-- The status of a leader: `sscanf(data, "HTTP/%*u.%*u %u", &code)`. -/
def statusCode (line : List Byte) : Option ℕ := do
  let s := cString line
  if s.take 5 ≠ textBytes "HTTP/" then none
  else
    let (_, s) ← scanUnsigned (s.drop 5)
    if s.head? ≠ some 46#8 then none
    else
      let (_, s) ← scanUnsigned (s.drop 1)
      let (code, _) ← scanUnsigned (s.dropWhile isSpace)
      return code

/-- The value of a `Content-Length`, in base 0. -/
def lengthValue (line : List Byte) : ℕ := (strtoulIn 0 (cString (line.drop 15))).1

/-- A challenge of the proxy. -/
def challenge (auth : Authenticate Context) (p : HttpsProxy Context) (line : List Byte) :
    HttpsProxy Context :=
  match auth p.context (line.drop 19) with
  | (.ignore auth_method, context) =>
    { p with
      context := context
      unknown_mechanisms := (if p.unknown_mechanisms = [] then []
        else p.unknown_mechanisms ++ textBytes ", ") ++ auth_method }
  | (.response response, context) =>
    { p with
      context := context
      headers := textBytes "Proxy-Authorization: " ++ response ++ textBytes "\r\n"
      state := .skipHeaders, unknown_mechanisms := [] }
  | (.credentials, context) =>
    { p with
      context := context, defer_error := socketEacces, state := .errorHeaders
      unknown_mechanisms := [] }
  | (.error, context) =>
    { p with
      context := context, defer_error := 0, state := .errorHeaders, unknown_mechanisms := [] }

/-- The empty line at the end of the headers. -/
def endHeaders (p : HttpsProxy Context) : Result Context :=
  match p.state with
  | .tunnelHeaders => ({ p with state := .tunnel }, [])
  | .errorHeaders => p.onError p.defer_error
  | .skipHeaders =>
    if p.content_length ≠ 0 then ({ p with state := .skipBody }, []) else p.endResponse
  | _ => p.onError 0

/-- The leader of a response. -/
def processLeader (p : HttpsProxy Context) (line : List Byte) : Result Context :=
  match statusCode line with
  | none => p.onError 0
  | some code =>
    if code = 200 then ({ p with state := .tunnelHeaders }, [])
    else if code = 407 then ({ p with state := .authenticate }, [])
    else ({ p with defer_error := 0, state := .errorHeaders }, [])

def processLine (auth : Authenticate Context) (p : HttpsProxy Context) (line : List Byte) :
    Result Context :=
  if line.length = 0 then p.endHeaders
  else if p.state = .leader then p.processLeader line
  else if p.state = .authenticate ∧ hasPrefix (textBytes "Proxy-Authenticate:") line = true then
    (p.challenge auth line, [])
  else if hasPrefix (textBytes "Content-Length:") line = true then
    ({ p with content_length := lengthValue line }, [])
  else if hasPrefix (textBytes "Proxy-Connection: Keep-Alive") line = true then
    ({ p with expect_close := false }, [])
  else (p, [])

/-- A line without the return at its end. -/
def chomp (line : List Byte) : List Byte :=
  if line.getLast? = some 13#8 then line.dropLast else line

/-- The loop of `ProcessInput`: `line` is the data from `start` to `pos`, `rest` the
data from `pos` on.  The result has what is left from `start` on. -/
def loop (auth : Authenticate Context) : ℕ → HttpsProxy Context → List Byte → List Byte →
    List ProxyEffect → HttpsProxy Context × List Byte × List ProxyEffect
  | 0, p, line, rest, fx => (p, line ++ rest, fx)
  | n + 1, p, line, rest, fx =>
    if p.state.parsing = false then (p, line ++ rest, fx)
    else
      match rest with
      | [] => (p, line, fx)
      | b :: rest =>
        if p.state = .skipBody then
          let consume := min (rest.length + 1) p.content_length
          let r := p.skip consume
          loop auth n r.1 [] ((b :: rest).drop consume) (fx ++ r.2)
        else if b ≠ 10#8 then loop auth n p (line ++ [b]) rest fx
        else
          let r := p.processLine auth (chomp line)
          loop auth n r.1 [] rest (fx ++ r.2)

/-- The tunnel is open: what is left is the application's. -/
def opened (p : HttpsProxy Context) : Result Context :=
  ({ p with adapter := p.adapter.bufferInput false },
    if p.adapter.buffer = [] then [.signalConnectEvent]
    else [.signalConnectEvent, .signalReadEvent])

/-- `ProcessInput`.  A pass of the loop consumes a byte or leaves the body of a
response, so twice as many passes as bytes are enough. -/
def processInput (auth : Authenticate Context) (p : HttpsProxy Context) : Result Context :=
  let (q, left, fx) := loop auth (2 * p.adapter.buffer.length + 2) p [] p.adapter.buffer []
  let q : HttpsProxy Context := { q with adapter := { q.adapter with buffer := left } }
  if q.state = .tunnel then (q.opened.1, fx ++ q.opened.2) else (q, fx)

/-- A read event of the socket below. -/
def onReadEvent (auth : Authenticate Context) (p : HttpsProxy Context) (socket : Incoming)
    (res : Option ℕ) : HttpsProxy Context × Incoming × List ProxyEffect :=
  match p.adapter.onReadEvent socket res with
  | (a, socket, false) => ({ p with adapter := a }, socket, [])
  | (a, socket, true) =>
    let r := { p with adapter := a }.processInput auth
    (r.1, socket, r.2)

/-! ### A byte at a time -/

/-- One byte: of a body, in a line, or at the end of a line.  When nothing is parsed
any more it is kept. -/
def feed (auth : Authenticate Context) (p : HttpsProxy Context) (b : Byte) : Result Context :=
  if p.state.parsing = false then
    ({ p with adapter := { p.adapter with buffer := p.adapter.buffer ++ [b] } }, [])
  else if p.state = .skipBody then p.skip 1
  else if b ≠ 10#8 then
    ({ p with adapter := { p.adapter with buffer := p.adapter.buffer ++ [b] } }, [])
  else
    { p with adapter := { p.adapter with buffer := [] } }.processLine auth
      (chomp p.adapter.buffer)

def feedAll (auth : Authenticate Context) (p : HttpsProxy Context) : List Byte → Result Context
  | [] => (p, [])
  | b :: bytes =>
    let r := p.feed auth b
    let r' := r.1.feedAll auth bytes
    (r'.1, r.2 ++ r'.2)

/-! ### The parser is its bytes -/

variable {auth : Authenticate Context} {p : HttpsProxy Context}

/-- The socket with another buffer. -/
def withBuffer (p : HttpsProxy Context) (buffer : List Byte) : HttpsProxy Context :=
  { p with adapter := { p.adapter with buffer := buffer } }

@[simp] theorem withBuffer_state (p : HttpsProxy Context) (l : List Byte) :
    (p.withBuffer l).state = p.state := rfl

theorem feedAll_append (p : HttpsProxy Context) (a b : List Byte) :
    p.feedAll auth (a ++ b) =
      (((p.feedAll auth a).1.feedAll auth b).1,
        (p.feedAll auth a).2 ++ ((p.feedAll auth a).1.feedAll auth b).2) := by
  induction a generalizing p with
  | nil => simp [feedAll]
  | cons x a ih =>
    rw [List.cons_append, feedAll, feedAll, ih, List.append_assoc]

theorem withBuffer_endResponse (p : HttpsProxy Context) (buffer : List Byte) :
    (p.withBuffer buffer).endResponse =
      (p.endResponse.1.withBuffer buffer, p.endResponse.2) := by
  rcases p with ⟨a, dest, agent, headers, n, err, expect, state, context, unknown⟩
  cases expect <;> rfl

theorem withBuffer_skip (p : HttpsProxy Context) (n : ℕ) (buffer : List Byte) :
    (p.withBuffer buffer).skip n = ((p.skip n).1.withBuffer buffer, (p.skip n).2) := by
  have hend := withBuffer_endResponse { p with content_length := p.content_length - n } buffer
  rcases hn : p.content_length - n with _ | m
  · simp only [skip, withBuffer, hn, if_true] at hend ⊢
    exact hend
  · simp only [skip, withBuffer, hn]
    rfl

theorem withBuffer_endHeaders (p : HttpsProxy Context) (buffer : List Byte) :
    (p.withBuffer buffer).endHeaders =
      (p.endHeaders.1.withBuffer buffer, p.endHeaders.2) := by
  have hend := withBuffer_endResponse p buffer
  rcases p with ⟨a, dest, agent, headers, n, err, expect, state, context, unknown⟩
  cases state with
  | skipHeaders =>
    cases n with
    | zero => exact hend
    | succ n => rfl
  | _ => rfl

theorem withBuffer_processLeader (p : HttpsProxy Context) (line buffer : List Byte) :
    (p.withBuffer buffer).processLeader line =
      ((p.processLeader line).1.withBuffer buffer, (p.processLeader line).2) := by
  rw [processLeader, processLeader]
  cases statusCode line with
  | none => rfl
  | some code =>
    dsimp only
    split
    · rfl
    · split <;> rfl

theorem withBuffer_challenge (p : HttpsProxy Context) (line buffer : List Byte) :
    (p.withBuffer buffer).challenge auth line = (p.challenge auth line).withBuffer buffer := by
  have hcontext : (p.withBuffer buffer).context = p.context := rfl
  rw [challenge, challenge, hcontext]
  rcases auth p.context (line.drop 19) with ⟨result, context⟩
  cases result <;> rfl

theorem withBuffer_processLine (p : HttpsProxy Context) (line buffer : List Byte) :
    (p.withBuffer buffer).processLine auth line =
      ((p.processLine auth line).1.withBuffer buffer, (p.processLine auth line).2) := by
  rw [processLine, processLine, withBuffer_state, withBuffer_endHeaders,
    withBuffer_processLeader, withBuffer_challenge]
  split_ifs <;> rfl

theorem feedAll_of_not_parsing (h : p.state.parsing = false) (bytes : List Byte) :
    p.feedAll auth bytes = (p.withBuffer (p.adapter.buffer ++ bytes), []) := by
  induction bytes generalizing p with
  | nil =>
    rw [feedAll, List.append_nil]
    rfl
  | cons b bytes ih =>
    have hfeed : p.feed auth b = (p.withBuffer (p.adapter.buffer ++ [b]), []) := by
      rw [feed, if_pos h]
      rfl
    have hrest := ih (p := p.withBuffer (p.adapter.buffer ++ [b])) h
    rw [feedAll, hfeed]
    dsimp only
    rw [hrest]
    simp [withBuffer]

/-- A body is skipped up to its end, and there is one while it is. -/
def Skipping (p : HttpsProxy Context) (line : List Byte) : Prop :=
  p.state = .skipBody → 0 < p.content_length ∧ line = []

theorem feedAll_body (hs : p.state = .skipBody) (bytes : List Byte) (h0 : 0 < bytes.length)
    (hle : bytes.length ≤ p.content_length) : p.feedAll auth bytes = p.skip bytes.length := by
  induction bytes generalizing p with
  | nil => exact absurd h0 (Nat.lt_irrefl 0)
  | cons b bytes ih =>
    have hfeed : p.feed auth b = p.skip 1 := by
      rw [feed, if_neg (by rw [hs]; decide), if_pos hs]
    rw [List.length_cons] at hle
    rw [feedAll, hfeed]
    cases bytes with
    | nil => simp only [feedAll, List.append_nil, List.length_singleton]
    | cons c bytes =>
      rw [List.length_cons] at hle
      have hone : p.skip 1 = ({ p with content_length := p.content_length - 1 }, []) := by
        rw [skip, if_neg (by show p.content_length - 1 ≠ 0; omega)]
      have hrest := ih (p := { p with content_length := p.content_length - 1 }) hs
        (Nat.succ_pos _) (by rw [List.length_cons]; show _ ≤ p.content_length - 1; omega)
      have hsub : p.content_length - 1 - (c :: bytes).length =
          p.content_length - (b :: c :: bytes).length := by
        simp only [List.length_cons]
        omega
      rw [hone]
      dsimp only
      rw [hrest, List.nil_append, skip, skip]
      simp only [hsub]

theorem endResponse_state (p : HttpsProxy Context) :
    p.endResponse.1.state = .leader ∨ p.endResponse.1.state = .init := by
  rw [endResponse]
  split
  · exact .inl rfl
  · exact .inr rfl

theorem skip_state {n : ℕ} (h : (p.skip n).1.state = .skipBody) :
    0 < (p.skip n).1.content_length := by
  rw [skip] at h ⊢
  dsimp only at h ⊢
  split_ifs at h ⊢ with hzero
  · rcases endResponse_state { p with content_length := p.content_length - n } with hend | hend
    · exact absurd (hend.symm.trans h) (by decide)
    · exact absurd (hend.symm.trans h) (by decide)
  · exact Nat.pos_of_ne_zero hzero

theorem processLine_skipping (hs : p.state ≠ .skipBody) (line : List Byte)
    (h : (p.processLine auth line).1.state = .skipBody) :
    0 < (p.processLine auth line).1.content_length := by
  have hend := endResponse_state p
  rw [processLine] at h ⊢
  split_ifs at h ⊢ with h₁ h₂ h₃ h₄ h₅
  · rw [endHeaders] at h ⊢
    split at h
    · cases h
    · cases h
    · split_ifs at h ⊢ with hlen
      · exact Nat.pos_of_ne_zero hlen
      · rcases hend with hend | hend <;> exact absurd (hend.symm.trans h) (by decide)
    · cases h
  · rw [processLeader] at h
    split at h
    · cases h
    · split_ifs at h
  · rw [challenge] at h
    split at h
    · exact absurd h hs
    · cases h
    · cases h
    · cases h
  · exact absurd h hs
  · exact absurd h hs
  · exact absurd h hs

theorem loop_eq (n : ℕ) (p : HttpsProxy Context) (line rest : List Byte) (fx : List ProxyEffect)
    (hn : rest.length < n) (hskip : p.Skipping line) :
    ((loop auth n p line rest fx).1.withBuffer (loop auth n p line rest fx).2.1,
        (loop auth n p line rest fx).2.2) =
      (((p.withBuffer line).feedAll auth rest).1,
        fx ++ ((p.withBuffer line).feedAll auth rest).2) := by
  induction n generalizing p line rest fx with
  | zero => exact absurd hn (Nat.not_lt_zero _)
  | succ n ih =>
    cases rest with
    | nil =>
      rw [loop, feedAll, List.append_nil, List.append_nil, ite_self]
    | cons b rest =>
      rw [List.length_cons] at hn
      rw [loop]
      by_cases hp : p.state.parsing = false
      · rw [if_pos hp, feedAll_of_not_parsing (p := p.withBuffer line) hp, List.append_nil]
        rfl
      rw [if_neg hp]
      by_cases hs : p.state = .skipBody
      · -- a body, or the part of it that is here
        obtain ⟨hpos, rfl⟩ := hskip hs
        rw [if_pos hs]
        set k := min (rest.length + 1) p.content_length with hk
        have hlen : ((b :: rest).take k).length = k := by
          rw [List.length_take, List.length_cons]
          omega
        have hbody := @feedAll_body _ auth (p.withBuffer []) hs ((b :: rest).take k)
          (by omega) (by rw [hlen]; exact Nat.min_le_right _ _)
        rw [hlen, withBuffer_skip] at hbody
        have hsplit := @feedAll_append _ auth (p.withBuffer []) ((b :: rest).take k)
          ((b :: rest).drop k)
        rw [List.take_append_drop, hbody] at hsplit
        have hdrop : ((b :: rest).drop k).length < n := by
          rw [List.length_drop, List.length_cons]
          omega
        dsimp only
        rw [hsplit, ih _ _ _ _ hdrop fun h => ⟨skip_state h, rfl⟩, List.append_assoc]
      · rw [if_neg hs]
        have hp' : ¬(p.withBuffer line).state.parsing = false := hp
        have hs' : ¬(p.withBuffer line).state = .skipBody := hs
        have hfeed : (p.withBuffer line).feedAll auth (b :: rest) =
            ((((p.withBuffer line).feed auth b).1.feedAll auth rest).1,
              ((p.withBuffer line).feed auth b).2 ++
                (((p.withBuffer line).feed auth b).1.feedAll auth rest).2) := rfl
        by_cases hb : b = 10#8
        · rw [if_neg (not_not.mpr hb)]
          have hone : (p.withBuffer line).feed auth b =
              ((p.processLine auth (chomp line)).1.withBuffer [],
                (p.processLine auth (chomp line)).2) := by
            rw [feed, if_neg hp', if_neg hs', if_neg (not_not.mpr hb)]
            exact withBuffer_processLine p (chomp line) []
          rw [hfeed, hone]
          dsimp only
          rw [ih _ _ _ _ (by omega) fun h => ⟨processLine_skipping hs _ h, rfl⟩, List.append_assoc]
        · rw [if_pos hb]
          have hone : (p.withBuffer line).feed auth b = (p.withBuffer (line ++ [b]), []) := by
            rw [feed, if_neg hp', if_neg hs', if_pos hb]
            rfl
          rw [hfeed, hone]
          exact ih _ _ _ _ (by omega) fun h => absurd h hs

theorem processInput_eq (p : HttpsProxy Context) (hskip : p.Skipping []) :
    p.processInput auth =
      (let r := (p.withBuffer []).feedAll auth p.adapter.buffer
      if r.1.state = .tunnel then (r.1.opened.1, r.2 ++ r.1.opened.2) else r) := by
  have hloop := @loop_eq _ auth (2 * p.adapter.buffer.length + 2) p []
    p.adapter.buffer [] (by omega) hskip
  rw [List.nil_append] at hloop
  rw [processInput]
  generalize loop auth (2 * p.adapter.buffer.length + 2) p [] p.adapter.buffer [] = r at hloop ⊢
  generalize (p.withBuffer []).feedAll auth p.adapter.buffer = r' at hloop ⊢
  rcases r with ⟨q, left, fx⟩
  have hr' : r' = (q.withBuffer left, fx) := hloop.symm
  rw [hr']
  rfl

end HttpsProxy

end Jingle.Proxy
