/-
What a proxy's bytes lead to.

A proxy sends any bytes on each connection that is made to it, and they are read in
any parts.  `heard` is the attempt as a function of the bytes alone: what is received
after a response that ends its connection is not heard.  A step is `Plain` when the
bytes that it reads stop there, and when the length of a body reads the same in base
ten as in the base that its digits choose.

* `tunnelling_sound` — in a plain run the socket has done what `heard` does, whatever
  the parts that the bytes were read in; **it announces a connection once, behind the
  empty line of a 200**, whose next byte is the application's, and has skipped the
  body of each 407 that it answered.
* `not_sound_split` — a return behind a 407 that is read with it ends the attempt, and
  one that is read later does not.
-/
import Jingle.Proxy.HttpsProxy

namespace Jingle.Proxy

open Numeral

/-! ### An attempt, a byte at a time -/

/-- The socket, what it did, and the bytes of the responses that it has seen. -/
structure Attempt (Context : Type) where
  proxy : HttpsProxy Context
  log : List ProxyEffect
  /-- The bytes behind the latest request. -/
  since : List Byte
  /-- The responses to which a new request, or a new connection, was the answer. -/
  answered : List (List Byte)

/-- The effects with which a response is answered. -/
def ProxyEffect.answers : ProxyEffect → Bool
  | send _ => true
  | connect => true
  | _ => false

/-- A socket that reads no more by itself when its tunnel is open. -/
def HttpsProxy.settled {Context : Type} (p : HttpsProxy Context) : HttpsProxy Context :=
  if p.state = .tunnel then p.opened.1 else p

namespace Attempt

variable {Context : Type}

def start (agent : List Byte) (dest : Destination) : Attempt Context :=
  ⟨.connecting agent dest, [], [], []⟩

/-- A connection is there, and the first request goes out. -/
def connected (a : Attempt Context) : Attempt Context :=
  { a with proxy := a.proxy.sendRequest.1, log := a.log ++ a.proxy.sendRequest.2, since := [] }

/-- A byte of the connection, which is not heard when the connection is given up. -/
def feed (auth : Authenticate Context) (a : Attempt Context) (b : Byte) : Attempt Context :=
  if a.proxy.state = .init then a
  else
    let r := a.proxy.feed auth b
    let answer := r.2.any ProxyEffect.answers
    { proxy := r.1.settled
      log := a.log ++ r.2 ++
        (if r.1.state = .tunnel ∧ a.proxy.state ≠ .tunnel then [.signalConnectEvent] else [])
      since := if answer then [] else a.since ++ [b]
      answered := if answer then a.answered ++ [a.since ++ [b]] else a.answered }

def feedAll (auth : Authenticate Context) (a : Attempt Context) (bytes : List Byte) :
    Attempt Context :=
  bytes.foldl (feed auth) a

/-- The bytes of the connections that are over, and of the one that is there. -/
def heard (auth : Authenticate Context) (agent : List Byte) (dest : Destination)
    (past : List (List Byte)) (bytes : List Byte) : Attempt Context :=
  (past.foldl (fun a bytes => (a.feedAll auth bytes).connected) (start agent dest)).feedAll auth
    bytes

end Attempt

/-! ### Responses -/

/-- Lines as they are sent. -/
def linesText (lines : List (List Byte)) : List Byte := lines.flatMap (· ++ [10#8])

/-- The length that the fields of a response declare, in base ten. -/
def declaredLength (fields : List (List Byte)) : ℕ :=
  fields.foldl (fun n field =>
    if hasPrefix (textBytes "Content-Length:") (HttpsProxy.chomp field) = true then
      (strtoulIn 10 (cString ((HttpsProxy.chomp field).drop 15))).1
    else n) 0

/-- The lines of a response up to its empty line. -/
structure IsHead (code : ℕ) (leader : List Byte) (fields : List (List Byte))
    (last : List Byte) : Prop where
  leader_code : HttpsProxy.statusCode (HttpsProxy.chomp leader) = some code
  field_ne : ∀ field ∈ fields, HttpsProxy.chomp field ≠ []
  last_eq : HttpsProxy.chomp last = []
  one_line : ∀ line ∈ leader :: (fields ++ [last]), 10#8 ∉ line

/-- A 407 with the whole of the body that it declares. -/
def IsChallenge (response : List Byte) : Prop :=
  ∃ leader fields last body, IsHead 407 leader fields last ∧
    response = linesText (leader :: (fields ++ [last])) ++ body ∧
    body.length = declaredLength fields

/-- A 200, and what follows its empty line. -/
def IsOpening (response rest : List Byte) : Prop :=
  ∃ leader fields last, IsHead 200 leader fields last ∧
    response = linesText (leader :: (fields ++ [last])) ++ rest

/-! ### Runs -/

/-- The socket and its proxy. -/
structure Tunnelling (Context : Type) where
  proxy : HttpsProxy Context
  /-- The bytes that wait in the socket below. -/
  socket : Incoming
  log : List ProxyEffect
  /-- What was read on this connection, of what arrived on it. -/
  read : List Byte
  arrived : List Byte
  /-- What arrived on the connections before. -/
  past : List (List Byte)

inductive TunnelEvent
  /-- A connection to the proxy is there. -/
  | connected
  | arrive (bytes : List Byte)
  | readEvent (res : Option ℕ)

namespace Tunnelling

variable {Context : Type}

def start (agent : List Byte) (dest : Destination) : Tunnelling Context :=
  ⟨.connecting agent dest, [], [], [], [], []⟩

/-- There is a connection to the proxy. -/
def isOpen (w : Tunnelling Context) : Bool :=
  w.proxy.state ≠ .init ∧ w.proxy.state ≠ .error

def step (auth : Authenticate Context) (w : Tunnelling Context) :
    TunnelEvent → Tunnelling Context
  | .connected =>
    if w.proxy.state = .init then
      { proxy := w.proxy.sendRequest.1, socket := [], log := w.log ++ w.proxy.sendRequest.2
        read := [], arrived := [], past := w.past ++ [w.arrived] }
    else w
  | .arrive bytes =>
    if w.isOpen then { w with socket := w.socket ++ bytes, arrived := w.arrived ++ bytes } else w
  | .readEvent res =>
    if w.isOpen then
      let r := w.proxy.onReadEvent auth w.socket res
      { w with
        proxy := r.1, socket := r.2.1, log := w.log ++ r.2.2
        read := w.read ++ w.socket.take (w.socket.length - r.2.1.length) }
    else w

def run (auth : Authenticate Context) (w : Tunnelling Context) (es : List TunnelEvent) :
    Tunnelling Context :=
  es.foldl (step auth) w

/-- **What the bytes alone decide.** -/
structure Sound (auth : Authenticate Context) (agent : List Byte) (dest : Destination)
    (w : Tunnelling Context) : Prop where
  /-- The socket and its effects are the same for all parts that the bytes come in. -/
  proxy_eq : w.proxy = (Attempt.heard auth agent dest w.past w.read).proxy
  log_eq : w.log.filter (· ≠ .signalReadEvent) =
    (Attempt.heard auth agent dest w.past w.read).log
  read_eq : w.read ++ w.socket = w.arrived
  /-- A connection is announced when the tunnel opens, and only then. -/
  connect_count : w.log.count .signalConnectEvent = if w.proxy.state = .tunnel then 1 else 0
  opening : w.proxy.state = .tunnel →
    IsOpening (Attempt.heard auth agent dest w.past w.read).since w.proxy.adapter.buffer
  challenges : ∀ response ∈ (Attempt.heard auth agent dest w.past w.read).answered,
    IsChallenge response

/-- The line that is not at its end is shorter than the buffer. -/
def Short (w : Tunnelling Context) : TunnelEvent → Prop
  | .readEvent _ => w.isOpen = true → w.proxy.adapter.buffering = true →
      w.proxy.adapter.dataLen < w.proxy.adapter.bufferSize
  | _ => True

/-- What a read event takes from the socket. -/
def taken (w : Tunnelling Context) : Option ℕ → List Byte
  | none => []
  | some n => w.socket.take (min n (w.proxy.adapter.bufferSize - w.proxy.adapter.dataLen))

/-- The length in a field of a challenge is one in base ten. -/
def DecimalLine (p : HttpsProxy Context) (line : List Byte) : Prop :=
  p.state = .authenticate ∨ p.state = .skipHeaders →
    hasPrefix (textBytes "Content-Length:") line = true →
      HttpsProxy.lengthValue line = (strtoulIn 10 (cString (line.drop 15))).1

/-- Bytes none of which follows a response that ends the connection, with the lengths
of bodies in base ten. -/
def PlainBytes (auth : Authenticate Context) : HttpsProxy Context → List Byte → Prop
  | _, [] => True
  | p, b :: bytes => p.state ≠ .init ∧
      (b = 10#8 → DecimalLine p (HttpsProxy.chomp p.adapter.buffer)) ∧
      PlainBytes auth (p.feed auth b).1 bytes

instance (p : HttpsProxy Context) (line : List Byte) : Decidable (DecimalLine p line) :=
  inferInstanceAs (Decidable (_ ∨ _ → _ → _))

instance decidablePlainBytes (auth : Authenticate Context) :
    ∀ (p : HttpsProxy Context) (bytes : List Byte), Decidable (PlainBytes auth p bytes)
  | _, [] => .isTrue trivial
  | p, b :: bytes =>
    have := decidablePlainBytes auth (p.feed auth b).1 bytes
    inferInstanceAs (Decidable (_ ≠ _ ∧ (_ → _) ∧ _))

def Plain (auth : Authenticate Context) (w : Tunnelling Context) : TunnelEvent → Prop
  | .readEvent res => w.isOpen = true → w.proxy.adapter.buffering = true →
      PlainBytes auth w.proxy (w.taken res)
  | _ => True

/-- Each step of a run has a property. -/
def Along (auth : Authenticate Context) (P : Tunnelling Context → TunnelEvent → Prop) :
    Tunnelling Context → List TunnelEvent → Prop
  | _, [] => True
  | w, e :: es => P w e ∧ Along auth P (w.step auth e) es

end Tunnelling

/-! ### The place of a response that the bytes have reached -/

/-- The lines of a response that are there before its empty line is. -/
structure IsPart (code : ℕ) (leader : List Byte) (fields : List (List Byte)) : Prop where
  leader_code : HttpsProxy.statusCode (HttpsProxy.chomp leader) = some code
  field_ne : ∀ field ∈ fields, HttpsProxy.chomp field ≠ []
  one_line : ∀ line ∈ leader :: fields, 10#8 ∉ line

/-- What a state says of the bytes since the latest request, of the line that is
buffered and of the length that is kept. -/
inductive Progress : ProxyState → List Byte → List Byte → ℕ → Prop
  | init {n : ℕ} : Progress .init [] [] n
  | leader {line : List Byte} (hline : 10#8 ∉ line) : Progress .leader line line 0
  | challenge {state : ProxyState} {leader line : List Byte} {fields : List (List Byte)}
      (hstate : state = .authenticate ∨ state = .skipHeaders) (hpart : IsPart 407 leader fields)
      (hline : 10#8 ∉ line) :
      Progress state (linesText (leader :: fields) ++ line) line (declaredLength fields)
  | refusal {since line : List Byte} {n : ℕ} (hline : 10#8 ∉ line) :
      Progress .errorHeaders since line n
  | opening {leader line : List Byte} {fields : List (List Byte)} {n : ℕ}
      (hpart : IsPart 200 leader fields) (hline : 10#8 ∉ line) :
      Progress .tunnelHeaders (linesText (leader :: fields) ++ line) line n
  | body {leader last body : List Byte} {fields : List (List Byte)} {n : ℕ}
      (hhead : IsHead 407 leader fields last) (hn : 0 < n)
      (hbody : body.length + n = declaredLength fields) :
      Progress .skipBody (linesText (leader :: (fields ++ [last])) ++ body) [] n
  | tunnel {since rest : List Byte} {n : ℕ} (hopening : IsOpening since rest) :
      Progress .tunnel since rest n
  | error {since rest : List Byte} {n : ℕ} : Progress .error since rest n

theorem Progress.of_init {since buffer : List Byte} {n : ℕ}
    (h : Progress .init since buffer n) : since = [] ∧ buffer = [] := by
  cases h with
  | init => exact ⟨rfl, rfl⟩
  | challenge hstate _ _ => rcases hstate with hs | hs <;> cases hs

theorem Progress.of_tunnel {since buffer : List Byte} {n : ℕ}
    (h : Progress .tunnel since buffer n) : IsOpening since buffer := by
  cases h with
  | challenge hstate _ _ => rcases hstate with hs | hs <;> cases hs
  | tunnel hopening => exact hopening

theorem Progress.of_parsing {state : ProxyState} {since buffer : List Byte} {n : ℕ}
    (h : Progress state since buffer n) (hp : state.parsing = true) :
    10#8 ∉ buffer ∧ (state = .skipBody → 0 < n ∧ buffer = []) := by
  cases h with
  | init => exact ⟨List.not_mem_nil, fun h => by cases h⟩
  | leader hline => exact ⟨hline, fun h => by cases h⟩
  | challenge hstate hpart hline =>
    refine ⟨hline, fun h => ?_⟩
    rcases hstate with hs | hs <;> cases hs.symm.trans h
  | refusal hline => exact ⟨hline, fun h => by cases h⟩
  | opening hpart hline => exact ⟨hline, fun h => by cases h⟩
  | body hhead hpos hbody => exact ⟨List.not_mem_nil, fun _ => ⟨hpos, rfl⟩⟩
  | tunnel hopening => cases hp
  | error => cases hp

theorem linesText_append (a b : List (List Byte)) :
    linesText (a ++ b) = linesText a ++ linesText b := List.flatMap_append

theorem linesText_concat (lines : List (List Byte)) (line : List Byte) :
    linesText (lines ++ [line]) = linesText lines ++ line ++ [10#8] := by
  rw [linesText_append, List.append_assoc]
  exact congrArg _ (List.append_nil _)

theorem IsPart.field {code : ℕ} {leader line : List Byte} {fields : List (List Byte)}
    (h : IsPart code leader fields) (hline : 10#8 ∉ line) (hne : HttpsProxy.chomp line ≠ []) :
    IsPart code leader (fields ++ [line]) := by
  refine ⟨h.leader_code, fun field hfield => ?_, fun l hl => ?_⟩
  · rcases List.mem_append.mp hfield with hfield | hfield
    · exact h.field_ne field hfield
    · rw [List.mem_singleton.mp hfield]
      exact hne
  · rw [← List.cons_append] at hl
    rcases List.mem_append.mp hl with hl | hl
    · exact h.one_line l hl
    · rw [List.mem_singleton.mp hl]
      exact hline

theorem IsPart.head {code : ℕ} {leader line : List Byte} {fields : List (List Byte)}
    (h : IsPart code leader fields) (hline : 10#8 ∉ line) (hnil : HttpsProxy.chomp line = []) :
    IsHead code leader fields line := by
  refine ⟨h.leader_code, h.field_ne, hnil, fun l hl => ?_⟩
  rw [← List.cons_append] at hl
  rcases List.mem_append.mp hl with hl | hl
  · exact h.one_line l hl
  · rw [List.mem_singleton.mp hl]
    exact hline

theorem declaredLength_concat (fields : List (List Byte)) (line : List Byte) :
    declaredLength (fields ++ [line]) =
      if hasPrefix (textBytes "Content-Length:") (HttpsProxy.chomp line) = true then
        (strtoulIn 10 (cString ((HttpsProxy.chomp line).drop 15))).1
      else declaredLength fields := by
  rw [declaredLength, List.foldl_append]
  rfl

theorem linesText_line (leader line : List Byte) (fields : List (List Byte)) :
    linesText (leader :: fields) ++ line ++ [10#8] =
      linesText (leader :: (fields ++ [line])) := by
  rw [← List.cons_append, linesText_concat]

/-! ### One byte of a response -/

section Advance

variable {Context : Type} {auth : Authenticate Context} {p : HttpsProxy Context}
  {since line leader : List Byte} {fields : List (List Byte)}

/-- What a byte has done: the place that is reached, after a new request where the
bytes up to here are a challenge that was answered. -/
structure Advance (since : List Byte) (r : HttpsProxy.Result Context) : Prop where
  progress : Progress r.1.state (if r.2.any ProxyEffect.answers then [] else since)
    r.1.adapter.buffer r.1.content_length
  challenge : r.2.any ProxyEffect.answers = true → IsChallenge since

theorem Advance.quiet {q : HttpsProxy Context}
    (h : Progress q.state since q.adapter.buffer q.content_length) :
    Advance since (q, ([] : List ProxyEffect)) :=
  ⟨h, fun hany => absurd hany Bool.false_ne_true⟩

theorem advance_onError (p : HttpsProxy Context) (error : ℕ) : Advance since (p.onError error) :=
  ⟨.error, fun hany => absurd hany Bool.false_ne_true⟩

theorem advance_endResponse (hbuffer : p.adapter.buffer = []) (h : IsChallenge since) :
    Advance since p.endResponse := by
  rw [HttpsProxy.endResponse]
  split
  · refine ⟨?_, fun _ => h⟩
    show Progress .leader [] p.adapter.buffer 0
    rw [hbuffer]
    exact .leader List.not_mem_nil
  · refine ⟨?_, fun _ => h⟩
    show Progress .init [] p.adapter.buffer p.content_length
    rw [hbuffer]
    exact .init

theorem chomp_ne (h : ¬(HttpsProxy.chomp line).length = 0) : HttpsProxy.chomp line ≠ [] :=
  fun hnil => h (congrArg List.length hnil)

theorem chomp_eq (h : (HttpsProxy.chomp line).length = 0) : HttpsProxy.chomp line = [] :=
  List.length_eq_zero_iff.mp h

theorem advance_leader (hs : p.state = .leader) (hbuffer : p.adapter.buffer = [])
    (hlen : p.content_length = 0) (hline : 10#8 ∉ line) :
    Advance (line ++ [10#8]) (p.processLine auth (HttpsProxy.chomp line)) := by
  have htext : linesText [line] ++ [] = line ++ [10#8] := by
    rw [List.append_nil, linesText, List.flatMap_singleton]
  have hpart : ∀ code, HttpsProxy.statusCode (HttpsProxy.chomp line) = some code →
      IsPart code line [] := by
    intro code hcode
    refine ⟨hcode, fun _ hfield => absurd hfield List.not_mem_nil, fun l hl => ?_⟩
    rw [List.mem_singleton.mp hl]
    exact hline
  rw [HttpsProxy.processLine]
  split
  · rw [HttpsProxy.endHeaders, hs]
    exact advance_onError p 0
  · rw [HttpsProxy.processLeader]
    cases hcode : HttpsProxy.statusCode (HttpsProxy.chomp line) with
    | none => exact advance_onError p 0
    | some code =>
      dsimp only
      split_ifs with h200 h407
      · apply Advance.quiet
        have hprogress := Progress.opening (n := p.content_length) (hpart 200 (h200 ▸ hcode))
          (List.not_mem_nil (a := 10#8))
        rw [htext] at hprogress
        show Progress .tunnelHeaders _ p.adapter.buffer p.content_length
        rw [hbuffer]
        exact hprogress
      · apply Advance.quiet
        have hprogress := Progress.challenge (.inl rfl) (hpart 407 (h407 ▸ hcode))
          (List.not_mem_nil (a := 10#8))
        rw [htext] at hprogress
        show Progress .authenticate _ p.adapter.buffer p.content_length
        rw [hbuffer, hlen]
        exact hprogress
      · apply Advance.quiet
        show Progress .errorHeaders _ p.adapter.buffer p.content_length
        rw [hbuffer]
        exact .refusal List.not_mem_nil

theorem not_hasPrefix {word word' : List Byte} {a b : Byte} {s : List Byte}
    (ha : (word.map toLower).head? = some a) (hb : (word'.map toLower).head? = some b)
    (hne : a ≠ b) (h : hasPrefix word s = true) : ¬hasPrefix word' s = true := by
  intro h'
  have hhead : ∀ (w : List Byte) (c : Byte), (w.map toLower).head? = some c →
      hasPrefix w s = true → (s.map toLower).head? = some c := by
    intro w c hc hw
    have htake := of_decide_eq_true hw
    rw [List.map_take] at htake
    cases hs : s.map toLower with
    | nil =>
      rw [hs, List.take_nil] at htake
      rw [← htake] at hc
      exact hc
    | cons x xs =>
      cases w with
      | nil => exact absurd hc (by simp)
      | cons y w =>
        rw [hs, List.length_cons, List.take_succ_cons] at htake
        rw [← htake] at hc
        exact hc
  have heq := (hhead word a ha h).symm.trans (hhead word' b hb h')
  exact hne (Option.some.inj heq)

theorem challenge_progress (hs : p.state = .authenticate ∨ p.state = .skipHeaders)
    (hbuffer : p.adapter.buffer = []) (hpart : IsPart 407 leader fields)
    (hlen : p.content_length = declaredLength fields) :
    Progress p.state (linesText (leader :: fields)) p.adapter.buffer p.content_length := by
  have hprogress := Progress.challenge hs hpart (List.not_mem_nil (a := 10#8))
  rw [List.append_nil] at hprogress
  rw [hbuffer, hlen]
  exact hprogress

theorem refusal_progress (hs : p.state = .errorHeaders) (hbuffer : p.adapter.buffer = []) :
    Progress p.state since p.adapter.buffer p.content_length := by
  rw [hs, hbuffer]
  exact .refusal List.not_mem_nil

theorem advance_challenge (hs : p.state = .authenticate ∨ p.state = .skipHeaders)
    (hbuffer : p.adapter.buffer = []) (hpart : IsPart 407 leader fields)
    (hlen : p.content_length = declaredLength fields) (hline : 10#8 ∉ line)
    (hdecimal : Tunnelling.DecimalLine p (HttpsProxy.chomp line)) :
    Advance (linesText (leader :: fields) ++ line ++ [10#8])
      (p.processLine auth (HttpsProxy.chomp line)) := by
  rw [linesText_line]
  rw [HttpsProxy.processLine]
  split_ifs with hnil hleader hchallenge hlength halive
  · -- the empty line
    have hhead := hpart.head hline (chomp_eq hnil)
    rcases hs with hs | hs
    · rw [HttpsProxy.endHeaders, hs]
      exact advance_onError p 0
    · rw [HttpsProxy.endHeaders, hs]
      dsimp only
      split_ifs with hzero
      · apply Advance.quiet
        have hprogress := @Progress.body _ _ [] _ _ hhead (Nat.pos_of_ne_zero hzero)
          (by rw [List.length_nil, Nat.zero_add]; exact hlen)
        rw [List.append_nil] at hprogress
        show Progress .skipBody _ p.adapter.buffer p.content_length
        rw [hbuffer]
        exact hprogress
      · exact advance_endResponse hbuffer ⟨leader, fields, line, [], hhead,
          (List.append_nil _).symm, by rw [← hlen]; exact (not_not.mp hzero).symm⟩
  · rcases hs with hs | hs <;> exact absurd (hs.symm.trans hleader) (by decide)
  · -- a challenge has no length of a body
    have hno : ¬hasPrefix (textBytes "Content-Length:") (HttpsProxy.chomp line) = true :=
      not_hasPrefix (a := 112#8) (b := 99#8) (by decide) (by decide) (by decide) hchallenge.2
    have hsame : declaredLength (fields ++ [line]) = declaredLength fields := by
      rw [declaredLength_concat, if_neg hno]
    have hfield := hpart.field hline (chomp_ne hnil)
    apply Advance.quiet
    rw [HttpsProxy.challenge]
    split
    · exact challenge_progress (.inl hchallenge.1) hbuffer hfield (hlen.trans hsame.symm)
    · exact challenge_progress (.inr rfl) hbuffer hfield (hlen.trans hsame.symm)
    · exact refusal_progress rfl hbuffer
    · exact refusal_progress rfl hbuffer
  · -- the length of the body
    apply Advance.quiet
    refine challenge_progress hs hbuffer (hpart.field hline (chomp_ne hnil)) ?_
    rw [declaredLength_concat, if_pos hlength]
    exact hdecimal hs hlength
  · apply Advance.quiet
    refine challenge_progress hs hbuffer (hpart.field hline (chomp_ne hnil)) ?_
    rw [declaredLength_concat, if_neg hlength]
    exact hlen
  · apply Advance.quiet
    refine challenge_progress hs hbuffer (hpart.field hline (chomp_ne hnil)) ?_
    rw [declaredLength_concat, if_neg hlength]
    exact hlen

theorem advance_opening (hs : p.state = .tunnelHeaders) (hbuffer : p.adapter.buffer = [])
    (hpart : IsPart 200 leader fields) (hline : 10#8 ∉ line) :
    Advance (linesText (leader :: fields) ++ line ++ [10#8])
      (p.processLine auth (HttpsProxy.chomp line)) := by
  rw [linesText_line, HttpsProxy.processLine]
  have hfield : ¬(HttpsProxy.chomp line).length = 0 →
      ∀ q : HttpsProxy Context, q.state = .tunnelHeaders → q.adapter.buffer = [] →
        Advance (linesText (leader :: (fields ++ [line]))) (q, ([] : List ProxyEffect)) := by
    intro hnil q hq hqb
    have hprogress := Progress.opening (n := q.content_length)
      (hpart.field hline (chomp_ne hnil)) (List.not_mem_nil (a := 10#8))
    rw [List.append_nil] at hprogress
    apply Advance.quiet
    rw [hq, hqb]
    exact hprogress
  split_ifs with hnil hleader hchallenge hlength halive
  · rw [HttpsProxy.endHeaders, hs]
    apply Advance.quiet
    show Progress .tunnel _ p.adapter.buffer p.content_length
    rw [hbuffer]
    exact .tunnel ⟨leader, fields, line, hpart.head hline (chomp_eq hnil),
      (List.append_nil _).symm⟩
  · exact absurd (hs.symm.trans hleader) (by decide)
  · exact absurd (hs.symm.trans hchallenge.1) (by decide)
  · exact hfield hnil _ hs hbuffer
  · exact hfield hnil _ hs hbuffer
  · exact hfield hnil _ hs hbuffer

theorem advance_refusal (hs : p.state = .errorHeaders) (hbuffer : p.adapter.buffer = []) :
    Advance since (p.processLine auth (HttpsProxy.chomp line)) := by
  rw [HttpsProxy.processLine]
  split_ifs with hnil hleader hchallenge hlength halive
  · rw [HttpsProxy.endHeaders, hs]
    exact advance_onError p _
  · exact absurd (hs.symm.trans hleader) (by decide)
  · exact absurd (hs.symm.trans hchallenge.1) (by decide)
  · exact .quiet (refusal_progress hs hbuffer)
  · exact .quiet (refusal_progress hs hbuffer)
  · exact .quiet (refusal_progress hs hbuffer)

theorem advance_body {last body : List Byte} (b : Byte) (hs : p.state = .skipBody)
    (hbuffer : p.adapter.buffer = []) (hhead : IsHead 407 leader fields last)
    (hpos : 0 < p.content_length) (hbody : body.length + p.content_length = declaredLength fields) :
    Advance (linesText (leader :: (fields ++ [last])) ++ body ++ [b]) (p.skip 1) := by
  rw [List.append_assoc, HttpsProxy.skip]
  dsimp only
  split_ifs with hzero
  · refine advance_endResponse hbuffer ⟨leader, fields, last, body ++ [b], hhead, rfl, ?_⟩
    rw [List.length_append, List.length_singleton]
    omega
  · apply Advance.quiet
    show Progress p.state _ p.adapter.buffer (p.content_length - 1)
    rw [hs, hbuffer]
    refine .body hhead (Nat.pos_of_ne_zero hzero) ?_
    rw [List.length_append, List.length_singleton]
    omega

theorem advance_feed (b : Byte)
    (h : Progress p.state since p.adapter.buffer p.content_length) (hinit : p.state ≠ .init)
    (hdecimal : b = 10#8 → Tunnelling.DecimalLine p (HttpsProxy.chomp p.adapter.buffer)) :
    Advance (since ++ [b]) (p.feed auth b) := by
  generalize hst : p.state = state at h
  generalize hbuf : p.adapter.buffer = buffer at h
  generalize hn : p.content_length = n at h
  have hparsing : ∀ s : ProxyState, p.state = s → s.parsing = true → ¬p.state.parsing = false := by
    intro s hs hparsing
    rw [hs, hparsing]
    decide
  have hmem : 10#8 ∉ buffer → ¬b = 10#8 → 10#8 ∉ p.adapter.buffer ++ [b] := by
    intro hline hb hmem
    rcases List.mem_append.mp (hbuf ▸ hmem) with hmem | hmem
    · exact hline hmem
    · exact hb (List.mem_singleton.mp hmem).symm
  rw [HttpsProxy.feed]
  cases h with
  | init => exact absurd hst hinit
  | leader hline =>
    rw [if_neg (hparsing _ hst rfl), if_neg (by rw [hst]; decide)]
    by_cases hb : b = 10#8
    · rw [if_neg (not_not.mpr hb), hb, hbuf]
      exact advance_leader hst rfl hn hline
    · rw [if_pos hb]
      apply Advance.quiet
      have hprogress := Progress.leader (hmem hline hb)
      rw [hbuf] at hprogress
      show Progress p.state _ (p.adapter.buffer ++ [b]) p.content_length
      rw [hst, hbuf, hn]
      exact hprogress
  | challenge hstate hpart hline =>
    have hskip : ¬p.state = .skipBody := by
      rw [hst]
      rintro rfl
      rcases hstate with hs | hs <;> exact absurd hs (by decide)
    have hpars : ¬p.state.parsing = false := by
      rcases hstate with hs | hs <;> exact hparsing _ (hst.trans hs) rfl
    rw [if_neg hpars, if_neg hskip]
    by_cases hb : b = 10#8
    · have hdec := hdecimal hb
      rw [hbuf] at hdec
      rw [if_neg (not_not.mpr hb), hb, hbuf]
      exact advance_challenge (hst ▸ hstate) rfl hpart hn hline hdec
    · rw [if_pos hb]
      apply Advance.quiet
      have hprogress := Progress.challenge hstate hpart (hmem hline hb)
      rw [hbuf, ← List.append_assoc] at hprogress
      show Progress p.state _ (p.adapter.buffer ++ [b]) p.content_length
      rw [hst, hbuf, hn]
      exact hprogress
  | refusal hline =>
    rw [if_neg (hparsing _ hst rfl), if_neg (by rw [hst]; decide)]
    by_cases hb : b = 10#8
    · rw [if_neg (not_not.mpr hb)]
      exact advance_refusal hst rfl
    · rw [if_pos hb]
      apply Advance.quiet
      show Progress p.state _ (p.adapter.buffer ++ [b]) p.content_length
      rw [hst]
      exact .refusal (hmem hline hb)
  | opening hpart hline =>
    rw [if_neg (hparsing _ hst rfl), if_neg (by rw [hst]; decide)]
    by_cases hb : b = 10#8
    · rw [if_neg (not_not.mpr hb), hb, hbuf]
      exact advance_opening hst rfl hpart hline
    · rw [if_pos hb]
      apply Advance.quiet
      have hprogress := Progress.opening (n := p.content_length) hpart (hmem hline hb)
      rw [hbuf, ← List.append_assoc] at hprogress
      show Progress p.state _ (p.adapter.buffer ++ [b]) p.content_length
      rw [hst, hbuf]
      exact hprogress
  | body hhead hpos hbody =>
    rw [if_neg (hparsing _ hst rfl), if_pos hst]
    exact advance_body b hst hbuf hhead (hn ▸ hpos) (hn ▸ hbody)
  | tunnel hopening =>
    rw [if_pos (by rw [hst]; rfl)]
    apply Advance.quiet
    obtain ⟨leader, fields, last, hhead, htext⟩ := hopening
    show Progress p.state _ (p.adapter.buffer ++ [b]) p.content_length
    rw [hst, hbuf]
    exact .tunnel ⟨leader, fields, last, hhead, by rw [htext, List.append_assoc]⟩
  | error =>
    rw [if_pos (by rw [hst]; rfl)]
    apply Advance.quiet
    show Progress p.state _ _ p.content_length
    rw [hst]
    exact .error

end Advance

/-! ### The invariant of an attempt -/

section Effects

variable {Context : Type} {auth : Authenticate Context} {p : HttpsProxy Context}

/-- What a byte alone does: the adapter buffers while there is more to parse, and
nobody is told of a connection or of data. -/
structure Silent (p : HttpsProxy Context) (r : HttpsProxy.Result Context) : Prop where
  buffering : p.adapter.buffering = true → r.1.state ≠ .error → r.1.adapter.buffering = true
  closed : p.adapter.buffering = true → r.1.state = .error → r.1.adapter.buffering = false
  state_ne : r.1.state ≠ .waitClose
  effects : .signalConnectEvent ∉ r.2 ∧ .signalReadEvent ∉ r.2

theorem Silent.same {q : HttpsProxy Context} (ha : q.adapter.buffering = p.adapter.buffering)
    (hw : q.state ≠ .waitClose) (he : q.state ≠ .error) :
    Silent p (q, ([] : List ProxyEffect)) :=
  ⟨fun h _ => ha.trans h, fun _ h => absurd h he, hw, List.not_mem_nil, List.not_mem_nil⟩

theorem silent_onError (error : ℕ) : Silent p (p.onError error) :=
  ⟨fun _ h => absurd rfl h, fun _ _ => rfl, by rintro ⟨⟩, by simp [HttpsProxy.onError],
    by simp [HttpsProxy.onError]⟩

theorem silent_endResponse : Silent p p.endResponse := by
  rw [HttpsProxy.endResponse]
  split
  · exact ⟨fun h _ => h, fun _ h => absurd h (by rintro ⟨⟩), by rintro ⟨⟩,
      by simp [HttpsProxy.sendRequest], by simp [HttpsProxy.sendRequest]⟩
  · exact ⟨fun _ _ => rfl, fun _ h => absurd h (by rintro ⟨⟩), by rintro ⟨⟩, by simp, by simp⟩

theorem silent_processLine {line : List Byte} (hp : p.state.parsing = true) :
    Silent p (p.processLine auth line) := by
  have hstate : p.state ≠ .waitClose ∧ p.state ≠ .error := by
    refine ⟨fun h => ?_, fun h => ?_⟩ <;> exact absurd (h ▸ hp) (by decide)
  have hkeep := Silent.same (p := p) (q := p) rfl hstate.1 hstate.2
  rw [HttpsProxy.processLine]
  split_ifs
  · rw [HttpsProxy.endHeaders]
    split
    · exact .same rfl (by rintro ⟨⟩) (by rintro ⟨⟩)
    · exact silent_onError _
    · split_ifs
      · exact .same rfl (by rintro ⟨⟩) (by rintro ⟨⟩)
      · exact silent_endResponse
    · exact silent_onError _
  · rw [HttpsProxy.processLeader]
    split
    · exact silent_onError _
    · split_ifs <;> exact .same rfl (by rintro ⟨⟩) (by rintro ⟨⟩)
  · rw [HttpsProxy.challenge]
    split
    · exact .same rfl hstate.1 hstate.2
    · exact .same rfl (by rintro ⟨⟩) (by rintro ⟨⟩)
    · exact .same rfl (by rintro ⟨⟩) (by rintro ⟨⟩)
    · exact .same rfl (by rintro ⟨⟩) (by rintro ⟨⟩)
  · exact .same rfl hstate.1 hstate.2
  · exact .same rfl hstate.1 hstate.2
  · exact hkeep

theorem silent_feed (b : Byte) (hp : p.state.parsing = true) : Silent p (p.feed auth b) := by
  have hstate : p.state ≠ .waitClose ∧ p.state ≠ .error := by
    refine ⟨fun h => ?_, fun h => ?_⟩ <;> exact absurd (h ▸ hp) (by decide)
  rw [HttpsProxy.feed, if_neg (by rw [hp]; decide)]
  split_ifs
  · rw [HttpsProxy.skip]
    dsimp only
    split_ifs
    · have hend := silent_endResponse (p := { p with content_length := p.content_length - 1 })
      exact ⟨hend.buffering, hend.closed, hend.state_ne, hend.effects⟩
    · exact .same rfl hstate.1 hstate.2
  · exact .same rfl hstate.1 hstate.2
  · have hline := @silent_processLine _ auth { p with adapter := { p.adapter with buffer := [] } }
      (HttpsProxy.chomp p.adapter.buffer) hp
    exact ⟨hline.buffering, hline.closed, hline.state_ne, hline.effects⟩

end Effects

namespace Attempt

variable {Context : Type} {auth : Authenticate Context} {a : Attempt Context}

@[simp] theorem settled_state (p : HttpsProxy Context) : p.settled.state = p.state := by
  rw [HttpsProxy.settled]
  split_ifs <;> rfl

@[simp] theorem settled_buffer (p : HttpsProxy Context) :
    p.settled.adapter.buffer = p.adapter.buffer := by
  rw [HttpsProxy.settled]
  split_ifs <;> rfl

@[simp] theorem settled_content_length (p : HttpsProxy Context) :
    p.settled.content_length = p.content_length := by
  rw [HttpsProxy.settled]
  split_ifs <;> rfl

theorem settled_buffering (p : HttpsProxy Context) :
    p.settled.adapter.buffering = if p.state = .tunnel then false else p.adapter.buffering := by
  rw [HttpsProxy.settled]
  split_ifs <;> rfl

/-- What holds after every byte. -/
structure Inv (a : Attempt Context) : Prop where
  progress : Progress a.proxy.state a.since a.proxy.adapter.buffer a.proxy.content_length
  challenges : ∀ response ∈ a.answered, IsChallenge response
  buffering : a.proxy.adapter.buffering = a.proxy.state.parsing
  connect_count : a.log.count .signalConnectEvent = if a.proxy.state = .tunnel then 1 else 0
  no_read : .signalReadEvent ∉ a.log

theorem start_inv (agent : List Byte) (dest : Destination) :
    (start agent dest : Attempt Context).Inv :=
  ⟨.init, fun _ h => absurd h List.not_mem_nil, rfl, rfl, List.not_mem_nil⟩

theorem connected_inv (h : a.Inv) (hs : a.proxy.state = .init) : a.connected.Inv := by
  have hbuf : a.proxy.adapter.buffer = [] := (hs ▸ h.progress).of_init.2
  have hcount := h.connect_count
  refine ⟨?_, h.challenges, ?_, ?_, ?_⟩
  · show Progress .leader [] a.proxy.adapter.buffer 0
    rw [hbuf]
    exact .leader List.not_mem_nil
  · exact h.buffering.trans (by rw [hs]; rfl)
  · rw [hs] at hcount
    show List.count _ (a.log ++ [.send a.proxy.request]) = 0
    rw [List.count_append, hcount]
    rfl
  · intro hmem
    rcases List.mem_append.mp hmem with hmem | hmem
    · exact h.no_read hmem
    · exact absurd (List.mem_singleton.mp hmem) (by rintro ⟨⟩)

theorem feed_of_heard (hinit : ¬a.proxy.state = .init) (b : Byte) :
    a.feed auth b =
      { proxy := (a.proxy.feed auth b).1.settled
        log := a.log ++ (a.proxy.feed auth b).2 ++
          (if (a.proxy.feed auth b).1.state = .tunnel ∧ a.proxy.state ≠ .tunnel
            then [.signalConnectEvent] else [])
        since := if (a.proxy.feed auth b).2.any ProxyEffect.answers then [] else a.since ++ [b]
        answered := if (a.proxy.feed auth b).2.any ProxyEffect.answers
          then a.answered ++ [a.since ++ [b]] else a.answered } := by
  rw [feed, if_neg hinit]

theorem feed_of_not_parsing (hp : a.proxy.state.parsing = false) (b : Byte) :
    a.feed auth b =
      { a with
        proxy := (a.proxy.withBuffer (a.proxy.adapter.buffer ++ [b])).settled
        since := a.since ++ [b] } := by
  have hinit : ¬a.proxy.state = .init := fun h => absurd (h ▸ hp) (by decide)
  have hfeed : a.proxy.feed auth b =
      (a.proxy.withBuffer (a.proxy.adapter.buffer ++ [b]), []) := by
    rw [HttpsProxy.feed, if_pos hp]
    rfl
  have hno : ¬(a.proxy.state = .tunnel ∧ a.proxy.state ≠ .tunnel) := fun h => h.2 h.1
  rw [feed_of_heard hinit, hfeed]
  dsimp only
  rw [HttpsProxy.withBuffer_state, if_neg hno, List.append_nil, List.append_nil]
  rfl

theorem feed_inv (h : a.Inv) (b : Byte)
    (hdecimal : b = 10#8 →
      Tunnelling.DecimalLine a.proxy (HttpsProxy.chomp a.proxy.adapter.buffer)) :
    (a.feed auth b).Inv := by
  by_cases hinit : a.proxy.state = .init
  · rw [feed, if_pos hinit]
    exact h
  have hadvance := @advance_feed _ auth _ _ b h.progress hinit hdecimal
  have hprogress := hadvance.progress
  have hprog : Progress (a.feed auth b).proxy.state (a.feed auth b).since
      (a.feed auth b).proxy.adapter.buffer (a.feed auth b).proxy.content_length := by
    rw [feed_of_heard hinit]
    dsimp only
    rw [settled_state, settled_buffer, settled_content_length]
    exact hprogress
  have hchallenges : ∀ response ∈ (a.feed auth b).answered, IsChallenge response := by
    intro response hmem
    rw [feed_of_heard hinit] at hmem
    dsimp only at hmem
    split_ifs at hmem with hany
    · rcases List.mem_append.mp hmem with hmem | hmem
      · exact h.challenges response hmem
      · rw [List.mem_singleton.mp hmem]
        exact hadvance.challenge hany
    · exact h.challenges response hmem
  by_cases hp : a.proxy.state.parsing = false
  · have hfeed := @feed_of_not_parsing _ auth _ hp b
    refine ⟨hprog, hchallenges, ?_, ?_, ?_⟩
    · rw [hfeed]
      dsimp only
      rw [settled_state, settled_buffering]
      split_ifs with htunnel
      · exact hp.symm
      · exact h.buffering
    · rw [hfeed]
      exact h.connect_count.trans (by rw [settled_state]; rfl)
    · rw [hfeed]
      exact h.no_read
  · have hsilent := @silent_feed _ auth _ b (Bool.eq_true_of_not_eq_false hp)
    have hbuffering := h.buffering.trans (Bool.eq_true_of_not_eq_false hp)
    have hnot : a.proxy.state ≠ .tunnel := fun ht => hp (ht ▸ rfl)
    refine ⟨hprog, hchallenges, ?_, ?_, ?_⟩
    · rw [feed_of_heard hinit]
      dsimp only
      rw [settled_state, settled_buffering]
      have hopen := hsilent.buffering hbuffering
      have hclosed := hsilent.closed hbuffering
      have hwait := hsilent.state_ne
      generalize (a.proxy.feed auth b).1 = q at hopen hclosed hwait ⊢
      split_ifs with htunnel
      · rw [htunnel]
        rfl
      · by_cases herror : q.state = .error
        · rw [hclosed herror, herror]
          rfl
        · rw [hopen herror]
          cases hq : q.state with
          | tunnel => exact absurd hq htunnel
          | waitClose => exact absurd hq hwait
          | error => exact absurd hq herror
          | _ => rfl
    · have hcount := h.connect_count
      rw [if_neg hnot] at hcount
      rw [feed_of_heard hinit]
      dsimp only
      rw [settled_state, List.count_append, List.count_append, hcount,
        List.count_eq_zero.mpr hsilent.effects.1]
      split_ifs with h₁ h₂ h₂
      · rfl
      · exact absurd h₁.1 h₂
      · exact absurd ⟨h₂, hnot⟩ h₁
      · rfl
    · rw [feed_of_heard hinit]
      dsimp only
      intro hmem
      rcases List.mem_append.mp hmem with hmem | hmem
      · rcases List.mem_append.mp hmem with hmem | hmem
        · exact h.no_read hmem
        · exact hsilent.effects.2 hmem
      · split_ifs at hmem
        · exact absurd (List.mem_singleton.mp hmem) (by rintro ⟨⟩)
        · exact absurd hmem List.not_mem_nil

/-! ### Several bytes -/

theorem feedAll_cons (a : Attempt Context) (b : Byte) (bytes : List Byte) :
    a.feedAll auth (b :: bytes) = (a.feed auth b).feedAll auth bytes := rfl

theorem feedAll_append (a : Attempt Context) (l l' : List Byte) :
    a.feedAll auth (l ++ l') = (a.feedAll auth l).feedAll auth l' := List.foldl_append

theorem feedAll_of_init (hs : a.proxy.state = .init) (bytes : List Byte) :
    a.feedAll auth bytes = a := by
  induction bytes with
  | nil => rfl
  | cons b bytes ih => rw [feedAll_cons, feed, if_pos hs, ih]

theorem settled_of_ne {p : HttpsProxy Context} (h : p.state ≠ .tunnel) : p.settled = p := by
  rw [HttpsProxy.settled, if_neg h]

theorem settled_withBuffer (p : HttpsProxy Context) (l : List Byte) :
    (p.settled.withBuffer l).settled = (p.withBuffer l).settled := by
  by_cases ht : p.state = .tunnel
  · have hself : p.settled = p.opened.1 := if_pos ht
    have hbuffer : (p.withBuffer l).settled = (p.withBuffer l).opened.1 := if_pos ht
    have htwice : (p.opened.1.withBuffer l).settled = (p.opened.1.withBuffer l).opened.1 :=
      if_pos ht
    rw [hself, hbuffer, htwice]
    rfl
  · rw [settled_of_ne ht]

theorem feedAll_of_tunnel (bytes : List Byte) (a : Attempt Context)
    (ht : a.proxy.state = .tunnel) :
    (a.feedAll auth bytes).proxy.settled =
        (a.proxy.withBuffer (a.proxy.adapter.buffer ++ bytes)).settled ∧
      (a.feedAll auth bytes).log = a.log := by
  induction bytes generalizing a with
  | nil =>
    rw [List.append_nil]
    exact ⟨rfl, rfl⟩
  | cons b bytes ih =>
    have hfeed := @feed_of_not_parsing _ auth a (by rw [ht]; rfl) b
    have hrest := ih (a.feed auth b) (by rw [hfeed]; exact (settled_state _).trans ht)
    rw [feedAll_cons, hrest.1, hrest.2, hfeed]
    refine ⟨?_, rfl⟩
    dsimp only
    rw [settled_withBuffer, settled_buffer]
    exact congrArg HttpsProxy.settled
      (congrArg (HttpsProxy.withBuffer a.proxy) (List.append_assoc _ [b] bytes))

theorem settled_of_buffering {p : HttpsProxy Context} (h : p.adapter.buffering = false) :
    p.settled = p := by
  rw [HttpsProxy.settled]
  split_ifs
  · rcases p with ⟨⟨buffer, size, buffering⟩, dest, agent, headers, n, err, expect, st, ctx, unk⟩
    cases h
    rfl
  · rfl

theorem feedAll_inv_of_not_parsing (bytes : List Byte) (a : Attempt Context) (h : a.Inv)
    (hp : a.proxy.state.parsing = false) :
    (a.feedAll auth bytes).Inv ∧ (a.feedAll auth bytes).proxy.state = a.proxy.state := by
  induction bytes generalizing a with
  | nil => exact ⟨h, rfl⟩
  | cons b bytes ih =>
    have hstate : (a.feed auth b).proxy.state = a.proxy.state := by
      rw [feed_of_not_parsing hp]
      exact settled_state _
    have hfeed := @feed_inv _ auth _ h b fun _ hs => by
      rcases hs with hs | hs <;> exact absurd (hs ▸ hp) (by decide)
    rw [feedAll_cons, ← hstate]
    exact ih (a.feed auth b) hfeed (hstate ▸ hp)

theorem feedAll_eq (bytes : List Byte) (a : Attempt Context) (h : a.Inv)
    (ht : a.proxy.state ≠ .tunnel) (hplain : Tunnelling.PlainBytes auth a.proxy bytes) :
    (a.feedAll auth bytes).Inv ∧
      (a.feedAll auth bytes).proxy = (a.proxy.feedAll auth bytes).1.settled ∧
      (a.feedAll auth bytes).log = a.log ++ (a.proxy.feedAll auth bytes).2 ++
        (if (a.proxy.feedAll auth bytes).1.state = .tunnel then [.signalConnectEvent] else []) := by
  induction bytes generalizing a with
  | nil =>
    refine ⟨h, (settled_of_ne ht).symm, ?_⟩
    rw [HttpsProxy.feedAll, if_neg ht, List.append_nil, List.append_nil]
    rfl
  | cons b bytes ih =>
    obtain ⟨hinit, hdecimal, hplain⟩ := hplain
    have hfeed := @feed_of_heard _ auth _ hinit b
    have hinv := @feed_inv _ auth _ h b hdecimal
    rw [feedAll_cons, HttpsProxy.feedAll]
    by_cases ht' : (a.proxy.feed auth b).1.state = .tunnel
    · -- the tunnel opens here, and the rest is the application's
      have hstate : (a.feed auth b).proxy.state = .tunnel := by
        rw [hfeed]
        exact (settled_state _).trans ht'
      have hp : (a.proxy.feed auth b).1.state.parsing = false := ht' ▸ rfl
      obtain ⟨hend, hends⟩ := @feedAll_inv_of_not_parsing _ auth bytes _ hinv
        (hstate ▸ rfl)
      have hkeep := @feedAll_of_tunnel _ auth bytes _ hstate
      have hoff : ((a.feed auth b).feedAll auth bytes).proxy.adapter.buffering = false :=
        hend.buffering.trans (by rw [hends, hstate]; rfl)
      rw [settled_of_buffering hoff] at hkeep
      refine ⟨hend, ?_, ?_⟩
      · rw [hkeep.1, hfeed, HttpsProxy.feedAll_of_not_parsing hp]
        dsimp only
        rw [settled_withBuffer, settled_buffer]
      · rw [hkeep.2, hfeed, HttpsProxy.feedAll_of_not_parsing hp]
        dsimp only
        rw [HttpsProxy.withBuffer_state, if_pos ⟨ht', ht⟩, if_pos ht', List.append_nil]
    · have hproxy : (a.feed auth b).proxy = (a.proxy.feed auth b).1 := by
        rw [hfeed]
        exact settled_of_ne ht'
      have hlog : (a.feed auth b).log = a.log ++ (a.proxy.feed auth b).2 := by
        rw [hfeed]
        dsimp only
        rw [if_neg fun hc => ht' hc.1, List.append_nil]
      have hrest := ih (a.feed auth b) hinv (hproxy ▸ ht') (hproxy ▸ hplain)
      rw [hproxy, hlog] at hrest
      refine ⟨hrest.1, hrest.2.1, ?_⟩
      rw [hrest.2.2]
      simp only [List.append_assoc]

end Attempt

/-! ### One step of a run -/

namespace HttpsProxy

variable {Context : Type} {auth : Authenticate Context} {p : HttpsProxy Context}

theorem feedAll_line (line : List Byte) (hp : p.state.parsing = true) (hs : p.state ≠ .skipBody)
    (hline : 10#8 ∉ line) : p.feedAll auth line =
      (p.withBuffer (p.adapter.buffer ++ line), []) := by
  induction line generalizing p with
  | nil =>
    rw [feedAll, List.append_nil]
    rfl
  | cons b line ih =>
    rw [List.mem_cons, not_or] at hline
    have hfeed : p.feed auth b = (p.withBuffer (p.adapter.buffer ++ [b]), []) := by
      rw [feed, if_neg (by rw [hp]; decide), if_neg hs, if_pos (Ne.symm hline.1)]
      rfl
    have hrest := ih (p := p.withBuffer (p.adapter.buffer ++ [b])) hp hs hline.2
    rw [feedAll, hfeed]
    dsimp only
    rw [hrest]
    simp [withBuffer]

theorem feedAll_buffered {since : List Byte} (bytes : List Byte)
    (h : Progress p.state since p.adapter.buffer p.content_length)
    (hp : p.state.parsing = true) :
    (p.withBuffer []).feedAll auth (p.adapter.buffer ++ bytes) = p.feedAll auth bytes := by
  obtain ⟨hline, hbody⟩ := h.of_parsing hp
  have hself : p.withBuffer p.adapter.buffer = p := rfl
  by_cases hs : p.state = .skipBody
  · rw [(hbody hs).2, List.nil_append]
    exact congrArg (fun q => feedAll auth q bytes)
      ((congrArg p.withBuffer (hbody hs).2).symm.trans hself)
  · have hfirst := @feedAll_line _ auth (p.withBuffer []) p.adapter.buffer hp hs hline
    rw [feedAll_append, hfirst]
    dsimp only
    rw [List.nil_append]
    rfl

end HttpsProxy

namespace Tunnelling

variable {Context : Type} {auth : Authenticate Context} {w : Tunnelling Context}
  {agent : List Byte} {dest : Destination}

/-- What a run keeps: the socket is where its bytes lead. -/
structure Inv (auth : Authenticate Context) (agent : List Byte) (dest : Destination)
    (w : Tunnelling Context) : Prop where
  proxy_eq : w.proxy = (Attempt.heard auth agent dest w.past w.read).proxy
  log_eq : w.log.filter (· ≠ .signalReadEvent) =
    (Attempt.heard auth agent dest w.past w.read).log
  read_eq : w.read ++ w.socket = w.arrived
  inv : (Attempt.heard auth agent dest w.past w.read).Inv

theorem sound_of_inv (h : w.Inv auth agent dest) : w.Sound auth agent dest := by
  refine ⟨h.proxy_eq, h.log_eq, h.read_eq, ?_, fun ht => ?_, h.inv.challenges⟩
  · have hcount := h.inv.connect_count
    rw [← h.log_eq, List.count_filter (by decide), ← h.proxy_eq] at hcount
    exact hcount
  · have hprogress := h.inv.progress
    rw [← h.proxy_eq, ht] at hprogress
    exact hprogress.of_tunnel

theorem heard_append (past : List (List Byte)) (bytes bytes' : List Byte) :
    Attempt.heard auth agent dest past (bytes ++ bytes') =
      (Attempt.heard auth agent dest past bytes).feedAll auth bytes' :=
  Attempt.feedAll_append _ _ _

theorem connected_inv (h : w.Inv auth agent dest) :
    (w.step auth .connected).Inv auth agent dest := by
  rw [step]
  split_ifs with hs
  · have hinit : (Attempt.heard auth agent dest w.past w.read).proxy.state = .init :=
      h.proxy_eq ▸ hs
    -- what was left in the socket is not heard
    have harrived : Attempt.heard auth agent dest w.past w.arrived =
        Attempt.heard auth agent dest w.past w.read := by
      rw [← h.read_eq, heard_append, Attempt.feedAll_of_init hinit]
    have hnew : Attempt.heard auth agent dest (w.past ++ [w.arrived]) [] =
        (Attempt.heard auth agent dest w.past w.read).connected := by
      rw [← harrived, Attempt.heard, List.foldl_append]
      rfl
    refine ⟨?_, ?_, rfl, ?_⟩
    · show w.proxy.sendRequest.1 = (Attempt.heard auth agent dest (w.past ++ [w.arrived]) []).proxy
      rw [hnew, h.proxy_eq]
      rfl
    · show (w.log ++ [ProxyEffect.send w.proxy.request]).filter _ =
        (Attempt.heard auth agent dest (w.past ++ [w.arrived]) []).log
      rw [hnew, List.filter_append, h.log_eq, h.proxy_eq]
      rfl
    · show (Attempt.heard auth agent dest (w.past ++ [w.arrived]) []).Inv
      rw [hnew]
      exact Attempt.connected_inv h.inv hinit
  · exact h

theorem arrive_inv (h : w.Inv auth agent dest) (bytes : List Byte) :
    (w.step auth (.arrive bytes)).Inv auth agent dest := by
  rw [step]
  split_ifs
  · refine ⟨h.proxy_eq, h.log_eq, ?_, h.inv⟩
    show w.read ++ (w.socket ++ bytes) = w.arrived ++ bytes
    rw [← List.append_assoc, h.read_eq]
  · exact h

theorem processInput_read {since : List Byte} (bytes : List Byte) {p q : HttpsProxy Context}
    (hq : q = p.withBuffer (p.adapter.buffer ++ bytes))
    (h : Progress p.state since p.adapter.buffer p.content_length)
    (hp : p.state.parsing = true) :
    (q.processInput auth).1 = (p.feedAll auth bytes).1.settled ∧
      (.signalReadEvent ∉ (p.feedAll auth bytes).2 →
        (q.processInput auth).2.filter (· ≠ .signalReadEvent) = (p.feedAll auth bytes).2 ++
          if (p.feedAll auth bytes).1.state = .tunnel then [.signalConnectEvent] else []) := by
  have hskip : q.Skipping [] := by
    rw [hq]
    exact fun hs => ⟨((h.of_parsing hp).2 hs).1, rfl⟩
  have hbuffered := @HttpsProxy.feedAll_buffered _ auth _ _ bytes h hp
  have hinput : q.processInput auth =
      (let r := p.feedAll auth bytes
      if r.1.state = .tunnel then (r.1.opened.1, r.2 ++ r.1.opened.2) else r) := by
    rw [HttpsProxy.processInput_eq q hskip, ← hbuffered, hq]
    rfl
  rw [hinput]
  generalize p.feedAll auth bytes = r
  dsimp only
  have hfilter : .signalReadEvent ∉ r.2 → r.2.filter (· ≠ .signalReadEvent) = r.2 := by
    intro hno
    refine List.filter_eq_self.mpr fun e he => decide_eq_true fun heq => hno (heq ▸ he)
  split_ifs with ht
  · refine ⟨(if_pos ht).symm, fun hno => ?_⟩
    rw [List.filter_append, hfilter hno, HttpsProxy.opened]
    split_ifs <;> rfl
  · refine ⟨(if_neg ht).symm, fun hno => ?_⟩
    rw [hfilter hno, List.append_nil]

theorem readEvent_idle (h : w.Inv auth agent dest) :
    Inv auth agent dest { w with
      proxy := w.proxy, socket := w.socket, log := w.log ++ []
      read := w.read ++ w.socket.take (w.socket.length - w.socket.length) } := by
  rw [Nat.sub_self, List.take_zero, List.append_nil, List.append_nil]
  exact h

theorem readEvent_inv (h : w.Inv auth agent dest) (res : Option ℕ)
    (hshort : w.Short (.readEvent res)) (hplain : w.Plain auth (.readEvent res)) :
    (w.step auth (.readEvent res)).Inv auth agent dest := by
  rw [step]
  split_ifs with hopen
  swap
  · exact h
  cases hb : w.proxy.adapter.buffering with
  | false =>
    have hidle : w.proxy.onReadEvent auth w.socket res = (w.proxy, w.socket, []) := by
      rw [HttpsProxy.onReadEvent, BufferedReadAdapter.onReadEvent, hb]
      rfl
    rw [hidle]
    exact readEvent_idle h
  | true =>
    have hroom : w.proxy.adapter.room = w.proxy.adapter := by
      rw [BufferedReadAdapter.room, if_neg (Nat.not_le.mpr (hshort hopen hb))]
    cases res with
    | none =>
      have hidle : w.proxy.onReadEvent auth w.socket none = (w.proxy, w.socket, []) := by
        rw [HttpsProxy.onReadEvent, BufferedReadAdapter.onReadEvent, hb, if_pos rfl, hroom]
        rfl
      rw [hidle]
      exact readEvent_idle h
    | some n =>
      -- the bytes of the read are parsed, as they are one by one
      set m := min n (w.proxy.adapter.bufferSize - w.proxy.adapter.dataLen) with hm
      have hparsing : w.proxy.state.parsing = true := by
        rw [h.proxy_eq] at hb ⊢
        exact h.inv.buffering.symm.trans hb
      have hprogress := h.inv.progress
      rw [← h.proxy_eq] at hprogress
      have hne : w.proxy.state ≠ .tunnel := fun ht => absurd (ht ▸ hparsing) (by decide)
      have hbytes : PlainBytes auth w.proxy (w.socket.take m) := hplain hopen hb
      have hfeed := @Attempt.feedAll_eq _ auth (w.socket.take m) _ h.inv
        (h.proxy_eq ▸ hne) (h.proxy_eq ▸ hbytes)
      rw [← heard_append, ← h.proxy_eq] at hfeed
      have hread : w.proxy.onReadEvent auth w.socket (some n) =
          (((w.proxy.withBuffer (w.proxy.adapter.buffer ++ w.socket.take m)).processInput auth).1,
            w.socket.drop m,
            ((w.proxy.withBuffer (w.proxy.adapter.buffer ++ w.socket.take m)).processInput
              auth).2) := by
        rw [HttpsProxy.onReadEvent, BufferedReadAdapter.onReadEvent, hb, if_pos rfl, hroom]
        rfl
      have htake : w.socket.take (w.socket.length - (w.socket.drop m).length) =
          w.socket.take m := by
        rw [List.length_drop, List.take_eq_take_iff]
        omega
      have hno : ProxyEffect.signalReadEvent ∉ (w.proxy.feedAll auth (w.socket.take m)).2 := by
        intro hmem
        apply hfeed.1.no_read
        rw [hfeed.2.2]
        exact List.mem_append_left _ (List.mem_append_right _ hmem)
      obtain ⟨hproxy, heffects⟩ := @processInput_read _ auth _ (w.socket.take m)
        w.proxy _ rfl hprogress hparsing
      rw [hread]
      dsimp only
      rw [htake]
      refine ⟨?_, ?_, ?_, hfeed.1⟩
      · exact hproxy.trans hfeed.2.1.symm
      · show (w.log ++ _).filter _ = _
        rw [List.filter_append, h.log_eq, heffects hno, hfeed.2.2, List.append_assoc]
      · show w.read ++ w.socket.take m ++ w.socket.drop m = w.arrived
        rw [List.append_assoc, List.take_append_drop, h.read_eq]

theorem step_inv (h : w.Inv auth agent dest) (e : TunnelEvent) (hshort : w.Short e)
    (hplain : w.Plain auth e) : (w.step auth e).Inv auth agent dest := by
  cases e with
  | connected => exact connected_inv h
  | arrive bytes => exact arrive_inv h bytes
  | readEvent res => exact readEvent_inv h res hshort hplain

theorem run_inv (es : List TunnelEvent) (w : Tunnelling Context) (h : w.Inv auth agent dest)
    (hshort : Along auth Short w es) (hplain : Along auth (Plain auth) w es) :
    (w.run auth es).Inv auth agent dest := by
  induction es generalizing w with
  | nil => exact h
  | cons e es ih =>
    exact ih (w.step auth e) (step_inv h e hshort.1 hplain.1) hshort.2 hplain.2

/-- **Tunnelling is sound, and the same for every split**, where nothing follows a
response that ends its connection. -/
theorem tunnelling_sound (auth : Authenticate Context) (agent : List Byte) (dest : Destination)
    (es : List TunnelEvent) (hshort : Along auth Short (start agent dest) es)
    (hplain : Along auth (Plain auth) (start agent dest) es) :
    ((start agent dest).run auth es).Sound auth agent dest :=
  sound_of_inv (run_inv es _ ⟨rfl, rfl, rfl, Attempt.start_inv agent dest⟩ hshort hplain)

set_option maxRecDepth 8000 in
/-- A tunnel that opens after a challenge whose body has ten bytes, read in two parts. -/
theorem tunnelling_sound_basic :
    ((start [] .clear).run (fun (_ : Option Unit) _ => (.response [65#8], none))
      [.connected,
        .arrive (textBytes "HTTP/1.0 407\nProxy-Authenticate:\nContent-Length: 10\n\n01234"),
        .readEvent (some 1024), .arrive (textBytes "56789"), .readEvent (some 1024), .connected,
        .arrive (textBytes "HTTP/1.0 200\n\n<"), .readEvent (some 1024)]).Sound
      (fun _ _ => (.response [65#8], none)) [] .clear := by
  refine tunnelling_sound _ [] .clear _ ?_ ?_
  · exact ⟨trivial, trivial, fun _ _ => by decide, trivial, fun _ _ => by decide, trivial,
      trivial, fun _ _ => by decide, trivial⟩
  · exact ⟨trivial, trivial, fun _ _ => by decide, trivial, fun _ _ => by decide, trivial,
      trivial, fun _ _ => by decide, trivial⟩

set_option maxRecDepth 8000 in
/-- **A return behind a 407**, read with it: the attempt ends, where a split in front of
the return lets it go on. -/
theorem not_sound_split :
    ¬∀ (auth : Authenticate Unit) (agent : List Byte) (dest : Destination)
      (es : List TunnelEvent), Along auth Short (start agent dest) es →
        ((start agent dest).run auth es).Sound auth agent dest := by
  intro h
  have hsound := h (fun _ _ => (.response [], none)) [] .clear
    [.connected, .arrive (textBytes "HTTP/0.0 407\nProxy-Authenticate:\n\n\n"),
      .readEvent (some 1024)]
    ⟨trivial, trivial, fun _ _ => by decide, trivial⟩
  have hstate := congrArg HttpsProxy.state hsound.proxy_eq
  exact absurd hstate (by decide)

end Tunnelling

end Jingle.Proxy
