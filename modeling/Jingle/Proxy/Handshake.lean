/-
The SOCKS5 handshake between this client and this server.

The two sockets are joined by two byte streams that are delivered in any chunks.  The
server takes the first of the offered methods and leaves the rest of the offer in its
buffer, and it takes a message that has not arrived whole for an error, so the
handshake succeeds exactly when the client has no user name and no message to the
server is split: `socks_iff`.  It then ends with the request for the destination, one
connect event, and nothing of the handshake left for an application.
-/
import Jingle.Proxy.Socks

namespace Jingle.Proxy

/-- The two sockets, the bytes under way between them, the requests that the server
raised, the connect events of the client, and what the two applications sent. -/
structure Exchange where
  client : AsyncSocksProxySocket
  server : AsyncSocksProxyServerSocket
  toServer : Incoming
  toClient : Incoming
  requests : List (Word × BitVec 16)
  connects : ℕ
  clientData : List Byte
  serverData : List Byte

inductive ExchangeEvent
  /-- The connection to the proxy is up. -/
  | connected
  /-- The next `n` bytes arrive at the server, or those that there are. -/
  | deliverToServer (n : ℕ)
  | deliverToClient (n : ℕ)
  /-- The server's application calls `SendConnectResult(0, addr)`. -/
  | accept (addr : SocketAddress)
  | clientSends (data : List Byte)
  | serverSends (data : List Byte)

namespace Exchange

def start (user pass : List Byte) (dest : SocketAddress) : Exchange :=
  ⟨.connecting user pass dest, .create, [], [], [], 0, [], []⟩

def clientEffect (w : Exchange) : SocketEffect → Exchange
  | .send bytes => { w with toServer := w.toServer ++ bytes }
  | .signalConnectEvent => { w with connects := w.connects + 1 }
  | _ => w

def serverEffect (w : Exchange) : SocketEffect → Exchange
  | .send bytes => { w with toClient := w.toClient ++ bytes }
  | .signalConnectRequest ip port => { w with requests := w.requests ++ [(ip, port)] }
  | _ => w

def fromClient (w : Exchange) (r : AsyncSocksProxySocket × List SocketEffect) : Exchange :=
  r.2.foldl clientEffect { w with client := r.1 }

def fromServer (w : Exchange) (r : AsyncSocksProxyServerSocket × List SocketEffect) : Exchange :=
  r.2.foldl serverEffect { w with server := r.1 }

/-- One event.  An application sends while its tunnel is open. -/
def step (w : Exchange) : ExchangeEvent → Exchange
  | .connected => if w.client.state = .init then w.fromClient w.client.onConnectEvent else w
  | .deliverToServer n =>
    if n = 0 ∨ w.toServer = [] then w
    else
      let r := w.server.onReadEvent w.toServer (some n)
      { w with toServer := r.2.1 }.fromServer (r.1, r.2.2)
  | .deliverToClient n =>
    if n = 0 ∨ w.toClient = [] then w
    else
      let r := w.client.onReadEvent w.toClient (some n)
      { w with toClient := r.2.1 }.fromClient (r.1, r.2.2)
  | .accept addr => w.fromServer (w.server.sendConnectResult 0 addr)
  | .clientSends data =>
    if w.client.state = .tunnel then
      { w with toServer := w.toServer ++ data, clientData := w.clientData ++ data }
    else w
  | .serverSends data =>
    if w.server.state = .tunnel then
      { w with toClient := w.toClient ++ data, serverData := w.serverData ++ data }
    else w

def run (w : Exchange) (es : List ExchangeEvent) : Exchange := es.foldl step w

/-- **The handshake succeeded**: one request, for the destination, one connect event,
and in front of each application what the other one sent. -/
structure Interoperates (w : Exchange) (dest : SocketAddress) : Prop where
  requests : w.requests = [(dest.ip, dest.port)]
  connects : w.connects = 1
  client : w.client.adapter.buffer ++ w.toClient = w.serverData
  server : w.server.adapter.buffer ++ w.toServer = w.clientData

/-- Nothing of the handshake is left to do. -/
structure Complete (w : Exchange) : Prop where
  connected : w.client.state ≠ .init
  server : w.server.adapter.buffering = true → w.toServer = []
  client : w.client.adapter.buffering = true → w.toClient = []
  answered : w.server.state ≠ .connectPending

/-- The event delivers a part of a message to a server that waits for one. -/
def Splits (w : Exchange) : ExchangeEvent → Prop
  | .deliverToServer n => w.server.adapter.buffering = true ∧ 0 < n ∧ n < w.toServer.length
  | _ => False

/-- No event of a run splits a message to the server. -/
def Whole : Exchange → List ExchangeEvent → Prop
  | _, [] => True
  | w, e :: es => ¬w.Splits e ∧ Whole (w.step e) es

theorem run_cons (w : Exchange) (e : ExchangeEvent) (es : List ExchangeEvent) :
    w.run (e :: es) = (w.step e).run es := rfl

/-! ### The stages of a handshake that goes well -/

/-- The answer of the server, with any bound address. -/
def reply (addr : SocketAddress) : List Byte :=
  AsyncSocksProxyServerSocket.connectReply 0 addr

theorem length_reply (addr : SocketAddress) : (reply addr).length = 10 := rfl

section Stages

variable (pass : List Byte) (dest : SocketAddress)

/-- The client without a user name. -/
def clientAt (state : SocksState) (buffer : List Byte) (buffering : Bool) :
    AsyncSocksProxySocket :=
  ⟨⟨buffer, 1024, buffering⟩, state, dest, [], pass⟩

def serverAt (state : SocksServerState) (buffer : List Byte) (buffering : Bool) :
    AsyncSocksProxyServerSocket :=
  ⟨⟨buffer, 1024, buffering⟩, state⟩

inductive Stage : Exchange → Prop
  | idle : Stage ⟨clientAt pass dest .init [] true, serverAt .hello [] true, [], [], [], 0, [], []⟩
  | offered : Stage ⟨clientAt pass dest .hello [] true, serverAt .hello [] true, [5, 1, 0], [],
      [], 0, [], []⟩
  | chosen (got rest : List Byte) : got ++ rest = [5, 0] → got.length < 2 →
      Stage ⟨clientAt pass dest .hello got true, serverAt .connect [] true, [], rest, [], 0, [], []⟩
  | asked : Stage ⟨clientAt pass dest .connect [] true, serverAt .connect [] true,
      5 :: 1 :: 0 :: 1 :: be32 dest.ip ++ be16 dest.port, [], [], 0, [], []⟩
  | pending : Stage ⟨clientAt pass dest .connect [] true, serverAt .connectPending [] true, [], [],
      [(dest.ip, dest.port)], 0, [], []⟩
  | accepted (addr : SocketAddress) (got rest data : List Byte) :
      got ++ rest = reply addr ++ data → got.length < 10 →
      Stage ⟨clientAt pass dest .connect got true, serverAt .tunnel [] false, [], rest,
        [(dest.ip, dest.port)], 0, [], data⟩
  | opened (got rest data : List Byte) :
      Stage ⟨clientAt pass dest .tunnel got false, serverAt .tunnel [] false, data, rest,
        [(dest.ip, dest.port)], 1, data, got ++ rest⟩

end Stages

/-! ### One event -/

variable {pass : List Byte} {dest : SocketAddress} {w : Exchange} {e : ExchangeEvent}

theorem processInput_part (pass : List Byte) (dest addr : SocketAddress) {k : ℕ} (hk : k < 10) :
    (clientAt pass dest .connect ((reply addr).take k) true).processInput =
      (clientAt pass dest .connect ((reply addr).take k) true, []) := by
  interval_cases k <;> rfl

theorem processInput_reply (pass : List Byte) (dest addr : SocketAddress) (more : List Byte) :
    (clientAt pass dest .connect (reply addr ++ more) true).processInput =
      (clientAt pass dest .tunnel more false,
        if more = [] then [.signalConnectEvent] else [.signalConnectEvent, .signalReadEvent]) :=
  rfl

theorem deliverToClient_eq (w : Exchange) {n : ℕ} (hn : n ≠ 0) (hne : w.toClient ≠ [])
    {buffer : List Byte} {state : SocksState} (hc : w.client = clientAt pass dest state buffer true)
    (hlen : buffer.length < 1024) :
    ∃ m, 0 < m ∧ w.step (.deliverToClient n) = { w with toClient := w.toClient.drop m }.fromClient
      (clientAt pass dest state (buffer ++ w.toClient.take m) true).processInput := by
  refine ⟨min n (1024 - buffer.length), by omega, ?_⟩
  have hroom : ¬1024 ≤ buffer.length := by omega
  simp only [step, hn, hne, or_self, if_false, hc, AsyncSocksProxySocket.onReadEvent,
    BufferedReadAdapter.onReadEvent, BufferedReadAdapter.room, BufferedReadAdapter.dataLen, clientAt,
    hroom, if_true, Incoming.recv]

theorem deliverToServer_eq (w : Exchange) {n : ℕ} (hn : n ≠ 0) (hne : w.toServer ≠ [])
    {buffer : List Byte} {state : SocksServerState} (hs : w.server = serverAt state buffer true)
    (hlen : buffer.length < 1024) :
    ∃ m, 0 < m ∧ m ≤ n ∧ (w.toServer.length ≤ n → buffer.length + w.toServer.length ≤ 1024 →
        w.toServer.length ≤ m) ∧
      w.step (.deliverToServer n) = { w with toServer := w.toServer.drop m }.fromServer
        (serverAt state (buffer ++ w.toServer.take m) true).processInput := by
  refine ⟨min n (1024 - buffer.length), by omega, by omega, by omega, ?_⟩
  have hroom : ¬1024 ≤ buffer.length := by omega
  simp only [step, hn, hne, or_self, if_false, hs, AsyncSocksProxyServerSocket.onReadEvent,
    BufferedReadAdapter.onReadEvent, BufferedReadAdapter.room, BufferedReadAdapter.dataLen, serverAt,
    hroom, if_true, Incoming.recv]

theorem step_deliverToClient_none {n : ℕ} (h : n = 0 ∨ w.toClient = []) :
    w.step (.deliverToClient n) = w := by
  rw [step, if_pos h]

theorem step_deliverToServer_none {n : ℕ} (h : n = 0 ∨ w.toServer = []) :
    w.step (.deliverToServer n) = w := by
  rw [step, if_pos h]

theorem fromClient_chosen (hdest : dest.isUnresolved = false) (c : AsyncSocksProxySocket) :
    (⟨c, serverAt .connect [] true, [], [], [], 0, [], []⟩ : Exchange).fromClient (clientAt pass dest .hello [5, 0] true).processInput =
    ⟨clientAt pass dest .connect [] true, serverAt .connect [] true,
      5 :: 1 :: 0 :: 1 :: be32 dest.ip ++ be16 dest.port, [], [], 0, [], []⟩ := by
  have hreq : (clientAt pass dest .hello [5, 0] true).connectRequest =
      .connectIp dest.ip dest.port := by
    rw [AsyncSocksProxySocket.connectRequest, if_neg (by simp [clientAt, hdest])]
    rfl
  have hin : (clientAt pass dest .hello [5, 0] true).processInput =
      (clientAt pass dest .connect [] true,
        [.send (clientAt pass dest .hello [5, 0] true).connectRequest.bytes]) := rfl
  rw [hin, hreq]
  rfl

theorem deliverToClient_chosen (hdest : dest.isUnresolved = false) {got rest : List Byte}
    (heq : got ++ rest = [5, 0]) (hlen : got.length < 2) (n : ℕ) :
    Stage pass dest ((⟨clientAt pass dest .hello got true, serverAt .connect [] true, [], rest, [],
      0, [], []⟩ : Exchange).step (.deliverToClient n)) := by
  by_cases hn : n = 0 ∨ rest = []
  · rw [step_deliverToClient_none hn]
    exact .chosen got rest heq hlen
  · obtain ⟨hn, hrest⟩ := not_or.mp hn
    obtain ⟨m, hm, hstep⟩ := deliverToClient_eq (n := n) (⟨clientAt pass dest .hello got true,
      serverAt .connect [] true, [], rest, [], 0, [], []⟩ : Exchange) hn hrest rfl (by omega)
    rw [hstep]
    have hsplit : got ++ rest.take m ++ rest.drop m = [5, 0] := by
      rw [List.append_assoc, List.take_append_drop, heq]
    by_cases hshort : (got ++ rest.take m).length < 2
    · -- one byte of two: the client waits
      have hwait : (clientAt pass dest .hello (got ++ rest.take m) true).processInput =
          (clientAt pass dest .hello (got ++ rest.take m) true, []) := by
        match got ++ rest.take m, hshort with
        | [], _ => rfl
        | [_], _ => rfl
      rw [hwait]
      exact .chosen _ _ hsplit hshort
    · have hall : got ++ rest.take m = [5, 0] ∧ rest.drop m = [] := by
        have hlength := congrArg List.length hsplit
        rw [List.length_append] at hlength
        have hnil : rest.drop m = [] := by
          rw [← List.length_eq_zero_iff]
          have htwo : ([5, 0] : List Byte).length = 2 := rfl
          omega
        rw [hnil, List.append_nil] at hsplit
        exact ⟨hsplit, hnil⟩
      simp only [hall.1, hall.2, fromClient_chosen hdest]
      exact .asked

theorem deliverToClient_accepted {addr : SocketAddress} {got rest data : List Byte}
    (heq : got ++ rest = reply addr ++ data) (hlen : got.length < 10) (n : ℕ) :
    Stage pass dest ((⟨clientAt pass dest .connect got true, serverAt .tunnel [] false, [], rest,
      [(dest.ip, dest.port)], 0, [], data⟩ : Exchange).step (.deliverToClient n)) := by
  by_cases hn : n = 0 ∨ rest = []
  · rw [step_deliverToClient_none hn]
    exact .accepted addr got rest data heq hlen
  · obtain ⟨hn, hrest⟩ := not_or.mp hn
    obtain ⟨m, hm, hstep⟩ := deliverToClient_eq (n := n) (⟨clientAt pass dest .connect got true,
      serverAt .tunnel [] false, [], rest, [(dest.ip, dest.port)], 0, [], data⟩ : Exchange)
      hn hrest rfl (by omega)
    rw [hstep]
    have hsplit : got ++ rest.take m ++ rest.drop m = reply addr ++ data := by
      rw [List.append_assoc, List.take_append_drop, heq]
    by_cases hshort : (got ++ rest.take m).length < 10
    · -- a part of the answer: the client waits
      have hpart : got ++ rest.take m = (reply addr).take (got ++ rest.take m).length := by
        have htake := congrArg (List.take (got ++ rest.take m).length) hsplit
        rwa [List.take_left, List.take_append_of_le_length (by rw [length_reply]; omega)] at htake
      have hwait := processInput_part pass dest addr hshort
      rw [← hpart] at hwait
      rw [hwait]
      exact .accepted addr _ _ data hsplit hshort
    · obtain ⟨more, hmore⟩ : ∃ more, got ++ rest.take m = reply addr ++ more := by
        have htake := congrArg (List.take 10) hsplit
        rw [List.take_append_of_le_length (by omega), ← length_reply addr, List.take_left] at htake
        exact ⟨_, by rw [← htake, List.take_append_drop]⟩
      have hdata : more ++ rest.drop m = data := by
        rw [hmore, List.append_assoc] at hsplit
        exact List.append_cancel_left hsplit
      rw [hmore, processInput_reply, ← hdata]
      by_cases hnil : more = []
      · rw [if_pos hnil]
        exact .opened more _ []
      · rw [if_neg hnil]
        exact .opened more _ []

theorem deliverToServer_offered {n : ℕ} (hn : n ≠ 0)
    (hsplit : ¬Splits (⟨clientAt pass dest .hello [] true, serverAt .hello [] true, [5, 1, 0], [],
      [], 0, [], []⟩ : Exchange) (.deliverToServer n)) :
    Stage pass dest ((⟨clientAt pass dest .hello [] true, serverAt .hello [] true, [5, 1, 0], [],
      [], 0, [], []⟩ : Exchange).step (.deliverToServer n)) := by
  have hall : 3 ≤ n := by
    by_contra hlt
    exact hsplit ⟨rfl, Nat.pos_of_ne_zero hn, by simpa using hlt⟩
  obtain ⟨m, -, -, hm, hstep⟩ := deliverToServer_eq (n := n) (⟨clientAt pass dest .hello [] true,
    serverAt .hello [] true, [5, 1, 0], [], [], 0, [], []⟩ : Exchange) hn (by simp) rfl (Nat.zero_lt_succ _)
  have hlen : ([5, 1, 0] : List Byte).length ≤ m := hm hall (by simp)
  rw [hstep]
  simp only [List.take_of_length_le hlen, List.drop_of_length_le hlen, List.nil_append]
  exact .chosen [] [5, 0] rfl (by decide)

theorem deliverToServer_asked {n : ℕ} (hn : n ≠ 0)
    (hsplit : ¬Splits (⟨clientAt pass dest .connect [] true, serverAt .connect [] true,
      5 :: 1 :: 0 :: 1 :: be32 dest.ip ++ be16 dest.port, [], [], 0, [], []⟩ : Exchange)
      (.deliverToServer n)) :
    Stage pass dest ((⟨clientAt pass dest .connect [] true, serverAt .connect [] true,
      5 :: 1 :: 0 :: 1 :: be32 dest.ip ++ be16 dest.port, [], [], 0, [], []⟩ : Exchange).step
      (.deliverToServer n)) := by
  have hall : 10 ≤ n := by
    by_contra hlt
    exact hsplit ⟨rfl, Nat.pos_of_ne_zero hn, by simpa using hlt⟩
  obtain ⟨m, -, -, hm, hstep⟩ := deliverToServer_eq (n := n) (⟨clientAt pass dest .connect [] true,
    serverAt .connect [] true, 5 :: 1 :: 0 :: 1 :: be32 dest.ip ++ be16 dest.port, [], [], 0, [],
    []⟩ : Exchange) hn (by simp) rfl (Nat.zero_lt_succ _)
  have hlen : (5 :: 1 :: 0 :: 1 :: be32 dest.ip ++ be16 dest.port : List Byte).length ≤ m :=
    hm hall (by simp)
  have hread : AsyncSocksProxyServerSocket.readConnect
      (5 :: 1 :: 0 :: 1 :: be32 dest.ip ++ be16 dest.port) =
        .ok ((5, 1, 0, 1), dest.ip, dest.port, []) := by
    have hport := @readUInt16_be16 [] dest.port
    rw [List.append_nil] at hport
    simp only [AsyncSocksProxyServerSocket.readConnect, AsyncSocksProxyServerSocket.need,
      List.cons_append, readUInt8_cons, readUInt32_be32, hport, bind, Except.bind, pure,
      Except.pure]
  have hin : (serverAt .connect (5 :: 1 :: 0 :: 1 :: be32 dest.ip ++ be16 dest.port)
      true).processInput =
      (serverAt .connectPending [] true, [.signalConnectRequest dest.ip dest.port]) := by
    simp only [AsyncSocksProxyServerSocket.processInput, serverAt,
      AsyncSocksProxyServerSocket.handleConnect, hread]
    rfl
  rw [hstep]
  simp only [List.take_of_length_le hlen, List.drop_of_length_le hlen, List.nil_append, hin]
  exact .pending

theorem Stage.step (hdest : dest.isUnresolved = false) (h : Stage pass dest w)
    (hsplit : ¬w.Splits e) : Stage pass dest (w.step e) := by
  cases e with
  | connected =>
    cases h with
    | idle => exact .offered
    | offered => exact .offered
    | chosen got rest heq hlen => exact .chosen got rest heq hlen
    | asked => exact .asked
    | pending => exact .pending
    | accepted addr got rest data heq hlen => exact .accepted addr got rest data heq hlen
    | opened got rest data => exact .opened got rest data
  | deliverToServer n =>
    by_cases hn : n = 0 ∨ w.toServer = []
    · rwa [step_deliverToServer_none hn]
    · obtain ⟨hn₀, hne⟩ := not_or.mp hn
      cases h with
      | idle => exact absurd rfl hne
      | offered => exact deliverToServer_offered hn₀ hsplit
      | chosen got rest heq hlen => exact absurd rfl hne
      | asked => exact deliverToServer_asked hn₀ hsplit
      | pending => exact absurd rfl hne
      | accepted addr got rest data heq hlen => exact absurd rfl hne
      | opened got rest data =>
        rw [Exchange.step, if_neg hn]
        exact .opened got rest data
  | deliverToClient n =>
    cases h with
    | idle => 
      rw [step_deliverToClient_none (.inr rfl)]
      exact .idle
    | offered => 
      rw [step_deliverToClient_none (.inr rfl)]
      exact .offered
    | chosen got rest heq hlen => exact deliverToClient_chosen hdest heq hlen n
    | asked =>
      rw [step_deliverToClient_none (.inr rfl)]
      exact .asked
    | pending =>
      rw [step_deliverToClient_none (.inr rfl)]
      exact .pending
    | accepted addr got rest data heq hlen => exact deliverToClient_accepted heq hlen n
    | opened got rest data =>
      by_cases hn : n = 0 ∨ rest = []
      · rw [step_deliverToClient_none hn]
        exact .opened got rest data
      · rw [Exchange.step, if_neg hn]
        exact .opened got rest data
  | accept addr =>
    cases h with
    | idle => exact .idle
    | offered => exact .offered
    | chosen got rest heq hlen => exact .chosen got rest heq hlen
    | asked => exact .asked
    | pending => exact .accepted addr [] _ [] (by simp; rfl) (by decide)
    | accepted addr got rest data heq hlen => exact .accepted addr got rest data heq hlen
    | opened got rest data => exact .opened got rest data
  | clientSends data =>
    cases h with
    | idle => exact .idle
    | offered => exact .offered
    | chosen got rest heq hlen => exact .chosen got rest heq hlen
    | asked => exact .asked
    | pending => exact .pending
    | accepted addr got rest data heq hlen => exact .accepted addr got rest data heq hlen
    | opened got rest data => exact .opened got rest _
  | serverSends data =>
    cases h with
    | idle => exact .idle
    | offered => exact .offered
    | chosen got rest heq hlen => exact .chosen got rest heq hlen
    | asked => exact .asked
    | pending => exact .pending
    | accepted addr got rest sent heq hlen =>
      exact .accepted addr got (rest ++ data) (sent ++ data) (by simp [← List.append_assoc, heq]) hlen
    | opened got rest sent => 
      have := @Stage.opened pass dest got (rest ++ data) sent
      rw [← List.append_assoc] at this
      exact this

/-! ### A handshake that has failed -/

/-- The server has given up without a request. -/
def Lost (w : Exchange) : Prop := w.requests = [] ∧ w.server.state = .error

/-- What the client does: the server and its requests stay, and bytes are added to the
stream to the server. -/
structure Frame (w v : Exchange) : Prop where
  server : v.server = w.server
  requests : v.requests = w.requests
  toServer : ∃ more, v.toServer = w.toServer ++ more

theorem Frame.refl (w : Exchange) : Frame w w := ⟨rfl, rfl, [], (List.append_nil _).symm⟩

theorem fromClient_frame (w : Exchange) (r : AsyncSocksProxySocket × List SocketEffect) :
    Frame w (w.fromClient r) := by
  have hfold : ∀ (fx : List SocketEffect) (v : Exchange), Frame w v →
      Frame w (fx.foldl clientEffect v) := by
    intro fx
    induction fx with
    | nil => exact fun v h => h
    | cons e fx ih =>
      intro v h
      refine ih _ ?_
      cases e with
      | send bytes =>
        obtain ⟨more, hmore⟩ := h.toServer
        exact ⟨h.server, h.requests, more ++ bytes, by
          rw [← List.append_assoc, ← hmore]
          rfl⟩
      | close => exact h
      | signalConnectEvent => exact ⟨h.server, h.requests, h.toServer⟩
      | signalReadEvent => exact h
      | signalCloseEvent error => exact h
      | signalConnectRequest ip port => exact h
  exact hfold r.2 _ ⟨rfl, rfl, [], (List.append_nil _).symm⟩

theorem step_frame (w : Exchange) (e : ExchangeEvent) (hs : ∀ n, e ≠ .deliverToServer n)
    (ha : ∀ addr, e ≠ .accept addr) : Frame w (w.step e) := by
  cases e with
  | connected =>
    rw [step]
    split_ifs
    · exact fromClient_frame _ _
    · exact .refl w
  | deliverToServer n => exact absurd rfl (hs n)
  | deliverToClient n =>
    rw [step]
    split_ifs
    · exact .refl w
    · obtain ⟨hserver, hrequests, hto⟩ := fromClient_frame
        { w with toClient := (w.client.onReadEvent w.toClient (some n)).2.1 }
        ((w.client.onReadEvent w.toClient (some n)).1, (w.client.onReadEvent w.toClient (some n)).2.2)
      exact ⟨hserver, hrequests, hto⟩
  | accept addr => exact absurd rfl (ha addr)
  | clientSends data =>
    rw [step]
    split_ifs
    · exact ⟨rfl, rfl, data, rfl⟩
    · exact .refl w
  | serverSends data =>
    rw [step]
    split_ifs
    · exact ⟨rfl, rfl, [], (List.append_nil _).symm⟩
    · exact .refl w

theorem accept_of_not_pending (h : w.server.state ≠ .connectPending) (addr : SocketAddress) :
    w.step (.accept addr) = w := by
  rw [step, AsyncSocksProxyServerSocket.sendConnectResult, if_pos h]
  rfl

theorem Lost.step (h : Lost w) (e : ExchangeEvent) : Lost (w.step e) := by
  obtain ⟨hreq, hstate⟩ := h
  by_cases hs : ∃ n, e = .deliverToServer n
  · obtain ⟨n, rfl⟩ := hs
    by_cases hn : n = 0 ∨ w.toServer = []
    · rw [step_deliverToServer_none hn]
      exact ⟨hreq, hstate⟩
    · -- a server in the state of an error takes no message
      simp only [Exchange.step, if_neg hn, AsyncSocksProxyServerSocket.onReadEvent]
      split
      · exact ⟨hreq, hstate⟩
      · simp only [AsyncSocksProxyServerSocket.processInput, hstate]
        exact ⟨hreq, rfl⟩
  · by_cases ha : ∃ addr, e = .accept addr
    · obtain ⟨addr, rfl⟩ := ha
      rw [accept_of_not_pending (by rw [hstate]; decide)]
      exact ⟨hreq, hstate⟩
    · obtain ⟨hserver, hrequests, -⟩ := step_frame w e (fun n hn => hs ⟨n, hn⟩)
        (fun addr haddr => ha ⟨addr, haddr⟩)
      exact ⟨hrequests.trans hreq, by rw [hserver]; exact hstate⟩

theorem Lost.run (h : Lost w) (es : List ExchangeEvent) : Lost (w.run es) := by
  induction es generalizing w with
  | nil => exact h
  | cons e es ih => exact ih (h.step e)

theorem lost_of_part {client : AsyncSocksProxySocket} {state : SocksServerState}
    {message : List Byte} {toClient : Incoming} {n : ℕ} (hn : 0 < n) (hlt : n < message.length)
    (herror : ∀ m, 0 < m → m < message.length → ∃ rest,
      (serverAt state (message.take m) true).processInput =
        AsyncSocksProxyServerSocket.leave rest ((serverAt state (message.take m) true).onError 0)) :
    Lost ((⟨client, serverAt state [] true, message, toClient, [], 0, [], []⟩ : Exchange).step
      (.deliverToServer n)) := by
  have hne : message ≠ [] := by
    intro hnil
    rw [hnil] at hlt
    exact absurd hlt (Nat.not_lt_zero n)
  obtain ⟨m, hm, hle, -, hstep⟩ := deliverToServer_eq (n := n)
    (⟨client, serverAt state [] true, message, toClient, [], 0, [], []⟩ : Exchange)
    (Nat.pos_iff_ne_zero.mp hn) hne rfl (Nat.zero_lt_succ _)
  obtain ⟨rest, hrest⟩ := herror m hm (by omega)
  rw [hstep]
  simp only [List.nil_append, hrest]
  exact ⟨rfl, rfl⟩

theorem Stage.lost_of_splits (h : Stage pass dest w) (hsplit : w.Splits e) : Lost (w.step e) := by
  cases e with
  | deliverToServer n =>
    obtain ⟨hb, hn, hlt⟩ := hsplit
    cases h with
    | idle => exact absurd hlt (Nat.not_lt_zero n)
    | offered =>
      refine lost_of_part hn hlt fun m hm hmlt => ?_
      simp only [List.length_cons, List.length_nil] at hmlt
      interval_cases m <;> exact ⟨[], rfl⟩
    | chosen got rest heq hlen => exact absurd hlt (Nat.not_lt_zero n)
    | asked =>
      refine lost_of_part hn hlt fun m hm hmlt => ?_
      simp only [List.cons_append, List.length_cons, List.length_append, length_be32,
        length_be16] at hmlt
      interval_cases m <;> exact ⟨_, rfl⟩
    | pending => exact absurd hlt (Nat.not_lt_zero n)
    | accepted addr got rest data heq hlen => exact absurd hlt (Nat.not_lt_zero n)
    | opened got rest data => exact absurd hb Bool.false_ne_true
  | connected => exact hsplit.elim
  | deliverToClient n => exact hsplit.elim
  | accept addr => exact hsplit.elim
  | clientSends data => exact hsplit.elim
  | serverSends data => exact hsplit.elim

/-! ### A client with a user name -/

/-- What is left of an offer of two methods, or a server that has given up. -/
inductive Doomed (user pass : List Byte) (dest : SocketAddress) : Exchange → Prop
  | idle : Doomed user pass dest (start user pass dest)
  | offered : Doomed user pass dest ⟨{ AsyncSocksProxySocket.connecting user pass dest with
      state := .hello }, .create, [5, 2, 0, 2], [], [], 0, [], []⟩
  /-- The next byte that the server reads is the second method. -/
  | behind (w : Exchange) (buffer more : List Byte) : w.requests = [] →
      w.server = serverAt .connect buffer true → buffer ++ w.toServer = 2 :: more →
      buffer.length < 1024 → Doomed user pass dest w
  | lost (w : Exchange) : Lost w → Doomed user pass dest w

theorem Doomed.requests {user pass : List Byte} (h : Doomed user pass dest w) :
    w.requests = [] := by
  cases h with
  | idle => rfl
  | offered => rfl
  | behind w buffer more hreq => exact hreq
  | lost w hlost => exact hlost.1

theorem readConnect_version {b ver command reserved addr_type : Byte} {ip : Word}
    {port : BitVec 16} {more rest : ByteBuffer}
    (h : AsyncSocksProxyServerSocket.readConnect (b :: more) =
      .ok ((ver, command, reserved, addr_type), ip, port, rest)) : ver = b := by
  simp only [AsyncSocksProxyServerSocket.readConnect, AsyncSocksProxyServerSocket.need,
    readUInt8_cons, bind, Except.bind] at h
  split at h
  · cases h
  · split at h
    · cases h
    · split at h
      · cases h
      · split at h
        · cases h
        · split at h
          · cases h
          · cases h
            rfl

theorem handleConnect_behind (s : AsyncSocksProxyServerSocket) (more : List Byte) :
    ∃ rest, s.handleConnect (2 :: more) =
      AsyncSocksProxyServerSocket.leave rest (s.onError 0) := by
  rw [AsyncSocksProxyServerSocket.handleConnect]
  split
  · exact ⟨_, rfl⟩
  · rename_i ver command reserved addr_type ip port rest hread
    rw [if_pos (.inl (by rw [readConnect_version hread]; decide))]
    exact ⟨_, rfl⟩

theorem offered_delivered (user pass : List Byte) (dest : SocketAddress) {n : ℕ} (hn : n ≠ 0) :
    Doomed user pass dest ((⟨{ AsyncSocksProxySocket.connecting user pass dest with
      state := .hello }, .create, [5, 2, 0, 2], [], [], 0, [], []⟩ : Exchange).step
      (.deliverToServer n)) := by
  obtain ⟨m, hm, -, -, hstep⟩ := deliverToServer_eq (n := n) (⟨{ AsyncSocksProxySocket.connecting
    user pass dest with state := .hello }, .create, [5, 2, 0, 2], [], [], 0, [], []⟩ : Exchange)
    hn (by simp) rfl (Nat.zero_lt_succ _)
  rw [hstep]
  match m, hm with
  | 1, _ => exact .lost _ ⟨rfl, rfl⟩
  | 2, _ => exact .lost _ ⟨rfl, rfl⟩
  | 3, _ => exact .behind _ [] [] rfl rfl rfl (Nat.zero_lt_succ _)
  | m + 4, _ =>
    simp only [List.take_succ_cons, List.take_nil, List.drop_succ_cons, List.drop_nil]
    exact .behind _ [2] [] rfl rfl rfl (by decide)

theorem Doomed.step_behind {user pass : List Byte} {buffer more : List Byte}
    (hreq : w.requests = []) (hserver : w.server = serverAt .connect buffer true)
    (heq : buffer ++ w.toServer = 2 :: more) (hlen : buffer.length < 1024) (e : ExchangeEvent) :
    Doomed user pass dest (w.step e) := by
  by_cases hs : ∃ n, e = .deliverToServer n
  · obtain ⟨n, rfl⟩ := hs
    by_cases hn : n = 0 ∨ w.toServer = []
    · rw [step_deliverToServer_none hn]
      exact .behind w buffer more hreq hserver heq hlen
    · obtain ⟨hn, hne⟩ := not_or.mp hn
      obtain ⟨m, hm, -, -, hstep⟩ := deliverToServer_eq w hn hne hserver hlen
      -- whatever arrives, the buffer begins with the second method
      obtain ⟨t, ht⟩ : ∃ t, buffer ++ w.toServer.take m = 2 :: t := by
        match buffer, heq with
        | b :: buffer, heq =>
          obtain ⟨rfl, -⟩ := List.cons.inj heq
          exact ⟨_, rfl⟩
        | [], heq =>
          rw [List.nil_append] at heq
          rw [heq, List.nil_append]
          match m, hm with
          | m + 1, _ => exact ⟨_, rfl⟩
      obtain ⟨rest, hrest⟩ := handleConnect_behind
        (serverAt .connect (buffer ++ w.toServer.take m) true) t
      have hin : (serverAt .connect (buffer ++ w.toServer.take m) true).processInput =
          (serverAt .connect (buffer ++ w.toServer.take m) true).handleConnect (2 :: t) := by
        rw [← ht]
        rfl
      rw [hstep, hin, hrest]
      exact .lost _ ⟨hreq, rfl⟩
  · by_cases ha : ∃ addr, e = .accept addr
    · obtain ⟨addr, rfl⟩ := ha
      rw [accept_of_not_pending (by rw [hserver]; exact SocksServerState.noConfusion)]
      exact .behind w buffer more hreq hserver heq hlen
    · obtain ⟨hserver', hrequests, added, hadded⟩ := step_frame w e (fun n hn => hs ⟨n, hn⟩)
        (fun addr haddr => ha ⟨addr, haddr⟩)
      exact .behind _ buffer (more ++ added) (hrequests.trans hreq) (hserver'.trans hserver)
        (by rw [hadded, ← List.append_assoc, heq, List.cons_append]) hlen

theorem Doomed.step {user pass : List Byte} (hu : user ≠ []) (h : Doomed user pass dest w)
    (e : ExchangeEvent) : Doomed user pass dest (w.step e) := by
  cases h with
  | idle =>
    cases e with
    | connected =>
      have hreq : (AsyncSocksProxySocket.connecting user pass dest).helloRequest =
          .hello 2 [0, 2] := if_neg hu
      have hstep : (start user pass dest).step .connected =
          (start user pass dest).fromClient ({ AsyncSocksProxySocket.connecting user pass dest with
            state := .hello }, [.send (AsyncSocksProxySocket.connecting user pass
              dest).helloRequest.bytes]) := rfl
      rw [hstep, hreq]
      exact .offered
    | deliverToServer n =>
      rw [step_deliverToServer_none (.inr rfl)]
      exact .idle
    | deliverToClient n =>
      rw [step_deliverToClient_none (.inr rfl)]
      exact .idle
    | accept addr => exact .idle
    | clientSends data => exact .idle
    | serverSends data => exact .idle
  | offered =>
    cases e with
    | connected => exact .offered
    | deliverToServer n =>
      by_cases hn : n = 0
      · rw [step_deliverToServer_none (.inl hn)]
        exact .offered
      · exact offered_delivered user pass dest hn
    | deliverToClient n =>
      rw [step_deliverToClient_none (.inr rfl)]
      exact .offered
    | accept addr => exact .offered
    | clientSends data => exact .offered
    | serverSends data => exact .offered
  | behind w buffer more hreq hserver heq hlen => exact step_behind hreq hserver heq hlen e
  | lost w hlost => exact .lost _ (hlost.step e)

theorem Doomed.run {user pass : List Byte} (hu : user ≠ []) (h : Doomed user pass dest w)
    (es : List ExchangeEvent) : Doomed user pass dest (w.run es) := by
  induction es generalizing w with
  | nil => exact h
  | cons e es ih => exact ih (h.step hu e)

/-! ### Whole runs -/

theorem start_stage : Stage pass dest (start [] pass dest) := .idle

theorem Stage.run (hdest : dest.isUnresolved = false) (h : Stage pass dest w)
    (es : List ExchangeEvent) :
    (Whole w es → Stage pass dest (w.run es)) ∧ (¬Whole w es → Lost (w.run es)) := by
  induction es generalizing w with
  | nil => exact ⟨fun _ => h, fun hw => absurd trivial hw⟩
  | cons e es ih =>
    rw [run_cons, Whole]
    by_cases hsplit : w.Splits e
    · exact ⟨fun hw => absurd hsplit hw.1, fun _ => (h.lost_of_splits hsplit).run es⟩
    · obtain ⟨hstage, hlost⟩ := ih (h.step hdest hsplit)
      exact ⟨fun hw => hstage hw.2, fun hw => hlost fun hw' => hw ⟨hsplit, hw'⟩⟩

theorem Stage.interoperates (h : Stage pass dest w) (hc : Complete w) : Interoperates w dest := by
  cases h with
  | idle => exact absurd rfl hc.connected
  | offered => exact absurd (hc.server rfl) (by simp)
  | chosen got rest heq hlen =>
    have hnil : rest = [] := hc.client rfl
    rw [hnil, List.append_nil] at heq
    rw [heq] at hlen
    exact absurd hlen (by decide)
  | asked => exact absurd (hc.server rfl) (by simp)
  | pending => exact absurd rfl hc.answered
  | accepted addr got rest data heq hlen =>
    have hnil : rest = [] := hc.client rfl
    rw [hnil, List.append_nil] at heq
    rw [heq, List.length_append, length_reply] at hlen
    omega
  | opened got rest data => exact ⟨rfl, rfl, rfl, rfl⟩

theorem interoperates_iff (user pass : List Byte) (dest : SocketAddress) (es : List ExchangeEvent)
    (hdest : dest.isUnresolved = false) (hc : Complete ((start user pass dest).run es)) :
    Interoperates ((start user pass dest).run es) dest ↔
      user = [] ∧ Whole (start user pass dest) es := by
  by_cases hu : user = []
  · subst hu
    rw [and_iff_right rfl]
    obtain ⟨hstage, hlost⟩ := (@start_stage pass _).run hdest es
    by_cases hw : Whole (start [] pass dest) es
    · exact iff_of_true ((hstage hw).interoperates hc) hw
    · refine iff_of_false (fun hi => ?_) hw
      exact absurd ((hlost hw).1.symm.trans hi.requests) (by simp)
  · refine iff_of_false (fun hi => ?_) fun h => hu h.1
    exact absurd (((Doomed.idle).run hu es).requests.symm.trans hi.requests) (by simp)

/-- **This client and this server interoperate** exactly when there is no user name and
no message to the server is split, and the length bytes of a client's requests are right
exactly for fields that are short enough. -/
theorem socks_iff (user pass : List Byte) (dest : SocketAddress) (es : List ExchangeEvent)
    (c : AsyncSocksProxySocket) (hdest : dest.isUnresolved = false)
    (hc : Complete ((start user pass dest).run es)) :
    (Interoperates ((start user pass dest).run es) dest ↔
      user = [] ∧ Whole (start user pass dest) es) ∧
    ((c.helloRequest.WellFormed ∧ c.authRequest.WellFormed ∧ c.connectRequest.WellFormed) ↔
      (c.user.length < 256 ∧ c.pass.length % 256 = (c.pass.takeWhile (· ≠ 0)).length) ∧
      (c.dest.isUnresolved = true → c.dest.hostname.length < 256)) := by
  refine ⟨interoperates_iff user pass dest es hdest hc, ?_⟩
  rw [and_iff_right c.helloRequest_wellFormed, c.authRequest_wellFormed_iff,
    c.connectRequest_wellFormed_iff]

/-- A handshake without a user name, its answers split. -/
theorem socks_iff_anonymous :
    let dest : SocketAddress := ⟨[], 0x0A000001, 5222⟩
    let es : List ExchangeEvent := [.connected, .deliverToServer 3, .deliverToClient 1,
      .deliverToClient 1, .deliverToServer 10, .accept dest, .deliverToClient 4,
      .deliverToClient 10]
    Interoperates ((start [] [] dest).run es) dest ↔
      ([] : List Byte) = [] ∧ Whole (start [] [] dest) es :=
  (socks_iff [] [] ⟨[], 0x0A000001, 5222⟩ _ (.connecting [] [] ⟨[], 0x0A000001, 5222⟩) rfl
    ⟨by decide, by decide, by decide, by decide⟩).1

/-- **A user name is enough to fail**: the second of the offered methods is taken for the
version of the connect message. -/
theorem not_interoperates_user :
    ¬∀ (user pass : List Byte) (dest : SocketAddress) (es : List ExchangeEvent),
      dest.isUnresolved = false → Complete ((start user pass dest).run es) →
        Interoperates ((start user pass dest).run es) dest := by
  intro h
  have hrun := h [117#8] [112#8] ⟨[], 0x0A000001, 5222⟩ [.connected, .deliverToServer 4,
    .deliverToClient 2, .deliverToServer 10] rfl ⟨by decide, by decide, by decide, by decide⟩
  exact absurd hrun.requests (by decide)

end Exchange

end Jingle.Proxy
