import IrcdHybrid.BanMask
import IrcdHybrid.DnsMessages

/-!
A connection is let in when two questions are answered or given up: who it is, which the ident
server of its host is asked, and what its host is called, which the name servers are asked. For the
second the name is looked up that the address has, and then the address that the name has. The
questions of the configuration and of outgoing connections, which the resolver answers too, are left
out, and fewer than 65535 questions are open.
-/

namespace IrcdHybrid.AuthRequests

open CString DnsNames DnsMessages Function
open Numeral (decimal)
open BanMask (HOSTLEN)

abbrev ClientPtr := ℕ

def USERLEN : ℕ := 40
def CONNECTTIMEOUT : ℕ := 30

/-- A connection, with its `AuthRequest`; `fdOpen` says whether `auth->fd` is a socket, and `finished`
how often the connection was let in. -/
structure Client where
  ip : Addr
  host : Option CStr
  username : Option CStr
  inAuth : Bool
  dnsPending : Bool
  doingAuth : Bool
  fdOpen : Bool
  timeout : ℕ
  closing : Bool
  finished : ℕ

/-- A `reslist`, of a connection that is let in. -/
structure Request where
  id : ℕ
  type : ℕ
  retries : ℕ
  sends : ℕ
  sentat : ℕ
  timeout : ℕ
  addr : Option Addr
  name : CStr
  namelength : ℕ
  ctx : ClientPtr

/-- What a name server was heard to say. -/
inductive Fact where
  | ptr (a : Addr) (name : CStr)
  | addr (name : CStr) (a : Addr)

structure State where
  now : ℕ
  clients : ClientPtr → Option Client
  pending : List ClientPtr
  requests : List Request
  said : List Fact

variable (s : State) (p : ClientPtr)

def setClient (c : Client) : State := { s with clients := update s.clients p (some c) }

/-- `release_auth_client` -/
def releaseAuthClient (c : Client) : State :=
  if c.doingAuth || c.dnsPending then setClient s p c
  else
    let s := if c.inAuth then { s with pending := s.pending.erase p } else s
    setClient s p { c with inAuth := false, finished := c.finished + 1 }

/-- `auth_dns_callback`, with what was found if anything was. -/
def authDnsCallback (found : Option (Addr × CStr × ℕ)) : State :=
  match s.clients p with
  | none => s
  | some c =>
    let c := { c with dnsPending := false }
    match found with
    | none => releaseAuthClient s p c
    | some (addr, name, namelength) =>
      if name = [] then releaseAuthClient s p c
      else if c.ip ≠ addr then releaseAuthClient s p c
      else if HOSTLEN < namelength then releaseAuthClient s p c
      else releaseAuthClient s p { c with host := some (strlcpy name (HOSTLEN + 1)) }

/-- `fd_close`; a descriptor that is not open is not survived. -/
def closeAuthFd (c : Client) : Option Client :=
  if c.fdOpen then some { c with fdOpen := false } else none

/-- `auth_error` -/
def authError (c : Client) : Option State :=
  (closeAuthFd c).map fun c => releaseAuthClient s p { c with doingAuth := false }

/-- `token_vector`, with `k` more tokens to find. -/
def tokenVector (token : Char) : ℕ → CStr → List CStr
  | 0, names => [names]
  | k + 1, names =>
    match names.dropWhile (· ≠ token) with
    | [] => [names]
    | _ :: rest =>
      names.takeWhile (· ≠ token) :: if rest = [] then [] else tokenVector token k rest

def identEnd (c : Char) : Bool := BanMask.isSpace c || c = '@' || c = ':'

def checkIdentReply (reply : CStr) : Option CStr :=
  match tokenVector ':' 3 reply with
  | [_, replyType, osType, info] =>
    if !("USERID".toList).isPrefixOf (replyType.dropWhile BanMask.isSpace) then none
    else if osType = [] then none
    else if ("OTHER".toList).isPrefixOf (osType.dropWhile BanMask.isSpace) then none
    else if info = [] then none
    else
      some (((info.dropWhile BanMask.isSpace).dropWhile fun c => c = '~' || c = '^').takeWhile
        fun c => !identEnd c)
  | _ => none

/-- `read_auth_reply`, with what was received if anything was. -/
def readAuthReply (c : Client) (reply : Option CStr) : Option State :=
  (closeAuthFd c).map fun c =>
    let c := { c with doingAuth := false }
    match reply.bind checkIdentReply with
    | none => releaseAuthClient s p c
    | some username =>
      if username = [] then releaseAuthClient s p c
      else releaseAuthClient s p { c with username := some (strlcpy username (USERLEN + 1)) }

def hexNibble (n : ℕ) : CStr := [hexOf (n % 16)]

/-- The name under which an address is looked up. -/
def arpaName : Addr → CStr
  | .v4 bytes =>
    bytes.reverse.flatMap (fun b => decimal b ++ ['.']) ++ "in-addr.arpa.".toList
  | .v6 bytes =>
    bytes.reverse.flatMap (fun b => hexNibble b ++ ['.'] ++ hexNibble (b / 16) ++ ['.']) ++
      "ip6.arpa.".toList

/-- Where an identifier comes from that no request has. -/
abbrev Pick := List ℕ → ℕ

/-- `query_name`, for a request that is in the list with `ids`. -/
def queryName (pick : Pick) (ids : List ℕ) (name : CStr) (type : ℕ) (r : Request) : Request :=
  match resMkquery name C_IN type with
  | none => r
  | some _ => { r with id := pick ids, sends := r.sends + 1 }

def makeRequest : Request := ⟨0, 0, 2, 0, s.now, 4, none, [], 0, p⟩

def ids (requests : List Request) : List ℕ := requests.map Request.id

/-- `do_query_number`, for a new request. -/
def gethostByaddr (pick : Pick) (addr : Addr) : State :=
  let r := { makeRequest s p with type := T_PTR, addr := some addr }
  { s with
    requests := queryName pick (ids (r :: s.requests)) (arpaName addr) T_PTR r :: s.requests }

def RFC1035_MAX_DOMAIN_LENGTH : ℕ := 255

/-- `do_query_name`, for a new request that is put before `requests`; `others` are in the list. -/
def gethostByname (pick : Pick) (others requests : List Request) (name : CStr) (type : ℕ) : State :=
  let hostName := strlcpy name (RFC1035_MAX_DOMAIN_LENGTH + 1)
  let r := { makeRequest s p with type := type, name := hostName, namelength := hostName.length }
  { s with requests := queryName pick (ids (r :: others)) hostName type r :: requests }

/-- `resend_query` -/
def resendQuery (pick : Pick) (ids : List ℕ) (r : Request) : Request :=
  if r.type = T_PTR then
    match r.addr with
    | some addr => queryName pick ids (arpaName addr) T_PTR r
    | none => r
  else if r.type = T_A ∨ r.type = T_AAAA then queryName pick ids r.name r.type r
  else r

/-- `start_auth`; `ident` says whether the ident server is asked, and `opened` whether there was a
socket for it. -/
def startAuth (pick : Pick) (ip : Addr) (ident opened : Bool) : State :=
  let c : Client := ⟨ip, none, none, true, true, ident, ident && opened, s.now + CONNECTTIMEOUT, false, 0⟩
  gethostByaddr (setClient { s with pending := s.pending ++ [p] } p c) p pick ip

def removeRequests (p : ClientPtr) : State :=
  { s with requests := s.requests.filter fun r => r.ctx ≠ p }

def findId (id : ℕ) : Option Request := s.requests.find? fun r => r.id = id

/-- The first request with an identifier goes. -/
def remRequest (id : ℕ) : List Request := s.requests.eraseP fun r => r.id = id

/-- What `proc_answer` found is what was said. -/
def hear (r : Request) : Found → State
  | .addr a => { s with said := .addr r.name a :: s.said }
  | .name hostbuf => { s with said := (r.addr.map fun a => Fact.ptr a hostbuf).toList ++ s.said }

/-- The loop of `res_readreply`, for one message of a name server. -/
def resReadreply (pick : Pick) (msg : Packet) : State :=
  if msg.len ≤ HFIXEDSZ then s
  else
    match findId s (idOf msg) with
    | none => s
    | some r =>
      let gone := { s with requests := remRequest s (idOf msg) }
      if rcode msg ≠ 0 ∨ ancount msg = 0 then authDnsCallback gone r.ctx none
      else
        match procAnswer r.type msg with
        | none => authDnsCallback gone r.ctx none
        | some found =>
          let gone := hear gone r found
          match found with
          | .addr a => authDnsCallback gone r.ctx (some (a, r.name, r.namelength))
          | .name hostbuf =>
            let name := strlcpy hostbuf (RFC1035_MAX_DOMAIN_LENGTH + 1)
            if hostbuf = [] then authDnsCallback gone r.ctx none
            else
              gethostByname gone r.ctx pick s.requests gone.requests name
                (match r.addr with
                | some (.v6 _) => T_AAAA
                | _ => T_A)

/-- `timeout_query_list`: `kept` is what was gone through and stays. -/
def timeoutQueryList (pick : Pick) (s : State) (kept : List Request) : List Request → State
  | [] => { s with requests := kept }
  | r :: rest =>
    if s.now < r.sentat + r.timeout then timeoutQueryList pick s (kept ++ [r]) rest
    else if r.retries - 1 = 0 then timeoutQueryList pick (authDnsCallback s r.ctx none) kept rest
    else
      let r := { r with retries := r.retries - 1, sentat := s.now, timeout := r.timeout + r.timeout }
      timeoutQueryList pick s (kept ++ [resendQuery pick (ids (kept ++ r :: rest)) r]) rest

/-- What `timeout_auth_queries_event` does with one connection that has waited long enough. -/
def timeoutAuth (c : Client) : Option State :=
  let closed := if c.doingAuth then closeAuthFd c else some c
  closed.map fun c =>
    let s := if c.dnsPending then removeRequests s p else s
    releaseAuthClient s p { c with doingAuth := false, dnsPending := false }

/-- `timeout_auth_queries_event`, over the list as it was when it started. -/
def timeoutAuthQueries (s : State) : List ClientPtr → Option State
  | [] => some s
  | p :: rest =>
    match s.clients p with
    | none => some s
    | some c =>
      if s.now < c.timeout then some s
      else (timeoutAuth s p c).bind fun s => timeoutAuthQueries s rest

/-- `delete_auth`, for a connection that is closed. -/
def deleteAuth (c : Client) : Option State :=
  let s := if c.dnsPending then removeRequests s p else s
  let closed := if c.doingAuth then closeAuthFd c else some c
  closed.map fun c =>
    let s := if c.inAuth then { s with pending := s.pending.erase p } else s
    setClient s p { c with inAuth := false, closing := true }

inductive Event where
  | start (p : ClientPtr) (pick : Pick) (ip : Addr) (ident opened : Bool)
  | identFailed (p : ClientPtr)
  | identReply (p : ClientPtr) (reply : Option CStr)
  | reply (pick : Pick) (msg : Packet)
  | queryTimer (pick : Pick)
  | authTimer
  | leave (p : ClientPtr)
  | time (now : ℕ)

/-- A free identifier is found, as long as there is one. -/
def Fresh (pick : Pick) : Prop := ∀ used : List ℕ, used.length < 65536 →
  pick used < 65536 ∧ pick used ∉ used

/-- What may happen: a new connection is new, an ident socket that is not open says nothing, a
connection is closed once, and time does not go back. -/
def Possible : Event → Prop
  | .start p pick _ _ _ => s.clients p = none ∧ Fresh pick ∧ s.requests.length + 1 < 65536
  | .identFailed p => ∃ c, s.clients p = some c ∧ c.fdOpen = true
  | .identReply p _ => ∃ c, s.clients p = some c ∧ c.fdOpen = true
  | .reply pick _ => Fresh pick ∧ s.requests.length + 1 < 65536
  | .queryTimer pick => Fresh pick ∧ s.requests.length + 1 < 65536
  | .authTimer => True
  | .leave p => ∃ c, s.clients p = some c ∧ c.closing = false
  | .time now => s.now ≤ now

/-- One thing happens; without a result the server has crashed. -/
def step : Event → Option State
  | .start p pick ip ident opened => some (startAuth s p pick ip ident opened)
  | .identFailed p =>
    match s.clients p with
    | none => some s
    | some c => authError s p c
  | .identReply p reply =>
    match s.clients p with
    | none => some s
    | some c => readAuthReply s p c reply
  | .reply pick msg => some (resReadreply s pick msg)
  | .queryTimer pick => some (timeoutQueryList pick s [] s.requests)
  | .authTimer => timeoutAuthQueries s s.pending
  | .leave p =>
    match s.clients p with
    | none => some s
    | some c => deleteAuth s p c
  | .time now => some { s with now := now }

/-- Nobody has come yet. -/
def start : State := ⟨0, fun _ => none, [], [], []⟩

end IrcdHybrid.AuthRequests
