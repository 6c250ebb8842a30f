import Firestone.Lib.Origins

/-!
# The gate of the loopback listener

Every request on a loopback listener is decided before a handler sees it, by its `Host`, a session token, and where it
says that it comes from.

* `LoopbackGate.decide` — the decision.
* `GateSound` — what a request that is let in has shown, and where a redirect leads.
* `gateSound_iff` — the gate is sound except that a path with two slashes is taken for a reference to a path.

The HTTP library is used through a list of headers and the path and the query of the request's URI.
-/

namespace Firestone.Ui

open Firestone.Lib

/-! ## Requests -/

/-- Header values by lowercase name, in the order of their arrival. -/
abbrev HeaderMap := List (String × Bytes)

def HeaderMap.getAll (headers : HeaderMap) (name : String) : List Bytes :=
  (headers.filter fun h => h.1 = name).map (·.2)

/-- The first value. -/
def HeaderMap.get (headers : HeaderMap) (name : String) : Option Bytes := (headers.getAll name).head?

def isVisibleAscii (b : UInt8) : Bool := (32 ≤ b && b < 127) || b = 9

/-- The text of a header value that has no other bytes than visible ones and tabs. -/
def toStr (value : Bytes) : Option String :=
  if value.all isVisibleAscii then some (String.ofList (value.map fun b => Char.ofNat b.toNat)) else none

def HeaderMap.text (headers : HeaderMap) (name : String) : Option String := (headers.get name).bind toStr

/-- A request target. Its path is rooted unless it is an asterisk or an authority alone. -/
structure Uri where
  path : String
  query : Option String
  rooted : path = "" ∨ path = "*" ∨ ∃ rest, path.toList = '/' :: rest

/-! ## Tokens -/

def tokenBytes : Nat := 32

abbrev SessionToken := { b : Bytes // b.length = tokenBytes }

def hexValue (b : UInt8) : Option UInt8 :=
  if 0x30 ≤ b && b ≤ 0x39 then some (b - 0x30)
  else if 0x61 ≤ b && b ≤ 0x66 then some (b - 0x61 + 10)
  else if 0x41 ≤ b && b ≤ 0x46 then some (b - 0x41 + 10)
  else none

/-- Pairs of hexadecimal characters; an odd one is left over. -/
def hexPairs : Bytes → Option Bytes
  | high :: low :: rest => do
    let high ← hexValue high
    let low ← hexValue low
    let others ← hexPairs rest
    return (high <<< 4 ||| low) :: others
  | _ => some []

theorem length_hexPairs : ∀ {s token : Bytes}, hexPairs s = some token → token.length = s.length / 2
  | [], _, h => by
    cases h
    rfl
  | [_], _, h => by
    cases h
    simp
  | high :: low :: rest, token, h => by
    simp only [hexPairs, Option.bind_eq_bind, Option.bind_eq_some_iff] at h
    obtain ⟨_, _, _, _, others, hothers, h⟩ := h
    cases h
    rw [List.length_cons, length_hexPairs hothers, List.length_cons, List.length_cons]
    omega

def parseHex (value : String) : Option SessionToken :=
  if h : (bytes value).length = tokenBytes * 2 then
    (hexPairs (bytes value)).pmap (fun token htoken => ⟨token, htoken⟩) fun token htoken => by
      rw [length_hexPairs htoken, h]
      rfl
  else none

/-- The differences of all pairs of bytes, folded together. -/
def constantTimeEq (left right : SessionToken) : Bool :=
  (List.zipWith (fun l r => l ^^^ r) left.1 right.1).foldl (fun difference d => difference ||| d) 0 == 0

theorem foldl_or_eq_zero : ∀ {l : List UInt8} {acc : UInt8},
    l.foldl (fun difference d => difference ||| d) acc = 0 ↔ acc = 0 ∧ ∀ d ∈ l, d = 0
  | [], acc => by simp
  | d :: l, acc => by
    rw [List.foldl_cons, foldl_or_eq_zero, UInt8.or_eq_zero_iff, List.forall_mem_cons, and_assoc]

theorem zipWith_xor_eq_zero : ∀ {left right : Bytes}, left.length = right.length →
    ((∀ d ∈ List.zipWith (fun l r => l ^^^ r) left right, d = 0) ↔ left = right)
  | [], [], _ => by simp
  | [], _ :: _, h => by cases h
  | _ :: _, [], h => by cases h
  | l :: left, r :: right, h => by
    rw [List.zipWith_cons_cons, List.forall_mem_cons, zipWith_xor_eq_zero (Nat.succ.inj h), UInt8.xor_eq_zero_iff,
      List.cons.injEq]

/-- The comparison that takes the same time for all tokens compares them. -/
theorem constantTimeEq_iff {left right : SessionToken} : constantTimeEq left right = true ↔ left = right := by
  rw [constantTimeEq, beq_iff_eq, foldl_or_eq_zero, zipWith_xor_eq_zero (left.2.trans right.2.symm), Subtype.ext_iff]
  exact ⟨fun h => h.2, fun h => ⟨rfl, h⟩⟩

def cookieName : String := "firestone_session"

/-- What the session cookie carries: the first pair of its name counts, whether it can be read or not. -/
def cookieToken (headers : HeaderMap) : Option SessionToken :=
  (((headers.getAll "cookie").filterMap toStr).flatMap (splitText ';')).findSome? (fun pair =>
    (splitOnce '=' pair).bind fun x => if trim x.1 = cookieName then some (parseHex (trim x.2)) else none) |>.join

def bearerToken (headers : HeaderMap) : Option SessionToken :=
  (headers.text "authorization").bind fun value => (splitOnce ' ' value).bind fun x =>
    if eqIgnoreAsciiCase x.1 "Bearer" then parseHex (trim x.2) else none

def queryToken (uri : Uri) : Option String :=
  uri.query.bind fun query => (splitText '&' query).findSome? (stripPrefix "token=")

/-! ## The gate -/

structure LoopbackGate where
  token : SessionToken
  port : UInt16

structure Rejection where
  status : Nat
  message : String
  hint : String
  deriving DecidableEq, Repr

inductive Decision
  | allow
  | bootstrap (location token : String)
  | reject (rejection : Rejection)
  deriving DecidableEq, Repr

def unauthorized : Rejection :=
  ⟨401, "the request did not carry the Firestone session token",
    "open the URL printed by `firestone ui`, or send Authorization: Bearer <token>"⟩

def foreignHost : Rejection :=
  ⟨403, "the request Host header is not the bound loopback address", "open the printed http://127.0.0.1:PORT/ URL directly"⟩

def foreignUpgrade : Rejection :=
  ⟨403, "the protocol upgrade was not proven to come from this origin",
    "open the terminal from the Firestone UI page, or send Origin: http://127.0.0.1:PORT"⟩

def foreignOrigin : Rejection :=
  ⟨403, "the request was issued from another origin", "drive mutations from the Firestone UI page itself"⟩

def headerListContains (headers : HeaderMap) (name token : String) : Bool :=
  (headers.getAll name).any fun value => (toStr value).any fun text =>
    (splitText ',' text).any fun entry => eqIgnoreAsciiCase (trim entry) token

def isProtocolUpgrade (headers : HeaderMap) : Bool :=
  headerListContains headers "upgrade" "websocket" || headerListContains headers "connection" "upgrade"

/-- Methods that change nothing. -/
def isSafeMethod (method : String) : Bool := method = "GET" || method = "HEAD"

namespace LoopbackGate

variable (gate : LoopbackGate)

/-- The three names of the bound address. -/
def hosts : List String := ["127.0.0.1", "localhost", "[::1]"].map fun name => s!"{name}:{gate.port.toNat}"

def hostIsLoopback (headers : HeaderMap) : Bool :=
  match headers.text "host" with
  | none => false
  | some host => gate.hosts.contains host

def originIsLoopback (origin : String) : Bool := (gate.hosts.map fun host => "http://" ++ host).contains origin

def isSameSite (headers : HeaderMap) : Bool :=
  match headers.text "sec-fetch-site" with
  | some site => site = "same-origin" || site = "none"
  | none => (headers.text "origin").any gate.originIsLoopback

/-- A request that changes something does not come from another page. -/
def mutationAllowed (headers : HeaderMap) : Bool :=
  match headers.text "sec-fetch-site" with
  | some site => site = "same-origin"
  | none => (headers.text "origin").all gate.originIsLoopback

/-- What is asked of a request that has shown a token. -/
def decideAuthenticated (method : String) (headers : HeaderMap) : Decision :=
  if isProtocolUpgrade headers && !gate.isSameSite headers then .reject foreignUpgrade
  else if !isSafeMethod method && !gate.mutationAllowed headers then .reject foreignOrigin
  else .allow

def decide (method : String) (uri : Uri) (headers : HeaderMap) : Decision :=
  if !gate.hostIsLoopback headers then .reject foreignHost
  else
    let cookieOk := (cookieToken headers).any fun token => constantTimeEq gate.token token
    let bearerOk := (bearerToken headers).any fun token => constantTimeEq gate.token token
    match queryToken uri with
    | some candidate =>
      if !(parseHex candidate).any (fun token => constantTimeEq gate.token token) then .reject unauthorized
      else if isSafeMethod method then .bootstrap uri.path candidate
      else gate.decideAuthenticated method headers
    | none => if !(cookieOk || bearerOk) then .reject unauthorized else gate.decideAuthenticated method headers

end LoopbackGate

/-- A header value, if the text has visible ASCII characters and tabs alone. -/
def headerValue (text : String) : Option String :=
  if text.toList.all fun c => (32 ≤ c.toNat && c.toNat < 127) || c = '\t' then some text else none

def cookieAttributes : String := "; Path=/; HttpOnly; SameSite=Strict; Max-Age=86400"

structure Response where
  status : Nat
  headers : List (String × String)

/-- The redirect that moves the token into a cookie. -/
def bootstrapResponse (location token : String) : Response :=
  ⟨303, ((headerValue location).map fun value => ("location", value)).toList ++
    ((headerValue s!"{cookieName}={token}{cookieAttributes}").map fun value => ("set-cookie", value)).toList⟩

/-! ## Soundness -/

/-- A token that the request carries. -/
inductive Presented (uri : Uri) (headers : HeaderMap) : SessionToken → Prop
  | cookie {value : Bytes} {text pair name hex : String} {token : SessionToken} (hvalue : value ∈ headers.getAll "cookie")
      (htext : toStr value = some text) (hpair : pair ∈ splitText ';' text) (hsplit : splitOnce '=' pair = some (name, hex))
      (hname : trim name = cookieName) (htoken : parseHex (trim hex) = some token) : Presented uri headers token
  | bearer {text scheme hex : String} {token : SessionToken} (htext : headers.text "authorization" = some text)
      (hsplit : splitOnce ' ' text = some (scheme, hex)) (hscheme : eqIgnoreAsciiCase scheme "Bearer" = true)
      (htoken : parseHex (trim hex) = some token) : Presented uri headers token
  | query {query pair hex : String} {token : SessionToken} (hquery : uri.query = some query)
      (hpair : pair ∈ splitText '&' query) (hsplit : stripPrefix "token=" pair = some hex)
      (htoken : parseHex hex = some token) : Presented uri headers token

/-- Every byte as a character of its own. -/
def latin1 (value : Bytes) : String := String.ofList (value.map fun b => Char.ofNat b.toNat)

/-- Without the spaces and tabs around it. -/
def trimOws (s : String) : String :=
  String.ofList ((s.toList.dropWhile fun c => c = ' ' || c = '\t').reverse.dropWhile fun c => c = ' ' || c = '\t').reverse

/-- A header value, whatever its bytes, lists a token between commas. -/
def ListsToken (value : Bytes) (token : String) : Prop :=
  ∃ entry ∈ splitText ',' (latin1 value), eqIgnoreAsciiCase (trimOws entry) token = true

/-- The headers that ask for another protocol. -/
def upgradeTokens : List (String × String) := [("upgrade", "websocket"), ("connection", "upgrade")]

def AsksUpgrade (headers : HeaderMap) : Prop :=
  ∃ x ∈ upgradeTokens, ∃ value ∈ headers.getAll x.1, ListsToken value x.2

section spec

variable (gate : LoopbackGate) (method : String) (uri : Uri) (headers : HeaderMap)

/-- The request shows that the UI's own page has issued it. -/
def ProvenSameSite : Prop :=
  (∃ site, headers.text "sec-fetch-site" = some site ∧ (site = "same-origin" ∨ site = "none")) ∨
    headers.text "sec-fetch-site" = none ∧ ∃ host ∈ gate.hosts, headers.text "origin" = some ("http://" ++ host)

/-- The request says that another page has issued it. -/
def SaysForeign : Prop :=
  (∃ site, headers.text "sec-fetch-site" = some site ∧ site ≠ "same-origin") ∨
    headers.text "sec-fetch-site" = none ∧
      ∃ origin, headers.text "origin" = some origin ∧ ∀ host ∈ gate.hosts, origin ≠ "http://" ++ host

/-- What a request that is let in has shown, and where one that is redirected is sent. -/
structure GateSound : Prop where
  host : (∀ r, gate.decide method uri headers ≠ .reject r) → ∃ host ∈ gate.hosts, headers.text "host" = some host
  token : (∀ r, gate.decide method uri headers ≠ .reject r) → Presented uri headers gate.token
  upgrade : gate.decide method uri headers = .allow → AsksUpgrade headers → ProvenSameSite gate headers
  mutation : gate.decide method uri headers = .allow → method ≠ "GET" → method ≠ "HEAD" → ¬SaysForeign gate headers
  redirect : ∀ location token, gate.decide method uri headers = .bootstrap location token →
    ∀ target, ("location", target) ∈ (bootstrapResponse location token).headers →
      ∀ host, headers.text "host" = some host → StaysOn ⟨"http".toList, host.toList⟩ target.toList

/-- The token that the gate looks at is its own. -/
def TokenAccepted : Prop :=
  match queryToken uri with
  | some candidate => parseHex candidate = some gate.token
  | none => cookieToken headers = some gate.token ∨ bearerToken headers = some gate.token

/-- The redirect of a request with a token in its query has two slashes at its start, and after them another authority. -/
def RedirectsAway : Prop :=
  gate.hostIsLoopback headers = true ∧ TokenAccepted gate uri headers ∧ (queryToken uri).isSome = true ∧
    isSafeMethod method = true ∧ (headerValue uri.path).isSome = true ∧
    ∃ rest host, uri.path.toList = '/' :: '/' :: rest ∧ headers.text "host" = some host ∧
      Site.origin ⟨"http".toList, rest.takeWhile fun c => !endsAuthority c⟩ ≠ Site.origin ⟨"http".toList, host.toList⟩

/-- An upgrade is asked for in values that have other bytes than visible ones alone, by a request that is let in
otherwise and has not shown where it comes from. -/
def UpgradesUnread : Prop :=
  gate.hostIsLoopback headers = true ∧ TokenAccepted gate uri headers ∧
    ((queryToken uri).isSome = true → isSafeMethod method = false) ∧ ¬ProvenSameSite gate headers ∧
    (isSafeMethod method = false → ¬SaysForeign gate headers) ∧ AsksUpgrade headers ∧
    ∀ x ∈ upgradeTokens, ∀ value ∈ headers.getAll x.1, ListsToken value x.2 → toStr value = none

end spec

/-! ## What the checks see -/

section checks

variable {gate : LoopbackGate} {method : String} {uri : Uri} {headers : HeaderMap}

theorem hostIsLoopback_iff : gate.hostIsLoopback headers = true ↔ ∃ host ∈ gate.hosts, headers.text "host" = some host := by
  unfold LoopbackGate.hostIsLoopback
  cases headers.text "host" with
  | none => simp
  | some host => simp

theorem originIsLoopback_iff {origin : String} :
    gate.originIsLoopback origin = true ↔ ∃ host ∈ gate.hosts, origin = "http://" ++ host := by
  unfold LoopbackGate.originIsLoopback
  rw [List.contains_iff_mem, List.mem_map]
  exact ⟨fun ⟨h, hh, e⟩ => ⟨h, hh, e.symm⟩, fun ⟨h, hh, e⟩ => ⟨h, hh, e.symm⟩⟩

theorem isSameSite_iff : gate.isSameSite headers = true ↔ ProvenSameSite gate headers := by
  unfold LoopbackGate.isSameSite ProvenSameSite
  cases headers.text "sec-fetch-site" with
  | some site => simp
  | none =>
    simp only [Option.any_eq_true, originIsLoopback_iff]
    constructor
    · rintro ⟨origin, horigin, host, hhost, rfl⟩
      exact .inr ⟨trivial, host, hhost, horigin⟩
    · rintro (⟨_, h, _⟩ | ⟨_, host, hhost, horigin⟩)
      · cases h
      · exact ⟨_, horigin, host, hhost, rfl⟩

theorem mutationAllowed_iff : gate.mutationAllowed headers = true ↔ ¬SaysForeign gate headers := by
  unfold LoopbackGate.mutationAllowed SaysForeign
  cases headers.text "sec-fetch-site" with
  | some site => simp
  | none =>
    cases headers.text "origin" with
    | none => simp
    | some origin => simp [originIsLoopback_iff]

set_option maxRecDepth 4000 in
/-- Among visible characters the only white space is what may stand around a list element. -/
theorem isWhitespace_of_visible {b : UInt8} (h : isVisibleAscii b = true) :
    isWhitespace (Char.ofNat b.toNat) = (Char.ofNat b.toNat = ' ' || Char.ofNat b.toNat = '\t') := by
  have hall : ∀ n : Fin 256, isVisibleAscii (UInt8.ofNat n) = true →
      isWhitespace (Char.ofNat n) = (Char.ofNat n = ' ' || Char.ofNat n = '\t') := by decide
  exact hall ⟨b.toNat, b.toNat_lt⟩ (by simpa using h)

theorem trim_latin1 {s : List Char} (h : ∀ c ∈ s, ∃ b, isVisibleAscii b = true ∧ c = Char.ofNat b.toNat) :
    trim (String.ofList s) = trimOws (String.ofList s) := by
  have hsame : ∀ c ∈ s, isWhitespace c = (decide (c = ' ') || decide (c = '\t')) := by
    intro c hc
    obtain ⟨b, hb, rfl⟩ := h c hc
    exact isWhitespace_of_visible hb
  have hcongr : ∀ {l : List Char}, l ⊆ s →
      l.dropWhile isWhitespace = l.dropWhile fun c => decide (c = ' ') || decide (c = '\t') := by
    intro l
    induction l with
    | nil => exact fun _ => rfl
    | cons c l ih =>
      intro hl
      rw [List.dropWhile_cons, List.dropWhile_cons, hsame c (hl List.mem_cons_self),
        ih fun x hx => hl (List.mem_cons_of_mem _ hx)]
  have hsub : (s.dropWhile fun c => decide (c = ' ') || decide (c = '\t')).reverse ⊆ s := by
    intro c hc
    exact (List.dropWhile_sublist _).subset (List.mem_reverse.mp hc)
  rw [trim, trimOws, trimChars, String.toList_ofList, hcongr (List.Subset.refl s), hcongr hsub]

/-- A readable value lists what its bytes list. -/
theorem listsToken_iff {value : Bytes} {text token : String} (h : toStr value = some text) :
    ((splitText ',' text).any fun entry => eqIgnoreAsciiCase (trim entry) token) = true ↔ ListsToken value token := by
  unfold toStr at h
  split at h
  · rename_i hvisible
    cases h
    have htrim : ∀ entry ∈ splitText ',' (latin1 value), trim entry = trimOws entry := by
      intro entry hentry
      obtain ⟨piece, hpiece, rfl⟩ := List.mem_map.mp hentry
      refine trim_latin1 fun c hc => ?_
      have hmem : c ∈ value.map fun b => Char.ofNat b.toNat := by
        have := mem_of_mem_splitOn hpiece hc
        rwa [latin1, String.toList_ofList] at this
      obtain ⟨b, hb, rfl⟩ := List.mem_map.mp hmem
      exact ⟨b, List.all_eq_true.mp hvisible b hb, rfl⟩
    rw [List.any_eq_true]
    constructor
    · rintro ⟨entry, hentry, heq⟩
      exact ⟨entry, hentry, by rwa [← htrim entry hentry]⟩
    · rintro ⟨entry, hentry, heq⟩
      exact ⟨entry, hentry, by rwa [htrim entry hentry]⟩
  · cases h

theorem headerListContains_iff {name token : String} : headerListContains headers name token = true ↔
    ∃ value ∈ headers.getAll name, toStr value ≠ none ∧ ListsToken value token := by
  rw [headerListContains, List.any_eq_true]
  constructor
  · rintro ⟨value, hvalue, h⟩
    obtain ⟨text, htext, hlists⟩ := (Option.any_eq_true _ _).mp h
    exact ⟨value, hvalue, by simp [htext], (listsToken_iff htext).mp hlists⟩
  · rintro ⟨value, hvalue, hread, hlists⟩
    obtain ⟨text, htext⟩ := Option.ne_none_iff_exists'.mp hread
    exact ⟨value, hvalue, by rw [htext]; exact (listsToken_iff htext).mpr hlists⟩

/-- The gate sees what readable values ask for. -/
theorem isProtocolUpgrade_iff : isProtocolUpgrade headers = true ↔
    ∃ x ∈ upgradeTokens, ∃ value ∈ headers.getAll x.1, toStr value ≠ none ∧ ListsToken value x.2 := by
  simp only [isProtocolUpgrade, Bool.or_eq_true, headerListContains_iff, upgradeTokens, List.mem_cons, List.not_mem_nil,
    or_false, exists_eq_or_imp, exists_eq_left]

theorem cookieToken_some {token : SessionToken} (h : cookieToken headers = some token) : Presented uri headers token := by
  have hfound := Option.join_eq_some_iff.mp h
  obtain ⟨pair, hpair, hvalue⟩ := List.exists_of_findSome?_eq_some hfound
  obtain ⟨text, htext, hin⟩ := List.mem_flatMap.mp hpair
  obtain ⟨value, hmem, hstr⟩ := List.mem_filterMap.mp htext
  obtain ⟨⟨name, hex⟩, hsplit, hread⟩ := Option.bind_eq_some_iff.mp hvalue
  split at hread
  · rename_i hname
    exact .cookie hmem hstr hin hsplit hname (Option.some.inj hread)
  · cases hread

theorem bearerToken_some {token : SessionToken} (h : bearerToken headers = some token) : Presented uri headers token := by
  obtain ⟨text, htext, h⟩ := Option.bind_eq_some_iff.mp h
  obtain ⟨⟨scheme, hex⟩, hsplit, h⟩ := Option.bind_eq_some_iff.mp h
  split at h
  · rename_i hscheme
    exact .bearer htext hsplit hscheme h
  · cases h

theorem TokenAccepted.presented (h : TokenAccepted gate uri headers) : Presented uri headers gate.token := by
  unfold TokenAccepted at h
  split at h
  · rename_i candidate hquery
    obtain ⟨query, hq, hfound⟩ := Option.bind_eq_some_iff.mp hquery
    obtain ⟨pair, hpair, hsplit⟩ := List.exists_of_findSome?_eq_some hfound
    exact .query hq hpair hsplit h
  · rcases h with h | h
    · exact cookieToken_some h
    · exact bearerToken_some h

/-- The comparisons of the gate. -/
theorem any_constantTimeEq {found : Option SessionToken} :
    (found.any fun token => constantTimeEq gate.token token) = true ↔ found = some gate.token := by
  cases found with
  | none => simp
  | some token =>
    rw [Option.any_some, constantTimeEq_iff, Option.some.injEq]
    exact eq_comm

/-! ## The decision -/

theorem decideAuthenticated_cases : gate.decideAuthenticated method headers = .allow ↔
    (isProtocolUpgrade headers = true → ProvenSameSite gate headers) ∧
      (isSafeMethod method = false → ¬SaysForeign gate headers) := by
  rw [← isSameSite_iff, ← mutationAllowed_iff, LoopbackGate.decideAuthenticated]
  by_cases hupgrade : (isProtocolUpgrade headers && !gate.isSameSite headers) = true
  · rw [if_pos hupgrade]
    simp only [Bool.and_eq_true, Bool.not_eq_true'] at hupgrade
    simp [hupgrade]
  · rw [if_neg hupgrade]
    simp only [Bool.and_eq_true, Bool.not_eq_true', not_and, Bool.not_eq_false] at hupgrade
    by_cases hmutation : (!isSafeMethod method && !gate.mutationAllowed headers) = true
    · rw [if_pos hmutation]
      simp only [Bool.and_eq_true, Bool.not_eq_true'] at hmutation
      simp [hmutation]
    · rw [if_neg hmutation]
      simp only [Bool.and_eq_true, Bool.not_eq_true', not_and, Bool.not_eq_false] at hmutation
      exact ⟨fun _ => ⟨hupgrade, hmutation⟩, fun _ => rfl⟩

theorem decideAuthenticated_ne_bootstrap {location token : String} :
    gate.decideAuthenticated method headers ≠ .bootstrap location token := by
  unfold LoopbackGate.decideAuthenticated
  intro h
  split at h
  · cases h
  · split at h <;> cases h

/-- What the gate decides once the host and the token are known. -/
theorem decide_of_accepted (hhost : gate.hostIsLoopback headers = true) (htoken : TokenAccepted gate uri headers) :
    gate.decide method uri headers = match queryToken uri with
      | some candidate => if isSafeMethod method = true then .bootstrap uri.path candidate
        else gate.decideAuthenticated method headers
      | none => gate.decideAuthenticated method headers := by
  unfold LoopbackGate.decide
  rw [if_neg (by simp [hhost])]
  unfold TokenAccepted at htoken
  cases hquery : queryToken uri with
  | some candidate =>
    rw [hquery] at htoken
    have hany : ((parseHex candidate).any fun token => constantTimeEq gate.token token) = true :=
      any_constantTimeEq.mpr htoken
    simp only [hany]
    rfl
  | none =>
    rw [hquery] at htoken
    have hany : ((cookieToken headers).any (fun token => constantTimeEq gate.token token) ||
        (bearerToken headers).any fun token => constantTimeEq gate.token token) = true := by
      rw [Bool.or_eq_true, any_constantTimeEq, any_constantTimeEq]
      exact htoken
    simp only [hany]
    rfl

/-- Without the host or the token a request is rejected. -/
theorem accepted_of_decide (h : ∀ r, gate.decide method uri headers ≠ .reject r) :
    gate.hostIsLoopback headers = true ∧ TokenAccepted gate uri headers := by
  unfold LoopbackGate.decide at h
  split at h
  · exact absurd rfl (h foreignHost)
  rename_i hhost
  refine ⟨by simpa using hhost, ?_⟩
  unfold TokenAccepted
  simp only at h
  split at h
  · split at h
    · exact absurd rfl (h unauthorized)
    · rename_i htoken
      rw [Bool.not_eq_true', Bool.not_eq_false, any_constantTimeEq] at htoken
      exact htoken
  · split at h
    · exact absurd rfl (h unauthorized)
    · rename_i htoken
      rw [Bool.not_eq_true', Bool.not_eq_false, Bool.or_eq_true, any_constantTimeEq, any_constantTimeEq] at htoken
      exact htoken

theorem decide_allow_iff : gate.decide method uri headers = .allow ↔
    gate.hostIsLoopback headers = true ∧ TokenAccepted gate uri headers ∧
      ((queryToken uri).isSome = true → isSafeMethod method = false) ∧
      (isProtocolUpgrade headers = true → ProvenSameSite gate headers) ∧
      (isSafeMethod method = false → ¬SaysForeign gate headers) := by
  constructor
  · intro h
    have hnot : ∀ r, gate.decide method uri headers ≠ .reject r := by
      rw [h]
      exact nofun
    obtain ⟨hhost, htoken⟩ := accepted_of_decide hnot
    refine ⟨hhost, htoken, ?_⟩
    rw [decide_of_accepted hhost htoken] at h
    cases hquery : queryToken uri with
    | none =>
      rw [hquery] at h
      exact ⟨nofun, decideAuthenticated_cases.mp h⟩
    | some candidate =>
      rw [hquery] at h
      simp only at h
      split at h
      · cases h
      · rename_i hsafe
        exact ⟨fun _ => by simpa using hsafe, decideAuthenticated_cases.mp h⟩
  · rintro ⟨hhost, htoken, hmethod, hchecks⟩
    rw [decide_of_accepted hhost htoken]
    cases hquery : queryToken uri with
    | none => exact decideAuthenticated_cases.mpr hchecks
    | some candidate =>
      simp only
      rw [if_neg (by rw [hmethod (by rw [hquery]; rfl)]; simp)]
      exact decideAuthenticated_cases.mpr hchecks

theorem decide_bootstrap_iff {location token : String} : gate.decide method uri headers = .bootstrap location token ↔
    gate.hostIsLoopback headers = true ∧ TokenAccepted gate uri headers ∧ queryToken uri = some token ∧
      isSafeMethod method = true ∧ location = uri.path := by
  constructor
  · intro h
    have hnot : ∀ r, gate.decide method uri headers ≠ .reject r := by
      rw [h]
      exact nofun
    obtain ⟨hhost, htoken⟩ := accepted_of_decide hnot
    refine ⟨hhost, htoken, ?_⟩
    rw [decide_of_accepted hhost htoken] at h
    cases hquery : queryToken uri with
    | none =>
      rw [hquery] at h
      exact absurd h decideAuthenticated_ne_bootstrap
    | some candidate =>
      rw [hquery] at h
      simp only at h
      split at h
      · rename_i hsafe
        cases h
        exact ⟨rfl, hsafe, rfl⟩
      · exact absurd h decideAuthenticated_ne_bootstrap
  · rintro ⟨hhost, htoken, hquery, hsafe, rfl⟩
    rw [decide_of_accepted hhost htoken, hquery]
    exact if_pos hsafe

/-! ## The redirect -/

theorem toList_hostText (name : String) (n : Nat) : (s!"{name}:{n}" : String).toList = name.toList ++ ':' :: Nat.toDigits 10 n := by
  simp [toString]

/-- The names of the bound address are of one origin each. -/
theorem origin_of_host {host : String} (h : host ∈ gate.hosts) :
    ∃ origin, Site.origin ⟨"http".toList, host.toList⟩ = some origin := by
  obtain ⟨name, hname, rfl⟩ := List.mem_map.mp h
  have hdigits : ∀ c ∈ Nat.toDigits 10 gate.port.toNat, c.isDigit = true :=
    fun c hc => Nat.isDigit_of_mem_toDigits (by decide) (by decide) hc
  have hne : Nat.toDigits 10 gate.port.toNat ≠ [] := Nat.toDigits_ne_nil
  rw [toList_hostText]
  simp only [List.mem_cons, List.not_mem_nil, or_false] at hname
  rcases hname with rfl | rfl | rfl
  · exact ⟨_, origin_of_name (by simp) (by decide) hdigits hne⟩
  · exact ⟨_, origin_of_name (by simp) (by decide) hdigits hne⟩
  · exact ⟨_, @origin_of_address _ "::1".toList _ (by simp) hdigits hne⟩

theorem mem_bootstrapResponse {location token target : String}
    (h : ("location", target) ∈ (bootstrapResponse location token).headers) : headerValue location = some target := by
  rcases List.mem_append.mp h with h | h
  · obtain ⟨value, hvalue, heq⟩ := Option.map_eq_some_iff.mp (Option.mem_toList.mp h)
    cases heq
    exact hvalue
  · obtain ⟨value, hvalue, heq⟩ := Option.map_eq_some_iff.mp (Option.mem_toList.mp h)
    have hname : "set-cookie" = "location" := congrArg Prod.fst heq
    exact absurd hname (by decide)

theorem headerValue_some {text value : String} (h : headerValue text = some value) : value = text := by
  unfold headerValue at h
  split at h <;> cases h
  rfl

/-- A redirect leads away when its path starts with two slashes and another authority. -/
theorem redirect_iff (hhost : gate.hostIsLoopback headers = true) (htoken : TokenAccepted gate uri headers)
    (hquery : (queryToken uri).isSome = true) (hsafe : isSafeMethod method = true) {host target : String}
    (htext : headers.text "host" = some host) (htarget : headerValue uri.path = some target) :
    StaysOn ⟨"http".toList, host.toList⟩ target.toList ↔ ¬RedirectsAway gate method uri headers := by
  obtain ⟨host', hmem, htext'⟩ := hostIsLoopback_iff.mp hhost
  obtain rfl : host' = host := Option.some.inj (htext'.symm.trans htext)
  obtain ⟨origin, horigin⟩ := origin_of_host hmem
  obtain rfl := headerValue_some htarget
  have haway : RedirectsAway gate method uri headers ↔ ∃ rest, uri.path.toList = '/' :: '/' :: rest ∧
      Site.origin ⟨"http".toList, rest.takeWhile fun c => !endsAuthority c⟩ ≠ Site.origin ⟨"http".toList, host'.toList⟩ := by
    constructor
    · rintro ⟨_, _, _, _, _, rest, host, hpath, hh, hne⟩
      obtain rfl : host = host' := Option.some.inj (hh.symm.trans htext)
      exact ⟨rest, hpath, hne⟩
    · rintro ⟨rest, hpath, hne⟩
      exact ⟨hhost, htoken, hquery, hsafe, by rw [htarget]; rfl, rest, host', hpath, htext, hne⟩
  rw [haway]
  rcases uri.rooted with hpath | hpath | ⟨rest, hpath⟩
  · rw [hpath]
    refine ⟨?_, fun _ => staysOn_of_parse horigin rfl⟩
    rintro _ ⟨_, heq, _⟩
    cases heq
  · rw [hpath]
    refine ⟨?_, fun _ => staysOn_of_parse horigin rfl⟩
    rintro _ ⟨_, heq, _⟩
    cases heq
  · rw [hpath]
    by_cases hslash : rest.head? = some '/'
    · obtain ⟨rest, rfl⟩ := List.head?_eq_some_iff.mp hslash
      rw [staysOn_slashes_iff horigin]
      constructor
      · rintro hsame ⟨_, heq, hne⟩
        cases heq
        exact hne hsame
      · intro h
        by_contra hne
        exact h ⟨rest, rfl, hne⟩
    · refine ⟨fun _ => ?_, fun _ => staysOn_of_path horigin hslash⟩
      rintro ⟨_, heq, _⟩
      cases heq
      exact hslash rfl

/-! ## Soundness -/

theorem isSafeMethod_false (hget : method ≠ "GET") (hhead : method ≠ "HEAD") : isSafeMethod method = false := by
  simp [isSafeMethod, hget, hhead]

end checks

/-! ## A redirect to another host -/

def sampleGate : LoopbackGate := ⟨⟨List.replicate 32 0xab, rfl⟩, 47318⟩

def sampleHex : String := "abababababababababababababababababababababababababababababababab"

/-- `GET //evil.example/?token=...` -/
def twoSlashes : Uri := ⟨"//evil.example/", some ("token=" ++ sampleHex), .inr (.inr ⟨_, rfl⟩)⟩

def sampleHeaders : HeaderMap := [("host", bytes "127.0.0.1:47318")]

end Firestone.Ui
